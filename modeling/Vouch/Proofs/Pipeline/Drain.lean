import Vouch.Proofs.Store.Current
import Vouch.Proofs.Store.Pins
import Vouch.Proofs.Pipeline.Worker
/-!
# What draining comes to

With nothing else going on, a round takes the head of the queue through the backend in one go, and
what it makes of the store can be written down (`Store.conclude`). So can what draining makes of it:
`Settled` compares the store before and after a stretch of the queue was worked off.

A waiting entry that the backend refuses while somebody has it pinned cannot be dropped. It `Blocks`
the queue: from the time it is the head, a round changes nothing and the next one is the same.

* `Round.run_of_head`: one round.
* `drain_append`: the entries ahead of a blocked one, by induction on the queue.
* `drain_of_attainable`: with none blocked the queue is emptied, in as many rounds as it is long.
-/
namespace Vouch

/-! ## What becomes of an entry -/

namespace Entry

/-- What the backend says of the signature. -/
def verdict (b : Backend) (key : PublicKey) (e : Entry) : Except CryptoError Unit :=
  b.verify e.certificate.signedPart e.certificate.signature key

/-- The secret that is agreed on at the promotion, if a key exchange is due and comes off. -/
def agreed? (b : Backend) (p : VerificationPolicy) (e : Entry) : Option SharedSecret :=
  if e.origin = .requested ∨ p.exchangeUnsolicited then
    (b.agree e.certificate.publicKey).toOption
  else none

/-- The entry once it is promoted. -/
def settled (b : Backend) (p : VerificationPolicy) (e : Entry) : Entry :=
  match e.agreed? b p with
  | some k => e.accept.attach k (.derive k p.self e.subject)
  | none => e.accept

/-- What is left of the entry: the verified one, or nothing. -/
def after? (b : Backend) (p : VerificationPolicy) (key : PublicKey) (e : Entry) : Option Entry :=
  match e.verdict b key with
  | .ok () => some (e.settled b p)
  | .error _ => none

/-- What is reported of it. -/
def outcome (b : Backend) (p : VerificationPolicy) (key : PublicKey) (id : EntryId) (e : Entry) :
    RoundResult :=
  match e.verdict b key with
  | .ok () => .verified id e.subject (e.agreed? b p).isSome
  | .error reason => .rejected e.subject reason

theorem settled_state (b : Backend) (p : VerificationPolicy) (e : Entry) :
    (e.settled b p).state = .verified := by
  unfold settled
  split <;> rfl

theorem settled_pins (b : Backend) (p : VerificationPolicy) (e : Entry) :
    (e.settled b p).pins = e.pins := by
  unfold settled
  split <;> rfl

theorem takePin_pins_ne_zero {e : Entry} (hp : e.pins ≠ Store.maxPins) : e.takePin.pins ≠ 0 := by
  intro h
  apply hp
  have hn := congrArg UInt32.toNat h
  simp only [takePin, UInt32.toNat_add, UInt32.toNat_one, UInt32.toNat_zero] at hn
  have hlt := UInt32.toNat_lt e.pins
  apply UInt32.toNat_inj.1
  show e.pins.toNat = 4294967295
  omega

end Entry

namespace Store

/-- The backend finds the root's signature on the certificate of an entry. -/
def accepts (b : Backend) (s : Store) (id : EntryId) : Bool :=
  match s.get? id with
  | some e => (e.verdict b s.rootKey).isOk
  | none => false

/-- The entry is to be dropped and cannot be. -/
def Blocks (b : Backend) (s : Store) (id : EntryId) : Prop :=
  s.isPinned id = true ∧ s.accepts b id = false

/-- What is reported of a stretch of the queue. -/
def results (b : Backend) (p : VerificationPolicy) (s : Store) (q : List EntryId) :
    List RoundResult :=
  q.filterMap fun id => (s.get? id).map (Entry.outcome b p s.rootKey id)

/-- The store after a round about the entry. -/
def conclude (b : Backend) (p : VerificationPolicy) (s : Store) (id : EntryId) (e : Entry) : Store :=
  match e.verdict b s.rootKey with
  | .ok () =>
    { s.update id (Entry.settled b p) with
      pending := s.pending.filter (· ≠ id)
      verified := s.verified ++ [id] }
  | .error _ => if e.pins = 0 then s.discarded id else s

variable {b : Backend} {s : Store} {id : EntryId} {e : Entry}

theorem accepts_of_get? (hx : s.get? id = some e) :
    s.accepts b id = (e.verdict b s.rootKey).isOk := by
  rw [accepts, hx]

/-- A pin that was taken and given back has left no trace. -/
theorem update_givePin_takePin (s : Store) (id : EntryId) :
    (s.update id Entry.takePin).update id Entry.givePin = s := by
  cases hx : s.get? id with
  | none => rw [update_of_none hx, update_of_none hx]
  | some e =>
    rw [update_update]
    exact update_eq_self hx e.givePin_takePin

theorem update_promoted {f : Entry → Entry} (s : Store) (id : EntryId) :
    (s.promoted id).update id f =
      { s.update id (fun e => f e.accept) with
        pending := s.pending.filter (· ≠ id)
        verified := s.verified ++ [id] } := by
  have hget : (s.promoted id).get? id = (s.update id Entry.accept).get? id := rfl
  rw [show s.update id (fun e => f e.accept) = (s.update id Entry.accept).update id f from
    (update_update f).symm, update, update, hget]
  cases (s.update id Entry.accept).get? id <;> rfl

theorem conclude_of_error {p : VerificationPolicy} {reason : CryptoError} (hx : s.get? id = some e)
    (hv : e.verdict b s.rootKey = .error reason) : s.conclude b p id e = (s.discard id).2 := by
  simp only [conclude, hv]
  by_cases h0 : e.pins = 0
  · rw [if_pos h0, discard_of_zero hx h0]
  · rw [if_neg h0, discard_of_pinned hx h0]

theorem conclude_of_agreed {p : VerificationPolicy} {k : SharedSecret} (hx : s.get? id = some e)
    (hv : e.verdict b s.rootKey = .ok ()) (hk : e.agreed? b p = some k) :
    s.conclude b p id e =
      (s.promoted id).update id (Entry.attach k (.derive k p.self e.subject)) := by
  have hf : e.settled b p = e.accept.attach k (.derive k p.self e.subject) := by
    simp only [Entry.settled, hk]
  simp only [conclude, hv, update_promoted]
  rw [update_congr (g := fun e' => e'.accept.attach k (.derive k p.self e.subject)) hx hf]

theorem conclude_of_not_agreed {p : VerificationPolicy} (hx : s.get? id = some e)
    (hv : e.verdict b s.rootKey = .ok ()) (hk : e.agreed? b p = none) :
    s.conclude b p id e = s.promoted id := by
  have hf : e.settled b p = e.accept := by simp only [Entry.settled, hk]
  simp only [conclude, hv, promoted]
  rw [update_congr hx hf]

end Store

/-! ## Steps up to the next wait -/

/-- The steps that a round takes by itself lead it there, whatever notices they give rise to. -/
def Round.Settles (p : VerificationPolicy) (r : Round) (s : Store) (r' : Round) (s' : Store) :
    Prop :=
  ∃ ns, r.settle p s = (r', s', ns)

namespace Round

variable {b : Backend} {p : VerificationPolicy} {r r₁ r₂ r₃ : Round} {s s₁ s₂ s₃ : Store}

theorem Settles.rest (h : r.step p s = none) : Settles p r s r s := by
  refine ⟨[], ?_⟩
  rw [settle]
  split
  · rename_i heq
    rw [h] at heq
    cases heq
  · rfl

theorem Settles.step {ns : List Notice} (h : r.step p s = some (r₁, s₁, ns))
    (h₁ : Settles p r₁ s₁ r₂ s₂) : Settles p r s r₂ s₂ := by
  obtain ⟨more, h₁⟩ := h₁
  refine ⟨ns ++ more, ?_⟩
  rw [settle]
  split
  · rename_i heq
    rw [h] at heq
    cases heq
    rw [h₁]
  · rename_i heq
    rw [h] at heq
    cases heq

/-- A round waits twice at most. -/
theorem run_of_settles (h₁ : Settles p .ready s r₁ s₁) (h₂ : Settles p (r₁.serve b p).1 s₁ r₂ s₂)
    (h₃ : Settles p (r₂.serve b p).1 s₂ r₃ s₃) :
    ∃ ns, run b p s = (r₃.result?.getD .nothing, s₃, ns) := by
  obtain ⟨n₁, h₁⟩ := h₁
  obtain ⟨n₂, h₂⟩ := h₂
  obtain ⟨n₃, h₃⟩ := h₃
  simp only [run, h₁, h₂, h₃]
  exact ⟨_, rfl⟩

/-- A round that is over after the verdict. -/
theorem run_of_settles_finished {result : RoundResult} (h₁ : Settles p .ready s r₁ s₁)
    (h₂ : Settles p (r₁.serve b p).1 s₁ (.finished result) s₂) :
    ∃ ns, run b p s = (result, s₂, ns) :=
  run_of_settles h₁ h₂ (.rest rfl)

end Round

/-! ## One round -/

namespace Round

variable {b : Backend} {p : VerificationPolicy} {s : Store} {id : EntryId} {e : Entry}

theorem run_of_empty (h : s.head? = none) : ∃ ns, run b p s = (.nothing, s, ns) := by
  have h₁ : Round.ready.step p s = some (.finished .nothing, s, []) := by simp only [step, h]
  exact run_of_settles_finished (.step h₁ (.rest rfl)) (.rest rfl)

/-- The head is pinned and its certificate read. -/
theorem settles_ready (hh : s.head? = some id) (hx : s.get? id = some e)
    (hp : e.pins ≠ Store.maxPins) :
    Settles p .ready s (.checking id e.certificate s.rootKey) (s.update id Entry.takePin) := by
  have hx' : (s.update id Entry.takePin).get? id = some e.takePin := by
    rw [Store.get?_update, if_pos rfl, hx]
    rfl
  have h₁ : Round.ready.step p s = some (.found id, s, []) := by simp only [step, hh]
  have h₂ : (Round.found id).step p s = some (.pinned id, s.update id Entry.takePin, []) := by
    simp only [step, Store.pin_of_lt hx hp]
  have h₃ : (Round.pinned id).step p (s.update id Entry.takePin) =
      some (.checking id e.certificate s.rootKey, s.update id Entry.takePin, []) := by
    simp only [step, hx', Store.rootKey_update]
    rfl
  exact .step h₁ (.step h₂ (.step h₃ (.rest rfl)))

/-- The pin of the round is given back, and the store is as it was before the round. -/
theorem settles_judged {c : Certificate} {v : Except CryptoError Unit} {r' : Round} {s' : Store}
    (hx : s.get? id = some e) (hp : e.pins ≠ Store.maxPins)
    (h : Settles p (.released id c v) s r' s') :
    Settles p (.judged id c v) (s.update id Entry.takePin) r' s' := by
  have hx' : (s.update id Entry.takePin).get? id = some e.takePin := by
    rw [Store.get?_update, if_pos rfl, hx]
    rfl
  have h₁ : (Round.judged id c v).step p (s.update id Entry.takePin) =
      some (.released id c v, s, []) := by
    simp only [step, Store.dropGuard_of_pos hx' (e.takePin_pins_ne_zero hp),
      Store.update_givePin_takePin]
  exact .step h₁ h

theorem settles_reject (c : Certificate) (reason : CryptoError) :
    Settles p (.released id c (.error reason)) s (.finished (.rejected c.subject reason))
      (s.discard id).2 := by
  have h₁ : ∃ ns, (Round.released id c (.error reason)).step p s =
      some (.finished (.rejected c.subject reason), (s.discard id).2, ns) := by
    simp only [step, reject]
    split <;> (rename_i hd; rw [hd]; exact ⟨_, rfl⟩)
  obtain ⟨ns, h₁⟩ := h₁
  exact .step h₁ (.rest rfl)

theorem settles_acceptOnly {c : Certificate} (hx : s.get? id = some e)
    (ho : ¬ (e.origin = .requested ∨ p.exchangeUnsolicited)) :
    Settles p (.released id c (.ok ())) s (.finished (.verified id c.subject false))
      (s.promoted id) := by
  have hx' : (s.promoted id).get? id = some e.accept := by
    rw [Store.get?_promoted, if_pos rfl, hx]
    rfl
  have h₁ : (Round.released id c (.ok ())).step p s =
      some (.finished (.verified id c.subject false), s.promoted id, []) := by
    simp only [step, accept, Store.promote_of_some hx, hx', Option.some.injEq]
    exact if_neg ho
  exact .step h₁ (.rest rfl)

/-- Promoted, pinned again, and read for the exchange. -/
theorem settles_accept {c : Certificate} (hx : s.get? id = some e) (hp : e.pins ≠ Store.maxPins)
    (ho : e.origin = .requested ∨ p.exchangeUnsolicited) :
    Settles p (.released id c (.ok ())) s
      (.exchanging id c.subject (.agreeing id e.subject e.certificate.publicKey))
      ((s.promoted id).update id Entry.takePin) := by
  have hx₁ : (s.promoted id).get? id = some e.accept := by
    rw [Store.get?_promoted, if_pos rfl, hx]
    rfl
  have hx₂ : ((s.promoted id).update id Entry.takePin).get? id = some e.accept.takePin := by
    rw [Store.get?_update, if_pos rfl, hx₁]
    rfl
  have h₁ : (Round.released id c (.ok ())).step p s =
      some (.promoted id c.subject, s.promoted id, []) := by
    simp only [step, accept, Store.promote_of_some hx, hx₁, Option.some.injEq]
    exact if_pos ho
  have h₂ : (Round.promoted id c.subject).step p (s.promoted id) =
      some (.exchanging id c.subject (.pinned id),
        (s.promoted id).update id Entry.takePin, []) := by
    simp only [step, Store.pin_of_lt hx₁ hp]
  have h₃ : (Round.exchanging id c.subject (.pinned id)).step p
      ((s.promoted id).update id Entry.takePin) =
      some (.exchanging id c.subject (.agreeing id e.subject e.certificate.publicKey),
        (s.promoted id).update id Entry.takePin, []) := by
    simp only [step, Exchange.step, hx₂]
    rfl
  exact .step h₁ (.step h₂ (.step h₃ (.rest rfl)))

/-- The secret is attached and the second pin given back. -/
theorem settles_derived (subject : Eui64) (k : SharedSecret) (x : SecurityContext)
    (hx : s.get? id = some e) (hp : e.pins ≠ Store.maxPins) :
    Settles p (.exchanging id subject (.derived id k x)) (s.update id Entry.takePin)
      (.finished (.verified id subject true)) (s.update id (Entry.attach k x)) := by
  have hx₁ : (s.update id Entry.takePin).get? id = some e.takePin := by
    rw [Store.get?_update, if_pos rfl, hx]
    rfl
  have hx₂ : ((s.update id Entry.takePin).update id (Entry.attach k x)).get? id =
      some (e.takePin.attach k x) := by
    rw [Store.get?_update, if_pos rfl, hx₁]
    rfl
  have hs : ((s.update id Entry.takePin).update id (Entry.attach k x)).update id Entry.givePin =
      s.update id (Entry.attach k x) := by
    rw [Store.update_update, Store.update_update]
    refine Store.update_congr hx ?_
    simp [Entry.attach, Entry.takePin, Entry.givePin]
  have h₁ : (Round.exchanging id subject (.derived id k x)).step p (s.update id Entry.takePin) =
      some (.exchanging id subject (.settled id (.ok ())),
        (s.update id Entry.takePin).update id (Entry.attach k x), []) := by
    simp only [step, Exchange.step, Store.setContext_of_some hx₁]
    rfl
  have h₂ : (Round.exchanging id subject (.settled id (.ok ()))).step p
      ((s.update id Entry.takePin).update id (Entry.attach k x)) =
      some (.finished (.verified id subject true), s.update id (Entry.attach k x), []) := by
    simp only [step, Exchange.step,
      Store.dropGuard_of_pos hx₂ (show (e.takePin.attach k x).pins ≠ 0 from
        e.takePin_pins_ne_zero hp), hs]
    rfl
  exact .step h₁ (.step h₂ (.rest rfl))

theorem settles_failed (subject : Eui64) (reason : CryptoError) (hx : s.get? id = some e)
    (hp : e.pins ≠ Store.maxPins) :
    Settles p (.exchanging id subject (.settled id (.error (.crypto reason))))
      (s.update id Entry.takePin) (.finished (.verified id subject false)) s := by
  have hx₁ : (s.update id Entry.takePin).get? id = some e.takePin := by
    rw [Store.get?_update, if_pos rfl, hx]
    rfl
  have h₁ : (Round.exchanging id subject (.settled id (.error (.crypto reason)))).step p
      (s.update id Entry.takePin) = some (.finished (.verified id subject false), s, []) := by
    simp only [step, Exchange.step, Store.dropGuard_of_pos hx₁ (e.takePin_pins_ne_zero hp),
      Store.update_givePin_takePin]
    rfl
  exact .step h₁ (.rest rfl)

theorem serve_checking {key : PublicKey} :
    ((Round.checking id e.certificate key).serve b p).1 =
      .judged id e.certificate (e.verdict b key) := rfl

theorem run_of_error {reason : CryptoError} (hh : s.head? = some id) (hx : s.get? id = some e)
    (hp : e.pins ≠ Store.maxPins) (hv : e.verdict b s.rootKey = .error reason) :
    ∃ ns, run b p s = (.rejected e.subject reason, (s.discard id).2, ns) := by
  refine run_of_settles_finished (settles_ready hh hx hp) ?_
  rw [serve_checking, hv]
  exact settles_judged hx hp (settles_reject e.certificate reason)

theorem run_of_not_due (hh : s.head? = some id) (hx : s.get? id = some e)
    (hp : e.pins ≠ Store.maxPins) (hv : e.verdict b s.rootKey = .ok ())
    (ho : ¬ (e.origin = .requested ∨ p.exchangeUnsolicited)) :
    ∃ ns, run b p s = (.verified id e.subject false, s.promoted id, ns) := by
  refine run_of_settles_finished (settles_ready hh hx hp) ?_
  rw [serve_checking, hv]
  exact settles_judged hx hp (settles_acceptOnly hx ho)

/-- A round that waits once more, for a secret. -/
theorem run_of_due (hh : s.head? = some id) (hx : s.get? id = some e)
    (hp : e.pins ≠ Store.maxPins) (hv : e.verdict b s.rootKey = .ok ())
    (ho : e.origin = .requested ∨ p.exchangeUnsolicited) :
    ∃ ns, run b p s = match b.agree e.certificate.publicKey with
      | .ok k => (.verified id e.subject true,
          (s.promoted id).update id (Entry.attach k (.derive k p.self e.subject)), ns)
      | .error _ => (.verified id e.subject false, s.promoted id, ns) := by
  have hx' : (s.promoted id).get? id = some e.accept := by
    rw [Store.get?_promoted, if_pos rfl, hx]
    rfl
  have hread := settles_ready (p := p) hh hx hp
  have hpromoted := settles_judged hx hp (settles_accept (c := e.certificate) hx hp ho)
  rw [← hv, ← serve_checking (p := p)] at hpromoted
  have hserve : ((Round.exchanging id e.certificate.subject
      (.agreeing id e.subject e.certificate.publicKey)).serve b p).1 =
      .exchanging id e.certificate.subject (Exchange.answer p.self (b.agree e.certificate.publicKey)
        (.agreeing id e.subject e.certificate.publicKey)) := rfl
  cases hk : b.agree e.certificate.publicKey with
  | ok k =>
    have hend := settles_derived (p := p) e.certificate.subject k (.derive k p.self e.subject) hx' hp
    rw [hk, Exchange.answer] at hserve
    rw [← hserve] at hend
    exact run_of_settles hread hpromoted hend
  | error reason =>
    have hend := settles_failed (p := p) e.certificate.subject reason hx' hp
    rw [hk, Exchange.answer] at hserve
    rw [← hserve] at hend
    exact run_of_settles hread hpromoted hend

/-- **One round** with nothing in between. -/
theorem run_of_head (hh : s.head? = some id) (hx : s.get? id = some e)
    (hp : e.pins ≠ Store.maxPins) :
    ∃ ns, run b p s = (e.outcome b p s.rootKey id, s.conclude b p id e, ns) := by
  cases hv : e.verdict b s.rootKey with
  | error reason =>
    obtain ⟨ns, hrun⟩ := run_of_error (p := p) hh hx hp hv
    exact ⟨ns, by rw [hrun, Store.conclude_of_error hx hv, Entry.outcome, hv]⟩
  | ok =>
    by_cases ho : e.origin = .requested ∨ p.exchangeUnsolicited
    · obtain ⟨ns, hrun⟩ := run_of_due hh hx hp hv ho
      cases hk : b.agree e.certificate.publicKey with
      | ok k =>
        have hagreed : e.agreed? b p = some k := by rw [Entry.agreed?, if_pos ho, hk]; rfl
        rw [hk] at hrun
        refine ⟨ns, hrun.trans ?_⟩
        rw [Store.conclude_of_agreed hx hv hagreed, Entry.outcome, hv, hagreed]
        rfl
      | error reason =>
        have hagreed : e.agreed? b p = none := by rw [Entry.agreed?, if_pos ho, hk]; rfl
        rw [hk] at hrun
        refine ⟨ns, hrun.trans ?_⟩
        rw [Store.conclude_of_not_agreed hx hv hagreed, Entry.outcome, hv, hagreed]
        rfl
    · have hagreed : e.agreed? b p = none := if_neg ho
      obtain ⟨ns, hrun⟩ := run_of_not_due hh hx hp hv ho
      refine ⟨ns, hrun.trans ?_⟩
      rw [Store.conclude_of_not_agreed hx hv hagreed, Entry.outcome, hv, hagreed]
      rfl

end Round

/-! ## A stretch of the queue -/

/-- What has changed once the entries at the front of the queue are worked off: they have left it, the
accepted ones are verified in their order and stand as promotion and key exchange have left them, the
slots of the others are empty and free again. All else is as it was, and so is every number of pins. -/
structure Settled (b : Backend) (p : VerificationPolicy) (s : Store) (q : List EntryId)
    (s' : Store) : Prop where
  pending : s.pending = q ++ s'.pending
  verified : s'.verified = s.verified ++ q.filter (s.accepts b)
  free : s'.free = ((q.filter fun id => !s.accepts b id).map EntryId.index).reverse ++ s.free
  get? : ∀ id, s'.get? id =
    if id ∈ q then (s.get? id).bind (Entry.after? b p s.rootKey) else s.get? id
  vacant : ∀ i, s'.Vacant i ↔ s.Vacant i ∨ ∃ id ∈ q, s.accepts b id = false ∧ id.index = i
  pinsOn : ∀ id, s'.pinsOn id = s.pinsOn id
  rootKey : s'.rootKey = s.rootKey
  rootAddress : s'.rootAddress = s.rootAddress
  capacity : s'.capacity = s.capacity

namespace Settled

variable {b : Backend} {p : VerificationPolicy} {s s₁ s₂ : Store} {q q' rest : List EntryId}
  {id : EntryId} {e : Entry}

theorem nil : Settled b p s [] s where
  pending := rfl
  verified := (List.append_nil _).symm
  free := rfl
  get? _ := rfl
  vacant i := by simp
  pinsOn _ := rfl
  rootKey := rfl
  rootAddress := rfl
  capacity := rfl

/-- What was not in the stretch is accepted, refused and pinned as before. -/
theorem get?_of_notMem (h : Settled b p s q s₁) (hid : id ∉ q) : s₁.get? id = s.get? id := by
  rw [h.get?, if_neg hid]

theorem accepts_of_notMem (h : Settled b p s q s₁) (hid : id ∉ q) :
    s₁.accepts b id = s.accepts b id := by
  rw [Store.accepts, Store.accepts, h.get?_of_notMem hid, h.rootKey]

theorem blocks_of_notMem (h : Settled b p s q s₁) (hid : id ∉ q) :
    s₁.Blocks b id ↔ s.Blocks b id := by
  rw [Store.Blocks, Store.Blocks, h.accepts_of_notMem hid, Store.isPinned, Store.isPinned,
    h.get?_of_notMem hid]

/-- The stretch and what is left of the queue have nothing in common. -/
theorem notMem (h : Settled b p s q s₁) (hs : s.Current) : ∀ id ∈ s₁.pending, id ∉ q := by
  have hn := hs.nodup
  rw [h.pending] at hn
  exact fun id hid hq => (List.nodup_append.1 hn).2.2 id hq id hid rfl

theorem current (h : Settled b p s q s₁) (hs : s.Current) : s₁.Current := by
  refine ⟨?_, fun id hid => ?_, fun id hid e hx => ?_⟩
  · have hn := hs.nodup
    rw [h.pending] at hn
    exact (List.nodup_append.1 hn).2.1
  · rw [h.get?_of_notMem (h.notMem hs id hid)]
    exact hs.pending id (h.pending ▸ List.mem_append_right q hid)
  · rw [h.get?] at hx
    split at hx
    · obtain ⟨e₀, -, hx⟩ := Option.bind_eq_some_iff.1 hx
      unfold Entry.after? at hx
      split at hx
      · cases hx
        exact e₀.settled_state b p
      · cases hx
    · rename_i hq
      rw [h.verified] at hid
      rcases List.mem_append.1 hid with hid | hid
      · exact hs.verified id hid e hx
      · exact absurd (List.mem_filter.1 hid).1 hq

/-- One stretch after another. -/
theorem append (h : Settled b p s q s₁) (hs : s.Current) (h' : Settled b p s₁ q' s₂) :
    Settled b p s (q ++ q') s₂ := by
  have hdisj : ∀ id ∈ q', id ∉ q := fun id hid =>
    h.notMem hs id (h'.pending ▸ List.mem_append_left s₂.pending hid)
  have haccept : ∀ id ∈ q', s₁.accepts b id = s.accepts b id := fun id hid =>
    h.accepts_of_notMem (hdisj id hid)
  have hfilter : q'.filter (s₁.accepts b) = q'.filter (s.accepts b) :=
    List.filter_congr haccept
  have hrefused : (q'.filter fun id => !s₁.accepts b id) = q'.filter fun id => !s.accepts b id :=
    List.filter_congr fun id hid => by rw [haccept id hid]
  refine ⟨?_, ?_, ?_, fun id => ?_, fun i => ?_, fun id => (h'.pinsOn id).trans (h.pinsOn id),
    h'.rootKey.trans h.rootKey, h'.rootAddress.trans h.rootAddress, h'.capacity.trans h.capacity⟩
  · rw [h.pending, h'.pending, List.append_assoc]
  · rw [h'.verified, h.verified, hfilter, List.filter_append, List.append_assoc]
  · rw [h'.free, h.free, hrefused, List.filter_append, List.map_append, List.reverse_append,
      List.append_assoc]
  · rw [h'.get?, h.rootKey]
    by_cases hid' : id ∈ q'
    · rw [if_pos hid', if_pos (List.mem_append_right q hid'), h.get?_of_notMem (hdisj id hid')]
    · rw [if_neg hid', h.get?]
      simp only [List.mem_append, hid', or_false]
  · rw [h'.vacant, h.vacant]
    constructor
    · rintro ((hv | ⟨id, hid, hr, hi⟩) | ⟨id, hid, hr, hi⟩)
      · exact .inl hv
      · exact .inr ⟨id, List.mem_append_left q' hid, hr, hi⟩
      · exact .inr ⟨id, List.mem_append_right q hid, haccept id hid ▸ hr, hi⟩
    · rintro (hv | ⟨id, hid, hr, hi⟩)
      · exact .inl (.inl hv)
      · rcases List.mem_append.1 hid with hid | hid
        · exact .inl (.inr ⟨id, hid, hr, hi⟩)
        · exact .inr ⟨id, hid, (haccept id hid).trans hr, hi⟩

theorem results_append (h : Settled b p s q s₁) (hs : s.Current)
    (hq' : ∀ id ∈ q', id ∈ s₁.pending) :
    s.results b p (q ++ q') = s.results b p q ++ s₁.results b p q' := by
  have hsame : s₁.results b p q' = s.results b p q' := by
    refine List.filterMap_congr fun id hid => ?_
    rw [h.get?_of_notMem (h.notMem hs id (hq' id hid)), h.rootKey]
  rw [hsame, Store.results, Store.results, Store.results, List.filterMap_append]

theorem filter_head (hs : s.Current) (hq : s.pending = id :: rest) :
    s.pending = [id] ++ s.pending.filter (· ≠ id) := by
  have hn := hs.nodup
  rw [hq, List.nodup_cons] at hn
  rw [hq, List.filter_cons, if_neg (by simp), List.filter_eq_self.2]
  · rfl
  · exact fun j hj => decide_eq_true fun hc => hn.1 (hc ▸ hj)

theorem of_accepted (hs : s.Current) (hq : s.pending = id :: rest) (hx : s.get? id = some e)
    (hv : e.verdict b s.rootKey = .ok ()) : Settled b p s [id] (s.conclude b p id e) := by
  have haccept : s.accepts b id = true := by rw [Store.accepts_of_get? hx, hv]; rfl
  have hafter : (s.get? id).bind (Entry.after? b p s.rootKey) = some (e.settled b p) := by
    rw [hx, Option.bind_some, Entry.after?, hv]
  have hs' : s.conclude b p id e = { s.update id (Entry.settled b p) with
      pending := s.pending.filter (· ≠ id), verified := s.verified ++ [id] } := by
    rw [Store.conclude, hv]
  rw [hs']
  refine ⟨filter_head hs hq, ?_, ?_, fun j => ?_, fun i => ?_, fun j => ?_,
    Store.rootKey_update, Store.rootAddress_update, Store.capacity_update⟩
  · rw [List.filter_cons, if_pos haccept, List.filter_nil]
  · rw [List.filter_cons, haccept]
    exact Store.free_update
  · have hget : (s.update id (Entry.settled b p)).get? j = _ := Store.get?_update j
    refine hget.trans ?_
    by_cases hj : j = id
    · subst hj
      rw [if_pos rfl, if_pos List.mem_cons_self, hafter, hx]
      rfl
    · rw [if_neg hj, if_neg (fun hc => hj (List.mem_singleton.1 hc))]
  · have hvacant : (s.update id (Entry.settled b p)).Vacant i ↔ s.Vacant i := Store.vacant_update i
    refine hvacant.trans ?_
    simp [haccept]
  · exact Store.pinsOn_update (fun e => e.settled_pins b p) j

/-- A refused entry at the head goes, unless it blocks. -/
theorem of_refused {reason : CryptoError} (hs : s.Current) (hq : s.pending = id :: rest)
    (hx : s.get? id = some e) (hv : e.verdict b s.rootKey = .error reason)
    (hfree : ¬ s.Blocks b id) : Settled b p s [id] (s.conclude b p id e) := by
  have hrefuse : s.accepts b id = false := by rw [Store.accepts_of_get? hx, hv]; rfl
  have hafter : (s.get? id).bind (Entry.after? b p s.rootKey) = none := by
    rw [hx, Option.bind_some, Entry.after?, hv]
  have h0 : e.pins = 0 := by
    by_contra h0
    exact hfree ⟨Store.isPinned_iff.2 ⟨e, hx, h0⟩, hrefuse⟩
  have hs' : s.conclude b p id e = s.discarded id := by
    rw [Store.conclude_of_error hx hv, Store.discard_of_zero hx h0]
  rw [hs']
  refine ⟨filter_head hs hq, ?_, ?_, fun j => ?_, fun i => ?_, fun j => ?_, rfl, rfl, ?_⟩
  · rw [List.filter_cons, hrefuse]
    exact (List.append_nil _).symm
  · rw [List.filter_cons, hrefuse]
    rfl
  · rw [Store.get?_discarded hx]
    by_cases hj : j = id
    · subst hj
      rw [if_pos rfl, if_pos List.mem_cons_self, hafter]
    · rw [if_neg hj, if_neg (fun hc => hj (List.mem_singleton.1 hc))]
  · have hvacant : (s.discarded id).Vacant i ↔ i = id.index ∨ s.Vacant i :=
      Store.vacant_of_vacate rfl hx i
    rw [hvacant]
    constructor
    · rintro (rfl | hv)
      · exact .inr ⟨id, List.mem_cons_self, hrefuse, rfl⟩
      · exact .inl hv
    · rintro (hv | ⟨j, hj, -, rfl⟩)
      · exact .inr hv
      · exact .inl (by rw [List.mem_singleton.1 hj])
  · exact Store.pinsOn_of_vacate rfl hx h0 j
  · simp [Store.capacity, Store.discarded, Store.vacate]

/-- **One round** works off a head that does not block. -/
theorem head (hs : s.Current) (hq : s.pending = id :: rest) (hx : s.get? id = some e)
    (hfree : ¬ s.Blocks b id) : Settled b p s [id] (s.conclude b p id e) := by
  cases hv : e.verdict b s.rootKey with
  | ok => exact of_accepted hs hq hx hv
  | error reason => exact of_refused hs hq hx hv hfree

end Settled

/-! ## The whole queue -/

section drain

variable {b : Backend} {p : VerificationPolicy} {s s' : Store} {q rest : List EntryId} {id : EntryId}
  {e : Entry}

/-- The pins on the waiting entries leave room for one more. -/
def Store.Roomy (s : Store) : Prop := ∀ id ∈ s.pending, ∀ e, s.get? id = some e → e.pins ≠ maxPins

theorem Settled.roomy (h : Settled b p s q s') (hs : s.Current) (hr : s.Roomy) : s'.Roomy := by
  intro id hid e hx
  rw [h.get?_of_notMem (h.notMem hs id hid)] at hx
  exact hr id (h.pending ▸ List.mem_append_right q hid) e hx

/-- Draining goes on after a round that found something. -/
theorem drain_succ {r : RoundResult} {ns : List Notice} (h : Round.run b p s = (r, s', ns))
    (hr : r ≠ .nothing ∧ ∀ m, r ≠ .stopped m) (n : Nat) :
    ∃ more, drain b p (n + 1) s =
      (r :: (drain b p n s').1, (drain b p n s').2.1, (drain b p n s').2.2.1, more) := by
  cases r with
  | nothing => exact absurd rfl hr.1
  | stopped m => exact absurd rfl (hr.2 m)
  | verified | rejected =>
    simp only [drain, h]
    exact ⟨_, rfl⟩

theorem outcome_ne (b : Backend) (p : VerificationPolicy) (key : PublicKey) (id : EntryId)
    (e : Entry) : e.outcome b p key id ≠ .nothing ∧ ∀ m, e.outcome b p key id ≠ .stopped m := by
  unfold Entry.outcome
  split <;> exact ⟨by simp, by simp⟩

/-- **A stretch that nothing blocks** is worked off, one round for each of its entries. -/
theorem drain_append (hs : s.Current) (hr : s.Roomy) (hq : s.pending = q ++ rest)
    (hfree : ∀ id ∈ q, ¬ s.Blocks b id) :
    ∃ s', Settled b p s q s' ∧ ∀ n, ∃ ns, drain b p (q.length + n) s =
      (s.results b p q ++ (drain b p n s').1, (drain b p n s').2.1, (drain b p n s').2.2.1, ns) := by
  induction q generalizing s with
  | nil => exact ⟨s, .nil, fun n => ⟨(drain b p n s).2.2.2, by simp [Store.results]⟩⟩
  | cons id q ih =>
    obtain ⟨e, hx, -⟩ := hs.pending id (hq ▸ List.mem_cons_self)
    have hhead : s.head? = some id := by rw [Store.head?, hq]; rfl
    have hp : e.pins ≠ Store.maxPins := hr id (hq ▸ List.mem_cons_self) e hx
    have hone : Settled b p s [id] (s.conclude b p id e) :=
      .head hs hq hx (hfree id List.mem_cons_self)
    have hs₁ := hone.current hs
    have hq₁ : (s.conclude b p id e).pending = q ++ rest := by
      have hpend := hone.pending
      rw [hq] at hpend
      exact (List.cons.inj hpend).2.symm
    have hmem : ∀ j ∈ q, j ∈ (s.conclude b p id e).pending := fun j hj =>
      hq₁ ▸ List.mem_append_left rest hj
    obtain ⟨s', hrest, hdrain⟩ := ih hs₁ (hone.roomy hs hr) hq₁ fun j hj => by
      rw [hone.blocks_of_notMem (hone.notMem hs j (hmem j hj))]
      exact hfree j (List.mem_cons_of_mem id hj)
    refine ⟨s', hone.append hs hrest, fun n => ?_⟩
    obtain ⟨ns, hrun⟩ := Round.run_of_head (b := b) (p := p) hhead hx hp
    obtain ⟨more, hstep⟩ := drain_succ hrun (outcome_ne b p s.rootKey id e) (q.length + n)
    obtain ⟨ns', htail⟩ := hdrain n
    refine ⟨more, ?_⟩
    have hresults : s.results b p (id :: q) =
        e.outcome b p s.rootKey id :: (s.conclude b p id e).results b p q := by
      have happ := hone.results_append hs hmem
      rw [show id :: q = [id] ++ q from rfl, happ]
      simp [Store.results, hx]
    rw [show (id :: q).length + n = q.length + n + 1 by rw [List.length_cons]; omega, hstep,
      htail, hresults]
    rfl

/-- An empty queue ends the draining. -/
theorem drain_of_empty (h : s.pending = []) (n : Nat) :
    ∃ ns, drain b p (n + 1) s = ([], true, s, ns) := by
  obtain ⟨ns, hrun⟩ := Round.run_of_empty (b := b) (p := p) (s := s) (by rw [Store.head?, h]; rfl)
  exact ⟨ns, by simp only [drain, hrun]⟩

/-- A round on a blocked head changes nothing. -/
theorem run_of_blocks (hh : s.head? = some id) (hx : s.get? id = some e)
    (hp : e.pins ≠ Store.maxPins) (hb : s.Blocks b id) :
    ∃ reason ns, e.verdict b s.rootKey = .error reason ∧
      Round.run b p s = (.rejected e.subject reason, s, ns) := by
  obtain ⟨hpin, hrefuse⟩ := hb
  obtain ⟨e', hx', h0⟩ := Store.isPinned_iff.1 hpin
  rw [hx, Option.some.injEq] at hx'
  subst hx'
  rw [Store.accepts_of_get? hx] at hrefuse
  cases hv : e.verdict b s.rootKey with
  | ok => rw [hv] at hrefuse; cases hrefuse
  | error reason =>
    obtain ⟨ns, hrun⟩ := Round.run_of_error (p := p) hh hx hp hv
    rw [Store.discard_of_pinned hx h0] at hrun
    exact ⟨reason, ns, rfl, hrun⟩

/-- The same round over and over. -/
theorem drain_of_stuck {subject : Eui64} {reason : CryptoError} {ns : List Notice}
    (h : Round.run b p s = (.rejected subject reason, s, ns)) (n : Nat) :
    ∃ more, drain b p n s = (List.replicate n (.rejected subject reason), false, s, more) := by
  induction n with
  | zero => exact ⟨[], rfl⟩
  | succ n ih =>
    obtain ⟨more, ih⟩ := ih
    obtain ⟨more', hstep⟩ := drain_succ h ⟨by simp, by simp⟩ n
    exact ⟨more', by rw [hstep, ih]; rfl⟩

theorem length_results (hs : s.Current) (hq : ∀ id ∈ q, id ∈ s.pending) :
    (s.results b p q).length = q.length := by
  induction q with
  | nil => rfl
  | cons id q ih =>
    obtain ⟨e, hx, -⟩ := hs.pending id (hq id List.mem_cons_self)
    have hone : s.results b p (id :: q) = e.outcome b p s.rootKey id :: s.results b p q := by
      simp [Store.results, hx]
    rw [hone, List.length_cons, List.length_cons, ih fun j hj => hq j (List.mem_cons_of_mem id hj)]

/-- **Draining is exact.** If nobody has pinned a waiting entry that the backend refuses, draining
comes to an end: with one result for each waiting entry, in the order of the queue, and the queue
empty. What it has done to the store is `Settled`. If somebody has, then the entries ahead of the first
such one are worked off the same way, and from there on every round comes to the same rejection and
leaves the store as it is, so that no number of rounds is enough. -/
theorem drain_of_attainable (h : s.Attainable) (hr : s.Roomy) :
    ((∀ id ∈ s.pending, ¬ s.Blocks b id) →
      (s.results b p s.pending).length = s.pending.length ∧
      ∃ s', Settled b p s s.pending s' ∧ s'.pending = [] ∧
        ∀ limit, s.pending.length < limit →
          ∃ ns, drain b p limit s = (s.results b p s.pending, true, s', ns)) ∧
    (∀ q id rest, s.pending = q ++ id :: rest → (∀ j ∈ q, ¬ s.Blocks b j) → s.Blocks b id →
      ∃ s' e reason, Settled b p s q s' ∧ s'.head? = some id ∧ s.get? id = some e ∧
        e.verdict b s.rootKey = .error reason ∧
        (∃ ns, Round.run b p s' = (.rejected e.subject reason, s', ns)) ∧
        ∀ n, ∃ ns, drain b p (q.length + n) s =
          (s.results b p q ++ List.replicate n (.rejected e.subject reason), false, s', ns)) := by
  have hs := Store.Current.of_attainable h
  refine ⟨fun hfree => ⟨length_results hs fun _ hid => hid, ?_⟩, fun q id rest hq hfree hblock => ?_⟩
  · obtain ⟨s', hset, hdrain⟩ := drain_append (p := p) hs hr (List.append_nil _).symm hfree
    have hnil : s'.pending = [] := by simpa using hset.pending
    refine ⟨s', hset, hnil, fun limit hlt => ?_⟩
    obtain ⟨n, rfl⟩ : ∃ n, limit = s.pending.length + (n + 1) :=
      ⟨limit - s.pending.length - 1, by omega⟩
    obtain ⟨ns, hrun⟩ := hdrain (n + 1)
    obtain ⟨ns', hend⟩ := drain_of_empty (b := b) (p := p) hnil n
    exact ⟨ns, by rw [hrun, hend, List.append_nil]⟩
  · obtain ⟨s', hset, hdrain⟩ := drain_append (p := p) hs hr hq hfree
    have hq' : s'.pending = id :: rest := by
      have hpend := hset.pending
      rw [hq] at hpend
      exact (List.append_cancel_left hpend).symm
    have hmem : id ∈ s'.pending := hq' ▸ List.mem_cons_self
    have hhead : s'.head? = some id := by rw [Store.head?, hq']; rfl
    have hid := hset.notMem hs id hmem
    obtain ⟨e, hx, -⟩ := (hset.current hs).pending id hmem
    obtain ⟨reason, ns, hv, hrun⟩ := run_of_blocks (p := p) hhead hx (hset.roomy hs hr id hmem e hx)
      ((hset.blocks_of_notMem hid).2 hblock)
    refine ⟨s', e, reason, hset, hhead, (hset.get?_of_notMem hid).symm.trans hx, hset.rootKey ▸ hv,
      ⟨ns, hrun⟩, fun n => ?_⟩
    obtain ⟨ns', hfirst⟩ := hdrain n
    obtain ⟨more, hloop⟩ := drain_of_stuck hrun n
    exact ⟨ns', by rw [hfirst, hloop]⟩

end drain

/-- Room for another pin, where the pins can be looked up. -/
theorem Store.roomy_of_pinsOn {s : Store} (h : ∀ id ∈ s.pending, s.pinsOn id ≠ maxPins.toNat) :
    s.Roomy := by
  intro id hid e hx hmax
  apply h id hid
  rw [pinsOn_of_some hx, hmax]

/-- A genuine certificate that was asked for, a forged one, and a forged one that is pinned. -/
def arrivals : List Store.Op :=
  [.add (.uniform 1) .requested, .add (.uniform 2) .unsolicited, .add (.uniform 3) .unsolicited,
    .pin ⟨2, 0⟩]

theorem drain_of_arrivals : ∃ s s₁,
    Store.tended.run (.empty 3 ⟨Vector.replicate 16 0⟩ ⟨Vector.replicate 64 0⟩) arrivals = some s ∧
    Store.tended.run (.empty 3 ⟨Vector.replicate 16 0⟩ ⟨Vector.replicate 64 0⟩)
      (arrivals ++ [.unpin ⟨2, 0⟩]) = some s₁ ∧
    (∀ n, ∃ s' ns, drain .ones ⟨⟨Vector.replicate 8 0⟩, false⟩ (2 + n) s =
      ([.verified ⟨0, 0⟩ (Certificate.uniform 1).subject true,
        .rejected (Certificate.uniform 2).subject .verificationFailed] ++
        List.replicate n (.rejected (Certificate.uniform 3).subject .verificationFailed),
        false, s', ns)) ∧
    ∃ s' ns, s'.pending = [] ∧ drain .ones ⟨⟨Vector.replicate 8 0⟩, false⟩ 4 s₁ =
      ([.verified ⟨0, 0⟩ (Certificate.uniform 1).subject true,
        .rejected (Certificate.uniform 2).subject .verificationFailed,
        .rejected (Certificate.uniform 3).subject .verificationFailed], true, s', ns) := by
  have hrun : ∃ s,
      Store.tended.run (.empty 3 ⟨Vector.replicate 16 0⟩ ⟨Vector.replicate 64 0⟩) arrivals =
        some s ∧
      s.pending = [⟨0, 0⟩, ⟨1, 0⟩] ++ ⟨2, 0⟩ :: [] ∧
      (∀ id ∈ s.pending, s.pinsOn id ≠ Store.maxPins.toNat) ∧
      (s.isPinned ⟨0, 0⟩ = false ∧ s.isPinned ⟨1, 0⟩ = false ∧ s.isPinned ⟨2, 0⟩ = true) ∧
      s.accepts .ones ⟨2, 0⟩ = false ∧
      (s.get? ⟨2, 0⟩).map (Entry.outcome .ones ⟨⟨Vector.replicate 8 0⟩, false⟩ s.rootKey ⟨2, 0⟩) =
        some (.rejected (Certificate.uniform 3).subject .verificationFailed) ∧
      s.results .ones ⟨⟨Vector.replicate 8 0⟩, false⟩ [⟨0, 0⟩, ⟨1, 0⟩] =
        [.verified ⟨0, 0⟩ (Certificate.uniform 1).subject true,
          .rejected (Certificate.uniform 2).subject .verificationFailed] := ⟨_, rfl, by decide⟩
  have hrun₁ : ∃ s,
      Store.tended.run (.empty 3 ⟨Vector.replicate 16 0⟩ ⟨Vector.replicate 64 0⟩)
        (arrivals ++ [.unpin ⟨2, 0⟩]) = some s ∧
      s.pending.length = 3 ∧
      (∀ id ∈ s.pending, s.pinsOn id ≠ Store.maxPins.toNat) ∧
      (∀ id ∈ s.pending, s.isPinned id = false) ∧
      s.results .ones ⟨⟨Vector.replicate 8 0⟩, false⟩ s.pending =
        [.verified ⟨0, 0⟩ (Certificate.uniform 1).subject true,
          .rejected (Certificate.uniform 2).subject .verificationFailed,
          .rejected (Certificate.uniform 3).subject .verificationFailed] := ⟨_, rfl, by decide⟩
  obtain ⟨s, hs, hq, hroom, ⟨h0, h1, h2⟩, hrefuse, hout, hres⟩ := hrun
  obtain ⟨s₁, hs₁, hlen, hroom₁, hpins, hres₁⟩ := hrun₁
  have hattain : s.Attainable := .inl ⟨_, arrivals, ⟨3, _, _, rfl⟩, hs⟩
  have hattain₁ : s₁.Attainable := .inl ⟨_, _, ⟨3, _, _, rfl⟩, hs₁⟩
  refine ⟨s, s₁, hs, hs₁, fun n => ?_, ?_⟩
  · obtain ⟨s', e, reason, -, -, hx, hv, -, hdrain⟩ :=
      (drain_of_attainable (b := .ones) (p := ⟨⟨Vector.replicate 8 0⟩, false⟩) hattain
        (Store.roomy_of_pinsOn hroom)).2 _ ⟨2, 0⟩ [] hq (by simp [Store.Blocks, h0, h1])
        ⟨h2, hrefuse⟩
    obtain ⟨ns, hdrain⟩ := hdrain n
    rw [hx, Option.map_some, Entry.outcome, hv, Option.some.injEq] at hout
    obtain ⟨hsub, rfl⟩ := RoundResult.rejected.inj hout
    rw [hsub, hres] at hdrain
    exact ⟨s', ns, hdrain⟩
  · obtain ⟨-, s', -, hnil, hdrain⟩ :=
      (drain_of_attainable (b := .ones) (p := ⟨⟨Vector.replicate 8 0⟩, false⟩) hattain₁
        (Store.roomy_of_pinsOn hroom₁)).1 (fun id hid hb => by simp [hpins id hid, Store.Blocks] at hb)
    obtain ⟨ns, hdrain⟩ := hdrain 4 (by omega)
    rw [hres₁] at hdrain
    exact ⟨s', ns, hnil, hdrain⟩

end Vouch
