import Vouch.Service
import Vouch.Proofs.Store.Consistency
import Vouch.Proofs.Pipeline.Move
/-!
# A pipeline that nobody disturbs

A `Worker` is a store and the round that its one pipeline is at. Certificates may be added at any
time, but nobody else pins, removes or discards. Then a round is never taken by surprise: the entry
it is at is there and is what the round takes it for (`Fits`), and it carries the round's pin and no
other (`PinnedBy`).

* `Worker.Sound.act`, `Worker.Sound.add`: steps of the pipeline and additions keep all that.
* `Worker.Sound.progress`: the pipeline is never stuck.
* `Worker.Sound.work_lt`: left to itself it empties the queue, within `Worker.work` steps.
-/
namespace Vouch

open Store (Op Effect)

/-- A backend to which only the signature of all ones is the root's, and which agrees with everyone
on the same secret. -/
def Backend.ones : Backend where
  publicKey := ⟨Vector.replicate 64 0⟩
  sign := fun _ => .error .verificationFailed
  verify := fun _ sig _ => if sig = ⟨Vector.replicate 64 1⟩ then .ok () else .error .verificationFailed
  agree := fun _ => .ok ⟨Vector.replicate 32 0⟩

/-! ## Facts about one entry -/

namespace Store

/-- The signature on the certificate is the root's. -/
def Genuine (b : Backend) (s : Store) (c : Certificate) : Prop :=
  b.verify c.signedPart c.signature s.rootKey = .ok ()

/-- The id names an entry, and the entry is as described. -/
def Has (s : Store) (id : EntryId) (P : Entry → Prop) : Prop := ∃ e, s.get? id = some e ∧ P e

/-- The one pin there is, if any, is on this entry. -/
def PinnedBy (s : Store) (holder : Option EntryId) : Prop :=
  ∀ id e, s.get? id = some e → e.pins = if holder = some id then 1 else 0

variable {s s' : Store} {id : EntryId} {P Q : Entry → Prop}

theorem Has.imp (h : s.Has id P) (hPQ : ∀ e, P e → Q e) : s.Has id Q := by
  obtain ⟨e, hx, he⟩ := h
  exact ⟨e, hx, hPQ e he⟩

theorem Has.ne_none (h : s.Has id P) : s.get? id ≠ none := by
  obtain ⟨e, hx, -⟩ := h
  rw [hx]
  exact Option.some_ne_none e

theorem Has.of_get? {e : Entry} (h : s.Has id P) (hx : s.get? id = some e) : P e := by
  obtain ⟨e', hx', he⟩ := h
  rw [hx, Option.some.injEq] at hx'
  exact hx' ▸ he

theorem Has.update {f : Entry → Entry} (h : s.Has id P) (hf : ∀ e, P e → Q (f e)) :
    (s.update id f).Has id Q := by
  obtain ⟨e, hx, he⟩ := h
  refine ⟨f e, ?_, hf e he⟩
  rw [get?_update, if_pos rfl, hx]
  rfl

theorem Has.promoted (h : s.Has id P) (hf : ∀ e, P e → Q e.accept) : (s.promoted id).Has id Q :=
  Has.update h hf

/-- Adding does not touch an entry but for its origin. -/
theorem Has.add {c : Certificate} {o : Origin} (h : s.Has id P) (he : Effect s (.add c o) s')
    (hP : ∀ e, P e → P e.ask) : s'.Has id P := by
  obtain ⟨e, hx, hPe⟩ := h
  cases he with
  | none => exact ⟨e, hx, hPe⟩
  | @fill _ _ j _ _ _ _ _ hv =>
    refine ⟨e, ?_, hPe⟩
    rw [get?_fill hv, if_neg]
    · exact hx
    · intro hid
      rw [hid, get?_of_vacant hv] at hx
      cases hx
  | @ask _ j =>
    by_cases hid : id = j
    · subst hid
      exact Has.update ⟨e, hx, hPe⟩ hP
    · exact ⟨e, by rw [get?_update, if_neg hid, hx], hPe⟩

/-! ## Pins -/

theorem PinnedBy.pins_eq_zero {e : Entry} (h : s.PinnedBy none) (hx : s.get? id = some e) :
    e.pins = 0 := by simpa using h id e hx

theorem PinnedBy.pins_eq_one {e : Entry} (h : s.PinnedBy (some id)) (hx : s.get? id = some e) :
    e.pins = 1 := by simpa using h id e hx

theorem pinnedBy_empty (capacity : Nat) (a : Address) (key : PublicKey) :
    (empty capacity a key).PinnedBy none := by
  intro id e hx
  rw [get?_empty] at hx
  cases hx

theorem PinnedBy.takePin (h : s.PinnedBy none) : (s.update id Entry.takePin).PinnedBy (some id) := by
  intro j e' hx'
  rw [get?_update] at hx'
  split at hx'
  · rename_i hj
    obtain ⟨e, hx, rfl⟩ := Option.map_eq_some_iff.1 hx'
    rw [if_pos (by rw [hj]), Entry.takePin, h.pins_eq_zero hx]
    rfl
  · rename_i hj
    rw [if_neg fun hc => hj (Option.some.inj hc).symm]
    exact h.pins_eq_zero hx'

theorem PinnedBy.givePin (h : s.PinnedBy (some id)) : (s.update id Entry.givePin).PinnedBy none := by
  intro j e' hx'
  rw [get?_update] at hx'
  split at hx'
  · obtain ⟨e, hx, rfl⟩ := Option.map_eq_some_iff.1 hx'
    rw [Entry.givePin, h.pins_eq_one hx]
    rfl
  · rename_i hj
    have hp := h j e' hx'
    rwa [if_neg fun hc => hj (Option.some.inj hc).symm] at hp

theorem PinnedBy.update {holder : Option EntryId} {f : Entry → Entry} (h : s.PinnedBy holder)
    (hf : ∀ e, (f e).pins = e.pins) : (s.update id f).PinnedBy holder := by
  intro j e' hx'
  rw [get?_update] at hx'
  split at hx'
  · rename_i hj
    obtain ⟨e, hx, rfl⟩ := Option.map_eq_some_iff.1 hx'
    rw [hf, hj]
    exact h id e hx
  · exact h j e' hx'

theorem PinnedBy.promoted {holder : Option EntryId} (h : s.PinnedBy holder) :
    (s.promoted id).PinnedBy holder := PinnedBy.update h fun _ => rfl

theorem PinnedBy.discarded {e : Entry} {holder : Option EntryId} (h : s.PinnedBy holder)
    (hx : s.get? id = some e) : (s.discarded id).PinnedBy holder := by
  intro j e' hx'
  rw [get?_discarded hx] at hx'
  split at hx'
  · cases hx'
  · exact h j e' hx'

theorem PinnedBy.add {c : Certificate} {o : Origin} {holder : Option EntryId}
    (h : s.PinnedBy holder) (hn : ∀ id, holder = some id → s.get? id ≠ none)
    (he : Effect s (.add c o) s') : s'.PinnedBy holder := by
  cases he with
  | none => exact h
  | @fill _ _ j _ _ _ _ _ hv =>
    intro i e' hx'
    rw [get?_fill hv] at hx'
    split at hx'
    · rename_i hi
      cases hx'
      -- The holder's entry is there already, so it is not the new one.
      rw [if_neg fun hc => hn i hc (by rw [hi]; exact get?_of_vacant hv)]
      rfl
    · exact h i e' hx'
  | ask => exact h.update fun _ => rfl

end Store

/-! ## What a round takes its entry for -/

/-- The entry that an exchange has pinned. -/
def Exchange.holds? : Exchange → Option EntryId
  | .pinned id => some id
  | .agreeing id _ _ => some id
  | .derived id _ _ => some id
  | .settled id _ => some id
  | .finished _ => none
  | .stopped _ => none

/-- The entry that a round has pinned. -/
def Round.holds? : Round → Option EntryId
  | .pinned id => some id
  | .checking id _ _ => some id
  | .judged id _ _ => some id
  | .exchanging _ _ x => x.holds?
  | _ => none

/-- The context that the node has with a peer once the two have agreed on a secret. -/
def Entry.Agreed (b : Backend) (self : Eui64) (e : Entry) : Prop :=
  ∃ k, b.agree e.certificate.publicKey = .ok k ∧ e.secret = some k ∧
    e.context = some (.derive k self e.subject)

/-- What the result of an exchange says of the entry. -/
def Exchange.Told (b : Backend) (self : Eui64) (s : Store) (id : EntryId) :
    Except ExchangeError Unit → Prop
  | .ok () => s.Has id (Entry.Agreed b self)
  | .error _ => s.Has id fun e => ∀ k, b.agree e.certificate.publicKey ≠ .ok k

/-- The exchange is about this entry, and what it carries is true of it. -/
def Exchange.Fits (b : Backend) (self : Eui64) (s : Store) (id : EntryId) : Exchange → Prop
  | .pinned i => i = id
  | .agreeing i peer key =>
    i = id ∧ s.Has id fun e => e.subject = peer ∧ e.certificate.publicKey = key
  | .derived i k x => i = id ∧ s.Has id fun e =>
    b.agree e.certificate.publicKey = .ok k ∧ x = .derive k self e.subject
  | .settled i result => i = id ∧ Told b self s id result
  | .finished result => Told b self s id result
  | .stopped _ => False

/-- The entry waits and holds the certificate. -/
def Entry.Waits (c : Certificate) (e : Entry) : Prop := e.state = .pending ∧ e.certificate = c

/-- The round is about an entry that is there, and what it carries is true of it. -/
def Round.Fits (b : Backend) (p : VerificationPolicy) (s : Store) : Round → Prop
  | .ready => True
  | .found id => s.Has id fun e => e.state = .pending
  | .pinned id => s.Has id fun e => e.state = .pending
  | .checking id c key => s.Has id (Entry.Waits c) ∧ key = s.rootKey
  | .judged id c v => s.Has id (Entry.Waits c) ∧ v = b.verify c.signedPart c.signature s.rootKey
  | .released id c v => s.Has id (Entry.Waits c) ∧ v = b.verify c.signedPart c.signature s.rootKey
  | .promoted id subject => s.Has id fun e => e.state = .verified ∧ e.subject = subject
  | .exchanging id subject x => (s.Has id fun e => e.state = .verified ∧ e.subject = subject) ∧
    x.Fits b p.self s id ∧ x.holds? = some id
  | .finished (.stopped _) => False
  | .finished _ => True

section moves

variable {b : Backend} {p : VerificationPolicy} {s s' : Store}

theorem Exchange.Told.update {self : Eui64} {id : EntryId} {f : Entry → Entry}
    {result : Except ExchangeError Unit} (h : Told b self s id result)
    (hc : ∀ e, (f e).certificate = e.certificate) (hs : ∀ e, (f e).secret = e.secret)
    (hx : ∀ e, (f e).context = e.context) : Told b self (s.update id f) id result := by
  cases result with
  | ok =>
    refine Store.Has.update h fun e he => ?_
    obtain ⟨k, hk, hsec, hctx⟩ := he
    refine ⟨k, (hc e).symm ▸ hk, (hs e).trans hsec, (hx e).trans ?_⟩
    rw [hctx, Entry.subject, Entry.subject, hc e]
  | error => exact Store.Has.update h fun e he => (hc e).symm ▸ he

theorem Exchange.Told.add {self : Eui64} {id : EntryId} {c : Certificate} {o : Origin}
    {result : Except ExchangeError Unit} (h : Told b self s id result)
    (he : Effect s (.add c o) s') : Told b self s' id result := by
  cases result with
  | ok => exact Store.Has.add h he fun _ hk => hk
  | error => exact Store.Has.add h he fun _ hk => hk

theorem Exchange.Fits.add {self : Eui64} {id : EntryId} {x : Exchange} {c : Certificate}
    {o : Origin} (h : x.Fits b self s id) (he : Effect s (.add c o) s') : x.Fits b self s' id := by
  cases x with
  | pinned => exact h
  | agreeing | derived => exact ⟨h.1, h.2.add he fun _ hk => hk⟩
  | settled => exact ⟨h.1, h.2.add he⟩
  | finished => exact Told.add h he
  | stopped => exact h

theorem Round.Fits.add {r : Round} {c : Certificate} {o : Origin} (h : r.Fits b p s)
    (he : Effect s (.add c o) s') : r.Fits b p s' := by
  have hk := he.rootKey_eq
  cases r with
  | ready => trivial
  | found | pinned | promoted => exact Store.Has.add h he fun _ hk => hk
  | checking | judged | released => exact ⟨h.1.add he fun _ hk => hk, hk ▸ h.2⟩
  | exchanging => exact ⟨h.1.add he fun _ hk => hk, h.2.1.add he, h.2.2⟩
  | finished result =>
    cases result with
    | stopped => exact h
    | nothing | verified | rejected => trivial

theorem Round.Fits.holds?_ne_none {r : Round} (h : r.Fits b p s) {id : EntryId}
    (hid : r.holds? = some id) : s.get? id ≠ none := by
  cases r with
  | pinned => cases hid; exact Store.Has.ne_none h
  | checking | judged => cases hid; exact h.1.ne_none
  | exchanging i subject x =>
    have hi : some i = some id := h.2.2.symm.trans hid
    cases hi
    exact h.1.ne_none
  | ready | found | released | promoted | finished => cases hid

/-- **One step of an exchange** that has its pin. -/
theorem Exchange.Move.fits_of_has {self : Eui64} {id : EntryId} {x x' : Exchange}
    (hf : x.Fits b self s id) (hh : x.holds? = some id) (hx : s.Has id fun e => e.pins ≠ 0)
    (h : Move s x x' s') :
    x'.Fits b self s' id ∧ (x'.holds? = some id ∨ ∃ result, x' = .finished result) := by
  cases h with
  | read hx =>
    cases hh
    exact ⟨⟨rfl, _, hx, rfl, rfl⟩, .inl rfl⟩
  | unread h => cases hh; exact absurd h hx.ne_none
  | attach h =>
    obtain ⟨rfl, hk⟩ := hf
    refine ⟨⟨rfl, hk.update fun e he => ?_⟩, .inl rfl⟩
    exact ⟨_, he.1, rfl, congrArg some he.2⟩
  | unattached h => cases hh; exact absurd h hx.ne_none
  | unpin =>
    obtain ⟨rfl, ht⟩ := hf
    exact ⟨ht.update (fun _ => rfl) (fun _ => rfl) (fun _ => rfl), .inr ⟨_, rfl⟩⟩
  | unpinGone h => cases hh; exact absurd h hx.ne_none
  | overdrawn h h0 => cases hh; exact absurd h0 (hx.of_get? h)

theorem Exchange.Move.pinnedBy {id : EntryId} {x x' : Exchange} (hh : x.holds? = some id)
    (hp : s.PinnedBy (some id)) (hx : s.get? id ≠ none) (h : Move s x x' s') :
    s'.PinnedBy x'.holds? := by
  cases h with
  | read | unattached => cases hh; exact hp
  | unread h | unpinGone h => cases hh; exact absurd h hx
  | attach => cases hh; exact hp.update fun _ => rfl
  | unpin => cases hh; exact hp.givePin
  | overdrawn h h0 =>
    cases hh
    rw [hp.pins_eq_one h] at h0
    cases h0

theorem Round.ofExchange_cases {id : EntryId} {x : Exchange} (subject : Eui64)
    (h : x.holds? = some id ∨ ∃ result, x = .finished result) :
    (x.holds? = some id ∧ ofExchange id subject x = .exchanging id subject x) ∨
    ∃ result established, x = .finished result ∧
      ofExchange id subject x = .finished (.verified id subject established) := by
  rcases h with h | ⟨result, rfl⟩
  · cases x with
    | pinned | agreeing | derived | settled => exact .inl ⟨h, rfl⟩
    | finished | stopped => cases h
  · cases result with
    | ok => exact .inr ⟨_, true, rfl, rfl⟩
    | error => exact .inr ⟨_, false, rfl, rfl⟩

/-- The entry that a round is about. -/
def Round.target? : Round → Option EntryId
  | .found id => some id
  | .pinned id => some id
  | .checking id _ _ => some id
  | .judged id _ _ => some id
  | .released id _ _ => some id
  | .promoted id _ => some id
  | .exchanging id _ _ => some id
  | _ => none

/-- The entry that a round is about has the round's pin, if that has one, and no other. -/
def Round.Counted (s : Store) (r : Round) : Prop :=
  ∀ id, r.target? = some id → ∀ e, s.get? id = some e →
    e.pins = if r.holds? = some id then 1 else 0

theorem Store.PinnedBy.counted {r : Round} (hp : s.PinnedBy r.holds?) : r.Counted s :=
  fun id _ e hx => hp id e hx

theorem Round.Fits.target?_of_holds? {r : Round} {id : EntryId} (hf : r.Fits b p s)
    (hh : r.holds? = some id) : r.target? = some id := by
  cases r with
  | pinned | checking | judged => exact hh
  | exchanging i subject x => exact hf.2.2.symm.trans hh
  | ready | found | released | promoted | finished => cases hh

/-- The pin of a round is there. -/
theorem Round.Counted.has_pin {r : Round} {id : EntryId} (hc : r.Counted s) (hf : r.Fits b p s)
    (hh : r.holds? = some id) : s.Has id fun e => e.pins ≠ 0 := by
  obtain ⟨e, hx⟩ := Option.ne_none_iff_exists'.1 (hf.holds?_ne_none hh)
  have h1 := hc id (hf.target?_of_holds? hh) e hx
  rw [if_pos hh] at h1
  exact ⟨e, hx, by simp [h1]⟩

/-- The entry of an exchange is verified before and after its steps. -/
theorem Exchange.Move.verified {self : Eui64} {id : EntryId} {subject : Eui64} {x x' : Exchange}
    (hf : x.Fits b self s id) (hv : s.Has id fun e => e.state = .verified ∧ e.subject = subject)
    (h : Move s x x' s') : s'.Has id fun e => e.state = .verified ∧ e.subject = subject := by
  cases h with
  | read | unread | unattached | unpinGone | overdrawn => exact hv
  | attach => obtain ⟨rfl, -⟩ := hf; exact hv.update fun _ he => he
  | unpin => obtain ⟨rfl, -⟩ := hf; exact hv.update fun _ he => he

/-- **One step of a round** about an entry that has no pins but the round's. -/
theorem Round.Move.fits_of_counted {r r' : Round}
    (hq : ∀ id ∈ s.pending, s.Has id fun e => e.state = .pending) (hf : r.Fits b p s)
    (hc : r.Counted s) (h : Move p s r r' s') : r'.Fits b p s' := by
  cases h with
  | idle => trivial
  | found h => exact hq _ (List.mem_of_head? h)
  | pin => exact Store.Has.update hf fun _ he => he
  | full h hm =>
    have h0 := (hc _ rfl _ h).symm.trans hm
    cases h0
  | vanished h => exact absurd h (Store.Has.ne_none hf)
  | read h => exact ⟨⟨_, h, Store.Has.of_get? hf h, rfl⟩, rfl⟩
  | unread h => exact absurd h (Store.Has.ne_none hf)
  | unpin h =>
    refine ⟨hf.1.update fun _ he => he, ?_⟩
    rw [Store.rootKey_update]
    exact hf.2
  | unpinGone h => exact absurd h hf.1.ne_none
  | overdrawn h h0 =>
    have h1 := hc _ rfl _ h
    simp [holds?, h0] at h1
  | reject => trivial
  | missed h => exact absurd h hf.1.ne_none
  | accept => exact hf.1.promoted fun e he => ⟨rfl, congrArg Certificate.subject he.2⟩
  | acceptOnly => trivial
  | pinAgain => exact ⟨Store.Has.update hf fun _ he => he, rfl, rfl⟩
  | fullAgain h hm =>
    have h0 := (hc _ rfl _ h).symm.trans hm
    cases h0
  | gone h => exact absurd h (Store.Has.ne_none hf)
  | @exchange id subject x x' _ h =>
    have hpin := hc.has_pin hf hf.2.2
    obtain ⟨hv, hxf, hh⟩ := hf
    obtain ⟨hxf', hend⟩ := h.fits_of_has hxf hh hpin
    rcases ofExchange_cases subject hend with ⟨hh', heq⟩ | ⟨result, est, rfl, heq⟩
    · rw [heq]
      exact ⟨h.verified hxf hv, hxf', hh'⟩
    · rw [heq]
      trivial

/-- A round that holds the only pin there is. -/
theorem Round.Move.pinnedBy {r r' : Round} (hf : r.Fits b p s) (hp : s.PinnedBy r.holds?)
    (h : Move p s r r' s') : s'.PinnedBy r'.holds? := by
  cases h with
  | idle | found | read => exact hp
  | pin | pinAgain => exact hp.takePin
  | full h hm | fullAgain h hm =>
    rw [hp.pins_eq_zero h] at hm
    cases hm
  | vanished h | unread h | gone h => exact absurd h (Store.Has.ne_none hf)
  | unpin => exact hp.givePin
  | unpinGone h | missed h => exact absurd h hf.1.ne_none
  | overdrawn h h0 =>
    rw [hp.pins_eq_one h] at h0
    cases h0
  | reject =>
    obtain ⟨e, hx, -⟩ := hf.1
    rw [Store.discard_of_zero hx (hp.pins_eq_zero hx)]
    exact hp.discarded hx
  | accept | acceptOnly => exact hp.promoted
  | @exchange id subject x x' _ h =>
    obtain ⟨hv, hxf, hh⟩ := hf
    rw [show (Round.exchanging id subject x).holds? = some id from hh] at hp
    have hp' := h.pinnedBy hh hp hv.ne_none
    unfold ofExchange
    split <;> exact hp'

end moves

/-! ## The worker -/

/-- A store, and the round that its pipeline is at. -/
structure Worker where
  store : Store
  round : Round

namespace Worker

/-- The steps of a pipeline: it starts a round, takes a step by itself, or has the backend do the job
that it waits for. -/
inductive Act where
  | start
  | advance
  | serve
  deriving DecidableEq

def act (b : Backend) (p : VerificationPolicy) (w : Worker) : Act → Option Worker
  | .start =>
    match w.round with
    | .finished _ => some { w with round := .ready }
    | _ => none
  | .advance => (w.round.step p w.store).map fun next => ⟨next.2.1, next.1⟩
  | .serve => if w.round.job?.isSome then some { w with round := (w.round.serve b p).1 } else none

/-- What a worker can rely on. -/
structure Sound (b : Backend) (p : VerificationPolicy) (w : Worker) : Prop where
  consistent : w.store.Consistent
  fits : w.round.Fits b p w.store
  pinned : w.store.PinnedBy w.round.holds?

variable {b : Backend} {p : VerificationPolicy} {w w' : Worker} {a : Act}

/-- A pipeline at rest over a store that nobody has pinned anything in. -/
theorem Sound.atRest {s : Store} (hs : s.Consistent) (hp : s.PinnedBy none) :
    Sound b p ⟨s, .finished .nothing⟩ := ⟨hs, trivial, hp⟩

theorem Sound.add (hw : w.Sound b p) (c : Certificate) (o : Origin) :
    Sound b p { w with store := (w.store.add c o).2 } := by
  have he := Store.add_effect hw.consistent.freeVacant c o
  have ho : w.store.Orderly (.add c o) := trivial
  have hn : ∀ id, w.round.holds? = some id → w.store.get? id ≠ none :=
    fun _ hid => hw.fits.holds?_ne_none hid
  exact ⟨hw.consistent.effect ho he, hw.fits.add he, hw.pinned.add hn he⟩

/-- A round starts when the one before is over. -/
theorem start_cases (h : w.act b p .start = some w') :
    ∃ result, w.round = .finished result ∧ w' = ⟨w.store, .ready⟩ := by
  obtain ⟨s, r⟩ := w
  cases r with
  | finished result =>
    cases h
    exact ⟨result, rfl, rfl⟩
  | ready | found | pinned | checking | judged | released | promoted | exchanging => cases h

theorem Sound.start (hw : w.Sound b p) (h : w.act b p .start = some w') : w'.Sound b p := by
  obtain ⟨result, hr, rfl⟩ := start_cases h
  have hp := hw.pinned
  rw [hr] at hp
  exact ⟨hw.consistent, trivial, hp⟩

/-- The steps that a round takes by itself. -/
theorem move_of_advance (h : w.act b p .advance = some w') :
    Round.Move p w.store w.round w'.round w'.store := by
  obtain ⟨⟨r, s, ns⟩, hstep, rfl⟩ := Option.map_eq_some_iff.1 h
  exact Round.move_of_step hstep

/-- What a round asks of the store is in order. -/
theorem Sound.orderly (hw : w.Sound b p) {op : Op} (ha : w.round.Asks op) :
    w.store.Orderly op := by
  have pending {id : EntryId} {c : Certificate} {v : Except CryptoError Unit}
      (hr : w.round = .released id c v) : id ∈ w.store.pending := by
    have hf := hw.fits
    rw [hr] at hf
    obtain ⟨e, hx, hwait, -⟩ := hf.1
    exact (hw.consistent.mem_pending_iff id).2 ⟨e, hx, hwait⟩
  cases op with
  | promote id =>
    obtain ⟨c, hr⟩ := ha
    exact pending hr
  | discard id =>
    obtain ⟨c, reason, hr⟩ := ha
    exact pending hr
  | add | remove | pin | unpin | setContext => trivial

theorem Sound.advance (hw : w.Sound b p) (h : w.act b p .advance = some w') : w'.Sound b p := by
  have hm := move_of_advance h
  obtain ⟨op, he, ha⟩ := hm.effect hw.consistent.freeVacant
  have hq := fun id hid => (hw.consistent.mem_pending_iff id).1 hid
  exact ⟨hw.consistent.effect (hw.orderly ha) he,
    hm.fits_of_counted hq hw.fits hw.pinned.counted, hm.pinnedBy hw.fits hw.pinned⟩

/-- The two jobs, and what the round makes of the answers. -/
theorem serve_cases (h : w.act b p .serve = some w') :
    (∃ id c key, w.round = .checking id c key ∧
      w' = ⟨w.store, .judged id c (b.verify c.signedPart c.signature key)⟩) ∨
    ∃ id subject i peer key, w.round = .exchanging id subject (.agreeing i peer key) ∧
      w' = ⟨w.store,
        .exchanging id subject (Exchange.answer p.self (b.agree key) (.agreeing i peer key))⟩ := by
  simp only [act] at h
  split at h
  · rename_i hsome
    cases h
    obtain ⟨job, hjob⟩ := Option.isSome_iff_exists.1 hsome
    rcases Round.serve_cases hjob b p with
      ⟨id, c, key, hr, -, hserve⟩ | ⟨id, subject, i, peer, key, hr, -, hserve⟩
    · exact .inl ⟨id, c, key, hr, by rw [hserve]⟩
    · exact .inr ⟨id, subject, i, peer, key, hr, by rw [hserve]⟩
  · cases h

/-- What the backend answers is true of the entry. -/
theorem fits_of_serve (hf : w.round.Fits b p w.store) (h : w.act b p .serve = some w') :
    w'.round.Fits b p w'.store := by
  rcases serve_cases h with ⟨id, c, key, hr, rfl⟩ | ⟨id, subject, i, peer, key, hr, rfl⟩
  · rw [hr] at hf
    obtain ⟨hwait, rfl⟩ := hf
    exact ⟨hwait, rfl⟩
  · rw [hr] at hf
    obtain ⟨hv, ⟨rfl, e, hx, hpeer, hkey⟩, hh⟩ := hf
    cases hk : b.agree key with
    | ok k =>
      refine ⟨hv, ⟨rfl, e, hx, ?_, ?_⟩, rfl⟩
      · rw [hkey, hk]
      · rw [hpeer]
    | error reason =>
      refine ⟨hv, ⟨rfl, e, hx, fun k hc => ?_⟩, rfl⟩
      rw [hkey, hk] at hc
      cases hc

theorem Sound.serve (hw : w.Sound b p) (h : w.act b p .serve = some w') : w'.Sound b p := by
  have hf := fits_of_serve hw.fits h
  have hp := hw.pinned
  rcases serve_cases h with ⟨id, c, key, hr, rfl⟩ | ⟨id, subject, i, peer, key, hr, rfl⟩
  · rw [hr] at hp
    exact ⟨hw.consistent, hf, hp⟩
  · rw [hr] at hp
    refine ⟨hw.consistent, hf, ?_⟩
    cases b.agree key <;> exact hp

/-- **Each step of the pipeline** keeps the worker sound. -/
theorem Sound.act (hw : w.Sound b p) (h : w.act b p a = some w') : w'.Sound b p := by
  cases a with
  | start => exact hw.start h
  | advance => exact hw.advance h
  | serve => exact hw.serve h

/-- What a step of the pipeline does to the store. -/
theorem Sound.effect_of_act (hw : w.Sound b p) (h : w.act b p a = some w') :
    ∃ op, Effect w.store op w'.store ∧ w.round.Asks op := by
  cases a with
  | start =>
    obtain ⟨result, -, rfl⟩ := start_cases h
    exact ⟨.unpin ⟨0, 0⟩, .none _, trivial⟩
  | advance => exact (move_of_advance h).effect hw.consistent.freeVacant
  | serve =>
    rcases serve_cases h with ⟨_, _, _, -, rfl⟩ | ⟨_, _, _, _, _, -, rfl⟩
    · exact ⟨.unpin ⟨0, 0⟩, .none _, trivial⟩
    · exact ⟨.unpin ⟨0, 0⟩, .none _, trivial⟩

/-- What a round refuses is not genuine. -/
theorem Sound.not_genuine {id : EntryId} (hw : w.Sound b p) (ha : w.round.Asks (.discard id)) :
    w.store.Has id fun e => e.state = .pending ∧ ¬ w.store.Genuine b e.certificate := by
  obtain ⟨c, reason, hr⟩ := ha
  have hf := hw.fits
  rw [hr] at hf
  obtain ⟨⟨e, hx, hwait, rfl⟩, hv⟩ := hf
  refine ⟨e, hx, hwait, fun hg => ?_⟩
  rw [Store.Genuine, ← hv] at hg
  cases hg

/-! ## Progress -/

/-- A round that can take no step by itself waits for the backend or is over. -/
theorem waits_of_step_eq_none {r : Round} {s : Store} (hf : r.Fits b p s)
    (h : r.step p s = none) : r.job?.isSome ∨ ∃ result, r = .finished result := by
  cases r with
  | ready | found | pinned | judged | promoted =>
    simp only [Round.step] at h
    split at h <;> cases h
  | checking => exact .inl rfl
  | released id c v => cases v <;> cases h
  | exchanging id subject x =>
    obtain ⟨-, -, hh⟩ := hf
    cases x with
    | agreeing => exact .inl rfl
    | pinned | derived | settled =>
      simp only [Round.step, Exchange.step] at h
      split at h
      · cases h
      · rename_i hx
        split at hx <;> cases hx
    | finished | stopped => cases hh
  | finished result => exact .inr ⟨result, rfl⟩

/-- **Never stuck.** -/
theorem Sound.progress (hw : w.Sound b p) : ∃ a w', w.act b p a = some w' := by
  cases hstep : w.round.step p w.store with
  | some next => exact ⟨.advance, ⟨next.2.1, next.1⟩, by simp [Worker.act, hstep]⟩
  | none =>
    rcases waits_of_step_eq_none hw.fits hstep with hj | ⟨result, hr⟩
    · exact ⟨.serve, ⟨w.store, (w.round.serve b p).1⟩, by simp [Worker.act, hj]⟩
    · exact ⟨.start, ⟨w.store, .ready⟩, by simp [Worker.act, hr]⟩

/-- Whether the entry that a round is about is still in the queue. -/
def queued : Round → Bool
  | .ready => true
  | .found _ => true
  | .pinned _ => true
  | .checking _ _ _ => true
  | .judged _ _ _ => true
  | .released _ _ _ => true
  | _ => false

/-- The waiting entries that no round has been started for. -/
def untaken (s : Store) (r : Round) : Nat := s.pending.length - (queued r).toNat

/-- The steps that it takes at most to empty the queue: thirteen for a whole round. -/
def work (w : Worker) : Nat := 13 * untaken w.store w.round + w.round.rank

theorem length_filter_ne {l : List EntryId} {id : EntryId} (hl : l.Nodup) (hid : id ∈ l) :
    (l.filter (· ≠ id)).length = l.length - 1 := by
  rw [← List.length_erase_of_mem hid, hl.erase_eq_filter]
  simp only [bne, ne_eq, decide_not, beq_eq_decide]

/-- An entry leaves the queue only together with the round that was about it. -/
theorem untaken_le {s s' : Store} {r r' : Round} (hs : s.Consistent) (hf : r.Fits b p s)
    (hp : s.PinnedBy r.holds?) (h : Round.Move p s r r' s') : untaken s' r' ≤ untaken s r := by
  have gone {id : EntryId} {c : Certificate} (hwait : s.Has id (Entry.Waits c)) :
      (s.pending.filter (· ≠ id)).length = s.pending.length - 1 := by
    obtain ⟨e, hx, hst, -⟩ := hwait
    exact length_filter_ne hs.pending_nodup ((hs.mem_pending_iff id).2 ⟨e, hx, hst⟩)
  unfold untaken
  cases h with
  | idle h =>
    have hnil : s.pending = [] := List.head?_eq_none_iff.1 h
    simp [hnil]
  | found | read => exact Nat.le_refl _
  | pin | unpin | pinAgain => rw [Store.pending_update]; exact Nat.le_refl _
  | full h hm =>
    rw [hp.pins_eq_zero h] at hm
    cases hm
  | vanished h => exact absurd h (Store.Has.ne_none hf)
  | unread h => exact absurd h (Store.Has.ne_none hf)
  | unpinGone h => exact absurd h hf.1.ne_none
  | overdrawn h h0 =>
    rw [hp.pins_eq_one h] at h0
    cases h0
  | @reject id c reason =>
    obtain ⟨e, hx, -⟩ := hf.1
    have hlen := gone hf.1
    rw [Store.discard_of_zero hx (hp.pins_eq_zero hx)]
    simp only [Store.discarded, queued, hlen, Bool.toNat_true, Bool.toNat_false]
    omega
  | missed h => exact absurd h hf.1.ne_none
  | accept =>
    have hlen := gone hf.1
    simp only [Store.promoted, queued, hlen, Bool.toNat_true, Bool.toNat_false]
    omega
  | acceptOnly =>
    have hlen := gone hf.1
    simp only [Store.promoted, queued, hlen, Bool.toNat_true, Bool.toNat_false]
    omega
  | fullAgain | gone => exact Nat.le_refl _
  | @exchange id subject x x' _ h =>
    have hq : queued (.ofExchange id subject x') = false := by
      unfold Round.ofExchange
      split <;> rfl
    have hpend : s'.pending = s.pending := by
      cases h with
      | read | unread | unattached | unpinGone | overdrawn => rfl
      | attach | unpin => exact Store.pending_update
    rw [hq, hpend]
    exact Nat.le_refl _

/-- **Closer to the end** with each step, but for starting a round on an empty queue. -/
theorem Sound.work_lt (hw : w.Sound b p) (h : w.act b p a = some w')
    (hne : w.store.pending ≠ []) : w'.work < w.work := by
  cases a with
  | start =>
    obtain ⟨result, hr, rfl⟩ := start_cases h
    have hpos : 0 < w.store.pending.length := List.length_pos_iff.2 hne
    simp only [work, hr, untaken, queued, Round.rank, Bool.toNat_true, Bool.toNat_false]
    omega
  | advance =>
    have hle := untaken_le hw.consistent hw.fits hw.pinned (move_of_advance h)
    obtain ⟨⟨r, s, ns⟩, hstep, rfl⟩ := Option.map_eq_some_iff.1 h
    have hlt := Round.rank_step hstep
    simp only [work] at *
    omega
  | serve =>
    obtain ⟨s, r⟩ := w
    rcases serve_cases h with ⟨id, c, key, rfl, rfl⟩ | ⟨id, subject, i, peer, key, rfl, rfl⟩
    · exact Nat.add_lt_add_left (Nat.lt_succ_self 8) _
    · have hlt := Exchange.rank_answer p.self (b.agree key) i peer key
      exact Nat.add_lt_add_left (Nat.succ_lt_succ hlt) _

/-- Only additions fill the queue. -/
theorem Sound.pending_eq_nil (hw : w.Sound b p) (h : w.act b p a = some w')
    (hnil : w.store.pending = []) : w'.store.pending = [] := by
  obtain ⟨op, he, ha⟩ := hw.effect_of_act h
  exact he.pending_eq_nil (fun c o hop => by subst hop; exact ha) hnil

end Worker
end Vouch
