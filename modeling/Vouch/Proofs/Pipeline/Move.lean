import Vouch.Service
import Vouch.Proofs.Store.Operation
/-!
# The moves of a round and of an exchange

`Round.step` and `Exchange.step` as relations: one constructor for each way a step can go, with what
the store answered. Proofs about rounds go through the constructors and never open the functions.

* `Exchange.move_of_step`, `Round.move_of_step`: a step is one of the moves.
* `Round.Move.effect`: what a move does to the store is what one operation does that the round may
  ask for (`Round.Asks`): only an accepted entry is promoted, only a refused one discarded.
* `Round.serve_cases`: what a round makes of the answers it waits for.
-/
namespace Vouch

open Store (Op Effect)

/-- The moves of an exchange. -/
inductive Exchange.Move (s : Store) : Exchange → Exchange → Store → Prop
  | read {id e} (h : s.get? id = some e) :
      Move s (.pinned id) (.agreeing id e.subject e.certificate.publicKey) s
  | unread {id} (h : s.get? id = none) :
      Move s (.pinned id) (.settled id (.error (.store (.unknownEntry id)))) s
  | attach {id k x e} (h : s.get? id = some e) :
      Move s (.derived id k x) (.settled id (.ok ())) (s.update id (Entry.attach k x))
  | unattached {id k x} (h : s.get? id = none) :
      Move s (.derived id k x) (.settled id (.error (.store (.unknownEntry id)))) s
  | unpin {id result e} (h : s.get? id = some e) (hp : e.pins ≠ 0) :
      Move s (.settled id result) (.finished result) (s.update id Entry.givePin)
  | unpinGone {id result} (h : s.get? id = none) :
      Move s (.settled id result) (.finished result) s
  | overdrawn {id result e} (h : s.get? id = some e) (hp : e.pins = 0) :
      Move s (.settled id result) (.stopped (.notPinned e.subject)) s

/-- The moves of a round. -/
inductive Round.Move (p : VerificationPolicy) (s : Store) : Round → Round → Store → Prop
  | idle (h : s.head? = none) : Move p s .ready (.finished .nothing) s
  | found {id} (h : s.head? = some id) : Move p s .ready (.found id) s
  | pin {id e} (h : s.get? id = some e) (hp : e.pins ≠ Store.maxPins) :
      Move p s (.found id) (.pinned id) (s.update id Entry.takePin)
  | full {id e} (h : s.get? id = some e) (hp : e.pins = Store.maxPins) :
      Move p s (.found id) (.finished (.stopped .tooMany)) s
  | vanished {id} (h : s.get? id = none) : Move p s (.found id) (.finished .nothing) s
  | read {id e} (h : s.get? id = some e) :
      Move p s (.pinned id) (.checking id e.certificate s.rootKey) s
  | unread {id} (h : s.get? id = none) : Move p s (.pinned id) (.finished .nothing) s
  | unpin {id c v e} (h : s.get? id = some e) (hp : e.pins ≠ 0) :
      Move p s (.judged id c v) (.released id c v) (s.update id Entry.givePin)
  | unpinGone {id c v} (h : s.get? id = none) : Move p s (.judged id c v) (.released id c v) s
  | overdrawn {id c v e} (h : s.get? id = some e) (hp : e.pins = 0) :
      Move p s (.judged id c v) (.finished (.stopped (.notPinned e.subject))) s
  | reject {id c reason} : Move p s (.released id c (.error reason))
      (.finished (.rejected c.subject reason)) (s.discard id).2
  | missed {id c} (h : s.get? id = none) : Move p s (.released id c (.ok ())) (.finished .nothing) s
  | accept {id c e} (h : s.get? id = some e) (ho : e.origin = .requested ∨ p.exchangeUnsolicited) :
      Move p s (.released id c (.ok ())) (.promoted id c.subject) (s.promoted id)
  | acceptOnly {id c e} (h : s.get? id = some e)
      (ho : ¬ (e.origin = .requested ∨ p.exchangeUnsolicited)) :
      Move p s (.released id c (.ok ())) (.finished (.verified id c.subject false)) (s.promoted id)
  | pinAgain {id subject e} (h : s.get? id = some e) (hp : e.pins ≠ Store.maxPins) :
      Move p s (.promoted id subject) (.exchanging id subject (.pinned id))
        (s.update id Entry.takePin)
  | fullAgain {id subject e} (h : s.get? id = some e) (hp : e.pins = Store.maxPins) :
      Move p s (.promoted id subject) (.finished (.stopped .tooMany)) s
  | gone {id subject} (h : s.get? id = none) :
      Move p s (.promoted id subject) (.finished (.verified id subject false)) s
  | exchange {id subject x x' s'} (h : Exchange.Move s x x' s') :
      Move p s (.exchanging id subject x) (.ofExchange id subject x') s'

/-! ## Steps are moves -/

theorem Store.dropGuard_of_none {s : Store} {id : EntryId} (h : s.get? id = none) :
    s.dropGuard id = (none, s) := by simp [dropGuard, unpin_of_none h]

theorem Store.dropGuard_of_zero {s : Store} {id : EntryId} {e : Entry} (h : s.get? id = some e)
    (hp : e.pins = 0) : s.dropGuard id = (some (.notPinned e.subject), s) := by
  simp [dropGuard, unpin_of_zero h hp]

theorem Store.dropGuard_of_pos {s : Store} {id : EntryId} {e : Entry} (h : s.get? id = some e)
    (hp : e.pins ≠ 0) : s.dropGuard id = (none, s.update id Entry.givePin) := by
  simp [dropGuard, unpin_of_pos h hp]

theorem Exchange.move_of_step {x x' : Exchange} {s s' : Store} (h : x.step s = some (x', s')) :
    Move s x x' s' := by
  cases x with
  | pinned id =>
    cases hx : s.get? id with
    | none => simp only [step, hx] at h; cases h; exact .unread hx
    | some e => simp only [step, hx] at h; cases h; exact .read hx
  | agreeing => cases h
  | derived id k c =>
    cases hx : s.get? id with
    | none => simp only [step, Store.setContext_of_none hx] at h; cases h; exact .unattached hx
    | some e => simp only [step, Store.setContext_of_some hx] at h; cases h; exact .attach hx
  | settled id result =>
    cases hx : s.get? id with
    | none => simp only [step, Store.dropGuard_of_none hx] at h; cases h; exact .unpinGone hx
    | some e =>
      by_cases hp : e.pins = 0
      · simp only [step, Store.dropGuard_of_zero hx hp] at h; cases h; exact .overdrawn hx hp
      · simp only [step, Store.dropGuard_of_pos hx hp] at h; cases h; exact .unpin hx hp
  | finished => cases h
  | stopped => cases h

theorem Round.move_of_step {p : VerificationPolicy} {r r' : Round} {s s' : Store}
    {ns : List Notice} (h : r.step p s = some (r', s', ns)) : Move p s r r' s' := by
  cases r with
  | ready =>
    cases hx : s.head? with
    | none => simp only [step, hx] at h; cases h; exact .idle hx
    | some id => simp only [step, hx] at h; cases h; exact .found hx
  | found id =>
    cases hx : s.get? id with
    | none => simp only [step, Store.pin_of_none hx] at h; cases h; exact .vanished hx
    | some e =>
      by_cases hp : e.pins = Store.maxPins
      · simp only [step, Store.pin_of_full hx hp] at h; cases h; exact .full hx hp
      · simp only [step, Store.pin_of_lt hx hp] at h; cases h; exact .pin hx hp
  | pinned id =>
    cases hx : s.get? id with
    | none => simp only [step, hx] at h; cases h; exact .unread hx
    | some e => simp only [step, hx] at h; cases h; exact .read hx
  | checking => cases h
  | judged id c v =>
    cases hx : s.get? id with
    | none => simp only [step, Store.dropGuard_of_none hx] at h; cases h; exact .unpinGone hx
    | some e =>
      by_cases hp : e.pins = 0
      · simp only [step, Store.dropGuard_of_zero hx hp] at h; cases h; exact .overdrawn hx hp
      · simp only [step, Store.dropGuard_of_pos hx hp] at h; cases h; exact .unpin hx hp
  | released id c v =>
    cases v with
    | error reason =>
      have hd : reject id c.subject reason s = (r', s', ns) := Option.some.inj h
      unfold reject at hd
      split at hd <;> (rename_i s₁ hs; cases hd; rw [show s' = (s.discard id).2 by rw [hs]])
      · exact .reject
      · exact .reject
    | ok u =>
      have ha : accept p id c.subject s = (r', s', ns) := Option.some.inj h
      unfold accept at ha
      cases hx : s.get? id with
      | none => simp only [Store.promote_of_none hx] at ha; cases ha; exact .missed hx
      | some e =>
        have hx' : (s.promoted id).get? id = some e.accept := by
          rw [Store.get?_promoted, if_pos rfl, hx]; rfl
        simp only [Store.promote_of_some hx, hx'] at ha
        split at ha
        · rename_i ho; cases ha; exact .accept hx ho
        · rename_i ho; cases ha; exact .acceptOnly hx ho
  | promoted id subject =>
    cases hx : s.get? id with
    | none => simp only [step, Store.pin_of_none hx] at h; cases h; exact .gone hx
    | some e =>
      by_cases hp : e.pins = Store.maxPins
      · simp only [step, Store.pin_of_full hx hp] at h; cases h; exact .fullAgain hx hp
      · simp only [step, Store.pin_of_lt hx hp] at h; cases h; exact .pinAgain hx hp
  | exchanging id subject x =>
    simp only [step] at h
    split at h
    · rename_i x' s₁ hx
      cases h
      exact .exchange (Exchange.move_of_step hx)
    · cases h
  | finished => cases h

/-! ## What a move does to the store -/

/-- What a round may ask of the store where it stands. -/
def Round.Asks : Round → Op → Prop
  | r, .promote id => ∃ c, r = .released id c (.ok ())
  | r, .discard id => ∃ c reason, r = .released id c (.error reason)
  | _, .add _ _ => False
  | _, .remove _ => False
  | _, _ => True

theorem Exchange.Move.effect {s s' : Store} {x x' : Exchange} (h : Move s x x' s')
    (id : EntryId) (subject : Eui64) :
    ∃ op, Effect s op s' ∧ (Round.exchanging id subject x).Asks op := by
  cases h with
  | @read id | @unread id | @unattached id | @unpinGone id | @overdrawn id =>
    exact ⟨.unpin id, .none _, trivial⟩
  | attach h => exact ⟨_, .attach h, trivial⟩
  | unpin h hp => exact ⟨_, .unpin h hp, trivial⟩

theorem Round.Move.effect {p : VerificationPolicy} {s s' : Store} {r r' : Round}
    (hs : s.FreeVacant) (h : Move p s r r' s') : ∃ op, Effect s op s' ∧ r.Asks op := by
  cases h with
  | idle => exact ⟨.unpin ⟨0, 0⟩, .none _, trivial⟩
  | @found id | @full id | @vanished id | @read id | @unread id | @unpinGone id | @overdrawn id
  | @missed id | @fullAgain id | @gone id => exact ⟨.unpin id, .none _, trivial⟩
  | pin h hp | pinAgain h hp => exact ⟨_, .pin h hp, trivial⟩
  | unpin h hp => exact ⟨_, .unpin h hp, trivial⟩
  | @reject id c reason => exact ⟨.discard id, Store.perform_effect hs _, c, reason, rfl⟩
  | @accept id c e h | @acceptOnly id c e h => exact ⟨_, .promote h, c, rfl⟩
  | exchange h => exact h.effect _ _

/-- The two jobs, and what the round makes of the answers. -/
theorem Round.serve_cases {r : Round} {job : Job} (h : r.job? = some job) (b : Backend)
    (p : VerificationPolicy) :
    (∃ id c key, r = .checking id c key ∧ job = .verify c key ∧
      (r.serve b p).1 = .judged id c (b.verify c.signedPart c.signature key)) ∨
    ∃ id subject i peer key, r = .exchanging id subject (.agreeing i peer key) ∧ job = .agree key ∧
      (r.serve b p).1 =
        .exchanging id subject (Exchange.answer p.self (b.agree key) (.agreeing i peer key)) := by
  cases r with
  | checking id c key =>
    cases h
    exact .inl ⟨id, c, key, rfl, rfl, rfl⟩
  | exchanging id subject x =>
    cases x with
    | agreeing i peer key =>
      cases h
      exact .inr ⟨id, subject, i, peer, key, rfl, rfl, rfl⟩
    | pinned | derived | settled | finished | stopped => cases h
  | ready | found | pinned | judged | released | promoted | finished => cases h

end Vouch
