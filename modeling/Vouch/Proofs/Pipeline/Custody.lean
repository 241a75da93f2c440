import Vouch.Proofs.Store.Pins
import Vouch.Proofs.Pipeline.Errand
/-!
# Who holds which pin

A `Custody` is a store among those who take pins on its entries: the pipeline, the exchanges that calls
have started, and clients with their guards. They take turns as they like, and the backend answers
what it likes. Meanwhile anyone may ask the store for anything that moves no pin, about any id there
is or was; a client gives back the pins of its own guards only.

Each of them has a pin from the step that takes it to the step that gives it back, and the store counts
just those (`Sound.balanced`). So an entry that anyone relies on has a pin, which is why it stays
(`Effect.kept_or_vacated`) and why the pin is there to be given back.

* `Exchange.Move.pinsOn`, `Round.Move.pinsOn`: a step counts the pin that it takes or gives back.
* `Exchange.Move.ne_stopped`, `Round.Move.ne_stopped`: who has a pin is not stopped for giving it back.
* `Sound.step`, `Sound.of_reachable`: each event, and any number of them.
-/
namespace Vouch

open Store (Op Effect)

/-- One of a list takes the place of another. -/
theorem countP_set {α : Type} {P : α → Prop} [DecidablePred P] {l : List α} {i : Nat} {x : α}
    (hx : l[i]? = some x) (x' : α) :
    (l.set i x').countP (fun x => P x) + (if P x then 1 else 0) =
      l.countP (fun x => P x) + if P x' then 1 else 0 := by
  obtain ⟨hi, rfl⟩ := List.getElem?_eq_some_iff.1 hx
  have hle := List.boole_getElem_le_countP (p := fun x => decide (P x)) hi
  rw [List.countP_set hi]
  simp only [decide_eq_true_eq] at *
  omega

/-! ## Pins and steps -/

/-- Where pins are counted there is an entry that has them. -/
theorem Store.has_of_pinsOn {s : Store} {id : EntryId} (h : 0 < s.pinsOn id) :
    s.Has id fun e => e.pins ≠ 0 := by
  cases hx : s.get? id with
  | none =>
    rw [pinsOn_of_none hx] at h
    exact absurd h (Nat.lt_irrefl 0)
  | some e =>
    refine ⟨e, hx, fun h0 => ?_⟩
    rw [pinsOn_of_some hx, h0] at h
    exact absurd h (Nat.lt_irrefl 0)

/-- A pin is taken, or the store stays as it is. -/
theorem Store.pin_cases (s : Store) (id : EntryId) :
    (∃ e, s.get? id = some e ∧ e.pins ≠ maxPins ∧
      s.pin id = (.ok (e.pins + 1), s.update id Entry.takePin)) ∨
    ∃ err, s.pin id = (.error err, s) := by
  cases hx : s.get? id with
  | none => exact .inr ⟨_, pin_of_none hx⟩
  | some e =>
    by_cases hp : e.pins = maxPins
    · exact .inr ⟨_, pin_of_full hx hp⟩
    · exact .inl ⟨e, rfl, hp, pin_of_lt hx hp⟩

section moves

variable {p : VerificationPolicy} {s s' : Store} {x x' : Exchange} {r r' : Round}

/-- The pins of an exchange: it has one, until it gives it back. -/
theorem Exchange.Move.pinsOn (hm : Exchange.Move s x x' s')
    (hheld : ∀ i, x.holds? = some i → s.Has i fun e => e.pins ≠ 0) (j : EntryId) :
    s'.pinsOn j + (if x.holds? = some j then 1 else 0) =
      s.pinsOn j + if x'.holds? = some j then 1 else 0 := by
  cases hm with
  | read => rfl
  | unread hx | unattached hx | unpinGone hx => exact absurd hx (hheld _ rfl).ne_none
  | attach => rw [Store.pinsOn_update (f := Entry.attach _ _) fun _ => rfl]; rfl
  | @unpin i result e hx hp =>
    have hgive := Store.pinsOn_givePin hx hp j
    simp only [Exchange.holds?, Option.some.injEq, eq_comm (a := i), reduceCtorEq, if_false]
    exact hgive
  | overdrawn hx hp => exact absurd hp ((hheld _ rfl).of_get? hx)

/-- An exchange that has its pin can give it back. -/
theorem Exchange.Move.ne_stopped (hm : Exchange.Move s x x' s')
    (hheld : ∀ i, x.holds? = some i → s.Has i fun e => e.pins ≠ 0) (m : PinMisuse) :
    x' ≠ .stopped m := by
  cases hm with
  | overdrawn hx hp => exact absurd hp ((hheld _ rfl).of_get? hx)
  | read | unread | attach | unattached | unpin | unpinGone => simp

/-- A round has the pin of its exchange, and none once that is over. -/
theorem Round.holds?_ofExchange (id : EntryId) (subject : Eui64) (x : Exchange) :
    (ofExchange id subject x).holds? = x.holds? := by
  cases x with
  | finished result => cases result <;> rfl
  | pinned | agreeing | derived | settled | stopped => rfl

theorem Exchange.holds?_answer (own : Eui64) (answer : Except CryptoError SharedSecret)
    (x : Exchange) : (x.answer own answer).holds? = x.holds? := by
  cases x <;> cases answer <;> rfl

theorem Round.holds?_judge (answer : Except CryptoError Unit) (r : Round) :
    (r.judge answer).holds? = r.holds? := by
  cases r <;> rfl

theorem Round.holds?_agree (own : Eui64) (answer : Except CryptoError SharedSecret) (r : Round) :
    (r.agree own answer).holds? = r.holds? := by
  cases r with
  | exchanging id subject x => exact Exchange.holds?_answer own answer x
  | ready | found | pinned | checking | judged | released | promoted | finished => rfl

theorem Round.judge_eq_finished {answer : Except CryptoError Unit} {result : RoundResult} :
    r.judge answer = .finished result ↔ r = .finished result := by
  cases r <;> simp [judge]

theorem Round.agree_eq_finished {own : Eui64} {answer : Except CryptoError SharedSecret}
    {result : RoundResult} : r.agree own answer = .finished result ↔ r = .finished result := by
  cases r <;> simp [agree]

/-- The pins of a round: one while the backend checks the signature, one while it exchanges keys. -/
theorem Round.Move.pinsOn (hm : Round.Move p s r r' s') (hs : s.FreeVacant)
    (hheld : ∀ i, r.holds? = some i → s.Has i fun e => e.pins ≠ 0) (j : EntryId) :
    s'.pinsOn j + (if r.holds? = some j then 1 else 0) =
      s.pinsOn j + if r'.holds? = some j then 1 else 0 := by
  have take {id : EntryId} {e : Entry} (hx : s.get? id = some e) (hp : e.pins ≠ Store.maxPins) :
      (s.update id Entry.takePin).pinsOn j = s.pinsOn j + if some id = some j then 1 else 0 := by
    rw [Store.pinsOn_takePin hx hp]
    simp only [Option.some.injEq, eq_comm]
  have give {id : EntryId} {e : Entry} (hx : s.get? id = some e) (hp : e.pins ≠ 0) :
      (s.update id Entry.givePin).pinsOn j + (if some id = some j then 1 else 0) = s.pinsOn j := by
    rw [← Store.pinsOn_givePin hx hp j]
    simp only [Option.some.injEq, eq_comm]
  cases hm with
  | idle | found | full | vanished | read | missed | fullAgain | gone => rfl
  | pin hx hp | pinAgain hx hp => exact take hx hp
  | unread hx | unpinGone hx => exact absurd hx (hheld _ rfl).ne_none
  | unpin hx hp => exact give hx hp
  | overdrawn hx hp => exact absurd hp ((hheld _ rfl).of_get? hx)
  | @reject id c reason =>
    have hkeep := (Store.perform_effect hs (.discard id)).pinsOn (by simp) j
    exact congrArg (· + 0) hkeep
  | accept hx | acceptOnly hx =>
    exact congrArg (· + 0) ((Effect.promote hx).pinsOn (by simp) j)
  | exchange hm =>
    rw [holds?_ofExchange]
    exact hm.pinsOn hheld j

/-- A round that has its pin can give it back; only too many pins stop it. -/
theorem Round.Move.ne_stopped (hm : Round.Move p s r r' s')
    (hheld : ∀ i, r.holds? = some i → s.Has i fun e => e.pins ≠ 0) (subject : Eui64) :
    r' ≠ .finished (.stopped (.notPinned subject)) := by
  cases hm with
  | overdrawn hx hp => exact absurd hp ((hheld _ rfl).of_get? hx)
  | @exchange id subject' x x' _ hm =>
    have hne := hm.ne_stopped hheld
    cases x' with
    | finished result => cases result <;> simp [ofExchange]
    | stopped m => exact absurd rfl (hne m)
    | pinned | agreeing | derived | settled => simp [ofExchange]
  | idle | found | pin | full | vanished | read | unread | unpin | unpinGone | reject | missed
  | accept | acceptOnly | pinAgain | fullAgain | gone => simp

end moves

/-! ## Calls that start an exchange -/

namespace Node

theorem request_ne_exchanging (n : Node) (now : Nat) (a : Address) (x : Exchange) :
    (n.request now a).1 ≠ .exchanging x := by
  unfold request
  split
  · simp
  · split <;> simp

theorem withoutContext?_some {n : Node} {a : Address} {id : EntryId}
    (h : n.withoutContext? a = some id) : n.store.findAddress? a = some id := by
  unfold withoutContext? at h
  split at h
  · cases h
  · rename_i j hj
    split at h
    · split at h
      · rw [hj, h]
      · cases h
    · rw [hj, h]

/-- A call pins a verified entry for the exchange it starts, or it leaves the store alone. -/
theorem missingContext_cases (n : Node) (now : Nat) (a : Address) :
    (∃ id e ns, n.missingContext now a =
        (.exchanging (.pinned id), { n with store := n.store.update id Entry.takePin }, ns) ∧
      id ∈ n.store.verified ∧ n.store.get? id = some e ∧ e.pins ≠ Store.maxPins) ∨
    ((∀ x, (n.missingContext now a).1 ≠ .exchanging x) ∧
      (n.missingContext now a).2.1.store = n.store) := by
  cases hw : n.withoutContext? a with
  | none =>
    right
    simp only [missingContext, hw]
    exact ⟨request_ne_exchanging n now a, store_request n now a⟩
  | some id =>
    obtain ⟨hm, e, hx, -⟩ := Store.find?_some (withoutContext?_some hw)
    by_cases hp : e.pins = Store.maxPins
    · right
      simp only [missingContext, hw, Store.pin_of_full hx hp]
      exact ⟨request_ne_exchanging n now a, store_request n now a⟩
    · left
      simp only [missingContext, hw, Store.pin_of_lt hx hp]
      exact ⟨id, e, [], rfl, hm, hx, hp⟩

end Node

/-! ## All of them together -/

/-- A store, and those who take pins: the pipeline, the exchanges that calls have started, and clients,
with the pins they hold. -/
structure Custody where
  store : Store
  round : Round
  exchanges : List Exchange
  guards : List EntryId

namespace Custody

inductive Event where
  /-- Anyone asks the store for anything but a pin. -/
  | call (op : Op)
  /-- A client takes a pin. -/
  | hold (id : EntryId)
  /-- The guard of a pin is dropped. -/
  | drop (id : EntryId)
  /-- A secured message has come from a sender without a context; the node may be in any state. -/
  | missing (permit : Bool) (lock : TimedLock) (now : Nat) (a : Address)
  /-- The same call, held up after it has looked its entry up; anything may have become of that. -/
  | engage (id : EntryId)
  /-- The pipeline starts on the head of the queue. -/
  | start
  /-- The pipeline takes a step. -/
  | advance
  | verdict (answer : Except CryptoError Unit)
  | secret (answer : Except CryptoError SharedSecret)
  /-- An exchange takes a step. -/
  | step (i : Nat)
  /-- The backend answers an exchange. -/
  | reply (i : Nat) (answer : Except CryptoError SharedSecret)

/-- What comes of an event. Only a guard that there is can be dropped. -/
def step (p : VerificationPolicy) (t : Custody) : Event → Option Custody
  | .call (.pin _) | .call (.unpin _) => none
  | .call op => some { t with store := t.store.perform op }
  | .hold id =>
    match t.store.pin id with
    | (.ok _, s) => some { t with store := s, guards := id :: t.guards }
    | (.error _, s) => some { t with store := s }
  | .drop id =>
    if id ∈ t.guards then
      some { t with store := (t.store.dropGuard id).2, guards := t.guards.erase id }
    else none
  | .missing permit lock now a =>
    match (Node.mk t.store permit lock).missingContext now a with
    | (.exchanging x, n, _) => some { t with store := n.store, exchanges := t.exchanges ++ [x] }
    | (_, n, _) => some { t with store := n.store }
  | .engage id =>
    match t.store.pin id with
    | (.ok _, s) => some { t with store := s, exchanges := t.exchanges ++ [.pinned id] }
    | (.error _, s) => some { t with store := s }
  | .start =>
    match t.round with
    | .finished _ => some { t with round := .ready }
    | _ => none
  | .advance =>
    match t.round.step p t.store with
    | some (r, s, _) => some { t with store := s, round := r }
    | none => none
  | .verdict answer => some { t with round := t.round.judge answer }
  | .secret answer => some { t with round := t.round.agree p.self answer }
  | .step i =>
    match t.exchanges[i]? with
    | some x =>
      match x.step t.store with
      | some (x, s) => some { t with store := s, exchanges := t.exchanges.set i x }
      | none => none
    | none => none
  | .reply i answer =>
    match t.exchanges[i]? with
    | some x => some { t with exchanges := t.exchanges.set i (x.answer p.self answer) }
    | none => none

/-- Those who have a pin on the entry: clients by their guards, and each task that has taken one and not
given it back. -/
def holders (t : Custody) (id : EntryId) : Nat :=
  t.guards.count id + t.exchanges.countP (fun x => x.holds? = some id) +
    if t.round.holds? = some id then 1 else 0

/-- All tasks have ended. -/
def Over (t : Custody) : Prop :=
  (∃ result, t.round = .finished result) ∧ ∀ x ∈ t.exchanges, ∃ result, x = .finished result

/-- What holds in every run. -/
structure Sound (t : Custody) : Prop where
  freeVacant : t.store.FreeVacant
  covered : t.store.Covered
  balanced : ∀ id, t.store.pinsOn id = t.holders id
  exchanges : ∀ x ∈ t.exchanges, ∀ m, x ≠ .stopped m
  round : ∀ subject, t.round ≠ .finished (.stopped (.notPinned subject))

variable {p : VerificationPolicy} {t t' : Custody} {s' : Store} {op : Op} {id : EntryId} {e : Entry}
  {x : Exchange} {i : Nat}

/-- Whoever holds a pin can rely on it. -/
theorem Sound.pinned (h : t.Sound) (hheld : 0 < t.holders id) :
    t.store.Has id fun e => e.pins ≠ 0 :=
  Store.has_of_pinsOn (h.balanced id ▸ hheld)

theorem Sound.pinned_of_mem (h : t.Sound) (hx : x ∈ t.exchanges) (hh : x.holds? = some id) :
    t.store.Has id fun e => e.pins ≠ 0 := by
  have hcount : 0 < t.exchanges.countP fun x => x.holds? = some id :=
    List.countP_pos_iff.2 ⟨x, hx, decide_eq_true hh⟩
  refine h.pinned ?_
  unfold holders
  omega

theorem Sound.pinned_of_round (h : t.Sound) (hh : t.round.holds? = some id) :
    t.store.Has id fun e => e.pins ≠ 0 := by
  refine h.pinned ?_
  unfold holders
  rw [if_pos hh]
  omega

/-! ## What each event does -/

/-- Something is asked for that moves no pin. -/
theorem Sound.call (h : t.Sound) (hstep : t.step p (.call op) = some t') : t'.Sound := by
  have hop : t' = { t with store := t.store.perform op } ∧ ∀ i, op ≠ .pin i ∧ op ≠ .unpin i := by
    cases op with
    | pin | unpin => cases hstep
    | add | promote | discard | remove | setContext =>
      cases hstep
      exact ⟨rfl, by simp⟩
  obtain ⟨rfl, hop⟩ := hop
  have he := Store.perform_effect h.freeVacant op
  exact ⟨h.freeVacant.effect he, h.covered.effect he,
    fun id => (he.pinsOn hop id).trans (h.balanced id), h.exchanges, h.round⟩

/-- A pin is taken, by a guard or for an exchange. -/
theorem Sound.take (h : t.Sound) (hx : t.store.get? id = some e) (hp : e.pins ≠ Store.maxPins)
    {guards : List EntryId} {exchanges : List Exchange}
    (hrun : ∀ x ∈ exchanges, ∀ m, x ≠ .stopped m)
    (hone : ∀ j, holders ⟨t.store, t.round, exchanges, guards⟩ j =
      t.holders j + if id = j then 1 else 0) :
    Sound ⟨t.store.update id Entry.takePin, t.round, exchanges, guards⟩ := by
  have he : Effect t.store (.pin id) (t.store.update id Entry.takePin) := .pin hx hp
  refine ⟨h.freeVacant.effect he, h.covered.effect he, fun j => ?_, hrun, h.round⟩
  have hnew := hone j
  show (t.store.update id Entry.takePin).pinsOn j =
    holders ⟨t.store, t.round, exchanges, guards⟩ j
  rw [Store.pinsOn_takePin hx hp, hnew, h.balanced]
  simp only [eq_comm (a := j) (b := id)]

theorem Sound.hold (h : t.Sound) (hstep : t.step p (.hold id) = some t') : t'.Sound := by
  simp only [step] at hstep
  rcases t.store.pin_cases id with ⟨e, hx, hp, hpin⟩ | ⟨err, hpin⟩
  · rw [hpin] at hstep
    cases hstep
    refine h.take hx hp h.exchanges fun j => ?_
    simp only [holders, List.count_cons, beq_iff_eq]
    omega
  · rw [hpin] at hstep
    cases hstep
    exact h

theorem Sound.drop (h : t.Sound) (hstep : t.step p (.drop id) = some t') : t'.Sound := by
  simp only [step] at hstep
  split at hstep
  · rename_i hid
    cases hstep
    have hcount : 0 < t.guards.count id := List.count_pos_iff.2 hid
    have hheld : 0 < t.holders id := by
      unfold holders
      omega
    obtain ⟨e, hx, hp⟩ := h.pinned hheld
    have he : Effect t.store (.unpin id) (t.store.update id Entry.givePin) := .unpin hx hp
    rw [Store.dropGuard_of_pos hx hp]
    refine ⟨h.freeVacant.effect he, h.covered.effect he, fun j => ?_, h.exchanges, h.round⟩
    have hgive := Store.pinsOn_givePin hx hp j
    have hbal := h.balanced j
    simp only [holders, List.count_erase, beq_iff_eq] at hbal ⊢
    by_cases hj : j = id
    · subst hj
      simp only [if_true] at hgive ⊢
      omega
    · rw [if_neg hj] at hgive
      rw [if_neg (Ne.symm hj)]
      omega
  · cases hstep

/-- An exchange is started on an entry that was pinned for it. -/
theorem Sound.launch (h : t.Sound) (hx : t.store.get? id = some e) (hp : e.pins ≠ Store.maxPins) :
    Sound { t with
      store := t.store.update id Entry.takePin
      exchanges := t.exchanges ++ [.pinned id] } := by
  refine h.take hx hp (fun x hm m => ?_) fun j => ?_
  · rcases List.mem_append.1 hm with hm | hm
    · exact h.exchanges x hm m
    · rw [List.mem_singleton.1 hm]
      simp
  · simp only [holders, List.countP_append, List.countP_singleton, Exchange.holds?,
      Option.some.injEq, decide_eq_true_eq]
    omega

theorem Sound.engage (h : t.Sound) (hstep : t.step p (.engage id) = some t') : t'.Sound := by
  simp only [step] at hstep
  rcases t.store.pin_cases id with ⟨e, hx, hp, hpin⟩ | ⟨err, hpin⟩
  · rw [hpin] at hstep
    cases hstep
    exact h.launch hx hp
  · rw [hpin] at hstep
    cases hstep
    exact h

theorem Sound.missing (h : t.Sound) {permit : Bool} {lock : TimedLock} {now : Nat} {a : Address}
    (hstep : t.step p (.missing permit lock now a) = some t') : t'.Sound := by
  simp only [step] at hstep
  rcases Node.missingContext_cases ⟨t.store, permit, lock⟩ now a with
    ⟨id, e, ns, hcall, -, hx, hp⟩ | ⟨hne, hs⟩
  · rw [hcall] at hstep
    cases hstep
    exact h.launch hx hp
  · split at hstep
    · rename_i hcall
      exact absurd (by rw [hcall]) (hne _)
    · rename_i hcall
      rw [hcall] at hs
      cases hstep
      have hsame : { t with store := _ } = t := congrArg (fun s => { t with store := s }) hs
      exact hsame ▸ h

/-- The round gets further over the same store, and keeps the pin it has. -/
theorem Sound.turn (h : t.Sound) {r : Round} (hh : r.holds? = t.round.holds?)
    (hr : ∀ subject, r ≠ .finished (.stopped (.notPinned subject))) :
    Sound { t with round := r } := by
  refine ⟨h.freeVacant, h.covered, fun id => ?_, h.exchanges, hr⟩
  rw [holders, hh]
  exact h.balanced id

theorem Sound.start (h : t.Sound) (hstep : t.step p .start = some t') : t'.Sound := by
  simp only [step] at hstep
  split at hstep
  · rename_i result hround
    cases hstep
    exact h.turn (by rw [hround]; rfl) fun subject => by simp
  · cases hstep

theorem Sound.verdict (h : t.Sound) {answer : Except CryptoError Unit}
    (hstep : t.step p (.verdict answer) = some t') : t'.Sound := by
  cases hstep
  exact h.turn (Round.holds?_judge answer t.round) fun subject hcon =>
    h.round subject (Round.judge_eq_finished.1 hcon)

theorem Sound.secret (h : t.Sound) {answer : Except CryptoError SharedSecret}
    (hstep : t.step p (.secret answer) = some t') : t'.Sound := by
  cases hstep
  exact h.turn (Round.holds?_agree p.self answer t.round) fun subject hcon =>
    h.round subject (Round.agree_eq_finished.1 hcon)

/-- **A step of the pipeline.** -/
theorem Sound.advance (h : t.Sound) (hstep : t.step p .advance = some t') : t'.Sound := by
  simp only [step] at hstep
  split at hstep
  · rename_i r s ns hround
    cases hstep
    have hm := Round.move_of_step hround
    obtain ⟨op, he, -⟩ := hm.effect h.freeVacant
    refine ⟨h.freeVacant.effect he, h.covered.effect he, fun id => ?_, h.exchanges,
      hm.ne_stopped fun _ => h.pinned_of_round⟩
    have hpins := hm.pinsOn h.freeVacant (fun _ => h.pinned_of_round) id
    have hbal := h.balanced id
    simp only [holders] at hbal ⊢
    omega
  · cases hstep

/-- An exchange gets further; the store counts its pin while it has one. -/
theorem Sound.replace (h : t.Sound) (hx : t.exchanges[i]? = some x) {x' : Exchange}
    (he : Effect t.store op s')
    (hpins : ∀ j, s'.pinsOn j + (if x.holds? = some j then 1 else 0) =
      t.store.pinsOn j + if x'.holds? = some j then 1 else 0)
    (hne : ∀ m, x' ≠ .stopped m) :
    Sound { t with store := s', exchanges := t.exchanges.set i x' } := by
  refine ⟨h.freeVacant.effect he, h.covered.effect he, fun j => ?_, fun y hy => ?_, h.round⟩
  · have hcount := countP_set (P := fun x => x.holds? = some j) hx x'
    have hp := hpins j
    have hbal := h.balanced j
    simp only [holders] at hbal ⊢
    omega
  · rcases List.mem_or_eq_of_mem_set hy with hy | rfl
    · exact h.exchanges y hy
    · exact hne

/-- **A step of an exchange.** -/
theorem Sound.act (h : t.Sound) (hstep : t.step p (.step i) = some t') : t'.Sound := by
  simp only [step] at hstep
  split at hstep
  · rename_i x hx
    split at hstep
    · rename_i x' s hx'
      cases hstep
      have hm := Exchange.move_of_step hx'
      have hheld (j : EntryId) (hh : x.holds? = some j) : t.store.Has j fun e => e.pins ≠ 0 :=
        h.pinned_of_mem (List.mem_of_getElem? hx) hh
      obtain ⟨op, he, -⟩ := hm.effect ⟨0, 0⟩ p.self
      exact h.replace hx he (hm.pinsOn hheld) (hm.ne_stopped hheld)
    · cases hstep
  · cases hstep

theorem Sound.reply (h : t.Sound) {answer : Except CryptoError SharedSecret}
    (hstep : t.step p (.reply i answer) = some t') : t'.Sound := by
  simp only [step] at hstep
  split at hstep
  · rename_i x hx
    cases hstep
    refine h.replace hx (.none (.unpin ⟨0, 0⟩)) (fun j => ?_) fun m => ?_
    · rw [Exchange.holds?_answer]
    · have hne := h.exchanges x (List.mem_of_getElem? hx) m
      cases x with
      | agreeing => cases answer <;> simp [Exchange.answer]
      | pinned | derived | settled | finished | stopped => exact hne
  · cases hstep

/-- **Each event** leaves everything counted. -/
theorem Sound.step {ev : Event} (h : t.Sound) (hstep : t.step p ev = some t') : t'.Sound := by
  cases ev with
  | call => exact h.call hstep
  | hold => exact h.hold hstep
  | drop => exact h.drop hstep
  | missing => exact h.missing hstep
  | engage => exact h.engage hstep
  | start => exact h.start hstep
  | advance => exact h.advance hstep
  | verdict => exact h.verdict hstep
  | secret => exact h.secret hstep
  | step => exact h.act hstep
  | reply => exact h.reply hstep

end Custody

/-- A new store, of any capacity, and nobody at work yet. -/
def custody (p : VerificationPolicy) : System Custody Custody.Event where
  initial t := ∃ capacity a k, t = ⟨.empty capacity a k, .finished .nothing, [], []⟩
  step := Custody.step p

namespace Custody

variable {p : VerificationPolicy} {t t' : Custody} {id : EntryId} {e : Entry}

theorem Sound.of_reachable (h : (custody p).Reachable t) : t.Sound := by
  refine h.invariant ?_ fun t ev t' ht hstep => ht.step hstep
  rintro t ⟨capacity, a, k, rfl⟩
  exact ⟨Store.freeVacant_empty capacity a k, .empty capacity a k,
    fun id => Store.pinsOn_of_none (Store.get?_empty capacity a k id),
    fun x hx => absurd hx List.not_mem_nil, by simp⟩

/-- Tasks that have ended hold nothing. -/
theorem Over.holders (h : t.Over) (id : EntryId) : t.holders id = t.guards.count id := by
  obtain ⟨⟨result, hr⟩, hx⟩ := h
  have hnone : t.exchanges.countP (fun x => x.holds? = some id) = 0 := by
    refine List.countP_eq_zero.2 fun x hm => ?_
    obtain ⟨result, rfl⟩ := hx x hm
    simp [Exchange.holds?]
  rw [Custody.holders, hnone, hr]
  rfl

/-- **No pin is lost or given back twice.** In every state that tasks and clients can get to, the pins
on an entry are those that clients hold by their guards and one for each task that has taken its pin and
not given it back. Whoever has one finds the entry there and its count above zero, so that giving the
pin back takes one off and nothing else; no task has been stopped for want of it. Once all tasks have
ended, an entry that no client has pinned has no pins, and goes when it is discarded from the queue or
removed by its subject. -/
theorem holders_of_reachable (h : (custody p).Reachable t) :
    (∀ id e, t.store.get? id = some e → e.pins.toNat = t.holders id) ∧
    (∀ id, 0 < t.holders id → ∃ e, t.store.get? id = some e ∧ e.pins ≠ 0 ∧
      t.store.dropGuard id = (none, t.store.update id Entry.givePin)) ∧
    ((∀ x ∈ t.exchanges, ∀ m, x ≠ .stopped m) ∧
      ∀ subject, t.round ≠ .finished (.stopped (.notPinned subject))) ∧
    (t.Over → ∀ id e, t.store.get? id = some e → id ∉ t.guards → e.pins = 0 ∧
      (e.state = .pending → ∃ s, t.store.discard id = (.ok e.certificate, s) ∧ s.get? id = none) ∧
      (e.state = .verified → ∃ s, t.store.remove e.subject = (.ok e.certificate, s) ∧
        s.get? id = none)) := by
  have hs := Sound.of_reachable h
  refine ⟨fun id e hx => ?_, fun id hheld => ?_, ⟨hs.exchanges, hs.round⟩,
    fun hover id e hx hid => ?_⟩
  · rw [← Store.pinsOn_of_some hx]
    exact hs.balanced id
  · obtain ⟨e, hx, hp⟩ := hs.pinned hheld
    exact ⟨e, hx, hp, Store.dropGuard_of_pos hx hp⟩
  · have hzero : e.pins.toNat = 0 := by
      rw [← Store.pinsOn_of_some hx, hs.balanced, hover.holders, List.count_eq_zero.2 hid]
    have hp : e.pins = 0 := UInt32.toNat_inj.1 hzero
    refine ⟨hp, fun _ => ?_, fun hv => ?_⟩
    · exact ⟨_, Store.discard_of_zero hx hp, by rw [Store.get?_discarded hx, if_pos rfl]⟩
    · have hf := hs.covered.find?_subject hx hv
      exact ⟨_, Store.remove_of_zero hf hx hp, by rw [Store.get?_removed hx, if_pos rfl]⟩

/-- An entry in demand: a client has it, the pipeline is at its key exchange, and so is a call. -/
def crowd : List Event :=
  [.call (.add (.uniform 1) .requested), .hold ⟨0, 0⟩, .start, .advance, .advance, .advance,
    .verdict (.ok ()), .advance, .advance, .advance, .engage ⟨0, 0⟩]

/-- They leave one by one. The backend fails the pipeline, and the call gets through. -/
def parting : List Event :=
  [.advance, .secret (.error .verificationFailed), .advance, .step 0,
    .reply 0 (.ok ⟨Vector.replicate 32 0⟩), .step 0, .step 0, .drop ⟨0, 0⟩]

theorem holders_after_parting : ∃ t t' e e',
    (custody ⟨⟨Vector.replicate 8 0⟩, false⟩).run
      ⟨.empty 1 ⟨Vector.replicate 16 0⟩ ⟨Vector.replicate 64 0⟩, .finished .nothing, [], []⟩ crowd =
        some t ∧
    t.store.get? ⟨0, 0⟩ = some e ∧ t.holders ⟨0, 0⟩ = 3 ∧ e.pins.toNat = 3 ∧
    (custody ⟨⟨Vector.replicate 8 0⟩, false⟩).run t parting = some t' ∧ t'.Over ∧
    t'.store.get? ⟨0, 0⟩ = some e' ∧ e'.pins = 0 ∧
    ∃ s, t'.store.remove e'.subject = (.ok e'.certificate, s) ∧ s.get? ⟨0, 0⟩ = none := by
  have hrun : ∃ t t' e e',
      (custody ⟨⟨Vector.replicate 8 0⟩, false⟩).run
        ⟨.empty 1 ⟨Vector.replicate 16 0⟩ ⟨Vector.replicate 64 0⟩, .finished .nothing, [], []⟩ crowd =
          some t ∧
      t.store.get? ⟨0, 0⟩ = some e ∧ t.holders ⟨0, 0⟩ = 3 ∧
      (custody ⟨⟨Vector.replicate 8 0⟩, false⟩).run t parting = some t' ∧
      t'.round = .finished (.verified ⟨0, 0⟩ (Certificate.uniform 1).subject false) ∧
      t'.exchanges = [.finished (.ok ())] ∧ t'.guards = [] ∧
      t'.store.get? ⟨0, 0⟩ = some e' ∧ e'.state = .verified :=
    ⟨_, _, _, _, rfl, rfl, rfl, rfl, rfl, rfl, rfl, rfl, rfl⟩
  obtain ⟨t, t', e, e', ht, hx, hthree, ht', hround, hexch, hguards, hx', hv⟩ := hrun
  have hreach : (custody ⟨⟨Vector.replicate 8 0⟩, false⟩).Reachable t :=
    ⟨_, crowd, ⟨1, _, _, rfl⟩, ht⟩
  have hover : t'.Over := by
    refine ⟨⟨_, hround⟩, fun x hm => ⟨.ok (), ?_⟩⟩
    rw [hexch] at hm
    exact List.mem_singleton.1 hm
  obtain ⟨hcount, -⟩ := holders_of_reachable hreach
  obtain ⟨-, -, -, hend⟩ := holders_of_reachable (hreach.run ht')
  obtain ⟨hp, -, hgo⟩ := hend hover _ e' hx' (by simp [hguards])
  exact ⟨t, t', e, e', ht, hx, hthree, (hcount _ e hx).trans hthree, ht', hover, hx', hp, hgo hv⟩

end Custody
end Vouch
