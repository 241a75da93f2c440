import Vouch.Proofs.System
import Vouch.Proofs.Store.Operation
import Mathlib.Logic.Function.Basic
/-!
# Pins keep an entry in place

A `Ledger` is a store with the pins that were taken of each entry and given back since it came in. The
operations come in any order and name any ids: an entry may be promoted twice, or discarded after it
was promoted, its slot goes to the next one, and an id may even come round again.

* `Covered.effect`: through all of that an entry stands on the list that its state says, and its
  subject has no other entry.
* `Effect.pinsOn`: nothing but taking and giving back changes the number of pins.
* `Sound.perform`: so the pins on an entry are those taken less those given back.
* `pins_of_reachable`: as long as there are any the entry stays; without any it can go.
-/
namespace Vouch

namespace Store

/-! ## Where entries are listed -/

/-- Every entry is on the list that its state says, and is the only one of its subject. The lists may
name more than that. -/
structure Covered (s : Store) : Prop where
  pending : ∀ {id e}, s.get? id = some e → e.state = .pending → id ∈ s.pending
  verified : ∀ {id e}, s.get? id = some e → e.state = .verified → id ∈ s.verified
  eq_of_subject_eq : ∀ {id id' e e'}, s.get? id = some e → s.get? id' = some e' →
    e.subject = e'.subject → id = id'

namespace Covered

variable {s s' : Store}

theorem empty (capacity : Nat) (a : Address) (k : PublicKey) : (Store.empty capacity a k).Covered := by
  refine ⟨fun he => ?_, fun he => ?_, fun he => ?_⟩ <;> (rw [get?_empty] at he; cases he)

/-- Where neither look-up finds a subject, no entry has it. -/
theorem subject_ne (h : s.Covered) {subject : Eui64} (hv : s.find? subject = none)
    (hp : s.findPending? subject = none) {id : EntryId} {e : Entry} (he : s.get? id = some e) :
    e.subject ≠ subject := by
  cases hst : e.state with
  | pending => exact findPending?_none hp (h.pending he hst) he
  | verified => exact find?_none hv (h.verified he hst) he

/-- A verified entry is the one that its subject is found by. -/
theorem find?_subject (h : s.Covered) {id : EntryId} {e : Entry} (he : s.get? id = some e)
    (hv : e.state = .verified) : s.find? e.subject = some id := by
  cases hf : s.find? e.subject with
  | none => exact absurd rfl (find?_none hf (h.verified he hv) he)
  | some id' =>
    obtain ⟨-, e', he', hs⟩ := find?_some hf
    rw [h.eq_of_subject_eq he' he hs]

theorem update (h : s.Covered) (id : EntryId) {f : Entry → Entry} (hf : Entry.Keeps f) :
    (s.update id f).Covered := by
  have hget {j : EntryId} {e : Entry} (he : (s.update id f).get? j = some e) :
      ∃ e₀, s.get? j = some e₀ ∧ e.state = e₀.state ∧ e.subject = e₀.subject := by
    obtain ⟨e₀, he₀, rfl | ⟨-, rfl⟩⟩ := get?_of_get?_update he
    · exact ⟨e, he₀, rfl, rfl⟩
    · exact ⟨e₀, he₀, (hf e₀).2, hf.subject e₀⟩
  refine ⟨fun he hst => ?_, fun he hst => ?_, fun he he' hs => ?_⟩
  · obtain ⟨e₀, he₀, hst₀, -⟩ := hget he
    rw [pending_update]
    exact h.pending he₀ (hst₀ ▸ hst)
  · obtain ⟨e₀, he₀, hst₀, -⟩ := hget he
    rw [verified_update]
    exact h.verified he₀ (hst₀ ▸ hst)
  · obtain ⟨e₀, he₀, -, hs₀⟩ := hget he
    obtain ⟨e₁, he₁, -, hs₁⟩ := hget he'
    exact h.eq_of_subject_eq he₀ he₁ (by rw [← hs₀, ← hs₁, hs])

theorem fill (h : s.Covered) {id : EntryId} {free : List UInt32} {c : Certificate} {o : Origin}
    (hv : s.find? c.subject = none) (hp : s.findPending? c.subject = none)
    (hx : s.Vacant id.index) : (s.fill id free c o).Covered := by
  have hget {j : EntryId} {e : Entry} (he : (s.fill id free c o).get? j = some e) :
      j = id ∧ e = Entry.fresh c o ∨ s.get? j = some e := by
    rw [get?_fill hx] at he
    split at he
    · exact .inl ⟨‹_›, (Option.some.inj he).symm⟩
    · exact .inr he
  refine ⟨fun {j e} he hst => ?_, fun {j e} he hst => ?_, fun {j j' e e'} he he' hs => ?_⟩
  · show j ∈ s.pending ++ [id]
    rcases hget he with ⟨rfl, -⟩ | he
    · exact List.mem_append_right _ List.mem_cons_self
    · exact List.mem_append_left _ (h.pending he hst)
  · rcases hget he with ⟨-, rfl⟩ | he
    · cases hst
    · exact h.verified he hst
  · rcases hget he with ⟨rfl, rfl⟩ | hold <;> rcases hget he' with ⟨rfl, rfl⟩ | hold'
    · rfl
    · exact absurd hs.symm (h.subject_ne hv hp hold')
    · exact absurd hs (h.subject_ne hv hp hold)
    · exact h.eq_of_subject_eq hold hold' hs

theorem promoted (h : s.Covered) (id : EntryId) : (s.promoted id).Covered := by
  have hget {j : EntryId} {e : Entry} (he : (s.promoted id).get? j = some e) :
      ∃ e₀, s.get? j = some e₀ ∧ e.subject = e₀.subject ∧
        (j = id ∧ e.state = .verified ∨ j ≠ id ∧ e = e₀) := by
    rw [get?_promoted] at he
    split at he
    · rename_i hj
      obtain ⟨e₀, he₀, rfl⟩ := Option.map_eq_some_iff.1 he
      exact ⟨e₀, hj ▸ he₀, rfl, .inl ⟨hj, rfl⟩⟩
    · rename_i hj
      exact ⟨e, he, rfl, .inr ⟨hj, rfl⟩⟩
  refine ⟨fun {j e} he hst => ?_, fun {j e} he hst => ?_, fun he he' hs => ?_⟩
  · obtain ⟨e₀, he₀, -, ⟨-, hv⟩ | ⟨hj, rfl⟩⟩ := hget he
    · rw [hst] at hv
      cases hv
    · exact List.mem_filter.2 ⟨h.pending he₀ hst, decide_eq_true hj⟩
  · show j ∈ s.verified ++ [id]
    obtain ⟨e₀, he₀, -, ⟨rfl, -⟩ | ⟨-, rfl⟩⟩ := hget he
    · exact List.mem_append_right _ List.mem_cons_self
    · exact List.mem_append_left _ (h.verified he₀ hst)
  · obtain ⟨e₀, he₀, hs₀, -⟩ := hget he
    obtain ⟨e₁, he₁, hs₁, -⟩ := hget he'
    exact h.eq_of_subject_eq he₀ he₁ (by rw [← hs₀, ← hs₁, hs])

/-- An entry leaves, and perhaps its name one of the lists. -/
theorem vacate (h : s.Covered) {id : EntryId} {e : Entry} (he : s.get? id = some e)
    (hslots : s'.slots = (s.vacate id).slots) (hp : ∀ j ∈ s.pending, j ≠ id → j ∈ s'.pending)
    (hv : ∀ j ∈ s.verified, j ≠ id → j ∈ s'.verified) : s'.Covered := by
  have hget {j : EntryId} {e' : Entry} (he' : s'.get? j = some e') :
      s.get? j = some e' ∧ j ≠ id := by
    rw [get?_of_vacate hslots he] at he'
    split at he'
    · cases he'
    · exact ⟨he', ‹_›⟩
  refine ⟨fun he hst => ?_, fun he hst => ?_, fun he he' hs => ?_⟩
  · exact hp _ (h.pending (hget he).1 hst) (hget he).2
  · exact hv _ (h.verified (hget he).1 hst) (hget he).2
  · exact h.eq_of_subject_eq (hget he).1 (hget he').1 hs

/-- **One operation**, in order or not. -/
theorem effect (h : s.Covered) {op : Op} (he : Effect s op s') : s'.Covered := by
  have keeps {l : List EntryId} {id : EntryId} : ∀ j ∈ l, j ≠ id → j ∈ l.filter (· ≠ id) :=
    fun j hj hne => List.mem_filter.2 ⟨hj, decide_eq_true hne⟩
  cases he with
  | none => exact h
  | fill hv hp _ _ hx => exact h.fill hv hp hx
  | ask => exact h.update _ Entry.keeps_ask
  | pin => exact h.update _ Entry.keeps_takePin
  | unpin => exact h.update _ Entry.keeps_givePin
  | promote => exact h.promoted _
  | discard hx => exact h.vacate hx rfl keeps fun _ hj _ => hj
  | remove _ hx => exact h.vacate hx rfl (fun _ hj _ => hj) keeps
  | attach => exact h.update _ (Entry.keeps_attach _ _)

end Covered

/-! ## Pins -/

/-- The number of pins on the entry that an id names. -/
def pinsOn (s : Store) (id : EntryId) : Nat :=
  match s.get? id with
  | some e => e.pins.toNat
  | none => 0

section pinsOn

variable {s s' : Store} {id : EntryId} {e : Entry}

theorem pinsOn_of_none (h : s.get? id = none) : s.pinsOn id = 0 := by
  rw [pinsOn, h]

theorem pinsOn_of_some (h : s.get? id = some e) : s.pinsOn id = e.pins.toNat := by
  rw [pinsOn, h]

theorem pinsOn_eq_of_get?_eq (h : s'.get? id = s.get? id) : s'.pinsOn id = s.pinsOn id := by
  rw [pinsOn, pinsOn, h]

theorem pinsOn_takePin (h : s.get? id = some e) (hp : e.pins ≠ maxPins) (j : EntryId) :
    (s.update id Entry.takePin).pinsOn j = s.pinsOn j + if j = id then 1 else 0 := by
  by_cases hj : j = id
  · subst hj
    have hlt : e.pins.toNat ≠ 4294967295 := fun hc => hp (UInt32.toNat_inj.1 hc)
    have hsize := UInt32.toNat_lt e.pins
    rw [pinsOn, get?_update, if_pos rfl, h, pinsOn_of_some h, if_pos rfl]
    show (e.pins + 1).toNat = e.pins.toNat + 1
    rw [UInt32.toNat_add, UInt32.toNat_one]
    omega
  · rw [if_neg hj, pinsOn_eq_of_get?_eq (s := s) (by rw [get?_update, if_neg hj])]
    rfl

theorem pinsOn_givePin (h : s.get? id = some e) (hp : e.pins ≠ 0) (j : EntryId) :
    (s.update id Entry.givePin).pinsOn j + (if j = id then 1 else 0) = s.pinsOn j := by
  by_cases hj : j = id
  · subst hj
    have hpos : e.pins.toNat ≠ 0 := fun hc => hp (UInt32.toNat_inj.1 hc)
    have hsize := UInt32.toNat_lt e.pins
    rw [pinsOn, get?_update, if_pos rfl, h, pinsOn_of_some h, if_pos rfl]
    show (e.pins - 1).toNat + 1 = e.pins.toNat
    rw [UInt32.toNat_sub_of_le _ _ (UInt32.le_iff_toNat_le.2 (by rw [UInt32.toNat_one]; omega)),
      UInt32.toNat_one]
    omega
  · rw [if_neg hj, pinsOn_eq_of_get?_eq (s := s) (by rw [get?_update, if_neg hj])]
    rfl

theorem pinsOn_update {f : Entry → Entry} (hf : ∀ e, (f e).pins = e.pins) (j : EntryId) :
    (s.update id f).pinsOn j = s.pinsOn j := by
  by_cases hj : j = id
  · subst hj
    rw [pinsOn, get?_update, if_pos rfl, pinsOn]
    cases s.get? j with
    | none => rfl
    | some e => exact congrArg UInt32.toNat (hf e)
  · exact pinsOn_eq_of_get?_eq (by rw [get?_update, if_neg hj])

/-- An entry without pins goes. -/
theorem pinsOn_of_vacate (hs : s'.slots = (s.vacate id).slots) (h : s.get? id = some e)
    (hp : e.pins = 0) (j : EntryId) : s'.pinsOn j = s.pinsOn j := by
  by_cases hj : j = id
  · subst hj
    rw [pinsOn_of_none (by rw [get?_of_vacate hs h, if_pos rfl]), pinsOn_of_some h, hp]
    rfl
  · exact pinsOn_eq_of_get?_eq (by rw [get?_of_vacate hs h, if_neg hj])

/-- Nothing but taking and giving back changes the number of pins: an entry comes and goes without
any. -/
theorem Effect.pinsOn {op : Op} (he : Effect s op s') (hop : ∀ i, op ≠ .pin i ∧ op ≠ .unpin i)
    (j : EntryId) : s'.pinsOn j = s.pinsOn j := by
  cases he with
  | none => rfl
  | @fill c o id free _ _ _ _ hx =>
    by_cases hj : j = id
    · subst hj
      rw [pinsOn_of_none (get?_of_vacant hx), pinsOn_of_some (e := Entry.fresh c o)]
      · rfl
      · rw [get?_fill hx, if_pos rfl]
    · exact pinsOn_eq_of_get?_eq (by rw [get?_fill hx, if_neg hj])
  | ask => exact pinsOn_update (f := Entry.ask) (fun _ => rfl) j
  | pin => exact absurd rfl (hop _).1
  | unpin => exact absurd rfl (hop _).2
  | promote => exact pinsOn_update (f := Entry.accept) (fun _ => rfl) j
  | discard hx hp => exact pinsOn_of_vacate rfl hx hp j
  | remove _ hx hp => exact pinsOn_of_vacate rfl hx hp j
  | attach => exact pinsOn_update (f := Entry.attach _ _) (fun _ => rfl) j

/-- A pinned entry keeps its place and its certificate, whatever is done. -/
theorem Effect.certificate_of_pinned {op : Op} (he : Effect s op s') (h : s.get? id = some e)
    (hp : e.pins ≠ 0) : ∃ e', s'.get? id = some e' ∧ e'.certificate = e.certificate := by
  rcases he.kept_or_vacated h with ⟨e', h', hst⟩ | ⟨-, hzero, -⟩
  · exact ⟨e', h', hst.certificate⟩
  · exact absurd hzero hp

theorem isPinned_iff : s.isPinned id = true ↔ ∃ e, s.get? id = some e ∧ e.pins ≠ 0 := by
  unfold isPinned
  cases s.get? id <;> simp [UInt32.pos_iff_ne_zero]

end pinsOn

end Store

/-! ## The ledger -/

/-- A store, and how many pins of each entry were taken and given back since it came in. -/
structure Ledger where
  store : Store
  taken : EntryId → Nat
  given : EntryId → Nat

namespace Ledger

open Store (Op Effect)

def new (capacity : Nat) (a : Address) (k : PublicKey) : Ledger :=
  ⟨.empty capacity a k, fun _ => 0, fun _ => 0⟩

/-- An operation; what it came to is entered. A new entry has an empty account, whoever had its id
before. -/
def perform (l : Ledger) : Op → Ledger
  | .add c o =>
    match l.store.add c o with
    | (.ok (.enqueued id), s) => ⟨s, Function.update l.taken id 0, Function.update l.given id 0⟩
    | (_, s) => { l with store := s }
  | .pin id =>
    match l.store.pin id with
    | (.ok _, s) => { l with store := s, taken := Function.update l.taken id (l.taken id + 1) }
    | (.error _, s) => { l with store := s }
  | .unpin id =>
    match l.store.unpin id with
    | (.ok _, s) => { l with store := s, given := Function.update l.given id (l.given id + 1) }
    | (.error _, s) => { l with store := s }
  | op => { l with store := l.store.perform op }

theorem store_perform (l : Ledger) (op : Op) : (l.perform op).store = l.store.perform op := by
  cases op with
  | add c o =>
    simp only [perform, Store.perform]
    split <;> simp_all
  | pin id =>
    simp only [perform, Store.perform]
    split <;> simp_all
  | unpin id =>
    simp only [perform, Store.perform]
    split <;> simp_all
  | promote | discard | remove | setContext => rfl

/-- The pins on each entry are those taken less those given back. -/
def Balanced (l : Ledger) : Prop :=
  ∀ id e, l.store.get? id = some e → l.store.pinsOn id + l.given id = l.taken id

variable {l l' : Ledger}

/-- Where no entry is new and no pin moves, the accounts stay as they are. -/
theorem Balanced.keep {s : Store} (h : l.Balanced)
    (hget : ∀ id e', s.get? id = some e' → ∃ e, l.store.get? id = some e)
    (hpins : ∀ id, s.pinsOn id = l.store.pinsOn id) : Balanced { l with store := s } := by
  intro id e' he'
  obtain ⟨e, he⟩ := hget id e' he'
  show s.pinsOn id + l.given id = l.taken id
  rw [hpins]
  exact h id e he

theorem Balanced.add (h : l.Balanced) (hs : l.store.FreeVacant) (c : Certificate) (o : Origin) :
    (l.perform (.add c o)).Balanced := by
  have same : Balanced { l with store := l.store } := h
  cases hv : l.store.find? c.subject with
  | some id => simpa only [perform, Store.add_of_verified hv] using same
  | none =>
    cases hp : l.store.findPending? c.subject with
    | some id =>
      simp only [perform, Store.add_of_pending hv hp]
      cases o with
      | unsolicited => exact same
      | requested =>
        refine h.keep (fun j e' he' => ?_) (Store.pinsOn_update (f := Entry.ask) fun _ => rfl)
        obtain ⟨e, he, -⟩ := Store.get?_of_get?_update he'
        exact ⟨e, he⟩
    | none =>
      cases hf : l.store.free with
      | nil => simpa only [perform, Store.add_of_full hv hp hf] using same
      | cons i free =>
        -- The new entry has no pins, and neither had the empty slot.
        obtain ⟨g, hslot⟩ := hs.vacant i (hf ▸ List.mem_cons_self)
        have hx : l.store.Vacant (EntryId.mk i g).index := ⟨g, hslot⟩
        have hg := Store.generation?_of_slot hslot
        have he : Effect l.store (.add c o) (l.store.fill ⟨i, g⟩ free c o) := .fill hv hp hf hg hx
        have hpins := he.pinsOn (by intro j; constructor <;> intro hc <;> cases hc)
        simp only [perform, Store.add_of_free hv hp hf hg]
        intro j e he
        show (l.store.fill ⟨i, g⟩ free c o).pinsOn j + Function.update l.given ⟨i, g⟩ 0 j =
          Function.update l.taken ⟨i, g⟩ 0 j
        rw [hpins]
        by_cases hj : j = ⟨i, g⟩
        · subst hj
          rw [Store.pinsOn_of_none (Store.get?_of_vacant hx)]
          simp
        · rw [Function.update_of_ne hj, Function.update_of_ne hj]
          rw [show (l.store.fill ⟨i, g⟩ free c o).get? j = l.store.get? j by
            rw [Store.get?_fill hx, if_neg hj]] at he
          exact h j e he

theorem Balanced.pin (h : l.Balanced) (id : EntryId) : (l.perform (.pin id)).Balanced := by
  have same : Balanced { l with store := l.store } := h
  cases hx : l.store.get? id with
  | none => simpa only [perform, Store.pin_of_none hx] using same
  | some e =>
    by_cases hp : e.pins = Store.maxPins
    · simpa only [perform, Store.pin_of_full hx hp] using same
    · simp only [perform, Store.pin_of_lt hx hp]
      intro j e' he'
      obtain ⟨e₀, he₀, -⟩ := Store.get?_of_get?_update he'
      have hold := h j e₀ he₀
      have hnew := Store.pinsOn_takePin hx hp j
      show (l.store.update id Entry.takePin).pinsOn j + l.given j =
        Function.update l.taken id (l.taken id + 1) j
      by_cases hj : j = id
      · subst hj
        rw [Function.update_self]
        rw [if_pos rfl] at hnew
        omega
      · rw [Function.update_of_ne hj]
        rw [if_neg hj] at hnew
        omega

theorem Balanced.unpin (h : l.Balanced) (id : EntryId) : (l.perform (.unpin id)).Balanced := by
  have same : Balanced { l with store := l.store } := h
  cases hx : l.store.get? id with
  | none => simpa only [perform, Store.unpin_of_none hx] using same
  | some e =>
    by_cases hp : e.pins = 0
    · simpa only [perform, Store.unpin_of_zero hx hp] using same
    · simp only [perform, Store.unpin_of_pos hx hp]
      intro j e' he'
      obtain ⟨e₀, he₀, -⟩ := Store.get?_of_get?_update he'
      have hold := h j e₀ he₀
      have hnew := Store.pinsOn_givePin hx hp j
      show (l.store.update id Entry.givePin).pinsOn j +
        Function.update l.given id (l.given id + 1) j = l.taken j
      by_cases hj : j = id
      · subst hj
        rw [Function.update_self]
        rw [if_pos rfl] at hnew
        omega
      · rw [Function.update_of_ne hj]
        rw [if_neg hj] at hnew
        omega

/-- Promoting, discarding, removing and attaching make no entry and move no pin. -/
theorem Balanced.other (h : l.Balanced) {op : Op} {s : Store} (he : Effect l.store op s)
    (hadd : ∀ c o, op ≠ .add c o) (hop : ∀ i, op ≠ .pin i ∧ op ≠ .unpin i) :
    Balanced { l with store := s } := by
  refine h.keep (fun id e' hx' => ?_) (he.pinsOn hop)
  rcases he.get?_cases hx' with ⟨e, hx, -⟩ | ⟨c, o, hc, -⟩
  · exact ⟨e, hx⟩
  · exact absurd hc (hadd c o)

/-- What holds in every run. -/
structure Sound (l : Ledger) : Prop where
  freeVacant : l.store.FreeVacant
  covered : l.store.Covered
  balanced : l.Balanced

theorem sound_new (capacity : Nat) (a : Address) (k : PublicKey) : (new capacity a k).Sound where
  freeVacant := Store.freeVacant_empty capacity a k
  covered := .empty capacity a k
  balanced id e he := by
    rw [show (new capacity a k).store.get? id = none from Store.get?_empty capacity a k id] at he
    cases he

/-- **One operation**, entered. -/
theorem Sound.perform (h : l.Sound) (op : Op) : (l.perform op).Sound := by
  obtain ⟨hs, hc, hb⟩ := h
  have he := Store.perform_effect hs op
  refine ⟨?_, ?_, ?_⟩
  · rw [store_perform]
    exact hs.effect he
  · rw [store_perform]
    exact hc.effect he
  · cases op with
    | add c o => exact hb.add hs c o
    | pin id => exact hb.pin id
    | unpin id => exact hb.unpin id
    | promote | discard | remove | setContext =>
      refine hb.other he (fun c o hc => by cases hc) fun i => ⟨fun hc => ?_, fun hc => ?_⟩
      · cases hc
      · cases hc

end Ledger

/-- The runs of a store, with any operations in any order. -/
def ledger : System Ledger Store.Op where
  initial l := ∃ capacity a k, l = .new capacity a k
  step l op := some (l.perform op)

namespace Ledger

open Store (Op Effect)

variable {l l' : Ledger}

theorem Sound.of_reachable (h : ledger.Reachable l) : l.Sound := by
  refine h.invariant ?_ ?_
  · rintro l ⟨capacity, a, k, rfl⟩
    exact sound_new capacity a k
  · intro l op l' hl hstep
    cases hstep
    exact hl.perform op

/-- An entry that is pinned before every operation of a run keeps its place and its certificate. -/
theorem Sound.certificate_of_run {ops : List Op} {id : EntryId} {e : Entry} (h : l.Sound)
    (hx : l.store.get? id = some e)
    (hpin : ∀ n < ops.length, ∀ m, ledger.run l (ops.take n) = some m → m.store.isPinned id = true)
    (hrun : ledger.run l ops = some l') :
    ∃ e', l'.store.get? id = some e' ∧ e'.certificate = e.certificate := by
  induction ops generalizing l e with
  | nil =>
    cases hrun
    exact ⟨e, hx, rfl⟩
  | cons op ops ih =>
    obtain ⟨e₀, hx₀, hp⟩ := Store.isPinned_iff.1 (hpin 0 (Nat.zero_lt_succ _) l rfl)
    rw [hx, Option.some.injEq] at hx₀
    subst hx₀
    obtain ⟨e₁, hx₁, hc₁⟩ := (Store.perform_effect h.freeVacant op).certificate_of_pinned hx hp
    rw [← store_perform] at hx₁
    obtain ⟨e', hx', hc'⟩ := ih (h.perform op) hx₁
      (fun n hn m hm => hpin (n + 1) (Nat.succ_lt_succ hn) m hm) hrun
    exact ⟨e', hx', hc'.trans hc₁⟩

/-- **Pins protect.** After every run the pins on an entry are those taken of it since it came in,
less those given back. While there are any, it is neither discarded nor removed: both are refused
with its subject and the number of its pins, the store is left as it was, and the entry is there with
its certificate for as long as that goes on. While there are none, nobody can give one back, a waiting
entry can be discarded, and a verified one, which its subject is found by, can be removed. -/
theorem pins_of_reachable (h : ledger.Reachable l) :
    (∀ id e, l.store.get? id = some e → e.pins.toNat + l.given id = l.taken id ∧
      (e.state = .verified → l.store.find? e.subject = some id)) ∧
    (∀ id e, l.store.get? id = some e → e.pins ≠ 0 →
      l.store.discard id = (.error (.pinned e.subject e.pins), l.store) ∧
      (∀ subject, l.store.find? subject = some id →
        l.store.remove subject = (.error (.pinned e.subject e.pins), l.store)) ∧
      ∀ ops l', (∀ n < ops.length, ∀ m, ledger.run l (ops.take n) = some m →
          m.store.isPinned id = true) → ledger.run l ops = some l' →
        ∃ e', l'.store.get? id = some e' ∧ e'.certificate = e.certificate) ∧
    (∀ id e, l.store.get? id = some e → e.pins = 0 →
      l.store.unpin id = (.error (.misuse (.notPinned e.subject)), l.store) ∧
      (e.state = .pending → ∃ s, l.store.discard id = (.ok e.certificate, s) ∧ s.get? id = none) ∧
      (e.state = .verified → ∃ s, l.store.remove e.subject = (.ok e.certificate, s) ∧
        s.get? id = none)) := by
  have hl := Sound.of_reachable h
  refine ⟨fun id e hx => ⟨?_, hl.covered.find?_subject hx⟩, fun id e hx hp => ⟨?_, ?_, ?_⟩,
    fun id e hx hp => ⟨?_, fun _ => ?_, fun hv => ?_⟩⟩
  · rw [← Store.pinsOn_of_some hx]
    exact hl.balanced id e hx
  · exact Store.discard_of_pinned hx hp
  · exact fun subject hf => Store.remove_of_pinned hf hx hp
  · exact fun ops l' hpin hrun => hl.certificate_of_run hx hpin hrun
  · exact Store.unpin_of_zero hx hp
  · exact ⟨_, Store.discard_of_zero hx hp, by rw [Store.get?_discarded hx, if_pos rfl]⟩
  · have hf := hl.covered.find?_subject hx hv
    exact ⟨_, Store.remove_of_zero hf hx hp, by rw [Store.get?_removed hx, if_pos rfl]⟩

/-- An entry that is pinned twice outlives a removal and goes after its last pin. The next one in its
slot starts anew, and neither the old id nor a discard touches it. -/
def reuse : List Op :=
  [.add (.uniform 1) .unsolicited, .pin ⟨0, 0⟩, .pin ⟨0, 0⟩, .promote ⟨0, 0⟩, .unpin ⟨0, 0⟩,
    .remove (Certificate.uniform 1).subject, .unpin ⟨0, 0⟩, .remove (Certificate.uniform 1).subject,
    .add (.uniform 2) .requested, .pin ⟨0, 1⟩, .pin ⟨0, 0⟩, .discard ⟨0, 1⟩]

theorem pins_after_reuse : ∃ l e,
    ledger.run (.new 1 ⟨Vector.replicate 16 0⟩ ⟨Vector.replicate 64 0⟩) reuse = some l ∧
    l.store.get? ⟨0, 1⟩ = some e ∧ e.certificate = .uniform 2 ∧ l.taken ⟨0, 1⟩ = 1 ∧
    l.given ⟨0, 1⟩ = 0 ∧ e.pins.toNat = 1 ∧
    l.store.discard ⟨0, 1⟩ = (.error (.pinned e.subject e.pins), l.store) := by
  have hrun : ∃ l e,
      ledger.run (.new 1 ⟨Vector.replicate 16 0⟩ ⟨Vector.replicate 64 0⟩) reuse = some l ∧
      l.store.get? ⟨0, 1⟩ = some e ∧ e.certificate = .uniform 2 ∧ l.taken ⟨0, 1⟩ = 1 ∧
      l.given ⟨0, 1⟩ = 0 ∧ e.pins ≠ 0 := ⟨_, _, rfl, rfl, rfl, rfl, rfl, by decide⟩
  obtain ⟨l, e, hl, hx, hc, ht, hg, hp⟩ := hrun
  obtain ⟨hcount, hheld, -⟩ := pins_of_reachable ⟨_, reuse, ⟨1, _, _, rfl⟩, hl⟩
  obtain ⟨hpins, -⟩ := hcount _ e hx
  exact ⟨l, e, hl, hx, hc, ht, hg, by omega, (hheld _ e hx hp).1⟩

end Ledger
end Vouch
