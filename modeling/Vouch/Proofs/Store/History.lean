import Vouch.Proofs.Store.Operation
/-!
# How often slots are released

An id carries the generation of its slot, thirty-two bits wide. A `History` counts the releases of
each slot beside the store, without a bound, so that it can be said when the bits suffice: an id that
was issued is not issued again before its slot has been released 2^32 times.

* `Counted.effect`: the generation of a slot is the number of its releases, as far as it has room.
* `Issued.effect`: an id once issued stays issued.
* `not_issued_of_vacant`: so the id of a new entry is one that was never issued.
-/
namespace Vouch

/-- A store with the number of times each of its slots was released. -/
structure History where
  store : Store
  releases : UInt32 → Nat

namespace History

open Store (Op Effect)

/-- The store moves on; a slot was released if its generation is another one. -/
def next (h : History) (s : Store) : History where
  store := s
  releases i := h.releases i + if s.generation? i = h.store.generation? i then 0 else 1

/-- No slot was released so often that its generations began anew. -/
def Bounded (h : History) : Prop := ∀ i, h.releases i < UInt32.size

/-- Generations are numbers of releases. -/
def Counted (h : History) : Prop :=
  ∀ i g, h.store.generation? i = some g → g = UInt32.ofNat (h.releases i)

/-- The id names an entry, or one that its slot has lost since. -/
def Issued (h : History) (id : EntryId) : Prop :=
  id.generation.toNat < h.releases id.index ∨ ∃ e, h.store.get? id = some e

def new (capacity : Nat) (a : Address) (k : PublicKey) : History :=
  ⟨.empty capacity a k, fun _ => 0⟩

variable {h : History} {s' : Store} {op : Op}

@[simp] theorem store_next : (h.next s').store = s' := rfl

/-- Changing an entry in place releases nothing. -/
theorem next_update (id : EntryId) (f : Entry → Entry) :
    h.next (h.store.update id f) = { h with store := h.store.update id f } := by
  simp [next]

theorem releases_le_next (i : UInt32) : h.releases i ≤ (h.next s').releases i := Nat.le_add_right _ _

theorem releases_next_le (i : UInt32) : (h.next s').releases i ≤ h.releases i + 1 := by
  simp only [next]
  split <;> omega

theorem Bounded.of_next (hb : (h.next s').Bounded) : h.Bounded := fun i =>
  Nat.lt_of_le_of_lt (releases_le_next i) (hb i)

theorem counted_new (capacity : Nat) (a : Address) (k : PublicKey) : (new capacity a k).Counted := by
  intro i g hg
  obtain ⟨slot, hs, rfl⟩ := Option.map_eq_some_iff.1 hg
  have := List.getElem?_eq_some_iff.1 (show (List.replicate capacity (⟨0, none⟩ : Slot))[i.toNat]? =
    some slot from hs)
  simp only [List.getElem_replicate] at this
  rw [← this.2]
  rfl

/-! ## Effects on the generations -/

/-- A release advances the generation of one slot; nothing else advances any. -/
theorem generation?_effect (he : Effect h.store op s') (i : UInt32) :
    s'.generation? i = h.store.generation? i ∨
      ∃ id e, id.index = i ∧ h.store.get? id = some e ∧ s'.get? id = none ∧
        s'.generation? i = some (id.generation + 1) := by
  have taken {s' : Store} {id : EntryId} {e : Entry} (hs : s'.slots = (h.store.vacate id).slots)
      (hx : h.store.get? id = some e) : s'.generation? i = h.store.generation? i ∨
        ∃ id e, id.index = i ∧ h.store.get? id = some e ∧ s'.get? id = none ∧
          s'.generation? i = some (id.generation + 1) := by
    by_cases hi : i = id.index
    · refine .inr ⟨id, e, hi.symm, hx, ?_, ?_⟩
      · rw [Store.get?_of_vacate hs hx, if_pos rfl]
      · rw [Store.generation?_of_vacate hs hx, if_pos hi]
    · exact .inl (by rw [Store.generation?_of_vacate hs hx, if_neg hi])
  cases he with
  | none => exact .inl rfl
  | fill _ _ _ hg hx => exact .inl (Store.generation?_fill hg hx i)
  | ask => exact .inl (Store.generation?_update i)
  | pin => exact .inl (Store.generation?_update i)
  | unpin => exact .inl (Store.generation?_update i)
  | attach => exact .inl (Store.generation?_update i)
  | promote => exact .inl (Store.generation?_promoted i)
  | discard hx => exact taken rfl hx
  | remove _ hx => exact taken rfl hx

theorem succ_ne_self (g : UInt32) : g + 1 ≠ g := by
  intro hg
  have := congrArg UInt32.toNat hg
  rw [UInt32.toNat_add, UInt32.toNat_one] at this
  have := UInt32.toNat_lt g
  omega

theorem Counted.effect (hc : h.Counted) (he : Effect h.store op s') : (h.next s').Counted := by
  intro i g hg
  rw [store_next] at hg
  rcases generation?_effect he i with hsame | ⟨id, e, rfl, hx, -, hnew⟩
  · simp only [next, hsame, if_true, Nat.add_zero]
    exact hc i g (hsame ▸ hg)
  · have hold := Store.generation?_of_get? hx
    have hne : s'.generation? id.index ≠ h.store.generation? id.index := by
      rw [hnew, hold]
      exact fun hcon => succ_ne_self _ (Option.some.inj hcon)
    rw [hnew, Option.some.injEq] at hg
    simp only [next, if_neg hne]
    rw [← hg, hc _ _ hold, UInt32.ofNat_add]
    rfl

/-- The slot of an entry that stays is not released. -/
theorem releases_of_kept {id : EntryId} {e e' : Entry} (hx : h.store.get? id = some e)
    (hx' : s'.get? id = some e') : (h.next s').releases id.index = h.releases id.index := by
  have hsame : s'.generation? id.index = h.store.generation? id.index := by
    rw [Store.generation?_of_get? hx, Store.generation?_of_get? hx']
  simp only [next, if_pos hsame, Nat.add_zero]

theorem releases_of_vacate {id : EntryId} {e : Entry} (hx : h.store.get? id = some e)
    (hs : s'.slots = (h.store.vacate id).slots) :
    (h.next s').releases id.index = h.releases id.index + 1 := by
  have hne : s'.generation? id.index ≠ h.store.generation? id.index := by
    rw [Store.generation?_of_vacate hs hx, if_pos rfl, Store.generation?_of_get? hx]
    exact fun hcon => succ_ne_self _ (Option.some.inj hcon)
  simp only [next, if_neg hne]

/-! ## Issued ids -/

theorem Issued.effect (hc : h.Counted) (he : Effect h.store op s') {id : EntryId}
    (hi : h.Issued id) : (h.next s').Issued id := by
  rcases hi with hlt | ⟨e, hx⟩
  · exact .inl (Nat.lt_of_lt_of_le hlt (releases_le_next _))
  · rcases he.kept_or_vacated hx with ⟨e', hx', -⟩ | ⟨hs, -, -⟩
    · exact .inr ⟨e', hx'⟩
    · -- The slot has now been released once more than the id says.
      have hold := Store.generation?_of_get? hx
      have hle : id.generation.toNat ≤ h.releases id.index := by
        rw [hc _ _ hold, UInt32.toNat_ofNat']
        exact Nat.mod_le _ _
      left
      rw [releases_of_vacate hx hs]
      omega

/-- The id that an empty slot would give its next entry has not been issued. -/
theorem not_issued_of_vacant (hc : h.Counted) (hb : h.Bounded) {id : EntryId}
    (hg : h.store.generation? id.index = some id.generation) (hv : h.store.Vacant id.index) :
    ¬ h.Issued id := by
  rintro (hlt | ⟨e, hx⟩)
  · rw [hc _ _ hg, UInt32.toNat_ofNat', Nat.mod_eq_of_lt (hb id.index)] at hlt
    exact Nat.lt_irrefl _ hlt
  · rw [Store.get?_of_vacant hv] at hx
    cases hx

end History

end Vouch
