import Vouch.Proofs.Store.Consistency
import Vouch.Proofs.Store.History
/-!
# The queue is up to date

`Current` is what a pipeline needs of the two lists: the queue names entries that wait, each once, and
nothing on the verified list names one that does not. An operation keeps it unless a new entry gets an
id that is still listed as verified (`Spent`). There are two ways to be sure that none does, and
`Attainable` allows for both: entries leave the lists when they leave the store, as long as only
waiting ones are promoted and discarded; or no slot runs out of generations.

* `Current.effect`: one operation, whatever it names.
* `Current.of_attainable`: any number of them. There is no bound on the capacity.
-/
namespace Vouch

namespace Store

/-- The queue names waiting entries, each once, and the verified list no others than verified ones. -/
structure Current (s : Store) : Prop where
  nodup : s.pending.Nodup
  pending : ∀ id ∈ s.pending, ∃ e, s.get? id = some e ∧ e.state = .pending
  verified : ∀ id ∈ s.verified, ∀ e, s.get? id = some e → e.state = .verified

/-- No empty slot is about to give out an id that is on the verified list. -/
def Spent (s : Store) : Prop :=
  ∀ id ∈ s.verified, s.Vacant id.index → s.generation? id.index ≠ some id.generation

namespace Current

variable {s s' : Store} {op : Op}

theorem empty (capacity : Nat) (a : Address) (k : PublicKey) : (Store.empty capacity a k).Current :=
  ⟨List.nodup_nil, fun _ hm => absurd hm List.not_mem_nil, fun _ hm => absurd hm List.not_mem_nil⟩

/-- Nothing is on both lists. -/
theorem ne_of_mem (h : s.Current) {id j : EntryId} {e : Entry} (hid : id ∈ s.verified)
    (hx : s.get? id = some e) (hj : j ∈ s.pending) : j ≠ id := by
  rintro rfl
  obtain ⟨e', hx', hw⟩ := h.pending j hj
  have hv := h.verified j hid e' hx'
  rw [hw] at hv
  cases hv

theorem update (h : s.Current) (id : EntryId) {f : Entry → Entry} (hf : Entry.Keeps f) :
    (s.update id f).Current := by
  refine ⟨by rw [pending_update]; exact h.nodup, fun j hj => ?_, fun j hj e hx => ?_⟩
  · rw [pending_update] at hj
    obtain ⟨e, hx, hw⟩ := h.pending j hj
    rw [get?_update]
    split
    · rename_i hid
      exact ⟨f e, by rw [← hid, hx]; rfl, (hf e).2.trans hw⟩
    · exact ⟨e, hx, hw⟩
  · rw [verified_update] at hj
    obtain ⟨e₀, hx₀, rfl | ⟨-, rfl⟩⟩ := get?_of_get?_update hx
    · exact h.verified j hj e hx₀
    · exact (hf e₀).2.trans (h.verified j hj e₀ hx₀)

theorem fill (h : s.Current) (hn : s.Spent) {id : EntryId} {free : List UInt32} {c : Certificate}
    {o : Origin} (hg : s.generation? id.index = some id.generation) (hx : s.Vacant id.index) :
    (s.fill id free c o).Current := by
  have hnew : id ∉ s.pending := fun hm => by
    obtain ⟨e, he, -⟩ := h.pending id hm
    rw [get?_of_vacant hx] at he
    cases he
  refine ⟨?_, fun j hj => ?_, fun j hj e he => ?_⟩
  · exact List.nodup_append.2 ⟨h.nodup, List.nodup_singleton id, fun j hj j' hj' hc =>
      hnew (List.mem_singleton.1 hj' ▸ hc ▸ hj)⟩
  · rw [get?_fill hx]
    split
    · exact ⟨_, rfl, rfl⟩
    · rename_i hid
      rcases List.mem_append.1 hj with hj | hj
      · exact h.pending j hj
      · exact absurd (List.mem_singleton.1 hj) hid
  · rw [get?_fill hx] at he
    split at he
    · rename_i hid
      exact absurd hg (hn id (hid ▸ hj) hx)
    · exact h.verified j hj e he

/-- The promoted entry may be on the verified list already. -/
theorem promoted (h : s.Current) (id : EntryId) : (s.promoted id).Current := by
  refine ⟨h.nodup.filter _, fun j hj => ?_, fun j hj e hx => ?_⟩
  · have hj : j ∈ s.pending.filter (· ≠ id) := hj
    obtain ⟨hj, hid⟩ := List.mem_filter.1 hj
    rw [get?_promoted, if_neg (of_decide_eq_true hid)]
    exact h.pending j hj
  · rw [get?_promoted] at hx
    split at hx
    · obtain ⟨e₀, -, rfl⟩ := Option.map_eq_some_iff.1 hx
      rfl
    · rename_i hid
      have hj : j ∈ s.verified ++ [id] := hj
      rcases List.mem_append.1 hj with hj | hj
      · exact h.verified j hj e hx
      · exact absurd (List.mem_singleton.1 hj) hid

/-- An entry leaves, and no id of it stays in the queue. -/
theorem vacate (h : s.Current) {id : EntryId} {e : Entry} (he : s.get? id = some e)
    (hslots : s'.slots = (s.vacate id).slots) (hn : s'.pending.Nodup)
    (hp : ∀ j ∈ s'.pending, j ∈ s.pending ∧ j ≠ id) (hv : ∀ j ∈ s'.verified, j ∈ s.verified) :
    s'.Current := by
  refine ⟨hn, fun j hj => ?_, fun j hj e' hx => ?_⟩
  · obtain ⟨hj, hid⟩ := hp j hj
    rw [get?_of_vacate hslots he, if_neg hid]
    exact h.pending j hj
  · rw [get?_of_vacate hslots he] at hx
    split at hx
    · cases hx
    · exact h.verified j (hv j hj) e' hx

/-- **One operation.** -/
theorem effect (h : s.Current) (hn : s.Spent) (he : Effect s op s') : s'.Current := by
  cases he with
  | none => exact h
  | fill _ _ _ hg hx => exact h.fill hn hg hx
  | ask => exact h.update _ Entry.keeps_ask
  | pin => exact h.update _ Entry.keeps_takePin
  | unpin => exact h.update _ Entry.keeps_givePin
  | attach => exact h.update _ (Entry.keeps_attach _ _)
  | promote => exact h.promoted _
  | discard hx =>
    refine h.vacate hx rfl (h.nodup.filter _) (fun j hj => ?_) fun _ hj => hj
    obtain ⟨hj, hid⟩ := List.mem_filter.1 hj
    exact ⟨hj, of_decide_eq_true hid⟩
  | remove hf hx =>
    have hm := (find?_some hf).1
    exact h.vacate hx rfl h.nodup (fun j hj => ⟨hj, h.ne_of_mem hm hx hj⟩)
      fun j hj => (List.mem_filter.1 hj).1

end Current

/-! ## Promoting and discarding in order -/

/-- A store in which every verified id still names its entry. -/
structure Tended (s : Store) : Prop where
  freeVacant : s.FreeVacant
  current : s.Current
  listed : ∀ id ∈ s.verified, ∃ e, s.get? id = some e

theorem Tended.spent {s : Store} (h : s.Tended) : s.Spent := by
  intro id hm hv
  obtain ⟨e, hx⟩ := h.listed id hm
  rw [get?_of_vacant hv] at hx
  cases hx

theorem tended_empty (capacity : Nat) (a : Address) (k : PublicKey) :
    (empty capacity a k).Tended :=
  ⟨freeVacant_empty capacity a k, .empty capacity a k, fun _ hm => absurd hm List.not_mem_nil⟩

theorem Tended.effect {s s' : Store} {op : Op} (h : s.Tended) (ho : s.Orderly op)
    (he : Effect s op s') : s'.Tended := by
  refine ⟨h.freeVacant.effect he, h.current.effect h.spent he, fun id hm => ?_⟩
  have hold : ∃ e, s.get? id = some e := by
    rcases he.mem_verified hm with hm | ⟨-, hx⟩
    · exact h.listed id hm
    · exact hx
  obtain ⟨e, hx⟩ := hold
  rcases he.kept_or_vacated hx with ⟨e', hx', -⟩ | ⟨-, -, rfl | ⟨subject, rfl, hf⟩⟩
  · exact ⟨e', hx'⟩
  · -- Only a waiting entry is discarded, and no verified id names one.
    cases he with
    | none => exact ⟨e, hx⟩
    | discard => exact absurd rfl (h.current.ne_of_mem hm hx ho)
  · cases he with
    | none => exact ⟨e, hx⟩
    | @remove _ j _ hf' =>
      rw [hf, Option.some.injEq] at hf'
      subst hf'
      exact absurd rfl (of_decide_eq_true (List.mem_filter.1 hm).2)

/-- The runs in which only waiting entries are promoted and discarded. -/
def tended : System Store Op where
  initial s := ∃ capacity a k, s = empty capacity a k
  step s op := if s.Orderly op then some (s.perform op) else none

theorem Tended.of_reachable {s : Store} (h : tended.Reachable s) : s.Tended := by
  refine h.invariant ?_ ?_
  · rintro s ⟨capacity, a, k, rfl⟩
    exact tended_empty capacity a k
  · intro s op s' hs hstep
    simp only [tended, Option.ite_none_right_eq_some, Option.some.injEq] at hstep
    obtain ⟨ho, rfl⟩ := hstep
    exact hs.effect ho (perform_effect hs.freeVacant op)

end Store

/-! ## No slot out of generations -/

/-- All runs, with the releases of each slot counted. -/
def chronicle : System History Store.Op where
  initial h := ∃ capacity a k, h = .new capacity a k
  step h op := some (h.next (h.store.perform op))

namespace History

/-- The lists hold ids that were issued, and are up to date. -/
structure Sound (h : History) : Prop where
  freeVacant : h.store.FreeVacant
  counted : h.Counted
  current : h.store.Current
  issued : ∀ id ∈ h.store.verified, h.Issued id

theorem Sound.spent {h : History} (ho : h.Sound) (hb : h.Bounded) : h.store.Spent :=
  fun id hm hv hg => not_issued_of_vacant ho.counted hb hg hv (ho.issued id hm)

theorem Sound.effect {h : History} {s' : Store} {op : Store.Op} (ho : h.Sound) (hb : h.Bounded)
    (he : Store.Effect h.store op s') : (h.next s').Sound := by
  refine ⟨ho.freeVacant.effect he, ho.counted.effect he, ho.current.effect (ho.spent hb) he,
    fun id hm => ?_⟩
  rcases he.mem_verified hm with hm | ⟨-, hx⟩
  · exact (ho.issued id hm).effect ho.counted he
  · exact Issued.effect ho.counted he (.inr hx)

theorem Sound.of_reachable {h : History} (hr : chronicle.Reachable h) (hb : h.Bounded) :
    h.Sound := by
  refine hr.invariant (P := fun h => h.Bounded → h.Sound) ?_ ?_ hb
  · rintro h ⟨capacity, a, k, rfl⟩ -
    exact ⟨Store.freeVacant_empty capacity a k, counted_new capacity a k, .empty capacity a k,
      fun _ hm => absurd hm List.not_mem_nil⟩
  · intro h op h' ho hstep hb'
    cases hstep
    have hb := Bounded.of_next hb'
    exact (ho hb).effect hb (Store.perform_effect (ho hb).freeVacant op)

end History

/-- A store that can come about: in a run that promotes and discards waiting entries only, or in any
run at all in which no slot is released 2^32 times. -/
def Store.Attainable (s : Store) : Prop :=
  tended.Reachable s ∨ ∃ h, chronicle.Reachable h ∧ h.Bounded ∧ h.store = s

theorem Store.Current.of_attainable {s : Store} (h : s.Attainable) : s.Current := by
  rcases h with h | ⟨h, hr, hb, rfl⟩
  · exact (Tended.of_reachable h).current
  · exact (History.Sound.of_reachable hr hb).current

theorem Store.FreeVacant.of_attainable {s : Store} (h : s.Attainable) : s.FreeVacant := by
  rcases h with h | ⟨h, hr, hb, rfl⟩
  · exact (Tended.of_reachable h).freeVacant
  · exact (History.Sound.of_reachable hr hb).freeVacant

theorem Store.Spent.of_attainable {s : Store} (h : s.Attainable) : s.Spent := by
  rcases h with h | ⟨h, hr, hb, rfl⟩
  · exact (Tended.of_reachable h).spent
  · exact (History.Sound.of_reachable hr hb).spent hb

end Vouch
