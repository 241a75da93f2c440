import Vouch.Proofs.System
import Vouch.Proofs.Store.Operation
/-!
# The four structures of the store agree

Slots, free list, queue and verified list describe one set of entries. `Consistent` says how, and
every operation keeps it as long as only waiting entries are promoted and discarded (`Orderly`),
which is how the pipeline uses the two.

* `Consistent.find?_eq_some_iff`: a look-up finds exactly the verified entry of a subject.
* `Consistent.size_eq`: every entry is in the queue or on the verified list, and none is in both.
* `accounts_of_reachable`: an orderly run from a new store keeps all this, and what an addition
  answers depends on the entry of its subject and the room that is left.
-/
namespace Vouch

namespace Store

/-- What the slots, the free list, the queue and the verified list say of each other. -/
structure Consistent (s : Store) : Prop where
  capacity_lt : s.capacity < UInt32.size
  free_nodup : s.free.Nodup
  mem_free_iff : ∀ i, i ∈ s.free ↔ s.Vacant i
  pending_nodup : s.pending.Nodup
  verified_nodup : s.verified.Nodup
  mem_pending_iff : ∀ id, id ∈ s.pending ↔ ∃ e, s.get? id = some e ∧ e.state = .pending
  mem_verified_iff : ∀ id, id ∈ s.verified ↔ ∃ e, s.get? id = some e ∧ e.state = .verified
  eq_of_subject_eq : ∀ {id id' e e'}, s.get? id = some e → s.get? id' = some e' →
    e.subject = e'.subject → id = id'

/-- Promoting and discarding are for entries that wait. -/
def Orderly (s : Store) : Op → Prop
  | .promote id => id ∈ s.pending
  | .discard id => id ∈ s.pending
  | _ => True

instance (s : Store) (op : Op) : Decidable (s.Orderly op) :=
  match op with
  | .promote id => inferInstanceAs (Decidable (id ∈ s.pending))
  | .discard id => inferInstanceAs (Decidable (id ∈ s.pending))
  | .add _ _ | .pin _ | .unpin _ | .remove _ | .setContext _ _ _ => isTrue trivial

/-- Some entry, waiting or verified, is for the subject. -/
def Holds (s : Store) (subject : Eui64) : Prop := ∃ id e, s.get? id = some e ∧ e.subject = subject

theorem find?_of_not_holds {s : Store} {subject : Eui64} (h : ¬ s.Holds subject) :
    s.find? subject = none := by
  cases hf : s.find? subject with
  | none => rfl
  | some id => exact absurd ⟨id, (find?_some hf).2⟩ h

theorem findPending?_of_not_holds {s : Store} {subject : Eui64} (h : ¬ s.Holds subject) :
    s.findPending? subject = none := by
  cases hf : s.findPending? subject with
  | none => rfl
  | some id => exact absurd ⟨id, (findPending?_some hf).2⟩ h

/-- Where there is room there is a slot to take. -/
theorem free_ne_nil {s : Store} (h : s.size < s.capacity) : s.free ≠ [] := by
  intro hf
  rw [size, hf, List.length_nil, capacity] at h
  omega

namespace Consistent

variable {s : Store}

theorem freeVacant (h : s.Consistent) : s.FreeVacant :=
  ⟨h.free_nodup, fun i hi => (h.mem_free_iff i).1 hi⟩

/-! ## Looking up -/

theorem listed (h : s.Consistent) {id : EntryId} {e : Entry} (he : s.get? id = some e) :
    id ∈ s.pending ∨ id ∈ s.verified := by
  cases hs : e.state with
  | pending => exact .inl ((h.mem_pending_iff id).2 ⟨e, he, hs⟩)
  | verified => exact .inr ((h.mem_verified_iff id).2 ⟨e, he, hs⟩)

theorem find?_eq_some_iff (h : s.Consistent) {subject : Eui64} {id : EntryId} :
    s.find? subject = some id ↔
      ∃ e, s.get? id = some e ∧ e.state = .verified ∧ e.subject = subject := by
  constructor
  · intro hf
    obtain ⟨hm, e, he, hs⟩ := find?_some hf
    obtain ⟨e', he', hv⟩ := (h.mem_verified_iff id).1 hm
    rw [he, Option.some.injEq] at he'
    exact ⟨e, he, he' ▸ hv, hs⟩
  · rintro ⟨e, he, hv, hs⟩
    cases hf : s.find? subject with
    | none => exact absurd hs (find?_none hf ((h.mem_verified_iff id).2 ⟨e, he, hv⟩) he)
    | some id' =>
      obtain ⟨-, e', he', hs'⟩ := find?_some hf
      rw [h.eq_of_subject_eq he' he (hs'.trans hs.symm)]

theorem findPending?_eq_some_iff (h : s.Consistent) {subject : Eui64} {id : EntryId} :
    s.findPending? subject = some id ↔
      ∃ e, s.get? id = some e ∧ e.state = .pending ∧ e.subject = subject := by
  constructor
  · intro hf
    obtain ⟨hm, e, he, hs⟩ := findPending?_some hf
    obtain ⟨e', he', hv⟩ := (h.mem_pending_iff id).1 hm
    rw [he, Option.some.injEq] at he'
    exact ⟨e, he, he' ▸ hv, hs⟩
  · rintro ⟨e, he, hv, hs⟩
    cases hf : s.findPending? subject with
    | none => exact absurd hs (findPending?_none hf ((h.mem_pending_iff id).2 ⟨e, he, hv⟩) he)
    | some id' =>
      obtain ⟨-, e', he', hs'⟩ := findPending?_some hf
      rw [h.eq_of_subject_eq he' he (hs'.trans hs.symm)]

/-- Where neither look-up finds a subject, no entry has it. -/
theorem subject_ne (h : s.Consistent) {subject : Eui64} (hv : s.find? subject = none)
    (hp : s.findPending? subject = none) {id : EntryId} {e : Entry} (he : s.get? id = some e) :
    e.subject ≠ subject := by
  rcases h.listed he with hm | hm
  · exact findPending?_none hp hm he
  · exact find?_none hv hm he

/-! ## Steps -/

theorem empty {capacity : Nat} (hc : capacity < UInt32.size) (a : Address) (k : PublicKey) :
    (Store.empty capacity a k).Consistent := by
  have hf := freeVacant_empty capacity a k
  have hslots : (Store.empty capacity a k).slots = List.replicate capacity ⟨0, none⟩ := rfl
  refine ⟨by simpa [Store.capacity, Store.empty] using hc, hf.nodup, fun i => ⟨hf.vacant i, ?_⟩,
    List.nodup_nil, List.nodup_nil, fun id => ?_, fun id => ?_, ?_⟩
  · rintro hv
    have hlt := lt_of_vacant hv
    rw [hslots, List.length_replicate] at hlt
    refine List.mem_map.2 ⟨i.toNat, List.mem_range.2 ?_, by simp⟩
    rwa [Nat.mod_eq_of_lt (show capacity < UInt32.size from hc)]
  · simp only [get?_empty, reduceCtorEq, false_and, exists_false, iff_false]
    exact List.not_mem_nil
  · simp only [get?_empty, reduceCtorEq, false_and, exists_false, iff_false]
    exact List.not_mem_nil
  · intro id id' e e' he
    rw [get?_empty] at he
    cases he

/-- A change of an entry that leaves its certificate and state alone. -/
theorem update (h : s.Consistent) (id : EntryId) {f : Entry → Entry} (hf : Entry.Keeps f) :
    (s.update id f).Consistent := by
  have hget {j : EntryId} {e : Entry} (he : (s.update id f).get? j = some e) :
      ∃ e₀, s.get? j = some e₀ ∧ e.state = e₀.state ∧ e.subject = e₀.subject := by
    rw [get?_update] at he
    split at he
    · rename_i hj
      obtain ⟨e₀, he₀, rfl⟩ := Option.map_eq_some_iff.1 he
      exact ⟨e₀, hj ▸ he₀, (hf e₀).2, hf.subject e₀⟩
    · exact ⟨e, he, rfl, rfl⟩
  have hstate (j : EntryId) (q : EntryState) :
      (∃ e, (s.update id f).get? j = some e ∧ e.state = q) ↔
        ∃ e, s.get? j = some e ∧ e.state = q := by
    constructor
    · rintro ⟨e, he, hq⟩
      obtain ⟨e₀, he₀, h₀, -⟩ := hget he
      exact ⟨e₀, he₀, h₀ ▸ hq⟩
    · rintro ⟨e, he, hq⟩
      rw [get?_update]
      split
      · rename_i hj
        rw [hj] at he
        exact ⟨f e, by rw [he]; rfl, (hf e).2.trans hq⟩
      · exact ⟨e, he, hq⟩
  refine ⟨by simpa using h.capacity_lt, by simpa using h.free_nodup, fun i => ?_,
    by simpa using h.pending_nodup, by simpa using h.verified_nodup, fun j => ?_, fun j => ?_, ?_⟩
  · rw [free_update, vacant_update]; exact h.mem_free_iff i
  · rw [pending_update, hstate]; exact h.mem_pending_iff j
  · rw [verified_update, hstate]; exact h.mem_verified_iff j
  · intro j j' e e' he he' hs
    obtain ⟨e₀, he₀, -, h₀⟩ := hget he
    obtain ⟨e₁, he₁, -, h₁⟩ := hget he'
    exact h.eq_of_subject_eq he₀ he₁ (by rw [← h₀, ← h₁, hs])

theorem fill (h : s.Consistent) {id : EntryId} {free : List UInt32} {c : Certificate} {o : Origin}
    (hv : s.find? c.subject = none) (hp : s.findPending? c.subject = none)
    (hf : s.free = id.index :: free) (hx : s.Vacant id.index) :
    (s.fill id free c o).Consistent := by
  have hnone : s.get? id = none := get?_of_vacant hx
  have hn := h.free_nodup
  rw [hf, List.nodup_cons] at hn
  refine ⟨?_, hn.2, fun i => ?_, ?_, h.verified_nodup, fun j => ?_, fun j => ?_, ?_⟩
  · simpa [Store.capacity, Store.fill] using h.capacity_lt
  · have hi := h.mem_free_iff i
    rw [hf, List.mem_cons] at hi
    rw [vacant_fill hx, ← hi]
    constructor
    · intro hm
      exact ⟨fun hc => hn.1 (hc ▸ hm), .inr hm⟩
    · rintro ⟨hne, hc | hm⟩
      · exact absurd hc hne
      · exact hm
  · refine List.nodup_append.2 ⟨h.pending_nodup, by simp, fun j hj j' hj' hc => ?_⟩
    rw [List.mem_singleton] at hj'
    obtain ⟨e, he, -⟩ := (h.mem_pending_iff j).1 hj
    rw [hc, hj', hnone] at he
    cases he
  · show j ∈ s.pending ++ [id] ↔ _
    rw [get?_fill hx, List.mem_append, List.mem_singleton]
    split
    · rename_i hj
      simp [hj, Entry.fresh]
    · rename_i hj
      simp [hj, h.mem_pending_iff]
  · show j ∈ s.verified ↔ _
    rw [get?_fill hx, h.mem_verified_iff]
    split
    · rename_i hj
      simp [hj, hnone, Entry.fresh]
    · rfl
  · intro j j' e e' he he' hs
    rw [get?_fill hx] at he he'
    split at he <;> split at he'
    · simp_all
    · cases he
      exact absurd hs.symm (h.subject_ne hv hp he')
    · cases he'
      exact absurd hs (h.subject_ne hv hp he)
    · exact h.eq_of_subject_eq he he' hs

theorem promoted (h : s.Consistent) {id : EntryId} (hid : id ∈ s.pending) :
    (s.promoted id).Consistent := by
  obtain ⟨e, he, hp⟩ := (h.mem_pending_iff id).1 hid
  have hnv : id ∉ s.verified := fun hm => by
    obtain ⟨e', he', hv⟩ := (h.mem_verified_iff id).1 hm
    simp_all
  refine ⟨?_, ?_, fun i => ?_, h.pending_nodup.filter _, ?_, fun j => ?_, fun j => ?_, ?_⟩
  · exact (capacity_update (f := Entry.accept)).symm ▸ h.capacity_lt
  · exact (free_update (f := Entry.accept)).symm ▸ h.free_nodup
  · rw [vacant_promoted, ← h.mem_free_iff]
    exact Iff.of_eq (congrArg (i ∈ ·) free_update)
  · refine List.nodup_append.2 ⟨h.verified_nodup, by simp, fun j hj j' hj' hc => hnv ?_⟩
    rw [List.mem_singleton] at hj'
    rwa [← hj', ← hc]
  · show j ∈ s.pending.filter (· ≠ id) ↔ _
    rw [get?_promoted, List.mem_filter, decide_eq_true_eq, h.mem_pending_iff]
    split
    · rename_i hj
      simp [hj, he, Entry.accept]
    · rename_i hj
      simp [hj]
  · show j ∈ s.verified ++ [id] ↔ _
    rw [get?_promoted, List.mem_append, List.mem_singleton, h.mem_verified_iff]
    split
    · rename_i hj
      simp [hj, he, Entry.accept]
    · rename_i hj
      simp [hj]
  · intro j j' e₁ e₂ he₁ he₂ hs
    rw [get?_promoted] at he₁ he₂
    split at he₁ <;> split at he₂
    · simp_all
    · rename_i hj _
      obtain ⟨e₀, he₀, rfl⟩ := Option.map_eq_some_iff.1 he₁
      have he₀ : s.get? j = some e₀ := hj ▸ he₀
      exact h.eq_of_subject_eq he₀ he₂ hs
    · rename_i _ hj
      obtain ⟨e₀, he₀, rfl⟩ := Option.map_eq_some_iff.1 he₂
      have he₀ : s.get? j' = some e₀ := hj ▸ he₀
      exact h.eq_of_subject_eq he₁ he₀ hs
    · exact h.eq_of_subject_eq he₁ he₂ hs

/-- An entry leaves the map and the one list it is on. -/
theorem vacate (h : s.Consistent) {s' : Store} {id : EntryId} {e : Entry} (he : s.get? id = some e)
    (hslots : s'.slots = (s.vacate id).slots) (hfree : s'.free = id.index :: s.free)
    (hp : s'.pending = s.pending.filter (· ≠ id)) (hv : s'.verified = s.verified.filter (· ≠ id)) :
    s'.Consistent := by
  have hf := h.freeVacant.vacate he hslots hfree
  refine ⟨?_, hf.nodup, fun i => ?_, hp ▸ h.pending_nodup.filter _, hv ▸ h.verified_nodup.filter _,
    fun j => ?_, fun j => ?_, ?_⟩
  · have := h.capacity_lt
    simpa [Store.capacity, hslots, Store.vacate] using this
  · rw [vacant_of_vacate hslots he, hfree, List.mem_cons, h.mem_free_iff]
  · rw [get?_of_vacate hslots he, hp, List.mem_filter, decide_eq_true_eq, h.mem_pending_iff]
    split <;> simp_all
  · rw [get?_of_vacate hslots he, hv, List.mem_filter, decide_eq_true_eq, h.mem_verified_iff]
    split <;> simp_all
  · intro j j' e₁ e₂ he₁ he₂ hs
    rw [get?_of_vacate hslots he] at he₁ he₂
    split at he₁
    · cases he₁
    · split at he₂
      · cases he₂
      · exact h.eq_of_subject_eq he₁ he₂ hs

theorem discarded (h : s.Consistent) {id : EntryId} (hid : id ∈ s.pending) :
    (s.discarded id).Consistent := by
  obtain ⟨e, he, hp⟩ := (h.mem_pending_iff id).1 hid
  refine h.vacate he rfl rfl rfl (List.filter_eq_self.2 fun j hj => ?_).symm
  obtain ⟨e', he', hv⟩ := (h.mem_verified_iff j).1 hj
  rw [decide_eq_true_eq]
  rintro rfl
  simp_all

theorem removed (h : s.Consistent) {id : EntryId} {subject : Eui64}
    (hid : s.find? subject = some id) : (s.removed id).Consistent := by
  obtain ⟨e, he, hv, -⟩ := h.find?_eq_some_iff.1 hid
  refine h.vacate he rfl rfl (List.filter_eq_self.2 fun j hj => ?_).symm rfl
  obtain ⟨e', he', hp⟩ := (h.mem_pending_iff j).1 hj
  rw [decide_eq_true_eq]
  rintro rfl
  simp_all

/-- **One operation.** -/
theorem effect (h : s.Consistent) {op : Op} (ho : s.Orderly op) {s' : Store}
    (he : Effect s op s') : s'.Consistent := by
  cases he with
  | none => exact h
  | fill hv hp hf _ hx => exact h.fill hv hp hf hx
  | ask => exact h.update _ Entry.keeps_ask
  | pin => exact h.update _ Entry.keeps_takePin
  | unpin => exact h.update _ Entry.keeps_givePin
  | promote => exact h.promoted ho
  | discard => exact h.discarded ho
  | remove hf => exact h.removed hf
  | attach => exact h.update _ (Entry.keeps_attach _ _)

theorem perform (h : s.Consistent) {op : Op} (ho : s.Orderly op) : (s.perform op).Consistent :=
  h.effect ho (perform_effect h.freeVacant op)

/-! ## Counting -/

theorem nodup_listed (h : s.Consistent) : (s.pending ++ s.verified).Nodup := by
  refine List.nodup_append.2 ⟨h.pending_nodup, h.verified_nodup, ?_⟩
  rintro id hp _ hv rfl
  obtain ⟨e, he, hs⟩ := (h.mem_pending_iff id).1 hp
  obtain ⟨e', he', hs'⟩ := (h.mem_verified_iff id).1 hv
  simp_all

theorem mem_listed_iff (h : s.Consistent) {id : EntryId} :
    id ∈ s.pending ++ s.verified ↔ ∃ e, s.get? id = some e := by
  rw [List.mem_append]
  constructor
  · rintro (hm | hm)
    · exact ((h.mem_pending_iff id).1 hm).imp fun _ => And.left
    · exact ((h.mem_verified_iff id).1 hm).imp fun _ => And.left
  · rintro ⟨e, he⟩
    exact h.listed he

/-- The occupant of a slot is listed once, and it alone. -/
theorem filter_index (h : s.Consistent) {id : EntryId} {e : Entry} (he : s.get? id = some e) :
    (s.pending ++ s.verified).filter (·.index = id.index) = [id] := by
  refine List.perm_singleton.1 ?_
  refine (List.perm_ext_iff_of_nodup (h.nodup_listed.filter _) (List.nodup_singleton id)).2 ?_
  intro j
  rw [List.mem_filter, h.mem_listed_iff, decide_eq_true_eq, List.mem_singleton]
  constructor
  · rintro ⟨⟨e', he'⟩, hi⟩
    exact eq_of_index_eq he' he hi
  · rintro rfl
    exact ⟨⟨e, he⟩, rfl⟩

/-- Free slots and listed ones make up the capacity. -/
theorem length_add_length (h : s.Consistent) :
    s.free.length + (s.pending ++ s.verified).length = s.capacity := by
  have hperm : (s.free.map UInt32.toNat ++ (s.pending ++ s.verified).map (·.index.toNat)).Perm
      (List.range s.capacity) := by
    refine (List.perm_ext_iff_of_nodup ?_ List.nodup_range).2 fun n => ?_
    · refine List.nodup_append.2 ⟨?_, ?_, ?_⟩
      · exact h.free_nodup.map fun _ _ => UInt32.toNat_inj.1
      · refine h.nodup_listed.map_on fun j hj j' hj' hi => ?_
        obtain ⟨e, he⟩ := h.mem_listed_iff.1 hj
        obtain ⟨e', he'⟩ := h.mem_listed_iff.1 hj'
        exact eq_of_index_eq he he' (UInt32.toNat_inj.1 hi)
      · intro n hn m hm hc
        obtain ⟨i, hi, rfl⟩ := List.mem_map.1 hn
        obtain ⟨j, hj, rfl⟩ := List.mem_map.1 hm
        obtain ⟨e, he⟩ := h.mem_listed_iff.1 hj
        have hv := (h.mem_free_iff i).1 hi
        rw [UInt32.toNat_inj.1 hc] at hv
        rw [get?_of_vacant hv] at he
        cases he
    · rw [List.mem_append, List.mem_map, List.mem_map, List.mem_range]
      constructor
      · rintro (⟨i, hi, rfl⟩ | ⟨j, hj, rfl⟩)
        · exact lt_of_vacant ((h.mem_free_iff i).1 hi)
        · obtain ⟨e, he⟩ := h.mem_listed_iff.1 hj
          exact lt_of_get? he
      · intro hn
        have hlt : n < UInt32.size := Nat.lt_trans hn h.capacity_lt
        have hi : (UInt32.ofNat n).toNat = n := by
          rw [UInt32.toNat_ofNat', Nat.mod_eq_of_lt hlt]
        rcases vacant_or_get? (s := s) (i := UInt32.ofNat n) (by rw [hi]; exact hn) with
          hv | ⟨g, e, he⟩
        · exact .inl ⟨_, (h.mem_free_iff _).2 hv, hi⟩
        · exact .inr ⟨_, h.mem_listed_iff.2 ⟨e, he⟩, hi⟩
  have := hperm.length_eq
  simpa using this

theorem size_eq (h : s.Consistent) : s.size = s.pending.length + s.verified.length := by
  have := h.length_add_length
  rw [List.length_append] at this
  simp only [size, capacity] at *
  omega

theorem size_lt_iff (h : s.Consistent) : s.size < s.capacity ↔ s.free ≠ [] := by
  have := h.length_add_length
  rw [← List.length_pos_iff]
  simp only [size, capacity, List.length_append] at *
  omega

/-! ## Adding -/

/-- A certificate for a new subject takes the first free slot. -/
theorem add_cases (h : s.Consistent) {c : Certificate} (o : Origin) (hn : ¬ s.Holds c.subject) :
    (s.free = [] ∧ s.add c o = (.error (.exhausted s.capacity), s)) ∨
    ∃ id free, s.free = id.index :: free ∧ s.Vacant id.index ∧
      s.add c o = (.ok (.enqueued id), s.fill id free c o) := by
  have hv := find?_of_not_holds hn
  have hp := findPending?_of_not_holds hn
  cases hf : s.free with
  | nil => exact .inl ⟨rfl, add_of_full hv hp hf⟩
  | cons i free =>
    obtain ⟨g, hg⟩ := (h.mem_free_iff i).1 (hf ▸ List.mem_cons_self)
    exact .inr ⟨⟨i, g⟩, free, rfl, ⟨g, hg⟩, add_of_free hv hp hf (generation?_of_slot hg)⟩

theorem add_of_not_holds (h : s.Consistent) {c : Certificate} {o : Origin}
    (hn : ¬ s.Holds c.subject) :
    (∃ out, (s.add c o).1 = .ok out) ↔ s.size < s.capacity := by
  rw [h.size_lt_iff]
  rcases h.add_cases o hn with ⟨hf, hadd⟩ | ⟨id, free, hf, -, hadd⟩
  · simp [hadd, hf]
  · simp [hadd, hf]

/-- The entry of the subject decides what adding does: a verified one is left as it is, and a waiting
one at most becomes a requested one. -/
theorem add_of_get? (h : s.Consistent) {c : Certificate} {o : Origin} {id : EntryId} {e : Entry}
    (he : s.get? id = some e) (hs : e.subject = c.subject) :
    s.add c o = match e.state with
      | .pending => (.ok (.alreadyPending id), if o = .requested then s.update id Entry.ask else s)
      | .verified => (.ok (.alreadyVerified id), s) := by
  cases hst : e.state with
  | verified => exact add_of_verified (h.find?_eq_some_iff.2 ⟨e, he, hst, hs⟩)
  | pending =>
    refine add_of_pending ?_ (h.findPending?_eq_some_iff.2 ⟨e, he, hst, hs⟩)
    cases hf : s.find? c.subject with
    | none => rfl
    | some id' =>
      obtain ⟨e', he', hv, hs'⟩ := h.find?_eq_some_iff.1 hf
      rw [h.eq_of_subject_eq he' he (hs'.trans hs.symm), he] at he'
      simp_all

end Consistent

theorem add_error {s : Store} {c : Certificate} {o : Origin} {err : StoreError}
    (h : (s.add c o).1 = .error err) : (s.add c o).2 = s ∧ err = .exhausted s.capacity := by
  revert h
  unfold add
  split
  · simp
  · split
    · simp
    · split
      · rintro ⟨⟩
        exact ⟨rfl, rfl⟩
      · simp

/-! ## Runs -/

/-- The orderly runs from a new store. -/
def orderly : System Store Op where
  initial s := ∃ capacity a k, capacity < UInt32.size ∧ s = empty capacity a k
  step s op := if s.Orderly op then some (s.perform op) else none

theorem Consistent.of_reachable {s : Store} (h : orderly.Reachable s) : s.Consistent := by
  refine h.invariant ?_ ?_
  · rintro s ⟨capacity, a, k, hc, rfl⟩
    exact .empty hc a k
  · intro s op s' hs hstep
    simp only [orderly, Option.ite_none_right_eq_some, Option.some.injEq] at hstep
    obtain ⟨ho, rfl⟩ := hstep
    exact hs.perform ho

/-- **The store adds up.** After every orderly run the four structures agree, the occupant of a slot
is listed exactly once and where its state says, and the size is the number of listed entries. An
addition for a new subject succeeds exactly while there is room, one for a subject that is held never
takes a slot, and one that fails changes nothing. -/
theorem accounts_of_reachable {s : Store} (h : orderly.Reachable s) :
    s.Consistent ∧
    (∀ (i g : UInt32) e, s.slots[i.toNat]? = some ⟨g, some e⟩ →
      (s.pending ++ s.verified).filter (·.index = i) = [⟨i, g⟩] ∧
      (⟨i, g⟩ ∈ s.pending ↔ e.state = .pending) ∧
      (⟨i, g⟩ ∈ s.verified ↔ e.state = .verified)) ∧
    (s.size = s.pending.length + s.verified.length ∧ s.size ≤ s.capacity) ∧
    (∀ c o, ¬ s.Holds c.subject → ((∃ out, (s.add c o).1 = .ok out) ↔ s.size < s.capacity)) ∧
    (∀ c o, s.Holds c.subject →
      (∃ id, (s.add c o).1 = .ok (.alreadyPending id) ∨ (s.add c o).1 = .ok (.alreadyVerified id)) ∧
      (s.add c o).2.free = s.free ∧ (s.add c o).2.pending = s.pending ∧
      (s.add c o).2.verified = s.verified ∧
      ∀ id, ((s.add c o).2.get? id).map Entry.certificate = (s.get? id).map Entry.certificate) ∧
    (∀ c o err, (s.add c o).1 = .error err → (s.add c o).2 = s) := by
  have hs := Consistent.of_reachable h
  refine ⟨hs, ?_, ⟨hs.size_eq, Nat.sub_le _ _⟩, fun c o => hs.add_of_not_holds, ?_,
    fun c o err herr => (add_error herr).1⟩
  · intro i g e hslot
    have he : s.get? ⟨i, g⟩ = some e := get?_eq_some_iff.2 hslot
    refine ⟨hs.filter_index he, ?_, ?_⟩
    · rw [hs.mem_pending_iff]
      simp [he]
    · rw [hs.mem_verified_iff]
      simp [he]
  · rintro c o ⟨id, e, he, hsub⟩
    rw [hs.add_of_get? he hsub]
    cases e.state with
    | verified => exact ⟨⟨id, .inr rfl⟩, rfl, rfl, rfl, fun _ => rfl⟩
    | pending =>
      refine ⟨⟨id, .inl rfl⟩, ?_⟩
      cases o with
      | unsolicited => exact ⟨rfl, rfl, rfl, fun _ => rfl⟩
      | requested =>
        refine ⟨free_update, pending_update, verified_update, fun j => ?_⟩
        simp only [if_true, get?_update]
        split
        · rename_i hj
          rw [hj, Option.map_map]
          rfl
        · rfl

/-- Two arrivals, one verified and pinned, the other discarded and its slot used again. -/
def turnover : List Op :=
  [.add (.uniform 1) .unsolicited, .add (.uniform 2) .unsolicited, .promote ⟨0, 0⟩, .pin ⟨0, 0⟩,
    .discard ⟨1, 0⟩, .add (.uniform 3) .requested, .remove (Certificate.uniform 1).subject]

theorem accounts_after_turnover : ∃ s,
    orderly.run (empty 2 ⟨Vector.replicate 16 0⟩ ⟨Vector.replicate 64 0⟩) turnover = some s ∧
    s.pending = [⟨1, 1⟩] ∧ s.verified = [⟨0, 0⟩] ∧ s.Consistent ∧ s.size = s.capacity ∧
    ∃ err, (s.add (.uniform 4) .requested).1 = .error err := by
  have hrun : ∃ s,
      orderly.run (empty 2 ⟨Vector.replicate 16 0⟩ ⟨Vector.replicate 64 0⟩) turnover = some s ∧
      s.pending = [⟨1, 1⟩] ∧ s.verified = [⟨0, 0⟩] ∧ s.capacity = 2 ∧
      (s.add (.uniform 4) .requested).1 = .error (.exhausted 2) := ⟨_, rfl, by decide⟩
  obtain ⟨s, hs, hp, hv, hc, herr⟩ := hrun
  have hr : orderly.Reachable s := ⟨_, turnover, ⟨2, _, _, by decide, rfl⟩, hs⟩
  obtain ⟨hcons, -, ⟨hsize, -⟩, -⟩ := accounts_of_reachable hr
  exact ⟨s, hs, hp, hv, hcons, by rw [hsize, hp, hv, hc]; rfl, _, herr⟩

end Store
end Vouch
