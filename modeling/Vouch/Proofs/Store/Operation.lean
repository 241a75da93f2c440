import Vouch.Proofs.Store.Lookup
import Mathlib.Data.List.Nodup
/-!
# Operations of the store as data

A run of the store is a list of operations. `Effect` says once what an operation can do; every
invariant of the store is shown by going through its constructors.

* `perform_effect`: an operation has one of these effects, as long as the free list names empty slots.
* `Effect.kept_or_vacated`, `Effect.get?_cases`: what becomes of an entry, and where one comes from.
* `FreeVacant.perform`: which it always does.
-/
namespace Vouch

/-- A certificate whose octets are all the same. -/
def Certificate.uniform (n : UInt8) : Certificate :=
  ⟨⟨Vector.replicate 8 n⟩, ⟨Vector.replicate 64 n⟩, .edge, ⟨Vector.replicate 64 n⟩⟩

namespace Store

/-- A change that is asked of the store. -/
inductive Op where
  | add (c : Certificate) (o : Origin)
  | pin (id : EntryId)
  | unpin (id : EntryId)
  | promote (id : EntryId)
  | discard (id : EntryId)
  | remove (subject : Eui64)
  | setContext (id : EntryId) (secret : SharedSecret) (context : SecurityContext)
  deriving DecidableEq

/-- The store that an operation leaves behind. -/
def perform (s : Store) : Op → Store
  | .add c o => (s.add c o).2
  | .pin id => (s.pin id).2
  | .unpin id => (s.unpin id).2
  | .promote id => (s.promote id).2
  | .discard id => (s.discard id).2
  | .remove subject => (s.remove subject).2
  | .setContext id k x => (s.setContext id k x).2

/-- The free list names each of its slots once, and every one of them is empty. -/
structure FreeVacant (s : Store) : Prop where
  nodup : s.free.Nodup
  vacant : ∀ i ∈ s.free, s.Vacant i

/-- What an operation can do to a store. -/
inductive Effect (s : Store) : Op → Store → Prop
  | none (op : Op) : Effect s op s
  | fill {c : Certificate} {o : Origin} {id : EntryId} {free : List UInt32}
      (hv : s.find? c.subject = .none) (hp : s.findPending? c.subject = .none)
      (hf : s.free = id.index :: free) (hg : s.generation? id.index = some id.generation)
      (hx : s.Vacant id.index) : Effect s (.add c o) (s.fill id free c o)
  | ask {c : Certificate} {id : EntryId} (hv : s.find? c.subject = .none)
      (hp : s.findPending? c.subject = some id) :
      Effect s (.add c .requested) (s.update id Entry.ask)
  | pin {id : EntryId} {e : Entry} (h : s.get? id = some e) (hp : e.pins ≠ maxPins) :
      Effect s (.pin id) (s.update id Entry.takePin)
  | unpin {id : EntryId} {e : Entry} (h : s.get? id = some e) (hp : e.pins ≠ 0) :
      Effect s (.unpin id) (s.update id Entry.givePin)
  | promote {id : EntryId} {e : Entry} (h : s.get? id = some e) :
      Effect s (.promote id) (s.promoted id)
  | discard {id : EntryId} {e : Entry} (h : s.get? id = some e) (hp : e.pins = 0) :
      Effect s (.discard id) (s.discarded id)
  | remove {subject : Eui64} {id : EntryId} {e : Entry} (hf : s.find? subject = some id)
      (h : s.get? id = some e) (hp : e.pins = 0) : Effect s (.remove subject) (s.removed id)
  | attach {id : EntryId} {e : Entry} {k : SharedSecret} {x : SecurityContext}
      (h : s.get? id = some e) : Effect s (.setContext id k x) (s.update id (Entry.attach k x))

/-- What an addition can come to: the subject has an entry already, verified or waiting; there is a slot
for a new one; or there is none. -/
theorem add_cases {s : Store} (hs : s.FreeVacant) (c : Certificate) (o : Origin) :
    (∃ id, s.find? c.subject = some id ∧ s.add c o = (.ok (.alreadyVerified id), s)) ∨
    (∃ id, s.find? c.subject = none ∧ s.findPending? c.subject = some id ∧
      s.add c o = (.ok (.alreadyPending id), if o = .requested then s.update id Entry.ask else s)) ∨
    (∃ id free, s.find? c.subject = none ∧ s.findPending? c.subject = none ∧
      s.free = id.index :: free ∧ s.generation? id.index = some id.generation ∧
      s.Vacant id.index ∧ s.add c o = (.ok (.enqueued id), s.fill id free c o)) ∨
    s.add c o = (.error (.exhausted s.capacity), s) := by
  cases hv : s.find? c.subject with
  | some id => exact .inl ⟨id, rfl, add_of_verified hv⟩
  | none =>
    cases hp : s.findPending? c.subject with
    | some id => exact .inr (.inl ⟨id, rfl, rfl, add_of_pending hv hp⟩)
    | none =>
      cases hf : s.free with
      | nil => exact .inr (.inr (.inr (add_of_full hv hp hf)))
      | cons i free =>
        obtain ⟨g, hslot⟩ := hs.vacant i (hf ▸ List.mem_cons_self)
        have hg := generation?_of_slot hslot
        exact .inr (.inr (.inl ⟨⟨i, g⟩, free, rfl, rfl, rfl, hg, ⟨g, hslot⟩, add_of_free hv hp hf hg⟩))

theorem add_effect {s : Store} (hs : s.FreeVacant) (c : Certificate) (o : Origin) :
    Effect s (.add c o) (s.add c o).2 := by
  rcases add_cases hs c o with ⟨id, -, hadd⟩ | ⟨id, hv, hp, hadd⟩ |
    ⟨id, free, hv, hp, hf, hg, hx, hadd⟩ | hadd
  · rw [hadd]
    exact .none _
  · rw [hadd]
    cases o with
    | unsolicited => exact .none _
    | requested => exact .ask hv hp
  · rw [hadd]
    exact .fill hv hp hf hg hx
  · rw [hadd]
    exact .none _

/-- **Nothing else happens.** -/
theorem perform_effect {s : Store} (hs : s.FreeVacant) (op : Op) :
    Effect s op (s.perform op) := by
  cases op with
  | add c o => exact add_effect hs c o
  | pin id =>
    simp only [perform]
    cases h : s.get? id with
    | none => rw [pin_of_none h]; exact .none _
    | some e =>
      by_cases hp : e.pins = maxPins
      · rw [pin_of_full h hp]; exact .none _
      · rw [pin_of_lt h hp]; exact .pin h hp
  | unpin id =>
    simp only [perform]
    cases h : s.get? id with
    | none => rw [unpin_of_none h]; exact .none _
    | some e =>
      by_cases hp : e.pins = 0
      · rw [unpin_of_zero h hp]; exact .none _
      · rw [unpin_of_pos h hp]; exact .unpin h hp
  | promote id =>
    simp only [perform]
    cases h : s.get? id with
    | none => rw [promote_of_none h]; exact .none _
    | some e => rw [promote_of_some h]; exact .promote h
  | discard id =>
    simp only [perform]
    cases h : s.get? id with
    | none => rw [discard_of_none h]; exact .none _
    | some e =>
      by_cases hp : e.pins = 0
      · rw [discard_of_zero h hp]; exact .discard h hp
      · rw [discard_of_pinned h hp]; exact .none _
  | remove subject =>
    simp only [perform]
    cases hf : s.find? subject with
    | none => rw [remove_of_none hf]; exact .none _
    | some id =>
      obtain ⟨-, e, h, -⟩ := find?_some hf
      by_cases hp : e.pins = 0
      · rw [remove_of_zero hf h hp]; exact .remove hf h hp
      · rw [remove_of_pinned hf h hp]; exact .none _
  | setContext id k x =>
    simp only [perform]
    cases h : s.get? id with
    | none => rw [setContext_of_none h]; exact .none _
    | some e => rw [setContext_of_some h]; exact .attach h

/-! ## Entries under an operation -/

/-- What an operation does to an entry that it leaves in place: the certificate is fixed, the state
changes only by a promotion, and the origin only by asking. -/
structure Stays (op : Op) (id : EntryId) (e e' : Entry) : Prop where
  certificate : e'.certificate = e.certificate
  state : e'.state = e.state ∨ op = .promote id ∧ e'.state = .verified
  origin : e'.origin = e.origin ∨ ∃ c, op = .add c .requested ∧ e'.origin = .requested

theorem Stays.refl (op : Op) (id : EntryId) (e : Entry) : Stays op id e e := ⟨rfl, .inl rfl, .inl rfl⟩

theorem Stays.subject {op : Op} {id : EntryId} {e e' : Entry} (h : Stays op id e e') :
    e'.subject = e.subject := congrArg Certificate.subject h.certificate

theorem Stays.verified {op : Op} {id : EntryId} {e e' : Entry} (h : Stays op id e e')
    (hv : e.state = .verified) : e'.state = .verified :=
  h.state.elim (fun hs => hs.trans hv) And.right

namespace Effect

variable {s s' : Store} {op : Op} {id : EntryId} {e' : Entry}

/-- An entry stays, unless it has no pins and is discarded or removed. -/
theorem kept_or_vacated (he : Effect s op s') {e : Entry} (hx : s.get? id = some e) :
    (∃ e', s'.get? id = some e' ∧ Stays op id e e') ∨
    (s'.slots = (s.vacate id).slots ∧ e.pins = 0 ∧
      (op = .discard id ∨ ∃ subject, op = .remove subject ∧ s.find? subject = some id)) := by
  have kept (j : EntryId) {f : Entry → Entry} (hf : id = j → Stays op id e (f e)) :
      ∃ e', (s.update j f).get? id = some e' ∧ Stays op id e e' := by
    rw [get?_update]
    split
    · rename_i hid
      exact ⟨f e, by rw [← hid, hx]; rfl, hf hid⟩
    · exact ⟨e, hx, .refl op id e⟩
  cases he with
  | none => exact .inl ⟨e, hx, .refl _ id e⟩
  | fill _ _ _ _ hv =>
    refine .inl ⟨e, ?_, .refl _ id e⟩
    rw [get?_fill hv, if_neg]
    · exact hx
    · rintro rfl
      rw [get?_of_vacant hv] at hx
      cases hx
  | ask => exact .inl (kept _ fun _ => ⟨rfl, .inl rfl, .inr ⟨_, rfl, rfl⟩⟩)
  | pin => exact .inl (kept _ fun _ => ⟨rfl, .inl rfl, .inl rfl⟩)
  | unpin => exact .inl (kept _ fun _ => ⟨rfl, .inl rfl, .inl rfl⟩)
  | attach => exact .inl (kept _ fun _ => ⟨rfl, .inl rfl, .inl rfl⟩)
  | promote => exact .inl (kept _ fun hid => ⟨rfl, .inr ⟨by rw [hid], rfl⟩, .inl rfl⟩)
  | @discard j e₀ hy hp =>
    by_cases hid : id = j
    · subst hid
      rw [hx, Option.some.injEq] at hy
      exact .inr ⟨rfl, hy ▸ hp, .inl rfl⟩
    · exact .inl ⟨e, by rw [get?_discarded hy, if_neg hid, hx], .refl _ id e⟩
  | @remove subject j e₀ hf hy hp =>
    by_cases hid : id = j
    · subst hid
      rw [hx, Option.some.injEq] at hy
      exact .inr ⟨rfl, hy ▸ hp, .inr ⟨subject, rfl, hf⟩⟩
    · exact .inl ⟨e, by rw [get?_removed hy, if_neg hid, hx], .refl _ id e⟩

/-- An entry has stayed, or it is new. -/
theorem get?_cases (he : Effect s op s') (hx : s'.get? id = some e') :
    (∃ e, s.get? id = some e ∧ Stays op id e e') ∨
    ∃ c o, op = .add c o ∧ e' = Entry.fresh c o ∧ s.Vacant id.index ∧
      s.generation? id.index = some id.generation := by
  cases hold : s.get? id with
  | some e =>
    rcases he.kept_or_vacated hold with ⟨e₁, hx₁, hst⟩ | ⟨hs, -, -⟩
    · rw [hx, Option.some.injEq] at hx₁
      exact .inl ⟨e, rfl, hx₁ ▸ hst⟩
    · rw [get?_of_vacate hs hold, if_pos rfl] at hx
      cases hx
  | none =>
    right
    have unchanged (j : EntryId) {f : Entry → Entry} : (s.update j f).get? id = .none := by
      rw [get?_update]
      split
      · rename_i hid
        rw [← hid, hold]
        rfl
      · exact hold
    cases he with
    | none => rw [hold] at hx; cases hx
    | fill _ _ _ hg hv =>
      rw [get?_fill hv] at hx
      split at hx
      · rename_i hid
        subst hid
        exact ⟨_, _, rfl, (Option.some.inj hx).symm, hv, hg⟩
      · rw [hold] at hx; cases hx
    | ask | pin | unpin | attach => rw [unchanged] at hx; cases hx
    | promote =>
      rw [show (s.promoted _).get? id = .none from unchanged _] at hx
      cases hx
    | discard hy => rw [get?_discarded hy, hold, ite_self] at hx; cases hx
    | remove _ hy => rw [get?_removed hy, hold, ite_self] at hx; cases hx

/-- The verified list gains nothing but what is promoted. -/
theorem mem_verified (he : Effect s op s') (hm : id ∈ s'.verified) :
    id ∈ s.verified ∨ op = .promote id ∧ ∃ e, s.get? id = some e := by
  cases he with
  | none => exact .inl hm
  | fill => exact .inl hm
  | ask | pin | unpin | attach => exact .inl (by simpa using hm)
  | promote hy =>
    rcases List.mem_append.1 hm with hm | hm
    · exact .inl hm
    · rw [List.mem_singleton] at hm
      exact .inr ⟨by rw [hm], _, hm ▸ hy⟩
  | discard => exact .inl hm
  | remove => exact .inl (List.mem_filter.1 hm).1

/-- Only additions fill the queue. -/
theorem mem_of_mem_pending (he : Effect s op s') (hop : ∀ c o, op ≠ .add c o)
    (hm : id ∈ s'.pending) : id ∈ s.pending := by
  cases he with
  | none => exact hm
  | fill | ask => exact absurd rfl (hop _ _)
  | pin | unpin | attach => simpa using hm
  | promote | discard => exact (List.mem_filter.1 hm).1
  | remove => exact hm

theorem pending_eq_nil (he : Effect s op s') (hop : ∀ c o, op ≠ .add c o) (h : s.pending = []) :
    s'.pending = [] := by
  apply List.eq_nil_iff_forall_not_mem.2
  intro id hm
  simpa [h] using he.mem_of_mem_pending hop hm

/-- Only promoting and discarding take from the queue. -/
theorem mem_pending (he : Effect s op s') (hop : op ≠ .promote id ∧ op ≠ .discard id)
    (hm : id ∈ s.pending) : id ∈ s'.pending := by
  have keep {j : EntryId} (hj : id ≠ j) : id ∈ s.pending.filter (· ≠ j) :=
    List.mem_filter.2 ⟨hm, decide_eq_true hj⟩
  cases he with
  | none => exact hm
  | fill => exact List.mem_append_left _ hm
  | ask | pin | unpin | attach => rwa [pending_update]
  | promote => exact keep fun hid => hop.1 (by rw [hid])
  | discard => exact keep fun hid => hop.2 (by rw [hid])
  | remove => exact hm

/-- Only additions use up room. -/
theorem length_free_le (he : Effect s op s') (hop : ∀ c o, op ≠ .add c o) :
    s.free.length ≤ s'.free.length := by
  cases he with
  | none => exact Nat.le_refl _
  | fill | ask => exact absurd rfl (hop _ _)
  | pin | unpin | attach => simp
  | promote => simp [promoted]
  | discard => simp [discarded, vacate]
  | remove => simp [removed, vacate]

theorem rootKey_eq (he : Effect s op s') : s'.rootKey = s.rootKey := by
  cases he with
  | none | fill | discard | remove => rfl
  | ask | pin | unpin | attach => exact rootKey_update
  | promote => exact rootKey_update (f := Entry.accept)

theorem rootAddress_eq (he : Effect s op s') : s'.rootAddress = s.rootAddress := by
  cases he with
  | none | fill | discard | remove => rfl
  | ask | pin | unpin | attach => exact rootAddress_update
  | promote => exact rootAddress_update (f := Entry.accept)

theorem capacity_eq (he : Effect s op s') : s'.capacity = s.capacity := by
  cases he with
  | none => rfl
  | fill | discard | remove => exact List.length_set
  | ask | pin | unpin | attach => exact capacity_update
  | promote => exact capacity_update (f := Entry.accept)

end Effect

/-! ## A new store -/

theorem get?_empty (capacity : Nat) (a : Address) (k : PublicKey) (id : EntryId) :
    (empty capacity a k).get? id = none := by
  cases h : (empty capacity a k).get? id with
  | none => rfl
  | some e =>
    have hs : (List.replicate capacity (⟨0, none⟩ : Slot))[id.index.toNat]? =
        some ⟨id.generation, some e⟩ := get?_eq_some_iff.1 h
    have := List.getElem?_eq_some_iff.1 hs
    simp at this

/-! ## The free list -/

theorem freeVacant_empty (capacity : Nat) (a : Address) (k : PublicKey) :
    (empty capacity a k).FreeVacant where
  nodup := by
    refine List.Nodup.map_on (fun i hi j hj h => ?_) List.nodup_range
    have hi := List.mem_range.1 hi
    have hj := List.mem_range.1 hj
    have hn : 0 < UInt32.size := by decide
    have hlt := Nat.mod_lt capacity hn
    have := congrArg UInt32.toNat h
    simp only [UInt32.toNat_ofNat'] at this
    rw [Nat.mod_eq_of_lt (show i < 2 ^ 32 by exact Nat.lt_trans hi hlt),
      Nat.mod_eq_of_lt (show j < 2 ^ 32 by exact Nat.lt_trans hj hlt)] at this
    exact this
  vacant := by
    intro i hi
    obtain ⟨n, hn, rfl⟩ := List.mem_map.1 hi
    have hn := List.mem_range.1 hn
    have hle : (UInt32.ofNat n).toNat ≤ n := by
      rw [UInt32.toNat_ofNat']; exact Nat.mod_le _ _
    have hm := Nat.mod_le capacity UInt32.size
    exact ⟨0, List.getElem?_replicate_of_lt (by omega)⟩

theorem FreeVacant.vacate {s s' : Store} {id : EntryId} {e : Entry} (hs : s.FreeVacant)
    (h : s.get? id = some e) (hv : s'.slots = (s.vacate id).slots)
    (hf : s'.free = id.index :: s.free) : s'.FreeVacant := by
  refine ⟨?_, ?_⟩
  · rw [hf, List.nodup_cons]
    refine ⟨fun hm => ?_, hs.nodup⟩
    rw [get?_of_vacant (hs.vacant _ hm)] at h
    cases h
  · intro i hi
    rw [vacant_of_vacate hv h]
    rw [hf] at hi
    exact (List.mem_cons.1 hi).imp_right (hs.vacant i)

theorem FreeVacant.effect {s s' : Store} {op : Op} (hs : s.FreeVacant) (h : Effect s op s') :
    s'.FreeVacant := by
  have keep (id : EntryId) (f : Entry → Entry) : (s.update id f).FreeVacant :=
    ⟨by simpa using hs.nodup, fun i hi => (vacant_update i).2 (hs.vacant i (by simpa using hi))⟩
  cases h with
  | none => exact hs
  | fill _ _ hf _ hx =>
    have hn := hs.nodup
    rw [hf, List.nodup_cons] at hn
    refine ⟨hn.2, fun i hi => (vacant_fill hx i).2 ⟨?_, ?_⟩⟩
    · rintro rfl
      exact hn.1 hi
    · exact hs.vacant i (hf ▸ List.mem_cons_of_mem _ hi)
  | ask => exact keep _ _
  | pin => exact keep _ _
  | unpin => exact keep _ _
  | attach => exact keep _ _
  | promote => exact ⟨(keep _ _).nodup, (keep _ _).vacant⟩
  | discard h => exact hs.vacate h rfl rfl
  | remove _ h => exact hs.vacate h rfl rfl

theorem FreeVacant.perform {s : Store} (hs : s.FreeVacant) (op : Op) : (s.perform op).FreeVacant :=
  hs.effect (perform_effect hs op)

end Store
end Vouch
