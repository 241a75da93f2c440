import Vouch.Store.Basic
/-!
# What the operations of the store do to a look-up

Seen through `get?` the store is a finite map from ids to entries: an operation puts one entry in
(`fill`), changes one in place (`update`), takes one out (`vacate`), or leaves the map alone. The
generations of the slots, seen through `generation?`, change only when an entry is taken out.

* `get?_update`, `get?_fill`, `get?_of_vacate`, `get?_promoted`: the map after each kind of change.
* `pin_of_lt`, `add_of_free` and their like: what each operation answers, and with which change.
-/
namespace Vouch

/-! ## Changes to an entry -/

namespace Entry

def takePin (e : Entry) : Entry := { e with pins := e.pins + 1 }

def givePin (e : Entry) : Entry := { e with pins := e.pins - 1 }

def ask (e : Entry) : Entry := { e with origin := .requested }

def accept (e : Entry) : Entry := { e with state := .verified }

def attach (secret : SharedSecret) (context : SecurityContext) (e : Entry) : Entry :=
  { e with secret := some secret, context := some context }

/-- A change that leaves the certificate and the verdict on it alone. -/
def Keeps (f : Entry → Entry) : Prop :=
  ∀ e, (f e).certificate = e.certificate ∧ (f e).state = e.state

theorem keeps_takePin : Keeps takePin := fun _ => ⟨rfl, rfl⟩

theorem keeps_givePin : Keeps givePin := fun _ => ⟨rfl, rfl⟩

theorem keeps_ask : Keeps ask := fun _ => ⟨rfl, rfl⟩

theorem keeps_attach (k : SharedSecret) (x : SecurityContext) : Keeps (attach k x) :=
  fun _ => ⟨rfl, rfl⟩

@[simp] theorem givePin_takePin (e : Entry) : e.takePin.givePin = e := by
  simp [takePin, givePin]

theorem Keeps.subject {f : Entry → Entry} (h : Keeps f) (e : Entry) : (f e).subject = e.subject :=
  congrArg Certificate.subject (h e).1

end Entry

namespace Store

/-! ## The two views -/

/-- How often a slot was released, as far as the slot can count. -/
def generation? (s : Store) (i : UInt32) : Option UInt32 := s.slots[i.toNat]?.map Slot.generation

/-- The slot exists and holds no entry. -/
def Vacant (s : Store) (i : UInt32) : Prop := ∃ g, s.slots[i.toNat]? = some ⟨g, none⟩

theorem get?_eq_some_iff {s : Store} {id : EntryId} {e : Entry} :
    s.get? id = some e ↔ s.slots[id.index.toNat]? = some ⟨id.generation, some e⟩ := by
  unfold get?
  split
  · rename_i slot h
    rw [h]
    obtain ⟨g, x⟩ := slot
    by_cases hg : g = id.generation <;> simp [hg]
  · rename_i h
    simp [h]

theorem lt_of_get? {s : Store} {id : EntryId} {e : Entry} (h : s.get? id = some e) :
    id.index.toNat < s.slots.length :=
  (List.getElem?_eq_some_iff.1 (get?_eq_some_iff.1 h)).1

theorem generation?_of_get? {s : Store} {id : EntryId} {e : Entry} (h : s.get? id = some e) :
    s.generation? id.index = some id.generation := by
  simp [generation?, get?_eq_some_iff.1 h]

theorem generation?_of_slot {s : Store} {i g : UInt32} {x : Option Entry}
    (h : s.slots[i.toNat]? = some ⟨g, x⟩) : s.generation? i = some g := by
  simp [generation?, h]

/-- One slot holds at most one entry. -/
theorem eq_of_index_eq {s : Store} {id id' : EntryId} {e e' : Entry} (h : s.get? id = some e)
    (h' : s.get? id' = some e') (hi : id.index = id'.index) : id = id' := by
  have hg := generation?_of_get? h
  rw [hi, generation?_of_get? h', Option.some.injEq] at hg
  cases id; cases id'; simp_all

theorem get?_of_vacant {s : Store} {id : EntryId} (h : s.Vacant id.index) : s.get? id = none := by
  obtain ⟨g, h⟩ := h
  cases hx : s.get? id with
  | none => rfl
  | some e => rw [get?_eq_some_iff.1 hx] at h; simp at h

/-- A slot that exists is empty or holds the entry named by its own generation. -/
theorem vacant_or_get? {s : Store} {i : UInt32} (h : i.toNat < s.slots.length) :
    s.Vacant i ∨ ∃ g e, s.get? ⟨i, g⟩ = some e := by
  obtain ⟨⟨g, x⟩, hx⟩ : ∃ slot, s.slots[i.toNat]? = some slot :=
    ⟨_, List.getElem?_eq_getElem h⟩
  cases x with
  | none => exact .inl ⟨g, hx⟩
  | some e => exact .inr ⟨g, e, get?_eq_some_iff.2 hx⟩

section set

variable {s s' : Store} {i : UInt32} {slot : Slot}

theorem get?_of_set (h : s'.slots = s.slots.set i.toNat slot) (hi : i.toNat < s.slots.length)
    (id : EntryId) : s'.get? id =
      if id.index = i then if slot.generation = id.generation then slot.entry else none
      else s.get? id := by
  unfold get?
  rw [h, List.getElem?_set]
  by_cases hx : id.index = i
  · subst hx; simp [hi]
  · have hn : i.toNat ≠ id.index.toNat := fun hc => hx (UInt32.toNat_inj.1 hc).symm
    rw [if_neg hn, if_neg hx]

theorem generation?_of_set (h : s'.slots = s.slots.set i.toNat slot) (hi : i.toNat < s.slots.length)
    (j : UInt32) : s'.generation? j = if j = i then some slot.generation else s.generation? j := by
  unfold generation?
  rw [h, List.getElem?_set]
  by_cases hx : j = i
  · subst hx; simp [hi]
  · have hn : i.toNat ≠ j.toNat := fun hc => hx (UInt32.toNat_inj.1 hc).symm
    rw [if_neg hn, if_neg hx]

theorem vacant_of_set (h : s'.slots = s.slots.set i.toNat slot) (hi : i.toNat < s.slots.length)
    (j : UInt32) : s'.Vacant j ↔ if j = i then slot.entry = none else s.Vacant j := by
  unfold Vacant
  rw [h, List.getElem?_set]
  by_cases hx : j = i
  · subst hx
    obtain ⟨g, x⟩ := slot
    simp [hi]
  · have hn : i.toNat ≠ j.toNat := fun hc => hx (UInt32.toNat_inj.1 hc).symm
    rw [if_neg hn, if_neg hx]

end set

/-! ## Changing an entry in place -/

section update

variable {s : Store} {id : EntryId} {f : Entry → Entry}

theorem update_of_none (h : s.get? id = none) : s.update id f = s := by simp [update, h]

theorem update_of_some {e : Entry} (h : s.get? id = some e) : s.update id f =
    { s with slots := s.slots.set id.index.toNat ⟨id.generation, some (f e)⟩ } := by
  simp [update, h]

theorem slots_update {e : Entry} (h : s.get? id = some e) :
    (s.update id f).slots = s.slots.set id.index.toNat ⟨id.generation, some (f e)⟩ := by
  simp [update, h]

@[simp] theorem free_update : (s.update id f).free = s.free := by unfold update; split <;> rfl

@[simp] theorem pending_update : (s.update id f).pending = s.pending := by
  unfold update; split <;> rfl

@[simp] theorem verified_update : (s.update id f).verified = s.verified := by
  unfold update; split <;> rfl

@[simp] theorem rootKey_update : (s.update id f).rootKey = s.rootKey := by
  unfold update; split <;> rfl

@[simp] theorem rootAddress_update : (s.update id f).rootAddress = s.rootAddress := by
  unfold update; split <;> rfl

@[simp] theorem capacity_update : (s.update id f).capacity = s.capacity := by
  unfold update capacity; split <;> simp

theorem get?_update (j : EntryId) :
    (s.update id f).get? j = if j = id then (s.get? id).map f else s.get? j := by
  cases h : s.get? id with
  | none =>
    rw [update_of_none h]
    split
    · rename_i hj; rw [hj, h]; rfl
    · rfl
  | some e =>
    rw [get?_of_set (slots_update h) (lt_of_get? h)]
    by_cases hj : j = id
    · subst hj; simp
    · rw [if_neg hj]
      split
      · rename_i hi
        cases hx : s.get? j with
        | none => rw [if_neg (fun hg => hj (by cases j; cases id; simp_all))]
        | some e' => exact absurd (eq_of_index_eq hx h hi) hj
      · rfl

/-- An entry after a change in place was there before, and is changed or not. -/
theorem get?_of_get?_update {j : EntryId} {e' : Entry} (h : (s.update id f).get? j = some e') :
    ∃ e, s.get? j = some e ∧ (e' = e ∨ j = id ∧ e' = f e) := by
  rw [get?_update] at h
  split at h
  · rename_i hj
    obtain ⟨e, he, rfl⟩ := Option.map_eq_some_iff.1 h
    exact ⟨e, hj ▸ he, .inr ⟨hj, rfl⟩⟩
  · exact ⟨e', h, .inl rfl⟩

/-- Two changes of one entry are one. -/
theorem update_update (g : Entry → Entry) :
    (s.update id f).update id g = s.update id fun e => g (f e) := by
  cases h : s.get? id with
  | none => rw [update_of_none h, update_of_none h, update_of_none h]
  | some e =>
    have h' : (s.update id f).get? id = some (f e) := by rw [get?_update, if_pos rfl, h]; rfl
    rw [update_of_some h', update_of_some h, update_of_some h, List.set_set]

theorem update_congr {g : Entry → Entry} {e : Entry} (h : s.get? id = some e) (hfg : f e = g e) :
    s.update id f = s.update id g := by
  simp only [update, h, hfg]

theorem update_eq_self {e : Entry} (h : s.get? id = some e) (hf : f e = e) : s.update id f = s := by
  obtain ⟨hi, hx⟩ := List.getElem?_eq_some_iff.1 (get?_eq_some_iff.1 h)
  simp only [update, h, hf]
  rw [← hx, List.set_getElem_self]

theorem map_certificate_update (hf : Entry.Keeps f) (j : EntryId) :
    ((s.update id f).get? j).map Entry.certificate = (s.get? j).map Entry.certificate := by
  rw [get?_update]
  split
  · rename_i hj
    rw [hj, Option.map_map]
    exact congrArg (fun g => (s.get? id).map g) (funext fun e => (hf e).1)
  · rfl

/-- Changes to two entries do not get into each other's way. -/
theorem update_comm {j : EntryId} (hj : id ≠ j) (g : Entry → Entry) :
    (s.update id f).update j g = (s.update j g).update id f := by
  have stays {k l : EntryId} (f : Entry → Entry) (hkl : k ≠ l) :
      (s.update l f).get? k = s.get? k := by rw [get?_update, if_neg hkl]
  cases hx : s.get? id with
  | none => rw [update_of_none hx, update_of_none ((stays g hj).trans hx)]
  | some e =>
    cases hy : s.get? j with
    | none => rw [update_of_none hy, update_of_none ((stays f (Ne.symm hj)).trans hy)]
    | some e' =>
      have hne : id.index.toNat ≠ j.index.toNat := fun hcon =>
        hj (eq_of_index_eq hx hy (UInt32.toNat_inj.1 hcon))
      rw [update_of_some ((stays f (Ne.symm hj)).trans hy), update_of_some hx,
        update_of_some ((stays g hj).trans hx), update_of_some hy, List.set_comm _ _ hne]

@[simp] theorem generation?_update (j : UInt32) :
    (s.update id f).generation? j = s.generation? j := by
  cases h : s.get? id with
  | none => rw [update_of_none h]
  | some e =>
    rw [generation?_of_set (slots_update h) (lt_of_get? h)]
    split
    · rename_i hj; rw [hj, generation?_of_get? h]
    · rfl

@[simp] theorem vacant_update (j : UInt32) : (s.update id f).Vacant j ↔ s.Vacant j := by
  cases h : s.get? id with
  | none => rw [update_of_none h]
  | some e =>
    rw [vacant_of_set (slots_update h) (lt_of_get? h)]
    split
    · rename_i hj
      simp only [reduceCtorEq, false_iff]
      intro hv
      rw [get?_of_vacant (hj ▸ hv)] at h
      cases h
    · rfl

end update

/-! ## Putting an entry in and taking one out -/

/-- A certificate has taken the empty slot `i`; `free` is what the free list is left with. -/
def fill (s : Store) (id : EntryId) (free : List UInt32) (c : Certificate) (o : Origin) : Store :=
  { s with
    slots := s.slots.set id.index.toNat ⟨id.generation, some (Entry.fresh c o)⟩
    free := free
    pending := s.pending ++ [id] }

/-- The entry is gone and its slot released. -/
def vacate (s : Store) (id : EntryId) : Store :=
  { s with
    slots := s.slots.set id.index.toNat ⟨id.generation + 1, none⟩
    free := id.index :: s.free }

/-- The entry is verified, and listed so. -/
def promoted (s : Store) (id : EntryId) : Store :=
  { s.update id Entry.accept with
    pending := s.pending.filter (· ≠ id)
    verified := s.verified ++ [id] }

/-- The entry is gone from the queue. -/
def discarded (s : Store) (id : EntryId) : Store :=
  { s.vacate id with pending := s.pending.filter (· ≠ id) }

/-- The entry is gone from the verified list. -/
def removed (s : Store) (id : EntryId) : Store :=
  { s.vacate id with verified := s.verified.filter (· ≠ id) }

section fill

variable {s : Store} {id : EntryId} {free : List UInt32} {c : Certificate} {o : Origin}

theorem lt_of_vacant {i : UInt32} (h : s.Vacant i) : i.toNat < s.slots.length :=
  (List.getElem?_eq_some_iff.1 h.choose_spec).1

theorem get?_fill (h : s.Vacant id.index) (j : EntryId) :
    (s.fill id free c o).get? j = if j = id then some (Entry.fresh c o) else s.get? j := by
  rw [get?_of_set rfl (lt_of_vacant h)]
  by_cases hj : j = id
  · simp [hj]
  · rw [if_neg hj]
    split
    · rename_i hi
      rw [get?_of_vacant (hi ▸ h), if_neg (fun hg => hj (by cases j; cases id; simp_all))]
    · rfl

theorem generation?_fill (h : s.generation? id.index = some id.generation)
    (hv : s.Vacant id.index) (j : UInt32) :
    (s.fill id free c o).generation? j = s.generation? j := by
  rw [generation?_of_set rfl (lt_of_vacant hv)]
  split
  · rename_i hj; rw [hj, h]
  · rfl

theorem vacant_fill (h : s.Vacant id.index) (j : UInt32) :
    (s.fill id free c o).Vacant j ↔ j ≠ id.index ∧ s.Vacant j := by
  rw [vacant_of_set rfl (lt_of_vacant h)]
  split <;> simp_all

end fill

section vacate

variable {s s' : Store} {id : EntryId} {e : Entry}

theorem get?_of_vacate (hs : s'.slots = (s.vacate id).slots) (h : s.get? id = some e)
    (j : EntryId) : s'.get? j = if j = id then none else s.get? j := by
  rw [get?_of_set hs (lt_of_get? h)]
  split
  · rename_i hi
    simp only [ite_self]
    split
    · rfl
    · rename_i hj
      cases hx : s.get? j with
      | none => rfl
      | some e' => exact absurd (eq_of_index_eq hx h hi) hj
  · rename_i hi
    rw [if_neg (fun hj => hi (by rw [hj]))]

theorem get?_discarded (h : s.get? id = some e) (j : EntryId) :
    (s.discarded id).get? j = if j = id then none else s.get? j := get?_of_vacate rfl h j

theorem get?_removed (h : s.get? id = some e) (j : EntryId) :
    (s.removed id).get? j = if j = id then none else s.get? j := get?_of_vacate rfl h j

theorem generation?_of_vacate (hs : s'.slots = (s.vacate id).slots) (h : s.get? id = some e)
    (j : UInt32) :
    s'.generation? j = if j = id.index then some (id.generation + 1) else s.generation? j :=
  generation?_of_set hs (lt_of_get? h) j

theorem vacant_of_vacate (hs : s'.slots = (s.vacate id).slots) (h : s.get? id = some e)
    (j : UInt32) : s'.Vacant j ↔ j = id.index ∨ s.Vacant j := by
  rw [vacant_of_set hs (lt_of_get? h)]
  split <;> simp_all

end vacate

section promoted

variable {s : Store} {id : EntryId}

theorem get?_promoted (j : EntryId) :
    (s.promoted id).get? j = if j = id then (s.get? id).map Entry.accept else s.get? j :=
  get?_update j

theorem generation?_promoted (j : UInt32) : (s.promoted id).generation? j = s.generation? j :=
  generation?_update j

theorem vacant_promoted (j : UInt32) : (s.promoted id).Vacant j ↔ s.Vacant j := vacant_update j

end promoted

/-! ## What the operations answer -/

section answers

variable {s : Store} {id : EntryId} {e : Entry}

theorem names_iff {subject : Eui64} :
    s.names subject id = true ↔ ∃ e, s.get? id = some e ∧ e.subject = subject := by
  unfold names
  cases s.get? id <;> simp

theorem find?_some {subject : Eui64} (h : s.find? subject = some id) :
    id ∈ s.verified ∧ ∃ e, s.get? id = some e ∧ e.subject = subject :=
  ⟨List.mem_of_find?_eq_some h, names_iff.1 (List.find?_some h)⟩

theorem findPending?_some {subject : Eui64} (h : s.findPending? subject = some id) :
    id ∈ s.pending ∧ ∃ e, s.get? id = some e ∧ e.subject = subject :=
  ⟨List.mem_of_find?_eq_some h, names_iff.1 (List.find?_some h)⟩

theorem find?_none {subject : Eui64} (h : s.find? subject = none) (hm : id ∈ s.verified)
    (he : s.get? id = some e) : e.subject ≠ subject := fun hs =>
  List.find?_eq_none.1 h id hm (names_iff.2 ⟨e, he, hs⟩)

theorem findPending?_none {subject : Eui64} (h : s.findPending? subject = none)
    (hm : id ∈ s.pending) (he : s.get? id = some e) : e.subject ≠ subject := fun hs =>
  List.find?_eq_none.1 h id hm (names_iff.2 ⟨e, he, hs⟩)

theorem pin_of_none (h : s.get? id = none) : s.pin id = (.error (.unknownEntry id), s) := by
  simp [pin, h]

theorem pin_of_full (h : s.get? id = some e) (hp : e.pins = maxPins) :
    s.pin id = (.error (.misuse .tooMany), s) := by simp [pin, h, hp]

theorem pin_of_lt (h : s.get? id = some e) (hp : e.pins ≠ maxPins) :
    s.pin id = (.ok (e.pins + 1), s.update id Entry.takePin) := by simp only [pin, h, if_neg hp]; rfl

theorem unpin_of_none (h : s.get? id = none) : s.unpin id = (.error (.unknownEntry id), s) := by
  simp [unpin, h]

theorem unpin_of_zero (h : s.get? id = some e) (hp : e.pins = 0) :
    s.unpin id = (.error (.misuse (.notPinned e.subject)), s) := by simp [unpin, h, hp]

theorem unpin_of_pos (h : s.get? id = some e) (hp : e.pins ≠ 0) :
    s.unpin id = (.ok (e.pins - 1), s.update id Entry.givePin) := by
  simp only [unpin, h, if_neg hp]; rfl

theorem promote_of_none (h : s.get? id = none) : s.promote id = (.error (.unknownEntry id), s) := by
  simp [promote, h]

theorem promote_of_some (h : s.get? id = some e) : s.promote id = (.ok (), s.promoted id) := by
  simp only [promote, h, pending_update, verified_update]; rfl

theorem release_of_none (h : s.get? id = none) : s.release id = (.error (.unknownEntry id), s) := by
  simp [release, h]

theorem release_of_pinned (h : s.get? id = some e) (hp : e.pins ≠ 0) :
    s.release id = (.error (.pinned e.subject e.pins), s) := by
  simp only [release, h, if_pos (UInt32.pos_iff_ne_zero.2 hp)]

theorem release_of_zero (h : s.get? id = some e) (hp : e.pins = 0) :
    s.release id = (.ok e.certificate, s.vacate id) := by
  simp only [release, h, hp, UInt32.lt_irrefl, if_false]; rfl

theorem discard_of_none (h : s.get? id = none) : s.discard id = (.error (.unknownEntry id), s) := by
  simp [discard, release_of_none h]

theorem discard_of_pinned (h : s.get? id = some e) (hp : e.pins ≠ 0) :
    s.discard id = (.error (.pinned e.subject e.pins), s) := by
  simp [discard, release_of_pinned h hp]

theorem discard_of_zero (h : s.get? id = some e) (hp : e.pins = 0) :
    s.discard id = (.ok e.certificate, s.discarded id) := by
  simp only [discard, release_of_zero h hp]; rfl

theorem setContext_of_none {k : SharedSecret} {x : SecurityContext} (h : s.get? id = none) :
    s.setContext id k x = (.error (.unknownEntry id), s) := by simp [setContext, h]

theorem setContext_of_some {k : SharedSecret} {x : SecurityContext} (h : s.get? id = some e) :
    s.setContext id k x = (.ok (), s.update id (Entry.attach k x)) := by
  simp only [setContext, h]; rfl

theorem remove_of_none {subject : Eui64} (h : s.find? subject = none) :
    s.remove subject = (.error (.unknownSubject subject), s) := by simp [remove, h]

theorem remove_of_pinned {subject : Eui64} (hf : s.find? subject = some id) (h : s.get? id = some e)
    (hp : e.pins ≠ 0) : s.remove subject = (.error (.pinned e.subject e.pins), s) := by
  simp [remove, hf, release_of_pinned h hp]

theorem remove_of_zero {subject : Eui64} (hf : s.find? subject = some id) (h : s.get? id = some e)
    (hp : e.pins = 0) : s.remove subject = (.ok e.certificate, s.removed id) := by
  simp only [remove, hf, release_of_zero h hp]; rfl

variable {c : Certificate} {o : Origin}

theorem add_of_verified (h : s.find? c.subject = some id) :
    s.add c o = (.ok (.alreadyVerified id), s) := by simp [add, h]

theorem add_of_pending (hv : s.find? c.subject = none) (h : s.findPending? c.subject = some id) :
    s.add c o = (.ok (.alreadyPending id), if o = .requested then s.update id Entry.ask else s) := by
  simp only [add, hv, h]; rfl

theorem add_of_full (hv : s.find? c.subject = none) (hp : s.findPending? c.subject = none)
    (hf : s.free = []) : s.add c o = (.error (.exhausted s.capacity), s) := by
  simp [add, hv, hp, hf]

theorem add_of_free {i : UInt32} {free : List UInt32} (hv : s.find? c.subject = none)
    (hp : s.findPending? c.subject = none) (hf : s.free = i :: free) {g : UInt32}
    (hg : s.generation? i = some g) :
    s.add c o = (.ok (.enqueued ⟨i, g⟩), s.fill ⟨i, g⟩ free c o) := by
  have hg' : s.slots[i.toNat]?.map Slot.generation = some g := hg
  simp only [add, hv, hp, hf, hg', Option.getD_some]; rfl

end answers

end Store
end Vouch
