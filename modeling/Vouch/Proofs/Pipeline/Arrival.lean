import Mathlib.Data.Set.Card
import Vouch.Proofs.Pipeline.Admission
import Vouch.Proofs.Pipeline.Custody
import Vouch.Proofs.Pipeline.Prospect
/-!
# Arrivals in any order

Certificates of different subjects arrive at a store that has room for all of them, in some order and
between any two steps of a pipeline. Which slots they get, and in which order they end up on the
lists, depends on when the forged ones are dropped. What the store says of each subject in the end does
not (`Store.profile?`).

A worker is `Underway` when its entries, and those alone, have the prospects that the store had at the
beginning and those of the genuine certificates that have arrived. With nothing left in the queue
prospects are profiles.

* `Underway.act`, `Underway.add`, `Underway.run`: a step of the pipeline, an arrival, and any number of
  them.
* `Underway.exists_finished`, `Underway.drain`: the round under way comes to its end, and draining
  empties the queue.
* `profiles_of_arrivals`: what the store says then.
-/
namespace Vouch

open Store (Op Effect)

/-! ## Counting entries -/

namespace Store

/-- The free list is as long as there are empty slots. -/
def Tallied (s : Store) : Prop := s.free.length = s.slots.countP fun slot => slot.entry = none

/-- The subjects of all entries, in the order of their slots. -/
def subjects (s : Store) : List Eui64 := s.slots.filterMap fun slot => slot.entry.map Entry.subject

section counting

variable {s s' : Store}

theorem tallied_empty {capacity : Nat} (hc : capacity < UInt32.size) (a : Address) (k : PublicKey) :
    (empty capacity a k).Tallied := by
  unfold Tallied empty
  simp [Nat.mod_eq_of_lt hc, List.countP_replicate]

theorem Tallied.update (h : s.Tallied) (id : EntryId) (f : Entry → Entry) :
    (s.update id f).Tallied := by
  cases hx : s.get? id with
  | none => rwa [update_of_none hx]
  | some e =>
    have hset := countP_set (P := fun slot : Slot => slot.entry = none) (get?_eq_some_iff.1 hx)
      ⟨id.generation, some (f e)⟩
    unfold Tallied at h ⊢
    rw [free_update, slots_update hx, h]
    simpa using hset.symm

theorem Tallied.vacate {id : EntryId} {e : Entry} (h : s.Tallied) (hx : s.get? id = some e)
    (hs : s'.slots = (s.vacate id).slots) (hf : s'.free = id.index :: s.free) : s'.Tallied := by
  have hset := countP_set (P := fun slot : Slot => slot.entry = none) (get?_eq_some_iff.1 hx)
    ⟨id.generation + 1, none⟩
  unfold Tallied at h ⊢
  rw [hs, hf, List.length_cons, h]
  simpa [Store.vacate] using hset.symm

/-- **One operation**, whatever it names. -/
theorem Tallied.effect {op : Op} (h : s.Tallied) (he : Effect s op s') : s'.Tallied := by
  cases he with
  | none => exact h
  | @fill c o id free _ _ hf _ hx =>
    obtain ⟨g, hslot⟩ := hx
    have hset := countP_set (P := fun slot : Slot => slot.entry = .none) hslot
      ⟨id.generation, some (Entry.fresh c o)⟩
    unfold Tallied at h ⊢
    rw [hf, List.length_cons] at h
    simp only [fill, if_true, reduceCtorEq, if_false] at hset ⊢
    omega
  | ask | pin | unpin | attach => exact h.update _ _
  | promote => exact h.update _ Entry.accept
  | discard hx | remove _ hx => exact h.vacate hx rfl rfl

theorem length_subjects (h : s.Tallied) : s.subjects.length = s.size := by
  have hall := List.length_eq_countP_add_countP (fun slot : Slot => decide (slot.entry = none))
    (l := s.slots)
  have hsome : s.subjects.length = s.slots.countP fun slot => ¬ slot.entry = none := by
    unfold subjects
    rw [List.length_filterMap_eq_countP]
    refine List.countP_congr fun slot _ => ?_
    cases slot.entry <;> simp
  unfold Tallied at h
  unfold size
  simp only [decide_not] at hsome
  rw [hsome, h]
  simp only [Bool.decide_eq_true, decide_not] at hall
  omega

/-- A slot has an id, as long as indices do not run out. -/
theorem get?_of_slot {i : Nat} {g : UInt32} {e : Entry} (hc : s.capacity < UInt32.size)
    (hx : s.slots[i]? = some ⟨g, some e⟩) : s.get? ⟨UInt32.ofNat i, g⟩ = some e := by
  have hi : i < s.capacity := (List.getElem?_eq_some_iff.1 hx).1
  have hnat : (UInt32.ofNat i).toNat = i := by
    rw [UInt32.toNat_ofNat']
    exact Nat.mod_eq_of_lt (Nat.lt_trans hi hc)
  rw [get?_eq_some_iff, hnat, hx]

theorem mem_subjects {subject : Eui64} (hc : s.capacity < UInt32.size) :
    subject ∈ s.subjects ↔ s.Holds subject := by
  unfold subjects
  simp only [List.mem_filterMap, Option.map_eq_some_iff]
  constructor
  · rintro ⟨⟨g, x⟩, hm, e, rfl, hsub⟩
    obtain ⟨i, hx⟩ := List.mem_iff_getElem?.1 hm
    exact ⟨_, e, get?_of_slot hc hx, hsub⟩
  · rintro ⟨id, e, hx, hsub⟩
    exact ⟨_, List.mem_of_getElem? (get?_eq_some_iff.1 hx), e, rfl, hsub⟩

theorem nodup_subjects (hc : s.capacity < UInt32.size) (h : s.Covered) : s.subjects.Nodup := by
  unfold subjects List.Nodup
  rw [List.pairwise_filterMap, List.pairwise_iff_getElem]
  intro i j hi hj hlt a ha a' ha'
  obtain ⟨e, he, rfl⟩ := Option.map_eq_some_iff.1 ha
  obtain ⟨e', he', rfl⟩ := Option.map_eq_some_iff.1 ha'
  have hx : s.slots[i]? = some ⟨s.slots[i].generation, some e⟩ := by
    rw [List.getElem?_eq_getElem hi, ← he]
  have hx' : s.slots[j]? = some ⟨s.slots[j].generation, some e'⟩ := by
    rw [List.getElem?_eq_getElem hj, ← he']
  intro hsub
  have hid := h.eq_of_subject_eq (get?_of_slot hc hx) (get?_of_slot hc hx') hsub
  have hnat := congrArg (fun id => id.index.toNat) hid
  simp only [UInt32.toNat_ofNat'] at hnat
  rw [Nat.mod_eq_of_lt (Nat.lt_trans hi hc), Nat.mod_eq_of_lt (Nat.lt_trans hj hc)] at hnat
  omega

end counting

/-! ## Profiles of a store -/

/-- What the store says of a subject, by its verified entry. -/
def profile? (s : Store) (subject : Eui64) : Option Profile :=
  (s.find? subject).bind fun id => (s.get? id).map Entry.profile

/-- With nothing in the queue every entry is verified. -/
theorem Covered.state_of_get? {s : Store} (hs : s.Covered) (hq : s.pending = []) {id : EntryId}
    {e : Entry} (hx : s.get? id = some e) : e.state = .verified := by
  cases hst : e.state with
  | verified => rfl
  | pending =>
    have hm := hs.pending hx hst
    simp [hq] at hm

/-- With nothing in the queue, what the store says is what it will say. -/
theorem profile?_eq_some_iff {b : Backend} {p : VerificationPolicy} {s : Store} {subject : Eui64}
    {pr : Profile} (hs : s.Covered) (hq : s.pending = []) : s.profile? subject = some pr ↔
      pr.certificate.subject = subject ∧ ∃ id, s.prospect? b p none id = some pr := by
  have now {id : EntryId} {e : Entry} (hx : s.get? id = some e) :
      s.prospect? b p none id = some e.profile := by
    rw [prospect?_of_get? hx]
    exact Entry.prospect?_of_verified (hs.state_of_get? hq hx)
  unfold profile?
  constructor
  · intro h
    obtain ⟨id, hf, h⟩ := Option.bind_eq_some_iff.1 h
    obtain ⟨e, hx, rfl⟩ := Option.map_eq_some_iff.1 h
    obtain ⟨-, e', hx', hsub⟩ := find?_some hf
    rw [hx, Option.some.injEq] at hx'
    subst hx'
    exact ⟨hsub, id, now hx⟩
  · rintro ⟨hsub, id, hpr⟩
    cases hx : s.get? id with
    | none => simp [prospect?_of_none hx] at hpr
    | some e =>
      rw [now hx, Option.some.injEq] at hpr
      subst hpr
      have hf := hs.find?_subject hx (hs.state_of_get? hq hx)
      rw [show e.subject = subject from hsub] at hf
      simp [hf, hx]

end Store

/-! ## A store while certificates arrive -/

namespace Store.Effect

variable {s s' : Store} {op : Op}

/-- What is in the queue waits, as long as no verified entry is put there or removed. -/
theorem waiting (he : Effect s op s') (hop : ∀ subject, op ≠ .remove subject)
    (h : ∀ id ∈ s.pending, s.Has id fun e => e.state = .pending) :
    ∀ id ∈ s'.pending, s'.Has id fun e => e.state = .pending := by
  have keep {j : EntryId} {f : Entry → Entry} (hf : Entry.Keeps f) :
      ∀ id ∈ (s.update j f).pending, (s.update j f).Has id fun e => e.state = .pending := by
    intro id hm
    rw [pending_update] at hm
    obtain ⟨e, hx, hw⟩ := h id hm
    rw [Has, get?_update]
    split
    · rename_i hj
      exact ⟨f e, by simp [← hj, hx], (hf e).2.trans hw⟩
    · exact ⟨e, hx, hw⟩
  cases he with
  | none => exact h
  | @fill c o j free _ _ _ _ hx =>
    intro id hm
    rw [Has, get?_fill hx]
    split
    · exact ⟨_, rfl, rfl⟩
    · rename_i hj
      have hm : id ∈ s.pending ++ [j] := hm
      exact h id (by simpa [hj] using hm)
  | ask => exact keep Entry.keeps_ask
  | pin => exact keep Entry.keeps_takePin
  | unpin => exact keep Entry.keeps_givePin
  | attach => exact keep (Entry.keeps_attach _ _)
  | @promote j =>
    intro id hm
    have hm : id ∈ s.pending.filter (· ≠ j) := hm
    simp only [ne_eq, decide_not, List.mem_filter, Bool.not_eq_eq_eq_not, Bool.not_true,
      decide_eq_false_iff_not] at hm
    rw [Has, get?_promoted, if_neg hm.2]
    exact h id hm.1
  | @discard j e hx =>
    intro id hm
    have hm : id ∈ s.pending.filter (· ≠ j) := hm
    simp only [ne_eq, decide_not, List.mem_filter, Bool.not_eq_eq_eq_not, Bool.not_true,
      decide_eq_false_iff_not] at hm
    rw [Has, get?_discarded hx, if_neg hm.2]
    exact h id hm.1
  | remove => exact absurd rfl (hop _)

theorem holds (he : Effect s op s') (hop : ∀ c o, op ≠ .add c o) {subject : Eui64}
    (h : s'.Holds subject) : s.Holds subject := by
  obtain ⟨id, e', hx', hsub⟩ := h
  rcases he.get?_cases hx' with ⟨e, hx, hst⟩ | ⟨c, o, hc, -⟩
  · exact ⟨id, e, hx, hst.subject.symm.trans hsub⟩
  · exact absurd hc (hop c o)

end Store.Effect

/-- A round is about the entry that it was about, or about the head of the queue. -/
theorem Round.Move.target? {p : VerificationPolicy} {s s' : Store} {r r' : Round} {id : EntryId}
    (h : Move p s r r' s') (ht : r'.target? = some id) :
    r.target? = some id ∨ id ∈ s.pending := by
  cases h with
  | found hh => cases ht; exact .inr (List.mem_of_head? hh)
  | pin | read | unpin | unpinGone | accept | pinAgain => exact .inl ht
  | @exchange i subject x x' =>
    unfold ofExchange at ht
    split at ht
    · cases ht
    · cases ht
    · cases ht
    · exact .inl ht
  | idle | full | vanished | unread | overdrawn | reject | missed | acceptOnly | fullAgain
  | gone => cases ht

namespace Worker

/-- The certificate that an event brings. -/
def Event.arrival? : Event → Option (Certificate × Origin)
  | .add c o => some (c, o)
  | .act _ => none

/-- The certificates that a run brings, in the order of their arrival. -/
def arrivals (es : List Event) : List (Certificate × Origin) := es.filterMap Event.arrival?

/-- A worker that began over the store `s₀` with nothing in the queue, after the certificates `came`
have arrived. -/
structure Underway (b : Backend) (p : VerificationPolicy) (s₀ : Store)
    (came : List (Certificate × Origin)) (w : Worker) : Prop where
  freeVacant : w.store.FreeVacant
  covered : w.store.Covered
  tallied : w.store.capacity < UInt32.size → w.store.Tallied
  capacity : w.store.capacity = s₀.capacity
  rootKey : w.store.rootKey = s₀.rootKey
  fits : w.round.Fits b p w.store
  waiting : ∀ id ∈ w.store.pending, w.store.Has id fun e => e.state = .pending
  pinsOn : ∀ id, w.store.pinsOn id = s₀.pinsOn id + if w.round.holds? = some id then 1 else 0
  unpinned : ∀ id, w.round.target? = some id ∨ id ∈ w.store.pending → s₀.pinsOn id = 0
  known : ∀ subject, w.store.Holds subject →
    s₀.Holds subject ∨ subject ∈ came.map fun x => x.1.subject
  room : s₀.free.length ≤ w.store.free.length + came.length
  kept : ∀ id e, s₀.get? id = some e → w.store.prospect? b p w.round.owes? id = some e.profile
  prospects : ∀ pr, (∃ id, w.store.prospect? b p w.round.owes? id = some pr) ↔
    (∃ id, s₀.prospect? b p none id = some pr) ∨
      ∃ x ∈ came, s₀.Genuine b x.1 ∧ ((Entry.fresh x.1 x.2).settled b p).profile = pr

variable {b : Backend} {p : VerificationPolicy} {s₀ : Store} {came : List (Certificate × Origin)}
  {w w' : Worker}

theorem Underway.counted (h : Underway b p s₀ came w) : w.round.Counted w.store := by
  intro id ht e hx
  have hp := h.pinsOn id
  rw [Store.pinsOn_of_some hx, h.unpinned id (.inl ht)] at hp
  apply UInt32.toNat_inj.1
  rw [hp]
  split <;> rfl

/-- What a step of the pipeline leaves as it was. -/
theorem Underway.keep {op : Op} (h : Underway b p s₀ came w) (he : Effect w.store op w'.store)
    (ha : w.round.Asks op) (hf : w'.round.Fits b p w'.store)
    (hpins : ∀ id, w'.store.pinsOn id + (if w.round.holds? = some id then 1 else 0) =
      w.store.pinsOn id + if w'.round.holds? = some id then 1 else 0)
    (ht : ∀ id, w'.round.target? = some id → w.round.target? = some id ∨ id ∈ w.store.pending)
    (hpro : w'.store.prospect? b p w'.round.owes? = w.store.prospect? b p w.round.owes?) :
    Underway b p s₀ came w' := by
  have hadd : ∀ c o, op ≠ .add c o := fun c o hop => by subst hop; exact ha
  have hremove : ∀ subject, op ≠ .remove subject := fun subject hop => by subst hop; exact ha
  have hroom := he.length_free_le hadd
  refine ⟨h.freeVacant.effect he, h.covered.effect he, fun hc => ?_, he.capacity_eq.trans h.capacity,
    he.rootKey_eq.trans h.rootKey, hf, he.waiting hremove h.waiting, fun id => ?_, fun id hid => ?_,
    fun subject hh => h.known subject (he.holds hadd hh), ?_, fun id e hx => ?_, fun pr => ?_⟩
  · exact (h.tallied (he.capacity_eq ▸ hc)).effect he
  · have hold := h.pinsOn id
    have hnew := hpins id
    omega
  · apply h.unpinned id
    rcases hid with hid | hid
    · exact ht id hid
    · exact .inr (he.mem_of_mem_pending hadd hid)
  · have hold := h.room
    omega
  · rw [hpro]
    exact h.kept id e hx
  · rw [hpro]
    exact h.prospects pr

/-- **A step of the pipeline.** -/
theorem Underway.act {a : Act} (h : Underway b p s₀ came w) (hstep : w.act b p a = some w') :
    Underway b p s₀ came w' := by
  cases a with
  | start =>
    obtain ⟨result, hr, rfl⟩ := start_cases hstep
    have he : Effect w.store (.unpin ⟨0, 0⟩) w.store := .none _
    exact h.keep he trivial trivial (by simp [hr, Round.holds?]) (by simp [Round.target?])
      (by simp [hr, Round.owes?])
  | advance =>
    have hm := move_of_advance hstep
    obtain ⟨op, he, ha⟩ := hm.effect h.freeVacant
    have hheld : ∀ i, w.round.holds? = some i → w.store.Has i fun e => e.pins ≠ 0 :=
      fun i hi => h.counted.has_pin h.fits hi
    exact h.keep he ha (hm.fits_of_counted h.waiting h.fits h.counted)
      (hm.pinsOn h.freeVacant hheld) (fun id ht => hm.target? ht) (hm.prospect? h.fits h.counted)
  | serve =>
    have hf := fits_of_serve h.fits hstep
    have he : Effect w.store (.unpin ⟨0, 0⟩) w.store := .none _
    rcases serve_cases hstep with ⟨_, c, key, hr, rfl⟩ | ⟨_, subject, i, peer, key, hr, rfl⟩
    · exact h.keep he trivial hf (by simp [hr, Round.holds?]) (by simp [hr, Round.target?])
        (by simp [hr, Round.owes?])
    · exact h.keep he trivial hf (by simp [hr, Round.holds?, Exchange.holds?_answer])
        (by simp [hr, Round.target?]) (by simp [hr, Round.owes?])

/-- A new subject finds room. -/
theorem Underway.add_eq (h : Underway b p s₀ came w) {c : Certificate} (o : Origin)
    (hn : ¬ w.store.Holds c.subject) (hfree : w.store.free ≠ []) :
    ∃ id free, w.store.free = id.index :: free ∧ w.store.Vacant id.index ∧
      w.store.add c o = (.ok (.enqueued id), w.store.fill id free c o) := by
  have hv : w.store.find? c.subject = none := by
    apply Option.eq_none_iff_forall_ne_some.2
    intro id hf
    obtain ⟨-, e, hx, hsub⟩ := Store.find?_some hf
    exact hn ⟨id, e, hx, hsub⟩
  have hp : w.store.findPending? c.subject = none := by
    apply Option.eq_none_iff_forall_ne_some.2
    intro id hf
    obtain ⟨-, e, hx, hsub⟩ := Store.findPending?_some hf
    exact hn ⟨id, e, hx, hsub⟩
  obtain ⟨i, free, hf⟩ := List.exists_cons_of_ne_nil hfree
  obtain ⟨g, hslot⟩ := h.freeVacant.vacant i (by simp [hf])
  exact ⟨⟨i, g⟩, free, hf, ⟨g, hslot⟩, Store.add_of_free hv hp hf (Store.generation?_of_slot hslot)⟩

/-- **An arrival** of a new subject, while there is room. -/
theorem Underway.add (h : Underway b p s₀ came w) {c : Certificate} {o : Origin}
    (hn : ¬ s₀.Holds c.subject) (hc : c.subject ∉ came.map fun x => x.1.subject)
    (hlen : came.length < s₀.free.length) :
    Underway b p s₀ (came ++ [(c, o)]) ⟨(w.store.add c o).2, w.round⟩ := by
  have hnew : ¬ w.store.Holds c.subject := fun hh => (h.known _ hh).elim hn hc
  have hroom := h.room
  have hfree : w.store.free ≠ [] := by
    intro hnil
    rw [hnil, List.length_nil] at hroom
    omega
  obtain ⟨id, free, hf, hx, hadd⟩ := h.add_eq o hnew hfree
  have he := Store.add_effect h.freeVacant c o
  have hnone : w.store.get? id = none := Store.get?_of_vacant hx
  rw [hadd] at he ⊢
  refine ⟨h.freeVacant.effect he, h.covered.effect he, fun hcap => ?_,
    he.capacity_eq.trans h.capacity, he.rootKey_eq.trans h.rootKey, h.fits.add he,
    he.waiting (by simp) h.waiting, fun j => ?_, fun j hj => ?_,
    fun subject hh => ?_, ?_, fun j e hj => ?_, fun pr => ?_⟩
  · exact (h.tallied (he.capacity_eq ▸ hcap)).effect he
  · rw [he.pinsOn (by simp) j]
    exact h.pinsOn j
  · rcases hj with hj | hj
    · exact h.unpinned j (.inl hj)
    · have hj : j ∈ w.store.pending ++ [id] := hj
      rcases List.mem_append.1 hj with hj | hj
      · exact h.unpinned j (.inr hj)
      · -- The slot was empty, so nothing is pinned in it.
        have hpins := h.pinsOn id
        rw [Store.pinsOn_of_none hnone] at hpins
        rw [List.mem_singleton.1 hj]
        omega
  · obtain ⟨j, e, hj, hsub⟩ := hh
    rcases he.get?_cases hj with ⟨e₀, hx₀, hst⟩ | ⟨c', o', hop, rfl, -⟩
    · refine (h.known subject ⟨j, e₀, hx₀, hst.subject.symm.trans hsub⟩).imp_right fun hm => ?_
      simp [hm]
    · cases hop
      simp [← hsub, Entry.subject, Entry.fresh]
  · rw [hf] at hroom
    simp only [Store.fill, List.length_append, List.length_cons, List.length_nil] at hroom ⊢
    omega
  · have hkept := h.kept j e hj
    have hne : j ≠ id := by
      rintro rfl
      simp [Store.prospect?_of_none hnone] at hkept
    rw [Store.prospect?_fill hx, if_neg hne, hkept]
  · have hgenuine : w.store.Genuine b c ↔ s₀.Genuine b c := by
      rw [Store.Genuine, h.rootKey, Store.Genuine]
    rw [Store.exists_prospect?_fill hx, h.prospects pr, hgenuine, or_assoc]
    simp [or_and_right, exists_or]

/-- The certificates are of different subjects, none of them is in the store, and there is room for
all of them. -/
structure Admits (s : Store) (cs : List (Certificate × Origin)) : Prop where
  nodup : (cs.map fun x => x.1.subject).Nodup
  absent : ∀ x ∈ cs, ¬ s.Holds x.1.subject
  room : cs.length ≤ s.free.length

/-- **A run**: certificates arrive between any two steps of the pipeline. -/
theorem Underway.run {es : List Event} (h : Underway b p s₀ came w)
    (ha : Admits s₀ (came ++ arrivals es)) (hrun : (intake b p).run w es = some w') :
    Underway b p s₀ (came ++ arrivals es) w' := by
  induction es generalizing came w with
  | nil =>
    cases hrun
    simpa [arrivals] using h
  | cons ev es ih =>
    obtain ⟨v, hv, hrest⟩ := Option.bind_eq_some_iff.1 hrun
    cases ev with
    | act a => exact ih (h.act hv) ha hrest
    | add c o =>
      have hcons : came ++ arrivals (.add c o :: es) = came ++ [(c, o)] ++ arrivals es := by
        simp [arrivals, Event.arrival?]
      rw [hcons] at ha ⊢
      have hn := ha.nodup
      have hroom := ha.room
      simp only [List.map_append, List.map_cons, List.map_nil, List.length_append, List.length_cons,
        List.length_nil] at hn hroom
      have hfresh : c.subject ∉ came.map fun x => x.1.subject := by
        intro hm
        exact (List.nodup_append.1 (List.nodup_append.1 hn).1).2.2 _ hm _ (by simp) rfl
      cases hv
      exact ih (h.add (ha.absent (c, o) (by simp)) hfresh (by omega)) ha hrest

/-- Before anything has arrived. -/
theorem Underway.start {s₀ : Store} (hf : s₀.FreeVacant) (hc : s₀.Covered)
    (ht : s₀.capacity < UInt32.size → s₀.Tallied) (hq : s₀.pending = []) :
    Underway b p s₀ [] ⟨s₀, .finished .nothing⟩ := by
  refine ⟨hf, hc, ht, rfl, rfl, trivial, by simp [hq], by simp [Round.holds?],
    by simp [Round.target?, hq], fun subject hh => .inl hh, by simp, fun id e hx => ?_, ?_⟩
  · have hv : e.state = .verified := hc.state_of_get? hq hx
    rw [Store.prospect?_of_get? hx]
    exact Entry.prospect?_of_verified hv
  · simp [Round.owes?]

/-! ## The pipeline by itself -/

/-- Steps of the pipeline lead from one worker to the other. -/
def Leads (b : Backend) (p : VerificationPolicy) (w w' : Worker) : Prop :=
  ∃ as : List Act, (intake b p).run w (as.map .act) = some w'

theorem Leads.refl (w : Worker) : Leads b p w w := ⟨[], rfl⟩

theorem Leads.step {a : Act} {v : Worker} (h : w.act b p a = some v) (hl : Leads b p v w') :
    Leads b p w w' := by
  obtain ⟨as, has⟩ := hl
  have hstep : w.step b p (.act a) = some v := h
  exact ⟨a :: as, by simp [System.run, intake, hstep] at has ⊢; exact has⟩

theorem Leads.trans {v : Worker} (h : Leads b p w v) (hl : Leads b p v w') : Leads b p w w' := by
  obtain ⟨as, has⟩ := h
  obtain ⟨as', has'⟩ := hl
  exact ⟨as ++ as', by rw [List.map_append, System.run_append, has, Option.bind_some, has']⟩

theorem Underway.leads (h : Underway b p s₀ came w) (hl : Leads b p w w') :
    Underway b p s₀ came w' := by
  obtain ⟨as, has⟩ := hl
  induction as generalizing w with
  | nil =>
    cases has
    exact h
  | cons a as ih =>
    obtain ⟨v, hv, has⟩ := Option.bind_eq_some_iff.1 has
    exact ih (h.act hv) has

theorem rank_serve {r : Round} (h : r.job?.isSome) : (r.serve b p).1.rank < r.rank := by
  cases r with
  | checking => exact Nat.lt_succ_self 8
  | exchanging id subject x =>
    cases x with
    | agreeing i peer key => exact Nat.succ_lt_succ (Exchange.rank_answer p.self _ i peer key)
    | pinned | derived | settled | finished | stopped => cases h
  | ready | found | pinned | judged | released | promoted | finished => cases h

/-- **A round comes to its end**, left to itself. -/
theorem Underway.exists_finished (h : Underway b p s₀ came w) :
    ∃ result s, Leads b p w ⟨s, .finished result⟩ := by
  induction hn : w.round.rank using Nat.strong_induction_on generalizing w with
  | _ n ih =>
    subst hn
    cases hstep : w.round.step p w.store with
    | some next =>
      have hact : w.act b p .advance = some ⟨next.2.1, next.1⟩ := by simp [Worker.act, hstep]
      obtain ⟨result, s, hl⟩ := ih _ (Round.rank_step hstep) (h.act hact) rfl
      exact ⟨result, s, hl.step hact⟩
    | none =>
      rcases waits_of_step_eq_none h.fits hstep with hjob | ⟨result, hr⟩
      · have hact : w.act b p .serve = some ⟨w.store, (w.round.serve b p).1⟩ := by
          simp [Worker.act, hjob]
        obtain ⟨result, s, hl⟩ := ih _ (rank_serve hjob) (h.act hact) rfl
        exact ⟨result, s, hl.step hact⟩
      · refine ⟨result, w.store, ?_⟩
        rw [← hr]
        exact .refl w

theorem leads_settle (b : Backend) (p : VerificationPolicy) (r : Round) (s : Store) :
    Leads b p ⟨s, r⟩ ⟨(r.settle p s).2.1, (r.settle p s).1⟩ := by
  fun_induction Round.settle p r s with
  | case1 r s r' s' ns hstep hlt r'' s'' more hrest ih =>
    have hact : (⟨s, r⟩ : Worker).act b p .advance = some ⟨s', r'⟩ := by simp [act, hstep]
    rw [hrest] at ih
    exact ih.step hact
  | case2 r s hstep => exact .refl _

theorem leads_serve (b : Backend) (p : VerificationPolicy) (r : Round) (s : Store) :
    Leads b p ⟨s, r⟩ ⟨s, (r.serve b p).1⟩ := by
  cases hjob : r.job? with
  | some job =>
    have hact : (⟨s, r⟩ : Worker).act b p .serve = some ⟨s, (r.serve b p).1⟩ := by simp [act, hjob]
    exact (Leads.refl _).step hact
  | none =>
    have hsame : (r.serve b p).1 = r := by simp [Round.serve, hjob]
    rw [hsame]
    exact .refl _

/-- A round that found something, with nothing in between. -/
theorem leads_run {s s' : Store} (r₀ : RoundResult) {result : RoundResult} {ns : List Notice}
    (hrun : Round.run b p s = (result, s', ns)) (hne : result ≠ .nothing) :
    Leads b p ⟨s, .finished r₀⟩ ⟨s', .finished result⟩ := by
  have hstart : (⟨s, .finished r₀⟩ : Worker).act b p .start = some ⟨s, .ready⟩ := rfl
  have h₁ := leads_settle b p .ready s
  generalize hs₁ : Round.ready.settle p s = m₁ at h₁
  obtain ⟨r₁, s₁, n₁⟩ := m₁
  have h₂ := leads_settle b p (r₁.serve b p).1 s₁
  generalize hs₂ : (r₁.serve b p).1.settle p s₁ = m₂ at h₂
  obtain ⟨r₂, s₂, n₂⟩ := m₂
  have h₃ := leads_settle b p (r₂.serve b p).1 s₂
  generalize hs₃ : (r₂.serve b p).1.settle p s₂ = m₃ at h₃
  obtain ⟨r₃, s₃, n₃⟩ := m₃
  have hend : r₃.result?.getD .nothing = result ∧ s₃ = s' := by
    simp only [Round.run, hs₁, hs₂, hs₃, Prod.mk.injEq] at hrun
    exact ⟨hrun.1, hrun.2.1⟩
  obtain ⟨hresult, rfl⟩ := hend
  have hr₃ : r₃ = .finished result := by
    cases r₃ with
    | finished out => exact congrArg Round.finished hresult
    | ready | found | pinned | checking | judged | released | promoted | exchanging =>
      exact absurd hresult.symm hne
  rw [hr₃] at h₃
  exact ((h₁.trans (leads_serve b p r₁ s₁)).trans
    (h₂.trans ((leads_serve b p r₂ s₂).trans h₃))).step hstart

/-! ## The drained store -/

/-- An entry that the round is not about has the pins it had. -/
theorem Underway.pins_eq_zero {result : RoundResult} {id : EntryId} {e : Entry}
    (h : Underway b p s₀ came w) (hr : w.round = .finished result) (hid : id ∈ w.store.pending)
    (hx : w.store.get? id = some e) : e.pins = 0 := by
  have hp := h.pinsOn id
  rw [Store.pinsOn_of_some hx, h.unpinned id (.inr hid), hr] at hp
  apply UInt32.toNat_inj.1
  simpa [Round.holds?] using hp

theorem pending_conclude {s : Store} {id : EntryId} {e : Entry} (h0 : e.pins = 0) :
    (s.conclude b p id e).pending = s.pending.filter (· ≠ id) := by
  unfold Store.conclude
  rw [if_pos h0]
  split <;> rfl

/-- **Draining** empties the queue, and what comes of it is what steps of the pipeline lead to. -/
theorem Underway.drain {result : RoundResult} {s : Store}
    (h : Underway b p s₀ came ⟨s, .finished result⟩) :
    ∃ result' s', Leads b p ⟨s, .finished result⟩ ⟨s', .finished result'⟩ ∧ s'.pending = [] ∧
      ∀ limit, s.pending.length < limit → ∃ rs ns, Vouch.drain b p limit s = (rs, true, s', ns) := by
  induction hn : s.pending.length using Nat.strong_induction_on generalizing s result with
  | _ n ih =>
    subst hn
    cases hq : s.pending with
    | nil =>
      refine ⟨result, s, .refl _, hq, fun limit hlt => ?_⟩
      obtain ⟨n, rfl⟩ : ∃ n, limit = n + 1 := ⟨limit - 1, by omega⟩
      obtain ⟨ns, hd⟩ := drain_of_empty (b := b) (p := p) hq n
      exact ⟨[], ns, hd⟩
    | cons id rest =>
      have hm : id ∈ s.pending := by simp [hq]
      obtain ⟨e, hx, -⟩ := h.waiting id hm
      have h0 : e.pins = 0 := h.pins_eq_zero rfl hm hx
      have hmax : e.pins ≠ Store.maxPins := by
        rw [h0]
        decide
      obtain ⟨ns, hrun⟩ := Round.run_of_head (b := b) (p := p) (by simp [Store.head?, hq]) hx hmax
      have hne := outcome_ne b p s.rootKey id e
      have hlead := leads_run result hrun hne.1
      have hlt : (s.conclude b p id e).pending.length < s.pending.length := by
        rw [pending_conclude h0, hq]
        simp only [List.filter_cons, ne_eq, not_true_eq_false, decide_false, Bool.false_eq_true,
          if_false, List.length_cons]
        exact Nat.lt_succ_of_le (List.length_filter_le _ _)
      obtain ⟨result', s', hrest, hnil, hdrain⟩ := ih _ hlt (h.leads hlead) rfl
      refine ⟨result', s', hlead.trans hrest, hnil, fun limit hlimit => ?_⟩
      obtain ⟨n, rfl⟩ : ∃ n, limit = n + 1 := ⟨limit - 1, by omega⟩
      obtain ⟨rs, ns', hd⟩ := hdrain n (by rw [hq] at hlt; omega)
      obtain ⟨more, hsucc⟩ := drain_succ hrun hne n
      exact ⟨_, more, by rw [hsucc, hd]⟩

/-- What is left when everything has been looked at. -/
theorem Underway.profile?_iff {s : Store} {result : RoundResult}
    (h : Underway b p s₀ came ⟨s, .finished result⟩) (hc : s₀.Covered) (hq : s₀.pending = [])
    (hnil : s.pending = []) (subject : Eui64) (pr : Profile) :
    s.profile? subject = some pr ↔ s₀.profile? subject = some pr ∨ ∃ x ∈ came,
      x.1.subject = subject ∧ s₀.Genuine b x.1 ∧ ((Entry.fresh x.1 x.2).settled b p).profile = pr := by
  have hpro := h.prospects pr
  simp only [Round.owes?] at hpro
  rw [Store.profile?_eq_some_iff (b := b) (p := p) h.covered hnil,
    Store.profile?_eq_some_iff (b := b) (p := p) hc hq, hpro, and_or_left]
  have hcert (x : Certificate × Origin) (hpr : ((Entry.fresh x.1 x.2).settled b p).profile = pr) :
      pr.certificate = x.1 := by
    rw [← hpr]
    exact Entry.certificate_settled b p _
  refine or_congr_right ⟨?_, ?_⟩
  · rintro ⟨hsub, x, hm, hg, hpr⟩
    exact ⟨x, hm, hcert x hpr ▸ hsub, hg, hpr⟩
  · rintro ⟨x, hm, hsub, hg, hpr⟩
    exact ⟨hcert x hpr ▸ hsub, x, hm, hg, hpr⟩

/-- The entries that were there before are there as they were. -/
theorem Underway.get?_of_get? {s : Store} {result : RoundResult} {id : EntryId} {e : Entry}
    (h : Underway b p s₀ came ⟨s, .finished result⟩) (hc : s₀.Covered) (hq : s₀.pending = [])
    (hnil : s.pending = []) (hx : s₀.get? id = some e) : s.get? id = some e := by
  have hkept := h.kept id e hx
  cases hx' : s.get? id with
  | none => simp [Store.prospect?_of_none hx'] at hkept
  | some e' =>
    have hv := hc.state_of_get? hq hx
    have hv' := h.covered.state_of_get? hnil hx'
    have hpins := h.pinsOn id
    rw [Store.pinsOn_of_some hx', Store.pinsOn_of_some hx] at hpins
    rw [Store.prospect?_of_get? hx'] at hkept
    have hprofile : e'.profile = e.profile := by
      simpa [Round.owes?, Entry.prospect?_of_verified hv'] using hkept
    have hp : e'.pins = e.pins := by
      apply UInt32.toNat_inj.1
      simpa [Round.holds?] using hpins
    cases e
    cases e'
    simp_all [Entry.profile]

/-- There are as many entries as subjects that the store says something of. -/
theorem Underway.size_eq {s : Store} {result : RoundResult}
    (h : Underway b p s₀ came ⟨s, .finished result⟩) (hnil : s.pending = [])
    (hcap : s₀.capacity < UInt32.size) :
    s.size = {subject | (s.profile? subject).isSome}.ncard := by
  rw [← h.capacity] at hcap
  have hset : {subject | (s.profile? subject).isSome} = s.subjects.toFinset := by
    ext subject
    simp only [Set.mem_ofPred_eq, List.coe_toFinset, Store.mem_subjects hcap]
    constructor
    · intro hsome
      obtain ⟨pr, hpr⟩ := Option.isSome_iff_exists.1 hsome
      obtain ⟨id, hf, hpr⟩ := Option.bind_eq_some_iff.1 hpr
      obtain ⟨-, e, hx, hsub⟩ := Store.find?_some hf
      exact ⟨id, e, hx, hsub⟩
    · rintro ⟨id, e, hx, rfl⟩
      have hf := h.covered.find?_subject hx (h.covered.state_of_get? hnil hx)
      simp [Store.profile?, hf, hx]
  rw [hset, Set.ncard_coe_finset, List.toFinset_card_of_nodup (Store.nodup_subjects hcap h.covered),
    Store.length_subjects (h.tallied hcap)]

end Worker

/-! ## Any order -/

namespace Ledger

/-- The count of empty slots is right in every run. -/
theorem tallied_of_reachable {l : Ledger} (h : ledger.Reachable l)
    (hc : l.store.capacity < UInt32.size) : l.store.Tallied := by
  refine h.invariant (P := fun l => l.store.FreeVacant ∧
    (l.store.capacity < UInt32.size → l.store.Tallied)) ?_ ?_ |>.2 hc
  · rintro l ⟨capacity, a, k, rfl⟩
    refine ⟨Store.freeVacant_empty capacity a k, fun hc => Store.tallied_empty ?_ a k⟩
    simpa [new, Store.empty, Store.capacity] using hc
  · rintro l op l' ⟨hf, ht⟩ hstep
    cases hstep
    have he := Store.perform_effect hf op
    rw [store_perform]
    exact ⟨hf.effect he, fun hc => (ht (he.capacity_eq ▸ hc)).effect he⟩

end Ledger

namespace Worker

/-- **The order of arrival does not matter.** Take any store that operations lead to, with nothing in
its queue, and certificates of different subjects, all new to it, that it has room for. They arrive in
any order and at any moments of the rounds of a pipeline. Then the round under way comes to its end,
and draining empties the queue. Whatever the order was, the store says of a subject what it said
before, or what its certificate comes to if that is genuine, and nothing of any other subject. The
entries that were there are as they were, and the size is the number of subjects the store says
something of, unless it has more slots than can be numbered. -/
theorem profiles_of_arrivals {b : Backend} {p : VerificationPolicy} {l : Ledger} {w : Worker}
    {cs : List (Certificate × Origin)} {es : List Event} (h : ledger.Reachable l)
    (hq : l.store.pending = []) (hn : (cs.map fun x => x.1.subject).Nodup)
    (ha : ∀ x ∈ cs, ¬ l.store.Holds x.1.subject)
    (hlen : cs.length ≤ l.store.capacity - l.store.size) (hp : (arrivals es).Perm cs)
    (hrun : (intake b p).run ⟨l.store, .finished .nothing⟩ es = some w) :
    (∃ result s, Leads b p w ⟨s, .finished result⟩) ∧
    ∀ result s, Leads b p w ⟨s, .finished result⟩ → ∃ s', s'.pending = [] ∧
      (∀ limit, s.pending.length < limit → ∃ rs ns, drain b p limit s = (rs, true, s', ns)) ∧
      (∀ subject pr, s'.profile? subject = some pr ↔
        l.store.profile? subject = some pr ∨ ∃ x ∈ cs, x.1.subject = subject ∧
          l.store.Genuine b x.1 ∧ ((Entry.fresh x.1 x.2).settled b p).profile = pr) ∧
      (∀ id e, l.store.get? id = some e → s'.get? id = some e) ∧
      (l.store.capacity < UInt32.size →
        s'.size = {subject | (s'.profile? subject).isSome}.ncard) := by
  have hl := Ledger.Sound.of_reachable h
  have hroom : cs.length ≤ l.store.free.length := by
    unfold Store.size Store.capacity at hlen
    omega
  have hadmits : Admits l.store ([] ++ arrivals es) := by
    refine ⟨?_, fun x hx => ha x (hp.mem_iff.1 hx), ?_⟩
    · exact (hp.map _).nodup_iff.2 hn
    · rw [List.nil_append, hp.length_eq]
      exact hroom
  have hw := (Underway.start (b := b) (p := p) hl.freeVacant hl.covered
    (Ledger.tallied_of_reachable h) hq).run hadmits hrun
  rw [List.nil_append] at hw
  refine ⟨hw.exists_finished, fun result s hlead => ?_⟩
  obtain ⟨result', s', hrest, hnil, hdrain⟩ := (hw.leads hlead).drain
  have hend := (hw.leads hlead).leads hrest
  refine ⟨s', hnil, hdrain, fun subject pr => ?_, fun id e hx => ?_, fun hcap => ?_⟩
  · rw [hend.profile?_iff hl.covered hq hnil]
    simp only [hp.mem_iff]
  · exact hend.get?_of_get? hl.covered hq hnil hx
  · exact hend.size_eq hnil hcap

/-- The certificate of some octet with the signature that is the root's to `Backend.ones`. -/
def stamped (n : UInt8) : Certificate :=
  { Certificate.uniform n with signature := ⟨Vector.replicate 64 1⟩ }

/-- A forged certificate between two genuine ones. -/
def batch : List (Certificate × Origin) :=
  [(stamped 2, .requested), (.uniform 3, .requested), (stamped 4, .unsolicited)]

/-- The forged one comes first, and its slot is free again when the last one comes. -/
def spread : List Event :=
  .add (.uniform 3) .requested :: check.take 5 ++ .add (stamped 2) .requested :: check.drop 5 ++
    [.add (stamped 4) .unsolicited]

/-- Nothing is looked at before all have come. -/
def atOnce : List Event := batch.map fun x => .add x.1 x.2

/-- A store of four slots with one verified entry. -/
def earlier : List Op := [.add (stamped 1) .requested, .promote ⟨0, 0⟩]

theorem profiles_after_rearrangement : ∃ l w w' s s' rs rs' ns ns',
    ledger.run (.new 4 ⟨Vector.replicate 16 0⟩ ⟨Vector.replicate 64 0⟩) earlier = some l ∧
    (intake .ones ⟨⟨Vector.replicate 8 0⟩, false⟩).run ⟨l.store, .finished .nothing⟩ spread =
      some w ∧
    (intake .ones ⟨⟨Vector.replicate 8 0⟩, false⟩).run ⟨l.store, .finished .nothing⟩ atOnce =
      some w' ∧
    w.store.findPending? (stamped 4).subject = some ⟨1, 1⟩ ∧
    w'.store.findPending? (stamped 4).subject = some ⟨3, 0⟩ ∧
    drain .ones ⟨⟨Vector.replicate 8 0⟩, false⟩ 4 w.store = (rs, true, s, ns) ∧
    drain .ones ⟨⟨Vector.replicate 8 0⟩, false⟩ 4 w'.store = (rs', true, s', ns') ∧
    (∀ subject, s.profile? subject = s'.profile? subject) ∧ s.size = s'.size ∧
    ∃ pr, s.profile? (stamped 4).subject = some pr := by
  have hruns : ∃ l w w' result result',
      ledger.run (.new 4 ⟨Vector.replicate 16 0⟩ ⟨Vector.replicate 64 0⟩) earlier = some l ∧
      (intake .ones ⟨⟨Vector.replicate 8 0⟩, false⟩).run ⟨l.store, .finished .nothing⟩ spread =
        some w ∧
      (intake .ones ⟨⟨Vector.replicate 8 0⟩, false⟩).run ⟨l.store, .finished .nothing⟩ atOnce =
        some w' ∧
      w.round = .finished result ∧ w'.round = .finished result' ∧
      w.store.findPending? (stamped 4).subject = some ⟨1, 1⟩ ∧
      w'.store.findPending? (stamped 4).subject = some ⟨3, 0⟩ ∧
      w.store.pending.length < 4 ∧ w'.store.pending.length < 4 ∧ l.store.pending = [] ∧
      l.store.capacity < UInt32.size ∧ batch.length ≤ l.store.capacity - l.store.size ∧
      ∀ x ∈ batch, x.1.subject ∉ l.store.subjects :=
    ⟨_, _, _, _, _, rfl, rfl, rfl, rfl, rfl, by decide⟩
  obtain ⟨l, w, w', result, result', hl, hw, hw', hr, hr', hid, hid', hlt, hlt', hq, hcap, hlen,
    habsent⟩ := hruns
  have hreach : ledger.Reachable l := ⟨_, _, ⟨4, _, _, rfl⟩, hl⟩
  have hnodup : (batch.map fun x => x.1.subject).Nodup := by decide
  have habsent : ∀ x ∈ batch, ¬ l.store.Holds x.1.subject := fun x hx =>
    mt (Store.mem_subjects hcap).2 (habsent x hx)
  have hperm : (arrivals spread).Perm batch := by decide
  have hperm' : (arrivals atOnce).Perm batch := by decide
  have hstay (v : Worker) {out : RoundResult} (hv : v.round = .finished out) :
      Leads .ones ⟨⟨Vector.replicate 8 0⟩, false⟩ v ⟨v.store, .finished out⟩ := hv ▸ .refl v
  obtain ⟨s, -, hdrain, hprofile, -, hsize⟩ :=
    (profiles_of_arrivals hreach hq hnodup habsent hlen hperm hw).2 _ _ (hstay w hr)
  obtain ⟨s', -, hdrain', hprofile', -, hsize'⟩ :=
    (profiles_of_arrivals hreach hq hnodup habsent hlen hperm' hw').2 _ _ (hstay w' hr')
  obtain ⟨rs, ns, hdrain⟩ := hdrain 4 hlt
  obtain ⟨rs', ns', hdrain'⟩ := hdrain' 4 hlt'
  have hsame (subject : Eui64) : s.profile? subject = s'.profile? subject := by
    ext pr
    exact (hprofile subject pr).trans (hprofile' subject pr).symm
  refine ⟨l, w, w', s, s', rs, rs', ns, ns', hl, hw, hw', hid, hid', hdrain, hdrain', hsame, ?_, ?_⟩
  · rw [hsize hcap, hsize' hcap]
    simp only [hsame]
  · exact ⟨_, (hprofile _ _).2 (.inr ⟨(stamped 4, .unsolicited), by simp [batch], rfl, rfl, rfl⟩)⟩

end Worker
end Vouch
