import Vouch.Proofs.Store.Current
import Vouch.Proofs.Store.Pins
/-!
# An id names one entry

An id that an addition has answered names the entry of its subject. It goes on doing so, whatever
operations are asked about whatever ids, until the entry is discarded or removed, and from then on it
names nothing, however often its slot is used again. The generations of a slot come round after 2^32
releases; what is said here of an id is said as long as its slot has been released less often than that
since the id was answered.

* `get?_perform_eq_none_iff`: an entry goes when it is discarded or removed, and not otherwise.
* `History.releases_eq_of_generation`: a slot shows one generation once in 2^32 releases.
* `History.Tracked.run_cases`: the entry of an id through a run.
* `resolves_of_add`: what an id names, from the addition on.
-/
namespace Vouch

namespace Store

/-- The operation takes the entry of a certificate out of the store, and answers with the certificate:
it discards the entry under its id, or removes it under its subject. -/
def Dismisses (s : Store) (id : EntryId) (c : Certificate) : Op → Prop
  | .discard j => j = id ∧ (s.discard j).1 = .ok c
  | .remove subject => subject = c.subject ∧ (s.remove subject).1 = .ok c
  | _ => False

/-- One of the operations of a run takes the entry out. -/
def Dismissed (id : EntryId) (c : Certificate) : Store → List Op → Prop
  | _, [] => False
  | s, op :: ops => s.Dismisses id c op ∨ Dismissed id c (s.perform op) ops

/-- An id that names nothing: looking it up finds nothing, and every operation on it is refused as one on
an unknown entry and leaves the store alone. -/
structure Unknown (s : Store) (id : EntryId) : Prop where
  get? : s.get? id = none
  pin : s.pin id = (.error (.unknownEntry id), s)
  unpin : s.unpin id = (.error (.unknownEntry id), s)
  promote : s.promote id = (.error (.unknownEntry id), s)
  discard : s.discard id = (.error (.unknownEntry id), s)
  setContext : ∀ k x, s.setContext id k x = (.error (.unknownEntry id), s)

variable {s s' : Store} {id : EntryId} {e : Entry} {op : Op} {c : Certificate} {o : Origin}

theorem unknown_of_none (h : s.get? id = none) : s.Unknown id :=
  ⟨h, pin_of_none h, unpin_of_none h, promote_of_none h, discard_of_none h,
    fun _ _ => setContext_of_none h⟩

/-- **An entry goes** when it is discarded or removed, and not otherwise. -/
theorem get?_perform_eq_none_iff (hs : s.FreeVacant) (hc : s.Covered) (hx : s.get? id = some e) :
    (s.perform op).get? id = none ↔ s.Dismisses id e.certificate op := by
  constructor
  · intro hgone
    rcases (perform_effect hs op).kept_or_vacated hx with ⟨e', hx', -⟩ | ⟨-, hp, hop⟩
    · rw [hgone] at hx'
      cases hx'
    · rcases hop with rfl | ⟨subject, rfl, hf⟩
      · exact ⟨rfl, by rw [discard_of_zero hx hp]⟩
      · obtain ⟨-, e', hx', hsub⟩ := find?_some hf
        rw [hx, Option.some.injEq] at hx'
        subst hx'
        exact ⟨hsub.symm, by rw [remove_of_zero hf hx hp]⟩
  · intro hd
    cases op with
    | discard j =>
      obtain ⟨rfl, hanswer⟩ := hd
      by_cases hp : e.pins = 0
      · rw [perform, discard_of_zero hx hp, get?_discarded hx, if_pos rfl]
      · rw [discard_of_pinned hx hp] at hanswer
        cases hanswer
    | remove subject =>
      obtain ⟨rfl, hanswer⟩ := hd
      cases hf : s.find? e.certificate.subject with
      | none =>
        rw [remove_of_none hf] at hanswer
        cases hanswer
      | some j =>
        -- The subject has no other entry than this one.
        obtain ⟨-, e', hx', hsub⟩ := find?_some hf
        obtain rfl := hc.eq_of_subject_eq hx' hx hsub
        by_cases hp : e.pins = 0
        · rw [perform, remove_of_zero hf hx hp, get?_removed hx, if_pos rfl]
        · rw [remove_of_pinned hf hx hp] at hanswer
          cases hanswer
    | add | pin | unpin | promote | setContext => exact hd.elim

/-- The id that an addition answers names an entry of the subject, a new one if it is queued. -/
theorem exists_get?_of_add (hs : s.FreeVacant) {out : AddOutcome} (h : s.add c o = (.ok out, s')) :
    ∃ e, s'.get? out.id = some e ∧ e.subject = c.subject ∧
      ∀ id, out = .enqueued id → e = Entry.fresh c o := by
  rcases add_cases hs c o with ⟨id, hv, hadd⟩ | ⟨id, -, hp, hadd⟩ |
    ⟨id, free, -, -, -, -, hx, hadd⟩ | hadd <;> (rw [hadd] at h; cases h)
  · obtain ⟨-, e, he, hsub⟩ := find?_some hv
    exact ⟨e, he, hsub, by simp⟩
  · obtain ⟨-, e, he, hsub⟩ := findPending?_some hp
    by_cases ho : o = .requested
    · rw [if_pos ho]
      exact ⟨e.ask, by simp [get?_update, AddOutcome.id, he], hsub, by simp⟩
    · rw [if_neg ho]
      exact ⟨e, he, hsub, by simp⟩
  · exact ⟨Entry.fresh c o, by simp [get?_fill hx, AddOutcome.id], rfl, by simp⟩

/-- A new entry gets the generation of a slot that was empty. -/
theorem generation?_of_enqueued (hs : s.FreeVacant) (h : s.add c o = (.ok (.enqueued id), s')) :
    s.generation? id.index = some id.generation ∧ s.get? id = none := by
  rcases add_cases hs c o with ⟨j, -, hadd⟩ | ⟨j, -, -, hadd⟩ |
    ⟨j, free, -, -, -, hg, hx, hadd⟩ | hadd <;> (rw [hadd] at h; cases h)
  exact ⟨hg, get?_of_vacant hx⟩

end Store

namespace History

open Store (Op Effect)

variable {h h' : History} {id : EntryId} {e : Entry}

/-- A slot shows one generation once in 2^32 releases. -/
theorem releases_eq_of_generation {i g : UInt32} (hc : h.Counted) (hc' : h'.Counted)
    (hg : h.store.generation? i = some g) (hg' : h'.store.generation? i = some g)
    (hle : h.releases i ≤ h'.releases i) (hlt : h'.releases i < h.releases i + UInt32.size) :
    h'.releases i = h.releases i := by
  have hsame := congrArg UInt32.toNat ((hc i g hg).symm.trans (hc' i g hg'))
  rw [UInt32.toNat_ofNat', UInt32.toNat_ofNat'] at hsame
  simp only [UInt32.size] at hlt
  omega

/-- What holds in every run, however often slots are released. -/
structure Tracked (h : History) : Prop where
  freeVacant : h.store.FreeVacant
  covered : h.store.Covered
  counted : h.Counted

theorem Tracked.perform (ht : h.Tracked) (op : Op) : (h.next (h.store.perform op)).Tracked := by
  have he := Store.perform_effect ht.freeVacant op
  exact ⟨ht.freeVacant.effect he, ht.covered.effect he, ht.counted.effect he⟩

theorem Tracked.run {ops : List Op} (ht : h.Tracked) (hrun : chronicle.run h ops = some h') :
    h'.Tracked := by
  refine System.run_invariant ?_ ht hrun
  intro h op h' ht hstep
  cases hstep
  exact ht.perform op

theorem Tracked.of_reachable (hr : chronicle.Reachable h) : h.Tracked := by
  obtain ⟨h₀, ops, ⟨capacity, a, k, rfl⟩, hrun⟩ := hr
  have h₀ : (new capacity a k).Tracked :=
    ⟨Store.freeVacant_empty capacity a k, .empty capacity a k, counted_new capacity a k⟩
  exact h₀.run hrun

/-- Releases are not taken back. -/
theorem releases_le_run {ops : List Op} (hrun : chronicle.run h ops = some h') (i : UInt32) :
    h.releases i ≤ h'.releases i := by
  refine System.run_invariant (P := fun m => h.releases i ≤ m.releases i) ?_ (Nat.le_refl _) hrun
  intro m op m' hm hstep
  cases hstep
  exact Nat.le_trans hm (releases_le_next i)

/-- **Through a run** an entry stays where it is, or it is taken out and its slot released. -/
theorem Tracked.run_cases {ops : List Op} (ht : h.Tracked) (hx : h.store.get? id = some e)
    (hrun : chronicle.run h ops = some h') :
    (¬ Store.Dismissed id e.certificate h.store ops ∧
      ∃ e', h'.store.get? id = some e' ∧ e'.certificate = e.certificate) ∨
    (Store.Dismissed id e.certificate h.store ops ∧
      h.releases id.index < h'.releases id.index) := by
  induction ops generalizing h e with
  | nil =>
    cases hrun
    exact .inl ⟨fun hd => hd, e, hx, rfl⟩
  | cons op ops ih =>
    have hgone : (h.store.perform op).get? id = none ↔ h.store.Dismisses id e.certificate op :=
      Store.get?_perform_eq_none_iff ht.freeVacant ht.covered hx
    rcases (Store.perform_effect ht.freeVacant op).kept_or_vacated hx with
      ⟨e₁, hx₁, hst⟩ | ⟨hslots, -, -⟩
    · have hkept : ¬ h.store.Dismisses id e.certificate op := by
        intro hd
        rw [hgone.2 hd] at hx₁
        cases hx₁
      have hsame := releases_of_kept hx hx₁
      have hrest := ih (ht.perform op) hx₁ hrun
      rw [hst.certificate, hsame] at hrest
      simpa [Store.Dismissed, hkept] using hrest
    · have hnone : (h.store.perform op).get? id = none := by
        rw [Store.get?_of_vacate hslots hx, if_pos rfl]
      have hmore : (h.next (h.store.perform op)).releases id.index = h.releases id.index + 1 :=
        releases_of_vacate hx hslots
      have hrest : chronicle.run (h.next (h.store.perform op)) ops = some h' := hrun
      have hle := releases_le_run hrest id.index
      exact .inr ⟨.inl (hgone.1 hnone), by omega⟩

/-- An entry that is gone is not found under its id again before its slot has come round. -/
theorem Tracked.get?_eq_none {h₁ : History} (h₁t : h₁.Tracked) (ht : h.Tracked)
    (hx : h₁.store.get? id = some e) (hlt : h₁.releases id.index < h.releases id.index)
    (hfew : h.releases id.index < h₁.releases id.index + UInt32.size) : h.store.get? id = none := by
  cases hx' : h.store.get? id with
  | none => rfl
  | some e' =>
    have := releases_eq_of_generation h₁t.counted ht.counted (Store.generation?_of_get? hx)
      (Store.generation?_of_get? hx') (Nat.le_of_lt hlt) hfew
    omega

/-- A new entry does not get the id of an earlier one before the slot of that has come round. -/
theorem Tracked.enqueued_ne {h₁ : History} {j : EntryId} {c : Certificate} {o : Origin} {s : Store}
    (h₁t : h₁.Tracked) (ht : h.Tracked) (hx : h₁.store.get? id = some e) {ops : List Op}
    (hrun : chronicle.run h₁ ops = some h)
    (hfew : h.releases id.index < h₁.releases id.index + UInt32.size)
    (hadd : h.store.add c o = (.ok (.enqueued j), s)) : j ≠ id := by
  intro heq
  subst heq
  obtain ⟨hg, hnone⟩ := Store.generation?_of_enqueued ht.freeVacant hadd
  have hsame := releases_eq_of_generation h₁t.counted ht.counted (Store.generation?_of_get? hx) hg
    (releases_le_run hrun _) hfew
  rcases h₁t.run_cases hx hrun with ⟨-, e', hx', -⟩ | ⟨-, hlt⟩
  · rw [hnone] at hx'
    cases hx'
  · omega

/-- **An id names one entry.** Take any run of operations about any ids, and an addition that is answered
with an id. It names an entry of the subject, the new one if there is one. However the run goes on, as long
as the slot has not been released 2^32 times since: the id names that entry until it is discarded under the
id or removed under its subject; after that it names nothing, and whatever is asked about it is refused
and changes nothing; and no entry that comes in gets the same id. -/
theorem resolves_of_add (hr : chronicle.Reachable h) {c : Certificate} {o : Origin}
    {out : AddOutcome} {s : Store} (hadd : h.store.add c o = (.ok out, s)) :
    ∃ e, s.get? out.id = some e ∧ e.subject = c.subject ∧
      (∀ id, out = .enqueued id → e = Entry.fresh c o) ∧
      ∀ ops h', chronicle.run (h.next s) ops = some h' →
        h'.releases out.id.index < (h.next s).releases out.id.index + UInt32.size →
        (¬ Store.Dismissed out.id e.certificate s ops →
          ∃ e', h'.store.get? out.id = some e' ∧ e'.certificate = e.certificate) ∧
        (Store.Dismissed out.id e.certificate s ops → h'.store.Unknown out.id) ∧
        ∀ c' o' id s', h'.store.add c' o' = (.ok (.enqueued id), s') → id ≠ out.id := by
  have ht := Tracked.of_reachable hr
  have ht₁ : (h.next s).Tracked := by
    have hnext := ht.perform (.add c o)
    rwa [Store.perform, hadd] at hnext
  obtain ⟨e, hx, hsub, hfresh⟩ := Store.exists_get?_of_add ht.freeVacant hadd
  refine ⟨e, hx, hsub, hfresh, ?_⟩
  intro ops h' hrun hfew
  have ht' := ht₁.run hrun
  have hcases := ht₁.run_cases hx hrun
  refine ⟨?_, ?_, ?_⟩
  · intro hkept
    exact (hcases.resolve_right fun hd => hkept hd.1).2
  · intro hd
    have hlt := (hcases.resolve_left fun hk => hk.1 hd).2
    exact Store.unknown_of_none (ht₁.get?_eq_none ht' hx hlt hfew)
  · intro c' o' id s' hadd'
    exact ht₁.enqueued_ne ht' hx hrun hfew hadd'

/-- An entry whose removal is refused at first is removed, and its slot goes to another one. -/
def succession : List Op :=
  [.promote ⟨0, 0⟩, .pin ⟨0, 0⟩, .remove (Certificate.uniform 1).subject, .unpin ⟨0, 0⟩,
    .remove (Certificate.uniform 1).subject, .add (.uniform 2) .requested]

/-- A new store with room for one certificate. -/
def vacancy : History := .new 1 ⟨Vector.replicate 16 0⟩ ⟨Vector.replicate 64 0⟩

theorem resolves_after_succession : ∃ s h e,
    vacancy.store.add (.uniform 1) .unsolicited = (.ok (.enqueued ⟨0, 0⟩), s) ∧
    chronicle.run (vacancy.next s) succession = some h ∧ h.releases 0 = 1 ∧
    h.store.get? ⟨0, 1⟩ = some e ∧ e.certificate = .uniform 2 ∧ h.store.Unknown ⟨0, 0⟩ := by
  have hrun : ∃ s h e,
      vacancy.store.add (.uniform 1) .unsolicited = (.ok (.enqueued ⟨0, 0⟩), s) ∧
      chronicle.run (vacancy.next s) succession = some h ∧ h.releases 0 = 1 ∧
      (vacancy.next s).releases 0 = 0 ∧ h.store.get? ⟨0, 1⟩ = some e ∧
      e.certificate = .uniform 2 ∧
      Store.Dismissed ⟨0, 0⟩ (.uniform 1) s succession :=
    ⟨_, _, _, rfl, rfl, rfl, rfl, rfl, rfl, .inr (.inr (.inr (.inr (.inl ⟨rfl, rfl⟩))))⟩
  obtain ⟨s, h, e, hadd, hr, hone, hzero, hx, hc, hd⟩ := hrun
  obtain ⟨e₁, -, -, hfresh, hlater⟩ :=
    resolves_of_add (h := vacancy) ⟨vacancy, [], ⟨1, _, _, rfl⟩, rfl⟩ hadd
  obtain rfl := hfresh _ rfl
  have hfew : h.releases 0 < (vacancy.next s).releases 0 + UInt32.size := by
    rw [hone, hzero]
    decide
  exact ⟨s, h, e, hadd, hr, hone, hx, hc, (hlater _ h hr hfew).2.1 hd⟩

end History
end Vouch
