import Vouch.Proofs.Store.Current
import Vouch.Proofs.Store.Pins
import Vouch.Trust.Engine
import Mathlib.Data.List.Find
import Mathlib.Data.List.Induction
/-!
# What certificates that wait can do

Anyone can send a certificate, so one whose signature has not been checked must not count for
anything. Short of promoting an entry or removing a verified one, no operation of the store (`Quiet`)
changes what it vouches for: a certificate that arrives never lands in a slot that the verified list
still names, and what is discarded waited. Every look-up that a score depends on then answers as
before.

What counts in a score besides is the stereotype of the certified tags, which is the one that was put
in the table last (`Latest`).

* `Tended.sameVerified`: one quiet operation.
* `SameVerified.find?`, `SameVerified.tags?` and their like: what a look-up depends on.
* `StereotypeTable.find?_ofChanges`: the stereotype of a set of tags after any changes of the table.
* `influence_of_reachable`: no run of quiet operations changes an answer or a score, and a stereotype
  applies only through a verified certificate.
-/
namespace Vouch

namespace Store

/-- An operation that neither verifies an entry nor takes away a verified one, as long as it is in
order. -/
def Op.Quiet : Op → Prop
  | .promote _ | .remove _ => False
  | .add _ _ | .pin _ | .unpin _ | .discard _ | .setContext _ _ _ => True

instance (op : Op) : Decidable op.Quiet :=
  match op with
  | .promote _ | .remove _ => isFalse id
  | .add _ _ | .pin _ | .unpin _ | .discard _ | .setContext _ _ _ => isTrue trivial

/-- The same verified ids, with the same certificates behind them, and the same root. -/
structure SameVerified (s s' : Store) : Prop where
  verified : s'.verified = s.verified
  certificate : ∀ id ∈ s.verified,
    (s'.get? id).map Entry.certificate = (s.get? id).map Entry.certificate
  rootAddress : s'.rootAddress = s.rootAddress
  rootKey : s'.rootKey = s.rootKey

variable {s s' : Store} {op : Op} {ops : List Op}

theorem SameVerified.refl (s : Store) : s.SameVerified s := ⟨rfl, fun _ _ => rfl, rfl, rfl⟩

theorem SameVerified.trans {s'' : Store} (h : s.SameVerified s') (h' : s'.SameVerified s'') :
    s.SameVerified s'' where
  verified := h'.verified.trans h.verified
  certificate id hm := (h'.certificate id (h.verified ▸ hm)).trans (h.certificate id hm)
  rootAddress := h'.rootAddress.trans h.rootAddress
  rootKey := h'.rootKey.trans h.rootKey

/-- **One quiet operation.** A verified id names an entry, so no new entry gets that id, and the entry
does not wait, so it is not discarded. -/
theorem Tended.sameVerified (h : s.Tended) (ho : s.Orderly op) (hq : op.Quiet)
    (he : Effect s op s') : s.SameVerified s' := by
  refine ⟨?_, fun id hm => ?_, he.rootAddress_eq, he.rootKey_eq⟩
  · cases he with
    | none | fill | discard => rfl
    | ask | pin | unpin | attach => exact verified_update
    | promote | remove => exact hq.elim
  · obtain ⟨e, hx⟩ := h.listed id hm
    rcases he.kept_or_vacated hx with ⟨e', hx', hst⟩ | ⟨-, -, rfl | ⟨_, rfl, -⟩⟩
    · rw [hx, hx']
      exact congrArg some hst.certificate
    · exact absurd rfl (h.current.ne_of_mem hm hx ho)
    · exact hq.elim

/-- **Any number of quiet operations.** -/
theorem Tended.sameVerified_run (h : s.Tended) (hq : ∀ op ∈ ops, op.Quiet)
    (hr : tended.run s ops = some s') : s.SameVerified s' := by
  induction ops generalizing s with
  | nil =>
    obtain rfl := Option.some.inj hr
    exact .refl s
  | cons op ops ih =>
    obtain ⟨t, hstep, hr⟩ := Option.bind_eq_some_iff.1 hr
    obtain ⟨ho, rfl⟩ : s.Orderly op ∧ s.perform op = t := by simpa [tended] using hstep
    have he := perform_effect h.freeVacant op
    exact (h.sameVerified ho (hq op (by simp)) he).trans
      (ih (h.effect ho he) (fun op' hop' => hq op' (by simp [hop'])) hr)

/-! ## What look-ups depend on -/

theorem names_iff_certificate {id : EntryId} {subject : Eui64} :
    s.names subject id = true ↔
      ∃ c, (s.get? id).map Entry.certificate = some c ∧ c.subject = subject := by
  rw [names_iff]
  simp [Entry.subject]

namespace SameVerified

variable (h : s.SameVerified s')
include h

theorem names {id : EntryId} (hm : id ∈ s.verified) (subject : Eui64) :
    s'.names subject id = s.names subject id := by
  have hc := h.certificate id hm
  rw [Bool.eq_iff_iff, names_iff_certificate, names_iff_certificate, hc]

theorem find? (subject : Eui64) : s'.find? subject = s.find? subject := by
  unfold Store.find?
  rw [h.verified]
  exact List.find?_congr fun id hm => h.names hm subject

theorem findAddress? (a : Address) : s'.findAddress? a = s.findAddress? a := h.find? _

theorem certificate? (a : Address) : s'.certificate? a = s.certificate? a := by
  unfold Store.certificate?
  rw [h.findAddress?]
  cases hf : s.findAddress? a with
  | none => rfl
  | some id => exact h.certificate id (find?_some hf).1

theorem publicKey? (a : Address) : s'.publicKey? a = s.publicKey? a := by
  unfold Store.publicKey?
  rw [h.rootAddress, h.rootKey, h.certificate?]

theorem tags? (a : Address) : s'.tags? a = s.tags? a := by
  unfold Store.tags?
  rw [h.certificate?]

end SameVerified

/-- The store has a verified certificate of a subject with certain tags. -/
def Certifies (s : Store) (subject : Eui64) (tags : Tags) : Prop :=
  ∃ id e, s.get? id = some e ∧ e.state = .verified ∧ e.subject = subject ∧
    e.certificate.tags = tags

theorem Covered.of_tended (h : tended.Reachable s) : s.Covered := by
  refine (h.invariant (P := fun s => s.FreeVacant ∧ s.Covered) ?_ ?_).2
  · rintro s ⟨capacity, a, k, rfl⟩
    exact ⟨freeVacant_empty capacity a k, .empty capacity a k⟩
  · rintro s op s' ⟨hf, hc⟩ hstep
    simp only [tended, Option.ite_none_right_eq_some, Option.some.injEq] at hstep
    obtain ⟨-, rfl⟩ := hstep
    exact ⟨hf.perform op, hc.effect (perform_effect hf op)⟩

/-- The tags of an address are those that the verified certificate of its device has. -/
theorem tags?_eq_some_iff (h : tended.Reachable s) (a : Address) (tags : Tags) :
    s.tags? a = some tags ↔ s.Certifies a.eui64 tags := by
  have ht := Tended.of_reachable h
  have hcov := Covered.of_tended h
  unfold Store.tags? Store.certificate? Store.findAddress?
  rw [Address.eui64_normalise]
  constructor
  · intro htags
    obtain ⟨c, hc, rfl⟩ := Option.map_eq_some_iff.1 htags
    obtain ⟨id, hf, hx⟩ := Option.bind_eq_some_iff.1 hc
    obtain ⟨hm, e, he, hs⟩ := find?_some hf
    rw [he] at hx
    obtain rfl := Option.some.inj hx
    exact ⟨id, e, he, ht.current.verified id hm e he, hs, rfl⟩
  · rintro ⟨id, e, hx, hv, hs, rfl⟩
    have hm := hcov.verified hx hv
    cases hf : s.find? a.eui64 with
    | none => exact absurd hs (find?_none hf hm hx)
    | some j =>
      obtain ⟨-, e', hx', hs'⟩ := find?_some hf
      obtain rfl := hcov.eq_of_subject_eq hx' hx (hs'.trans hs.symm)
      simp [hx]

end Store

/-! ## The table of stereotypes -/

namespace StereotypeTable

variable {α : Type}

/-- A change that is asked of the table. -/
inductive Change (α : Type) where
  | insert (st : Stereotype α)
  | erase (tags : Tags)

/-- The tags that a change is about. -/
def Change.tags : Change α → Tags
  | .insert st => st.tags
  | .erase tags => tags

/-- The stereotype that a change puts in. -/
def Change.stereotype? : Change α → Option (Stereotype α)
  | .insert st => some st
  | .erase _ => none

def apply (t : StereotypeTable α) : Change α → StereotypeTable α
  | .insert st => t.insert st
  | .erase tags => t.erase tags

/-- The table after some changes of an empty one. -/
def ofChanges (changes : List (Change α)) : StereotypeTable α := changes.foldl apply empty

/-- A stereotype was inserted, and no change since was about its tags. -/
def Latest (changes : List (Change α)) (st : Stereotype α) : Prop :=
  ∃ before after, changes = before ++ .insert st :: after ∧ ∀ change ∈ after, change.tags ≠ st.tags

theorem find?_apply (t : StereotypeTable α) (change : Change α) (tags : Tags) :
    (t.apply change).find? tags = if tags = change.tags then change.stereotype? else t.find? tags := by
  cases change with
  | insert st => exact find?_insert t st tags
  | erase other => exact find?_erase t other tags

theorem Change.stereotype?_eq_some_iff {change : Change α} {st : Stereotype α} :
    change.stereotype? = some st ↔ change = .insert st := by
  cases change <;> simp [Change.stereotype?]

theorem latest_concat {changes : List (Change α)} {change : Change α} {st : Stereotype α} :
    Latest (changes ++ [change]) st ↔
      change = .insert st ∨ change.tags ≠ st.tags ∧ Latest changes st := by
  constructor
  · rintro ⟨before, after, heq, hafter⟩
    cases after using List.reverseRecOn with
    | nil =>
      obtain ⟨-, hlast⟩ := List.append_inj' heq rfl
      exact .inl (List.singleton_inj.1 hlast)
    | append_singleton after last =>
      rw [← List.cons_append, ← List.append_assoc] at heq
      obtain ⟨rfl, hlast⟩ := List.append_inj' heq rfl
      obtain rfl := List.singleton_inj.1 hlast
      exact .inr ⟨hafter change (by simp), before, after, rfl,
        fun c hc => hafter c (by simp [hc])⟩
  · rintro (rfl | ⟨hne, before, after, rfl, hafter⟩)
    · exact ⟨changes, [], rfl, by simp⟩
    · refine ⟨before, after ++ [change], by simp, fun c hc => ?_⟩
      rcases List.mem_append.1 hc with hc | hc
      · exact hafter c hc
      · rwa [List.mem_singleton.1 hc]

/-- **The table holds what was inserted last** for a set of tags and not erased since. -/
theorem find?_ofChanges (changes : List (Change α)) (tags : Tags) (st : Stereotype α) :
    (ofChanges changes).find? tags = some st ↔ Latest changes st ∧ st.tags = tags := by
  induction changes using List.reverseRecOn with
  | nil => simp [ofChanges, empty, find?, Latest]
  | append_singleton changes change ih =>
    have hlast : ofChanges (changes ++ [change]) = (ofChanges changes).apply change :=
      List.foldl_append
    rw [hlast, latest_concat, find?_apply]
    split
    · rename_i htags
      rw [Change.stereotype?_eq_some_iff]
      constructor
      · rintro rfl
        exact ⟨.inl rfl, htags.symm⟩
      · rintro ⟨h | ⟨hne, -⟩, rfl⟩
        · exact h
        · exact absurd htags.symm hne
    · rename_i htags
      rw [ih]
      constructor
      · rintro ⟨h, rfl⟩
        exact ⟨.inr ⟨fun hc => htags hc.symm, h⟩, rfl⟩
      · rintro ⟨rfl | ⟨-, h⟩, rfl⟩
        · exact absurd rfl htags
        · exact ⟨h, rfl⟩

end StereotypeTable

/-! ## Scores -/

namespace Engine

variable {α : Type} [Scalar α] {k : ModelKind} {s s' : Store}

omit [Scalar α] in
theorem stereotypeFor?_congr (h : s.SameVerified s') (g : Engine α) (e : TrustEdge α k) :
    g.stereotypeFor? s' e = g.stereotypeFor? s e := by
  unfold stereotypeFor?
  rw [h.tags?]

/-- A score depends on the store only through the stereotype. -/
theorem trust_congr (g : Engine α) (e : TrustEdge α k) (c : Capability (CapabilityTrust α k))
    (h : g.stereotypeFor? s' e = g.stereotypeFor? s e) : g.trust s' e c = g.trust s e c := by
  unfold trust terms
  rw [h]

theorem trustIn?_congr (h : s.SameVerified s') (g : Engine α) (r : TrustRegistry α k) (id : EdgeId)
    (capability : String) : g.trustIn? s' r id capability = g.trustIn? s r id capability := by
  unfold trustIn?
  simp only [trust_congr g _ _ (stereotypeFor?_congr h g _)]

omit [Scalar α] in
/-- A stereotype applies through a verified certificate, and it is the latest one. -/
theorem stereotypeFor?_eq_some_iff (h : Store.tended.Reachable s) {g : Engine α}
    {changes : List (StereotypeTable.Change α)} (hg : g.stereotypes = .ofChanges changes)
    (e : TrustEdge α k) (st : Stereotype α) :
    g.stereotypeFor? s e = some st ↔
      s.Certifies e.address.eui64 st.tags ∧ StereotypeTable.Latest changes st := by
  unfold stereotypeFor?
  rw [Option.bind_eq_some_iff, hg]
  constructor
  · rintro ⟨tags, htags, hst⟩
    obtain ⟨hlatest, rfl⟩ := (StereotypeTable.find?_ofChanges changes tags st).1 hst
    exact ⟨(Store.tags?_eq_some_iff h _ _).1 htags, hlatest⟩
  · rintro ⟨hcert, hlatest⟩
    exact ⟨st.tags, (Store.tags?_eq_some_iff h _ _).2 hcert,
      (StereotypeTable.find?_ofChanges changes st.tags st).2 ⟨hlatest, rfl⟩⟩

end Engine

namespace Store

/-- Two stores give the same answers about devices and addresses. -/
structure SameAnswers (s s' : Store) : Prop where
  find? : ∀ subject, s'.find? subject = s.find? subject
  findAddress? : ∀ a, s'.findAddress? a = s.findAddress? a
  publicKey? : ∀ a, s'.publicKey? a = s.publicKey? a
  tags? : ∀ a, s'.tags? a = s.tags? a

/-- **Certificates that wait influence nothing.** Take any store that orderly operations lead to, and
any orderly run from there that neither promotes an entry nor removes one. Every look-up answers as
before, by subject or by address, and every engine finds the same stereotypes and gives the same scores
to all edges, registered or not. A stereotype applies to an edge just if the store has a verified
certificate for the edge's device with its tags, and it is the latest one inserted for them. -/
theorem influence_of_reachable {s s' : Store} {ops : List Op} (h : tended.Reachable s)
    (hq : ∀ op ∈ ops, op.Quiet) (hr : tended.run s ops = some s') :
    s.SameAnswers s' ∧
    ∀ (α : Type) [Scalar α] (k : ModelKind) (g : Engine α),
      (∀ e : TrustEdge α k, g.stereotypeFor? s' e = g.stereotypeFor? s e) ∧
      (∀ (e : TrustEdge α k) c, g.trust s' e c = g.trust s e c) ∧
      (∀ (r : TrustRegistry α k) id name, g.trustIn? s' r id name = g.trustIn? s r id name) ∧
      ∀ changes, g.stereotypes = .ofChanges changes → ∀ (e : TrustEdge α k) st,
        g.stereotypeFor? s e = some st ↔
          s.Certifies e.address.eui64 st.tags ∧ StereotypeTable.Latest changes st := by
  have hsame := (Tended.of_reachable h).sameVerified_run hq hr
  refine ⟨⟨hsame.find?, hsame.findAddress?, hsame.publicKey?, hsame.tags?⟩, fun α _ k g => ?_⟩
  have hst (e : TrustEdge α k) := Engine.stereotypeFor?_congr hsame g e
  exact ⟨hst, fun e c => Engine.trust_congr g e c (hst e), Engine.trustIn?_congr hsame g,
    fun changes hg e st => Engine.stereotypeFor?_eq_some_iff h hg e st⟩

/-- Strangers come and go, and one claims to be the verified device. -/
def approach : List Op :=
  [.add (.uniform 2) .unsolicited, .pin ⟨1, 0⟩, .unpin ⟨1, 0⟩, .discard ⟨1, 0⟩,
    .add { Certificate.uniform 1 with tags := .root } .requested, .add (.uniform 3) .requested]

theorem influence_after_approach : ∃ s s',
    tended.run (empty 2 ⟨Vector.replicate 16 0⟩ ⟨Vector.replicate 64 0⟩)
      [.add (.uniform 1) .requested, .promote ⟨0, 0⟩] = some s ∧
    tended.run s approach = some s' ∧ s.pending = [] ∧ s'.pending = [⟨1, 1⟩] ∧
    s.SameAnswers s' ∧ ∀ (g : Engine Rat) (e : TrustEdge Rat .baseline),
      g.stereotypes = .ofChanges [.erase .root, .insert ⟨.edge, .fresh, .empty⟩] →
      e.address.eui64 = (Certificate.uniform 1).subject →
      g.stereotypeFor? s' e = some ⟨.edge, .fresh, .empty⟩ := by
  have hruns : ∃ s s',
      tended.run (empty 2 ⟨Vector.replicate 16 0⟩ ⟨Vector.replicate 64 0⟩)
        [.add (.uniform 1) .requested, .promote ⟨0, 0⟩] = some s ∧
      tended.run s approach = some s' ∧ s.pending = [] ∧ s'.pending = [⟨1, 1⟩] ∧
      s.Certifies (Certificate.uniform 1).subject .edge :=
    ⟨_, _, rfl, rfl, rfl, rfl, ⟨0, 0⟩, _, rfl, rfl, rfl, rfl⟩
  obtain ⟨s, s', hs, hs', hp, hp', hcert⟩ := hruns
  have hreach : tended.Reachable s := ⟨_, _, ⟨2, _, _, rfl⟩, hs⟩
  have hquiet : ∀ op ∈ approach, op.Quiet := by decide
  obtain ⟨hanswers, hscores⟩ := influence_of_reachable hreach hquiet hs'
  refine ⟨s, s', hs, hs', hp, hp', hanswers, fun g e hg he => ?_⟩
  obtain ⟨hst, -, -, hiff⟩ := hscores Rat .baseline g
  rw [hst, hiff _ hg, he]
  exact ⟨hcert, [.erase .root], [], rfl, by simp⟩

end Store
end Vouch
