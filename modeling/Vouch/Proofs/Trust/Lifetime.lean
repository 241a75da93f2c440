import Vouch.Proofs.Trust.Figure
import Vouch.Proofs.Trust.Monotone
import Vouch.Proofs.Trust.Recovery
/-!
# What a record can hold

The records of an edge start out fresh and change with what happens: outcomes are counted, samples of
the traffic are taken in, and whatever array of numbers a record can be read from is put back in its
place. A run of such updates is a lifetime. Each number that comes in from outside can be written
down; then so can every number in a record that a lifetime ends with.

No more is asked of a record that is put back: its counts may be negative, and may add up to zero.

* `Edge.IsFinite.apply`: one update.
* `Edge.isFinite_of_reachable`: a lifetime.
-/
namespace Vouch

variable {α : Type} [Scalar α] {k : ModelKind}

/-! ## Updates -/

namespace Json

mutual

/-- Whether every number in a value can be written down. -/
def isFinite : Json α → Bool
  | .real x => Scalar.isFinite x
  | .arr items => itemsFinite items
  | .obj members => membersFinite members
  | .null | .bool _ | .int _ | .str _ => true

def itemsFinite : List (Json α) → Bool
  | [] => true
  | v :: rest => isFinite v && itemsFinite rest

def membersFinite : List (String × Json α) → Bool
  | [] => true
  | (_, v) :: rest => isFinite v && membersFinite rest

end

end Json

/-- Something that changes the records of an edge. -/
inductive Update (α : Type) where
  | announce (capability : String)
  | learn (challenge : Option String) (x : Experience)
  | ping (now : Nat) (p : PingEvent)
  | traffic (capability : String) (d : Direction) (x : α)
  | restore (saved : Json α)
  | restoreCapability (capability : String) (saved : Json α)

/-- Whether every number that comes in can be written down. -/
def Update.isFinite : Update α → Bool
  | .announce _ | .learn _ _ | .ping _ _ => true
  | .traffic _ _ x => Scalar.isFinite x
  | .restore saved | .restoreCapability _ saved => saved.isFinite

namespace Edge

/-- What an update leaves of an edge, also when it is refused. -/
def apply (e : TrustEdge α k) : Update α → TrustEdge α k
  | .announce capability => e.announce capability
  | .learn challenge x => e.learn challenge x
  | .ping now p => e.ping now p
  | .traffic capability d x => (e.recordTraffic capability d x).2
  | .restore saved => (e.restore saved).2
  | .restoreCapability capability saved => (e.restoreCapability capability saved).2

/-- The life of an edge since it was registered. -/
def lifetime : System (TrustEdge α k) (Update α) where
  initial e := e.capabilities = [] ∧ e.trust = .fresh
  step e u := if u.isFinite then some (e.apply u) else none

/-- All numbers of the records can be written down. -/
structure IsFinite (e : TrustEdge α k) : Prop where
  record : e.trust.IsFinite
  capability : ∀ c ∈ e.capabilities, c.trust.IsFinite

end Edge

/-! ## What is counted -/

namespace Beta

theorem isFinite_uniform : (uniform : Beta Figure).IsFinite := ⟨rfl, rfl⟩

theorem IsFinite.record {d : Beta Figure} (h : d.IsFinite) (good : Bool) :
    (d.record good).IsFinite := by
  cases good with
  | true => exact ⟨Figure.isFinite_add h.alpha rfl, h.beta⟩
  | false => exact ⟨h.alpha, Figure.isFinite_add h.beta rfl⟩

end Beta

namespace Gaussian

theorem isFinite_empty : (empty : Gaussian Figure).IsFinite := ⟨rfl, rfl⟩

/-- The count goes up by one or stays at its highest value. -/
theorem toNat_nextCount (c : UInt32) : (nextCount c).toNat = min (c.toNat + 1) (2 ^ 32 - 1) := by
  have hmax : maxCount.toNat = 2 ^ 32 - 1 := rfl
  have hlt := c.toNat_lt
  unfold nextCount
  split
  · rename_i h
    rw [h, hmax]
    decide
  · rename_i h
    have hne : c.toNat ≠ maxCount.toNat := fun h' => h (UInt32.toNat_inj.1 h')
    rw [UInt32.toNat_add, UInt32.toNat_one]
    omega

theorem toNat_nextCount_ne_zero (c : UInt32) : (nextCount c).toNat ≠ 0 := by
  rw [toNat_nextCount]
  omega

/-- A sample is divided by a count of at least one, and the variance by one less where that is not
zero. -/
theorem IsFinite.update {d : Gaussian Figure} (h : d.IsFinite) {x : Figure}
    (hx : Scalar.isFinite x = true) : (d.update x).IsFinite := by
  have hdelta := Figure.isFinite_sub hx h.mean
  have hmean : Scalar.isFinite (d.update x).mean = true := by
    refine Figure.isFinite_add h.mean (Figure.isFinite_div hdelta rfl ?_)
    simpa [Figure.natCast_def, Figure.zero_def] using toNat_nextCount_ne_zero d.count
  refine ⟨hmean, ?_⟩
  unfold Gaussian.update
  dsimp only
  split
  · rename_i hlt
    have hsum := Figure.isFinite_add (Figure.isFinite_mul (x := (nextCount d.count).toNat - (2 : Nat))
      rfl h.variance) (Figure.isFinite_mul hdelta (Figure.isFinite_sub hx hmean))
    refine Figure.isFinite_div hsum rfl ?_
    have hlt : 1 < (nextCount d.count).toNat := hlt
    have hne : ((nextCount d.count).toNat : Rat) ≠ 1 := by exact_mod_cast hlt.ne'
    simpa [Figure.natCast_def, Figure.one_def, Figure.zero_def, sub_eq_zero] using hne
  · exact h.variance

end Gaussian

namespace CapabilityTrust

variable {t : CapabilityTrust Figure k}

theorem isFinite_fresh : (fresh : CapabilityTrust Figure k).IsFinite := by
  cases k with
  | baseline => exact Beta.isFinite_uniform
  | throughput => exact ⟨Beta.isFinite_uniform, Gaussian.isFinite_empty, Gaussian.isFinite_empty⟩

theorem IsFinite.quality {t : CapabilityTrust α k} (h : t.IsFinite) :
    t.quality.IsFinite := by
  cases t with
  | baseline => exact h
  | throughput => exact h.1

theorem IsFinite.traffic {t : CapabilityTrust α k} (h : t.IsFinite)
    {inbound outbound : Gaussian α} (ht : t.traffic? = some (inbound, outbound)) :
    inbound.IsFinite ∧ outbound.IsFinite := by
  cases t with
  | baseline => cases ht
  | throughput =>
    cases ht
    exact h.2

theorem IsFinite.recordQuality (h : t.IsFinite) (good : Bool) : (t.recordQuality good).IsFinite := by
  cases t with
  | baseline => exact Beta.IsFinite.record h good
  | throughput => exact ⟨h.1.record good, h.2⟩

theorem IsFinite.recordTraffic (h : t.IsFinite) (d : Direction) {x : Figure}
    (hx : Scalar.isFinite x = true) : (t.recordTraffic d x).2.IsFinite := by
  cases t with
  | baseline => exact h
  | throughput =>
    obtain ⟨hq, hi, ho⟩ := h
    cases d with
    | inbound => exact ⟨hq, hi.update hx, ho⟩
    | outbound => exact ⟨hq, hi, ho.update hx⟩

end CapabilityTrust

/-! ## What is read -/

namespace Json

/-- Every number in a value is finite, whole numbers by what they are read as. -/
inductive Finite : Json α → Prop where
  | null : Finite .null
  | bool (b : Bool) : Finite (.bool b)
  | int {i : Int} (h : Scalar.isFinite (i : α) = true) : Finite (.int i)
  | real {x : α} (h : Scalar.isFinite x = true) : Finite (.real x)
  | str (s : String) : Finite (.str s)
  | arr {items : List (Json α)} (h : ∀ v ∈ items, Finite v) : Finite (.arr items)
  | obj {members : List (String × Json α)} (h : ∀ m ∈ members, Finite m.2) : Finite (.obj members)

theorem Finite.of_mem {items : List (Json α)} (h : (Json.arr items).Finite) {v : Json α} (hv : v ∈ items) :
    v.Finite := by
  cases h with
  | arr h => exact h v hv

theorem Finite.scalar {v : Json α} (h : v.Finite) {x : α} (hx : v.scalar? = some x) :
    Scalar.isFinite x = true := by
  cases h with
  | int h | real h =>
    cases hx
    exact h
  | _ => cases hx

theorem isFinite_of_mem {items : List (Json α)} (h : (arr items).isFinite = true)
    {v : Json α} (hv : v ∈ items) : v.isFinite = true := by
  rw [isFinite] at h
  induction items with
  | nil => cases hv
  | cons w rest ih =>
    rw [itemsFinite, Bool.and_eq_true] at h
    rcases List.mem_cons.1 hv with rfl | hv
    · exact h.1
    · exact ih h.2 hv

theorem isFinite_of_mem_members {members : List (String × Json α)}
    (h : (obj members).isFinite = true) {m : String × Json α} (hm : m ∈ members) :
    m.2.isFinite = true := by
  rw [isFinite] at h
  induction members with
  | nil => cases hm
  | cons m' rest ih =>
    obtain ⟨name, w⟩ := m'
    rw [membersFinite, Bool.and_eq_true] at h
    rcases List.mem_cons.1 hm with rfl | hm
    · exact h.1
    · exact ih h.2 hm

/-- As a fraction every whole number is finite. -/
theorem finite_of_isFinite : ∀ v : Json Figure, v.isFinite = true → v.Finite
  | .null, _ => .null
  | .bool b, _ => .bool b
  | .int _, _ => .int rfl
  | .real _, h => .real h
  | .str s, _ => .str s
  | .arr _, h => .arr fun w hw => finite_of_isFinite w (isFinite_of_mem h hw)
  | .obj _, h => .obj fun m hm => finite_of_isFinite m.2 (isFinite_of_mem_members h hm)
termination_by v => sizeOf v
decreasing_by
  · have hlt := List.sizeOf_lt_of_mem hw
    simp only [arr.sizeOf_spec]
    omega
  · have hlt := List.sizeOf_lt_of_mem hm
    obtain ⟨name, w⟩ := m
    simp only [obj.sizeOf_spec, Prod.mk.sizeOf_spec] at *
    omega

end Json

theorem Beta.isFinite_ofJson {v : Json α} (hv : v.Finite) {d : Beta α} (h : ofJson? v = some d) :
    d.IsFinite := by
  obtain ⟨a, b, rfl, ha, hb⟩ := ofJson?_eq_some_iff.1 h
  exact ⟨(hv.of_mem (by simp)).scalar ha, (hv.of_mem (by simp)).scalar hb⟩

theorem Gaussian.isFinite_ofJson {v : Json α} (hv : v.Finite) {d : Gaussian α}
    (h : ofJson? v = some d) : d.IsFinite := by
  obtain ⟨m, s, n, rfl, hm, hs, -⟩ := ofJson?_eq_some_iff.1 h
  exact ⟨(hv.of_mem (by simp)).scalar hm, (hv.of_mem (by simp)).scalar hs⟩

theorem EdgeTrust.isFinite_ofJson {v : Json α} (hv : v.Finite) {t : EdgeTrust α}
    (h : EdgeTrust.format.ofJson v = .ok t) : t.IsFinite := by
  obtain ⟨submission, result, rfl, hs, hr, -⟩ := EdgeTrust.ofJson_eq_ok_iff.1 h
  exact ⟨Beta.isFinite_ofJson (hv.of_mem (by simp)) hs,
    Beta.isFinite_ofJson (hv.of_mem (by simp)) hr⟩

theorem CapabilityTrust.isFinite_ofJson {v : Json α} (hv : v.Finite) {t : CapabilityTrust α k}
    (h : CapabilityTrust.format.ofJson v = .ok t) : t.IsFinite := by
  cases t with
  | baseline quality =>
    obtain ⟨q, rfl, hq⟩ := ofJson_baseline_eq_ok_iff.1 h
    exact Beta.isFinite_ofJson (hv.of_mem (by simp)) hq
  | throughput quality inbound outbound =>
    obtain ⟨q, i, o, rfl, hq, hi, ho⟩ := ofJson_throughput_eq_ok_iff.1 h
    exact ⟨Beta.isFinite_ofJson (hv.of_mem (by simp)) hq,
      Gaussian.isFinite_ofJson (hv.of_mem (by simp)) hi,
      Gaussian.isFinite_ofJson (hv.of_mem (by simp)) ho⟩

/-! ## Lifetimes -/

namespace Edge

variable {e : TrustEdge Figure k}

theorem IsFinite.withCapability (h : e.IsFinite) {β : Type} (name : String)
    {f : CapabilityTrust Figure k → β × CapabilityTrust Figure k}
    (hf : ∀ t : CapabilityTrust Figure k, t.IsFinite → (f t).2.IsFinite) :
    (e.withCapability name f).2.IsFinite := by
  rw [withCapability_snd]
  exact ⟨h.record, forall_modifyCapability name hf h.capability⟩

theorem IsFinite.learn (h : e.IsFinite) (challenge : Option String) (x : Experience) :
    (e.learn challenge x).IsFinite := by
  obtain ⟨-, hl⟩ | ⟨good, -, hl⟩ := learn_cases challenge x e
  · rwa [hl]
  · obtain hl | hl | ⟨name, hl⟩ | hl := hl <;> rw [hl]
    · exact ⟨⟨h.record.submission.record good, h.record.result⟩, h.capability⟩
    · exact ⟨⟨h.record.submission, h.record.result.record good⟩, h.capability⟩
    · exact ⟨h.record, forall_modifyCapability name (fun t ht => ht.recordQuality good) h.capability⟩
    · exact h

/-- **One update.** -/
theorem IsFinite.apply (h : e.IsFinite) {u : Update Figure} (hu : u.isFinite = true) :
    (e.apply u).IsFinite := by
  cases u with
  | announce capability =>
    refine ⟨h.record, fun c hc => ?_⟩
    rcases List.mem_append.1 hc with hc | hc
    · exact h.capability c hc
    · rw [List.mem_singleton.1 hc]
      exact CapabilityTrust.isFinite_fresh
  | learn challenge x => exact h.learn challenge x
  | ping now p =>
    refine ⟨?_, h.capability⟩
    cases p with
    | sent => exact h.record
    | received => exact ⟨h.record.submission, h.record.result⟩
  | traffic capability d x => exact h.withCapability capability fun t ht => ht.recordTraffic d hu
  | restore saved =>
    show (e.putBack (EdgeTrust.format.ofJson saved)).2.IsFinite
    cases hs : EdgeTrust.format.ofJson saved with
    | error cause => exact h
    | ok t =>
      have ht := EdgeTrust.isFinite_ofJson (Json.finite_of_isFinite _ hu) hs
      exact ⟨⟨ht.submission, ht.result⟩, h.capability⟩
  | restoreCapability capability saved =>
    show (e.putBackCapability capability (CapabilityTrust.format.ofJson saved)).2.IsFinite
    cases hs : (CapabilityTrust.format (k := k)).ofJson saved with
    | error cause => exact h
    | ok t => exact h.withCapability capability fun _ _ =>
      CapabilityTrust.isFinite_ofJson (Json.finite_of_isFinite _ hu) hs

/-- **A lifetime.** -/
theorem isFinite_of_reachable (h : lifetime.Reachable e) : e.IsFinite := by
  refine h.invariant (P := IsFinite) ?_ ?_
  · rintro e ⟨hnone, hfresh⟩
    refine ⟨?_, by simp [hnone]⟩
    rw [hfresh]
    exact ⟨Beta.isFinite_uniform, Beta.isFinite_uniform⟩
  · intro e u e' he hstep
    simp only [lifetime, Option.ite_none_right_eq_some, Option.some.injEq] at hstep
    obtain ⟨hu, rfl⟩ := hstep
    exact he.apply hu

end Edge
end Vouch
