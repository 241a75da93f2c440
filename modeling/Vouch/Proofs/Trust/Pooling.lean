import Mathlib.Tactic.Ring
import Vouch.Proofs.Trust.Relevance
/-!
# The laws of pooling

Both ways of pooling add up counts, and pooling evidence takes off once the outcomes that both beliefs start
from. Without a floor under the counts that is an addition (`combine`): it is commutative and associative,
outcomes count the same before as after, and where nothing is known nothing is added. The floor leaves the
first of these laws alone and can break the others only where it shows (`Clear`). It does not show if the
counts of one belief reach one, as those of every belief that grew out of experience do, and those of the
other the floor.

What the floor is there for holds of any two beliefs, also where a count is negative or undefined: what is
pooled has an expectation.

* `pool_eq_combine_iff`: where the floor does not show.
* `pool_recordAll_iff`: so it is where outcomes may be recorded before or after.
* `pool_experience`, `pool_experiences`: experience pooled with a prior goes on from the prior, and the
  experience of two is that of one who had both.
* `exists_reaches_pool`: whatever evidence is pooled.
* `pooling_laws`: all of this together.
-/
namespace Vouch

namespace Beta

/-- Both counts come up to a bound. -/
structure Reaches (d : Beta Rat) (bound : Rat) : Prop where
  alpha : bound ≤ d.alpha
  beta : bound ≤ d.beta

/-- The same belief in figures. -/
def exactly (d : Beta Rat) : Beta Figure := ⟨.exact d.alpha, .exact d.beta⟩

/-- Counts outcomes, one after the other. -/
def recordAll {α : Type} [Scalar α] (outcomes : List Bool) (d : Beta α) : Beta α :=
  outcomes.foldl (fun d good => d.record good) d

variable {d : Beta Rat} {bound : Rat}

theorem reaches_uniform : (uniform : Beta Rat).Reaches 1 := ⟨le_rfl, le_rfl⟩

theorem Reaches.mono (h : d.Reaches bound) {bound' : Rat} (hb : bound' ≤ bound) : d.Reaches bound' :=
  ⟨hb.trans h.alpha, hb.trans h.beta⟩

theorem Reaches.isPositive (h : d.Reaches bound) (hb : 0 < bound) : d.IsPositive :=
  ⟨hb.trans_le h.alpha, hb.trans_le h.beta⟩

theorem Reaches.record (h : d.Reaches bound) (good : Bool) : (d.record good).Reaches bound := by
  cases good with
  | true => exact ⟨h.alpha.trans (le_add_of_nonneg_right zero_le_one), h.beta⟩
  | false => exact ⟨h.alpha, h.beta.trans (le_add_of_nonneg_right zero_le_one)⟩

/-- What grew out of experience still has the outcomes that it started from. -/
theorem reaches_experience (outcomes : List Bool) :
    ((uniform : Beta Rat).recordAll outcomes).Reaches 1 := by
  refine List.foldlRecOn (motive := fun d : Beta Rat => d.Reaches 1) outcomes _
    reaches_uniform ?_
  intro d h good _
  exact h.record good

/-- Of positive counts, each is a proper part of both together. -/
theorem IsPositive.expected_between (h : d.IsPositive) : 0 < d.expected ∧ d.expected < 1 := by
  have hsum : 0 < d.alpha + d.beta := add_pos h.alpha h.beta
  refine ⟨div_pos h.alpha hsum, ?_⟩
  rw [expected, div_lt_one hsum]
  exact lt_add_of_pos_right d.alpha h.beta

/-- Positive counts have something to be divided by. -/
theorem IsPositive.expected_exactly (h : d.IsPositive) : d.exactly.expected = .exact d.expected := by
  have hsum : d.alpha + d.beta ≠ 0 := (add_pos h.alpha h.beta).ne'
  rw [expected, exactly, Figure.exact_add_exact, Figure.exact_div_exact, Figure.quotient, if_neg hsum]
  rfl

end Beta

namespace Pooling

variable {p : Pooling} {own prior : Beta Rat}

/-! ## The floor -/

theorem minCount_le_one : (minCount : Rat) ≤ 1 := by
  simp only [minCount, Scalar.ratio]
  norm_num

theorem atLeast_eq_iff {bound x : Rat} : atLeast bound x = x ↔ bound ≤ x := by
  unfold atLeast
  split
  · rename_i h
    exact iff_of_true rfl h
  · rename_i h
    exact iff_of_false (fun hx => h hx.le) h

/-- One more is one more only above the floor: below it, the floor takes some of it up. -/
theorem atLeast_add_one_iff {bound x : Rat} :
    atLeast bound (x + 1) = atLeast bound x + 1 ↔ bound ≤ x := by
  constructor
  · intro h
    by_contra hx
    rw [show atLeast bound x = bound from if_neg hx] at h
    unfold atLeast at h
    split at h <;> linarith
  · intro h
    rw [atLeast_eq_iff.2 h, atLeast_eq_iff.2 (h.trans (le_add_of_nonneg_right zero_le_one))]

/-! ## Counts that add up -/

/-- How much of either count both beliefs start from. -/
def shared : Pooling → Rat
  | .evidence => 1
  | .sum => 0

/-- The counts of two beliefs together, with no floor under them. -/
def combine (p : Pooling) (own prior : Beta Rat) : Beta Rat :=
  ⟨own.alpha + prior.alpha - p.shared, own.beta + prior.beta - p.shared⟩

theorem combine_comm (p : Pooling) (d e : Beta Rat) : p.combine d e = p.combine e d := by
  rw [combine, combine, add_comm d.alpha, add_comm d.beta]

theorem combine_assoc (p : Pooling) (a b c : Beta Rat) :
    p.combine (p.combine a b) c = p.combine a (p.combine b c) := by
  simp only [combine, Beta.mk.injEq]
  constructor <;> ring

theorem combine_record (p : Pooling) (own prior : Beta Rat) (good : Bool) :
    p.combine (own.record good) prior = (p.combine own prior).record good := by
  cases good with
  | true =>
    simp only [combine, Beta.record, if_pos, Beta.mk.injEq, and_true]
    ring
  | false =>
    simp only [combine, Beta.record, Bool.false_eq_true, if_false, Beta.mk.injEq, true_and]
    ring

theorem combine_uniform (d : Beta Rat) : evidence.combine d .uniform = d := by
  simp only [combine, shared, Beta.uniform, add_sub_cancel_right]

theorem pool_evidence (own prior : Beta Rat) : evidence.pool own prior =
    ⟨atLeast minCount (evidence.combine own prior).alpha,
      atLeast minCount (evidence.combine own prior).beta⟩ := rfl

/-- What both start from is not lost. -/
theorem reaches_combine (p : Pooling) (ho : own.Reaches 1) {bound : Rat} (hp : prior.Reaches bound) :
    (p.combine own prior).Reaches bound := by
  have hshared : p.shared ≤ 1 := by cases p <;> simp [shared]
  have hoa := ho.alpha
  have hob := ho.beta
  have hpa := hp.alpha
  have hpb := hp.beta
  constructor <;> simp only [combine] <;> linarith

/-! ## Where the floor does not show -/

/-- Each pooled count comes up to the floor of itself, if there is one. -/
def Clear (p : Pooling) (own prior : Beta Rat) : Prop :=
  p = .evidence → (p.combine own prior).Reaches minCount

/-- **The floor does not show** exactly where each count comes up to it. -/
theorem pool_eq_combine_iff : p.pool own prior = p.combine own prior ↔ p.Clear own prior := by
  cases p with
  | sum => simp [Clear, pool, combine, shared]
  | evidence =>
    simp only [pool, combine, shared, Beta.mk.injEq, atLeast_eq_iff, Clear, forall_const]
    exact ⟨fun h => ⟨h.1, h.2⟩, fun h => ⟨h.alpha, h.beta⟩⟩

theorem Clear.of_reaches (ho : own.Reaches 1) (hp : prior.Reaches minCount) : p.Clear own prior :=
  fun _ => p.reaches_combine ho hp

theorem Clear.record (h : p.Clear own prior) (good : Bool) : p.Clear (own.record good) prior := by
  intro hp
  rw [combine_record]
  exact (h hp).record good

/-- **One outcome**, before or after. -/
theorem pool_record (h : p.Clear own prior) (good : Bool) :
    p.pool (own.record good) prior = (p.pool own prior).record good := by
  rw [pool_eq_combine_iff.2 h, pool_eq_combine_iff.2 (h.record good), combine_record]

/-- **Any number of outcomes.** -/
theorem pool_recordAll (h : p.Clear own prior) (outcomes : List Bool) :
    p.pool (own.recordAll outcomes) prior = (p.pool own prior).recordAll outcomes := by
  induction outcomes generalizing own with
  | nil => rfl
  | cons good outcomes ih =>
    have hrest := ih (h.record good)
    rwa [pool_record h good] at hrest

/-- **Outcomes count the same before and after** exactly where the floor does not show. Elsewhere one of
them is lost to the floor, at least in part. -/
theorem pool_recordAll_iff :
    (∀ outcomes, p.pool (own.recordAll outcomes) prior = (p.pool own prior).recordAll outcomes) ↔
      p.Clear own prior := by
  refine ⟨?_, pool_recordAll⟩
  rintro h rfl
  -- One outcome of each kind is enough, since each goes into a count of its own.
  have hgood : evidence.pool (own.record true) prior = (evidence.pool own prior).record true :=
    h [true]
  have hbad : evidence.pool (own.record false) prior = (evidence.pool own prior).record false :=
    h [false]
  rw [pool_evidence, pool_evidence, combine_record] at hgood hbad
  exact ⟨atLeast_add_one_iff.1 (Beta.mk.inj hgood).1, atLeast_add_one_iff.1 (Beta.mk.inj hbad).2⟩

/-! ## The laws -/

theorem pool_comm (p : Pooling) (d e : Beta Rat) : p.pool d e = p.pool e d := by
  cases p with
  | evidence => rw [pool_evidence, pool_evidence, combine_comm]
  | sum =>
    have hplain (d e : Beta Rat) : sum.pool d e = sum.combine d e :=
      pool_eq_combine_iff.2 fun h => by cases h
    rw [hplain, hplain, combine_comm]

theorem pool_uniform_iff {d : Beta Rat} : evidence.pool d .uniform = d ↔ d.Reaches minCount := by
  have h : evidence.pool d .uniform = evidence.combine d .uniform ↔ _ := pool_eq_combine_iff
  simpa only [Clear, combine_uniform, forall_const] using h

theorem pool_assoc (p : Pooling) {a b c : Beta Rat} (ha : a.Reaches 1) (hb : b.Reaches 1)
    (hc : c.Reaches 1) : p.pool (p.pool a b) c = p.pool a (p.pool b c) := by
  have hpool {d e : Beta Rat} (hd : d.Reaches 1) (he : e.Reaches 1) : p.pool d e = p.combine d e :=
    pool_eq_combine_iff.2 (.of_reaches hd (he.mono minCount_le_one))
  rw [hpool ha hb, hpool hb hc, hpool (p.reaches_combine ha hb) hc,
    hpool ha (p.reaches_combine hb hc), combine_assoc]

/-- **Experience goes on from the prior.** Outcomes that were counted from scratch and then pooled might as
well have been counted on top of the prior. -/
theorem pool_experience (h : prior.Reaches minCount) (outcomes : List Bool) :
    evidence.pool (Beta.uniform.recordAll outcomes) prior = prior.recordAll outcomes := by
  rw [pool_recordAll (.of_reaches Beta.reaches_uniform h), pool_comm, pool_uniform_iff.2 h]

/-- **Experience of two** that is pooled might as well have been that of one. -/
theorem pool_experiences (outcomes outcomes' : List Bool) :
    evidence.pool (Beta.uniform.recordAll outcomes) (Beta.uniform.recordAll outcomes') =
      (Beta.uniform.recordAll (outcomes' ++ outcomes) : Beta Rat) := by
  rw [pool_experience ((Beta.reaches_experience outcomes').mono minCount_le_one), Beta.recordAll,
    Beta.recordAll, Beta.recordAll, List.foldl_append]

/-! ## Any two beliefs -/

theorem reaches_pool (own prior : Beta Rat) : (evidence.pool own prior).Reaches minCount :=
  ⟨le_atLeast _ _, le_atLeast _ _⟩

theorem exists_le_atLeast (x : Figure) : ∃ q : Rat, minCount ≤ q ∧ atLeast minCount x = .exact q := by
  cases x with
  | undefined => exact ⟨minCount, le_rfl, atLeast_undefined⟩
  | exact q => exact ⟨_, le_atLeast minCount q, atLeast_exact q⟩

/-- **Whatever evidence is pooled**, both counts come up to the floor. -/
theorem exists_reaches_pool (own prior : Beta Figure) :
    ∃ d : Beta Rat, d.Reaches minCount ∧ evidence.pool own prior = d.exactly := by
  obtain ⟨a, ha, hpa⟩ := exists_le_atLeast (own.alpha + prior.alpha - 1)
  obtain ⟨b, hb, hpb⟩ := exists_le_atLeast (own.beta + prior.beta - 1)
  exact ⟨⟨a, b⟩, ⟨ha, hb⟩, by rw [pool, hpa, hpb, Beta.exactly]⟩

/-- **The laws of pooling.** Over exact fractions either way is commutative. If the counts of the own
belief are at least one and those of the prior at least as high as the floor, pooling evidence adds up the
counts less one, nothing is added by a belief that nothing is known of, and three beliefs whose counts are
all at least one may be pooled in either grouping. Outcomes may be recorded before or after pooling, any
number of them, if counts are only added up, and if evidence is pooled within the same bounds. Whatever is
pooled, also what is undefined, pooled evidence has counts that come up to the floor and an expectation
between zero and one. -/
theorem pooling_laws :
    (∀ (p : Pooling) (own prior : Beta Rat), p.pool own prior = p.pool prior own) ∧
    (∀ own prior : Beta Rat, own.Reaches 1 → prior.Reaches minCount →
      evidence.pool own prior = ⟨own.alpha + prior.alpha - 1, own.beta + prior.beta - 1⟩) ∧
    (∀ d : Beta Rat, d.Reaches minCount →
      evidence.pool d .uniform = d ∧ evidence.pool .uniform d = d) ∧
    (∀ a b c : Beta Rat, a.Reaches 1 → b.Reaches 1 → c.Reaches 1 →
      evidence.pool (evidence.pool a b) c = evidence.pool a (evidence.pool b c)) ∧
    (∀ (p : Pooling) (own prior : Beta Rat),
      (p = .evidence → own.Reaches 1 ∧ prior.Reaches minCount) → ∀ outcomes,
        p.pool (own.recordAll outcomes) prior = (p.pool own prior).recordAll outcomes) ∧
    (∀ own prior : Beta Rat, (evidence.pool own prior).Reaches minCount ∧
      0 < (evidence.pool own prior).expected ∧ (evidence.pool own prior).expected < 1) ∧
    ∀ own prior : Beta Figure, ∃ d : Beta Rat, evidence.pool own prior = d.exactly ∧
      d.Reaches minCount ∧ (evidence.pool own prior).expected = .exact d.expected ∧
      0 < d.expected ∧ d.expected < 1 := by
  refine ⟨pool_comm, fun own prior ho hp => pool_eq_combine_iff.2 (.of_reaches ho hp),
    fun d hd => ⟨pool_uniform_iff.2 hd, ?_⟩, fun a b c ha hb hc => pool_assoc .evidence ha hb hc,
    fun p own prior h => pool_recordAll ?_, fun own prior => ⟨reaches_pool own prior, ?_⟩,
    fun own prior => ?_⟩
  · rw [pool_comm, pool_uniform_iff.2 hd]
  · intro hp
    obtain ⟨ho, hpr⟩ := h hp
    exact p.reaches_combine ho hpr
  · exact ((reaches_pool own prior).isPositive minCount_pos).expected_between
  · obtain ⟨d, hd, hpool⟩ := exists_reaches_pool own prior
    have hpos := hd.isPositive minCount_pos
    refine ⟨d, hpool, hd, ?_, hpos.expected_between⟩
    rw [hpool, hpos.expected_exactly]

/-- Someone known well, pooled with the least prior that does not show the floor, with nothing and with
others; and a prior with counts below zero. -/
theorem pool_of_veteran :
    evidence.pool ⟨4, 2⟩ ⟨minCount, 3⟩ = (⟨4 + minCount - 1, 2 + 3 - 1⟩ : Beta Rat) ∧
    evidence.pool ⟨4, 2⟩ .uniform = (⟨4, 2⟩ : Beta Rat) ∧
    evidence.pool (evidence.pool ⟨4, 2⟩ ⟨1, 5⟩) ⟨2, 1⟩ =
      (evidence.pool ⟨4, 2⟩ (evidence.pool ⟨1, 5⟩ ⟨2, 1⟩) : Beta Rat) ∧
    evidence.pool (Beta.recordAll [true, false, true] ⟨4, 2⟩) ⟨minCount, 3⟩ =
      (evidence.pool ⟨4, 2⟩ ⟨minCount, 3⟩ : Beta Rat).recordAll [true, false, true] ∧
    0 < (evidence.pool ⟨1, 1⟩ ⟨-3, 0⟩ : Beta Rat).expected := by
  obtain ⟨-, hplain, huniform, hassoc, hrecord, hbetween, -⟩ := pooling_laws
  have hmin := minCount_le_one
  have hown : (⟨4, 2⟩ : Beta Rat).Reaches 1 := ⟨by norm_num, by norm_num⟩
  have hprior : (⟨minCount, 3⟩ : Beta Rat).Reaches minCount := ⟨le_rfl, hmin.trans (by norm_num)⟩
  refine ⟨hplain _ _ hown hprior, (huniform _ (hown.mono hmin)).1, ?_,
    hrecord .evidence _ _ (fun _ => ⟨hown, hprior⟩) _, (hbetween _ _).2.1⟩
  exact hassoc _ _ _ hown ⟨le_rfl, by norm_num⟩ ⟨by norm_num, le_rfl⟩

end Pooling
end Vouch
