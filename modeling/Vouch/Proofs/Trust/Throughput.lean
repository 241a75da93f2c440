import Mathlib.Algebra.Order.Field.Basic
import Mathlib.Algebra.Order.Field.Rat
import Mathlib.Tactic.Linarith
import Mathlib.Tactic.NormNum
import Vouch.Trust.Throughput
/-!
# Throughput that rises

More throughput should not lower the score, and mostly it does not. Scores are compared over exact
fractions, of two pairs of distributions with as many samples each, where neither mean is lower in the
second pair.

Where both directions are sampled, the share of its threshold that a mean comes to decides: the
outbound share as long as it is short of one, and only then the inbound share. So an outbound mean that
comes up to its threshold hands over to the inbound share, which may be the smaller one
(`Threshold.Uncovers`). Nothing else lowers the score.

* `score_of_sampled`: the score by the two shares.
* `goodness_lt_iff`: when the score falls.
* `not_goodness_le`: it can fall when only the outbound mean rises.
-/
namespace Vouch

/-- As many samples, of a mean that is no lower. -/
structure Gaussian.AtMost (d d' : Gaussian Rat) : Prop where
  count : d'.count = d.count
  mean : d.mean ≤ d'.mean

namespace Gaussian

variable {d d' : Gaussian Rat}

theorem AtMost.isEmpty (h : d.AtMost d') : d'.isEmpty = d.isEmpty := by
  rw [Gaussian.isEmpty, Gaussian.isEmpty, h.count]

/-- How much of a threshold the mean comes to. -/
def share (d : Gaussian Rat) (least : Rat) : Rat := d.mean / least

theorem AtMost.share (h : d.AtMost d') {least : Rat} (hpos : 0 < least) :
    d.share least ≤ d'.share least :=
  div_le_div_of_nonneg_right h.mean hpos.le

theorem share_lt_one_iff {least : Rat} (hpos : 0 < least) :
    d.share least < 1 ↔ ¬ least ≤ d.mean := by
  rw [Gaussian.share, div_lt_one hpos, not_le]

end Gaussian

theorem meets_mono {d d' : Gaussian Rat} (h : d.AtMost d') (least : Rat) :
    meets d least ≤ meets d' least := by
  unfold meets
  by_cases hd : least ≤ d.mean
  · rw [if_pos hd, if_pos (hd.trans h.mean)]
  · rw [if_neg hd]
    split
    · exact zero_le_one
    · exact le_rfl

variable {inbound outbound inbound' outbound' : Gaussian Rat} {t : Threshold Rat}

/-- The score where both directions are sampled. -/
theorem score_of_sampled (ht : t.IsPositive) (hi : inbound.isEmpty = false)
    (ho : outbound.isEmpty = false) :
    score inbound outbound t =
      if outbound.share t.outbound < 1 then outbound.share t.outbound
      else if inbound.share t.inbound < 1 then inbound.share t.inbound
      else 1 := by
  simp only [score, hi, ho, Bool.false_eq_true, if_false, Gaussian.share_lt_one_iff ht.1,
    Gaussian.share_lt_one_iff ht.2]
  rfl

/-- The outbound mean comes up to its threshold, and the inbound mean, which decides from then on, falls
shorter of its own than the outbound mean did. -/
structure Threshold.Uncovers (t : Threshold Rat)
    (inbound outbound inbound' outbound' : Gaussian Rat) : Prop where
  inbound_sampled : inbound.isEmpty = false
  outbound_sampled : outbound.isEmpty = false
  short : outbound.mean < t.outbound
  met : t.outbound ≤ outbound'.mean
  shorter : inbound'.mean / t.inbound < outbound.mean / t.outbound

/-- Without samples in both directions the score does not fall. -/
theorem score_le_of_isEmpty (hi : inbound.AtMost inbound') (ho : outbound.AtMost outbound')
    (h : inbound.isEmpty = true ∨ outbound.isEmpty = true) :
    score inbound outbound t ≤ score inbound' outbound' t := by
  unfold score
  rw [hi.isEmpty, ho.isEmpty]
  cases hin : inbound.isEmpty with
  | true =>
    cases outbound.isEmpty with
    | true => exact le_rfl
    | false => exact meets_mono ho t.outbound
  | false =>
    have hout : outbound.isEmpty = true := h.resolve_left (by simp [hin])
    rw [hout]
    exact meets_mono hi t.inbound

/-- With samples in both directions it falls where the smaller share comes to decide. -/
theorem score_lt_iff_of_sampled (ht : t.IsPositive) (hi : inbound.AtMost inbound')
    (ho : outbound.AtMost outbound') (hin : inbound.isEmpty = false)
    (hout : outbound.isEmpty = false) :
    score inbound' outbound' t < score inbound outbound t ↔
      outbound.share t.outbound < 1 ∧ 1 ≤ outbound'.share t.outbound ∧
        inbound'.share t.inbound < outbound.share t.outbound := by
  have hshare := hi.share ht.1
  have hshare' := ho.share ht.2
  rw [score_of_sampled ht hin hout,
    score_of_sampled ht (hi.isEmpty.trans hin) (ho.isEmpty.trans hout)]
  constructor
  · intro hlt
    split at hlt
    · -- the outbound share decides still, so it decided before
      have hbefore : outbound.share t.outbound < 1 := by linarith
      rw [if_pos hbefore] at hlt
      linarith
    · rename_i hmet
      split at hlt
      · -- if the inbound share decided before as well, it has not become smaller
        rename_i hshort
        by_cases hbefore : outbound.share t.outbound < 1
        · rw [if_pos hbefore] at hlt
          exact ⟨hbefore, not_lt.1 hmet, hlt⟩
        · rw [if_neg hbefore, if_pos (by linarith)] at hlt
          linarith
      · -- nothing is above one
        split at hlt
        · linarith
        · split at hlt <;> linarith
  · intro h
    obtain ⟨hshort, hmet, hshorter⟩ := h
    have hinbound : inbound'.share t.inbound < 1 := by linarith
    rw [if_pos hshort, if_neg (not_lt.2 hmet), if_pos hinbound]
    exact hshorter

theorem score_lt_iff (ht : t.IsPositive) (hi : inbound.AtMost inbound')
    (ho : outbound.AtMost outbound') :
    score inbound' outbound' t < score inbound outbound t ↔
      t.Uncovers inbound outbound inbound' outbound' := by
  by_cases hsampled : inbound.isEmpty = false ∧ outbound.isEmpty = false
  · obtain ⟨hin, hout⟩ := hsampled
    rw [score_lt_iff_of_sampled ht hi ho hin hout, Gaussian.share_lt_one_iff ht.2, not_le,
      ← not_lt, Gaussian.share_lt_one_iff ht.2, not_not]
    constructor
    · intro h
      exact ⟨hin, hout, h.1, h.2.1, h.2.2⟩
    · intro h
      exact ⟨h.short, h.met, h.shorter⟩
  · constructor
    · intro hlt
      refine absurd hlt (not_lt.2 (score_le_of_isEmpty hi ho ?_))
      by_contra hnone
      simp only [not_or, Bool.not_eq_true] at hnone
      exact hsampled hnone
    · intro h
      exact absurd ⟨h.inbound_sampled, h.outbound_sampled⟩ hsampled

/-- **When the score falls.** Take any positive threshold and any two pairs of distributions with as many
samples, of which no mean is lower in the second. Both pairs have a score. The second score is lower than
the first just if both directions are sampled, the outbound mean comes up to its threshold from below,
and the inbound mean is then a smaller share of its threshold than the outbound mean was. So the score
does not fall where only the inbound mean rises, nor where the outbound mean stays on its side of the
threshold. -/
theorem goodness_lt_iff (ht : t.IsPositive) (hi : inbound.AtMost inbound')
    (ho : outbound.AtMost outbound') :
    ∃ x x', goodness inbound outbound t = .ok x ∧ goodness inbound' outbound' t = .ok x' ∧
      (x' < x ↔ t.Uncovers inbound outbound inbound' outbound') ∧
      (outbound'.mean = outbound.mean → x ≤ x') ∧
      ((outbound'.mean < t.outbound ∨ t.outbound ≤ outbound.mean) → x ≤ x') := by
  have hfalls := score_lt_iff ht hi ho
  refine ⟨_, _, if_pos ht, if_pos ht, hfalls, ?_, ?_⟩
  · intro hmean
    refine not_lt.1 fun hlt => ?_
    have h := hfalls.1 hlt
    have hmet := h.met
    rw [hmean] at hmet
    exact absurd h.short (not_lt.2 hmet)
  · intro hside
    refine not_lt.1 fun hlt => ?_
    have h := hfalls.1 hlt
    rcases hside with hshort | hmet
    · exact absurd hshort (not_lt.2 h.met)
    · exact absurd h.short (not_lt.2 hmet)

/-- Both directions of a link do better, and neither meets its threshold. -/
theorem goodness_of_rising : ∃ x x' : Rat,
    goodness ⟨50, 0, 2⟩ ⟨30, 0, 2⟩ ⟨100, 50⟩ = .ok x ∧
      goodness ⟨80, 0, 2⟩ ⟨45, 0, 2⟩ ⟨100, 50⟩ = .ok x' ∧ x ≤ x' ∧ x = 3 / 5 ∧ x' = 9 / 10 := by
  have ht : (⟨100, 50⟩ : Threshold Rat).IsPositive := by decide
  have hi : Gaussian.AtMost ⟨50, 0, 2⟩ ⟨80, 0, 2⟩ := ⟨rfl, by decide⟩
  have ho : Gaussian.AtMost ⟨30, 0, 2⟩ ⟨45, 0, 2⟩ := ⟨rfl, by decide⟩
  obtain ⟨x, x', hx, hx', -, -, hside⟩ := goodness_lt_iff ht hi ho
  refine ⟨x, x', hx, hx', hside (.inl (by decide)), ?_, ?_⟩
  · exact Except.ok.inj (hx.symm.trans (by decide +kernel))
  · exact Except.ok.inj (hx'.symm.trans (by decide +kernel))

/-- **More outbound throughput can lower the score.** With nothing coming in, four fifths of what has to go
out are worth more than all of it. -/
theorem not_goodness_le : ¬ ∀ (t : Threshold Rat) (inbound outbound outbound' : Gaussian Rat),
    t.IsPositive → 0 ≤ inbound.mean → 0 ≤ outbound.mean → outbound'.count = outbound.count →
      outbound.mean ≤ outbound'.mean → ∀ x x', goodness inbound outbound t = .ok x →
        goodness inbound outbound' t = .ok x' → x ≤ x' := by
  intro hall
  have hle := hall ⟨100, 50⟩ ⟨0, 0, 1⟩ ⟨40, 0, 1⟩ ⟨50, 0, 1⟩ (by decide) (by decide) (by decide) rfl
    (by decide) (4 / 5) 0 (by decide +kernel) (by decide +kernel)
  exact absurd hle (by norm_num)

end Vouch
