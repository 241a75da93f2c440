import Mathlib.Algebra.BigOperators.Group.List.Basic
import Mathlib.Algebra.BigOperators.Ring.List
import Mathlib.Algebra.Order.Field.Rat
import Mathlib.Data.List.Induction
import Mathlib.Tactic.FieldSimp
import Mathlib.Tactic.Ring
import Vouch.Proofs.Trust.Lifetime
/-!
# What the running statistics come to

Mean and variance are kept up to date one sample at a time, the variance by a recurrence in the old and
the new mean. Over exact fractions they are the mean and the sample variance of all samples taken in, so
the order in which the samples came does not matter. That holds as long as every sample is counted. The
count stops at its highest value, and no update divides by zero, whatever the record: over figures, where a
division by zero has no value, it comes to the same as over fractions.

* `Gaussian.batch_concat`: one more sample.
* `Gaussian.foldl_update`: any number of samples below 2^32.
* `Gaussian.batch_perm`: in any order.
* `Gaussian.update_exactly`: an update of any record whatever divides by numbers that are not zero.
* `Gaussian.statistics_of_samples`: all of this together.
-/
namespace Vouch

namespace Gaussian

/-- The mean, or zero where there is no sample. -/
def batchMean (xs : List Rat) : Rat := xs.sum / xs.length

/-- The squared deviations from the mean together. -/
def deviation (xs : List Rat) : Rat := (xs.map fun x => (x - batchMean xs) ^ 2).sum

/-- Mean and sample variance of some samples, all looked at together. -/
def batch (xs : List Rat) : Gaussian Rat where
  mean := batchMean xs
  variance := if 2 ≤ xs.length then deviation xs / (xs.length - 1) else 0
  count := UInt32.ofNat xs.length

/-! ## One more sample -/

theorem batchMean_mul_length (xs : List Rat) : batchMean xs * xs.length = xs.sum := by
  cases xs with
  | nil => simp [batchMean]
  | cons x xs => exact div_mul_cancel₀ _ (Nat.cast_ne_zero.2 (Nat.succ_ne_zero xs.length))

theorem batchMean_concat (xs : List Rat) (x : Rat) :
    batchMean (xs ++ [x]) = batchMean xs + (x - batchMean xs) / (xs.length + 1) := by
  have hn : (xs.length : Rat) + 1 ≠ 0 := Nat.cast_add_one_ne_zero _
  rw [batchMean, List.sum_append, List.sum_singleton, List.length_append, List.length_singleton,
    Nat.cast_add, Nat.cast_one, ← batchMean_mul_length xs]
  field_simp
  ring

/-- The squared deviations from any number, by the sums of the samples and of their squares. -/
theorem sum_sq_sub (xs : List Rat) (m : Rat) :
    (xs.map fun x => (x - m) ^ 2).sum =
      (xs.map fun x => x ^ 2).sum - 2 * m * xs.sum + xs.length * m ^ 2 := by
  induction xs with
  | nil => simp
  | cons x xs ih =>
    simp only [List.map_cons, List.sum_cons, List.length_cons, Nat.cast_add, Nat.cast_one, ih]
    ring

/-- A sample adds the product of its deviations from the old mean and from the new. -/
theorem deviation_concat (xs : List Rat) (x : Rat) :
    deviation (xs ++ [x]) = deviation xs + (x - batchMean xs) * (x - batchMean (xs ++ [x])) := by
  have hn : (xs.length : Rat) + 1 ≠ 0 := Nat.cast_add_one_ne_zero _
  rw [deviation, deviation, sum_sq_sub, sum_sq_sub, batchMean_concat]
  simp only [List.map_append, List.map_cons, List.map_nil, List.sum_append, List.sum_singleton,
    List.length_append, List.length_singleton, Nat.cast_add, Nat.cast_one,
    ← batchMean_mul_length xs]
  field_simp
  ring

theorem nextCount_ofNat {n : Nat} (h : n + 1 < 2 ^ 32) :
    nextCount (UInt32.ofNat n) = UInt32.ofNat (n + 1) := by
  apply UInt32.toNat_inj.1
  rw [toNat_nextCount, UInt32.toNat_ofNat_of_lt' (Nat.lt_of_succ_lt h), UInt32.toNat_ofNat_of_lt' h]
  omega

/-- A single sample deviates from nothing, so the variance of two or more can always be scaled up. -/
theorem batch_variance_mul (xs : List Rat) (h : 1 ≤ xs.length) :
    ((xs.length : Rat) - 1) * (batch xs).variance = deviation xs := by
  rw [batch]
  dsimp only
  split
  · rename_i h2
    have hn : (xs.length : Rat) - 1 ≠ 0 := by
      rw [sub_ne_zero]
      exact_mod_cast (show xs.length ≠ 1 by omega)
    field_simp
  · obtain ⟨x, rfl⟩ := List.length_eq_one_iff.1 (show xs.length = 1 by omega)
    simp [deviation, batchMean]

/-- **One more sample.** -/
theorem batch_concat {xs : List Rat} (x : Rat) (h : xs.length + 1 < 2 ^ 32) :
    (batch xs).update x = batch (xs ++ [x]) := by
  have htoNat : (UInt32.ofNat (xs.length + 1)).toNat = xs.length + 1 :=
    UInt32.toNat_ofNat_of_lt' (by simpa [UInt32.size] using h)
  have hcount : ((batch xs).update x).count = UInt32.ofNat (xs.length + 1) := nextCount_ofNat h
  have hn : (((batch xs).update x).count.toNat : Rat) = xs.length + 1 := by
    rw [hcount, htoNat, Nat.cast_add, Nat.cast_one]
  have hmean : ((batch xs).update x).mean = batchMean (xs ++ [x]) := by
    rw [batchMean_concat, ← hn]
    rfl
  -- The recurrence divides by the old number of samples, so a first sample is a case of its own.
  have hvariance : ((batch xs).update x).variance = if 1 ≤ xs.length then
      deviation (xs ++ [x]) / xs.length else 0 := by
    show (if 1 < ((batch xs).update x).count then
      ((((batch xs).update x).count.toNat - (2 : Nat) : Rat) * (batch xs).variance +
        (x - (batch xs).mean) * (x - ((batch xs).update x).mean)) /
          (((batch xs).update x).count.toNat - 1) else (batch xs).variance) = _
    have hlt : 1 < ((batch xs).update x).count ↔ 1 ≤ xs.length := by
      rw [UInt32.lt_iff_toNat_lt, hcount, htoNat]
      exact Nat.succ_lt_succ_iff
    simp only [hlt]
    split
    · rename_i h1
      rw [hn, hmean, deviation_concat, ← batch_variance_mul xs h1, Nat.cast_two, add_sub_cancel_right]
      congr 1
      show _ + (x - batchMean xs) * _ = _
      ring
    · rename_i h1
      rw [batch, if_neg (by omega)]
  have hbatch : batch (xs ++ [x]) = ⟨batchMean (xs ++ [x]),
      if 1 ≤ xs.length then deviation (xs ++ [x]) / xs.length else 0, UInt32.ofNat (xs.length + 1)⟩ := by
    simp only [batch, List.length_append, List.length_singleton, Nat.cast_add, Nat.cast_one,
      add_sub_cancel_right, Nat.reduceLeDiff]
  rw [hbatch, ← hmean, ← hvariance, ← hcount]

/-! ## Any number of samples -/

/-- **Running statistics are those of the whole batch**, as long as the count has not reached its
bound. -/
theorem foldl_update {xs : List Rat} (h : xs.length < 2 ^ 32) :
    xs.foldl (fun d x => d.update x) empty = batch xs := by
  induction xs using List.reverseRecOn with
  | nil => simp [batch, batchMean, empty]
  | append_singleton xs x ih =>
    rw [List.length_append, List.length_singleton] at h
    rw [List.foldl_append, ih (by omega), List.foldl_cons, List.foldl_nil, batch_concat x h]

/-- The order of the samples does not matter. -/
theorem batch_perm {xs ys : List Rat} (h : xs.Perm ys) : batch xs = batch ys := by
  have hmean : batchMean xs = batchMean ys := by rw [batchMean, batchMean, h.sum_eq, h.length_eq]
  have hdeviation : deviation xs = deviation ys := by
    rw [deviation, deviation, hmean]
    exact (h.map _).sum_eq
  rw [batch, batch, hmean, hdeviation, h.length_eq]

theorem deviation_nonneg (xs : List Rat) : 0 ≤ deviation xs := by
  refine List.sum_nonneg fun y hy => ?_
  obtain ⟨x, -, rfl⟩ := List.mem_map.1 hy
  exact sq_nonneg _

/-! ## Any record -/

/-- The same statistics in figures. -/
def exactly (d : Gaussian Rat) : Gaussian Figure := ⟨.exact d.mean, .exact d.variance, d.count⟩

/-- **No update divides by zero.** The mean is divided by a count that was just raised, and the variance
by one less only where that is positive. -/
theorem update_exactly (d : Gaussian Rat) (x : Rat) :
    d.exactly.update (.exact x) = (d.update x).exactly := by
  have hcount : ((nextCount d.count).toNat : Rat) ≠ 0 :=
    Nat.cast_ne_zero.2 (toNat_nextCount_ne_zero d.count)
  have hmean : (d.exactly.update (.exact x)).mean = .exact (d.update x).mean := by
    simp only [update, exactly, Figure.natCast_def, Figure.exact_sub_exact, Figure.exact_div_exact,
      Figure.quotient, if_neg hcount, Figure.exact_add_exact]
  have hvariance : (d.exactly.update (.exact x)).variance = .exact (d.update x).variance := by
    show (if 1 < nextCount d.count then
      (((nextCount d.count).toNat - (2 : Nat) : Figure) * .exact d.variance +
        (.exact x - .exact d.mean) * (.exact x - (d.exactly.update (.exact x)).mean)) /
          ((nextCount d.count).toNat - 1) else .exact d.variance) = _
    rw [hmean]
    unfold update
    dsimp only
    split
    · rename_i h
      have hlt : 1 < (nextCount d.count).toNat := h
      have hne : ((nextCount d.count).toNat : Rat) - 1 ≠ 0 := by
        rw [sub_ne_zero]
        exact_mod_cast hlt.ne'
      simp only [Figure.natCast_def, Figure.one_def, Figure.exact_sub_exact, Figure.exact_mul_exact,
        Figure.exact_add_exact, Figure.exact_div_exact, Figure.quotient, if_neg hne]
    · rfl
  have hparts : (d.update x).exactly =
      ⟨.exact (d.update x).mean, .exact (d.update x).variance, nextCount d.count⟩ := rfl
  rw [hparts, ← hmean, ← hvariance]
  rfl

/-- What the statistics of some samples are, counted out. -/
structure Summary (xs : List Rat) (d : Gaussian Rat) : Prop where
  count : d.count.toNat = xs.length
  mean : 1 ≤ xs.length → d.mean = xs.sum / xs.length
  variance : 2 ≤ xs.length →
    d.variance = (xs.map fun x => (x - xs.sum / xs.length) ^ 2).sum / (xs.length - 1)
  variance_of_few : xs.length < 2 → d.variance = 0
  variance_nonneg : 0 ≤ d.variance

theorem summary_batch {xs : List Rat} (h : xs.length < 2 ^ 32) : Summary xs (batch xs) := by
  refine ⟨UInt32.toNat_ofNat_of_lt' h, fun _ => rfl, fun h2 => if_pos h2,
    fun h2 => if_neg (Nat.not_le.2 h2), ?_⟩
  rw [batch]
  dsimp only
  split
  · rename_i h2
    have hlength : (1 : Rat) ≤ xs.length := by exact_mod_cast (show 1 ≤ xs.length by omega)
    exact div_nonneg (deviation_nonneg xs) (sub_nonneg.2 hlength)
  · exact le_refl 0

/-- **Statistics kept sample by sample are those of all samples together.** Over exact fractions, and for
any number of samples below 2^32, count, mean and variance are what they would be had all samples been
looked at together; the variance is zero for fewer than two, and never negative. From any record whatever
an update divides by numbers that are not zero, and the count goes up by one or stays at its highest
value. -/
theorem statistics_of_samples :
    (∀ xs : List Rat, xs.length < 2 ^ 32 →
      Summary xs (xs.foldl (fun d x => d.update x) empty)) ∧
    (∀ (d : Gaussian Rat) (x : Rat), d.exactly.update (.exact x) = (d.update x).exactly) ∧
    ∀ (α : Type) [Scalar α] (d : Gaussian α) (x : α),
      (d.update x).count.toNat = min (d.count.toNat + 1) (2 ^ 32 - 1) := by
  refine ⟨fun xs h => ?_, update_exactly, fun α _ d x => toNat_nextCount d.count⟩
  rw [foldl_update h]
  exact summary_batch h

/-- Eight samples and their squared deviations, which come to 32 in all, and a record that is full. -/
theorem statistics_of_eight :
    (([2, 4, 4, 4, 5, 5, 7, 9].foldl (fun d x => d.update x) empty : Gaussian Rat).mean = 5 ∧
      ([2, 4, 4, 4, 5, 5, 7, 9].foldl (fun d x => d.update x) empty : Gaussian Rat).variance =
        32 / 7) ∧
      ((⟨1, -1, maxCount⟩ : Gaussian Rat).update 3).count.toNat = 2 ^ 32 - 1 := by
  obtain ⟨hsamples, -, hcount⟩ := statistics_of_samples
  have h := hsamples [2, 4, 4, 4, 5, 5, 7, 9] (by decide)
  refine ⟨⟨?_, ?_⟩, hcount Rat ⟨1, -1, maxCount⟩ 3⟩
  · rw [h.mean (by decide)]
    norm_num
  · rw [h.variance (by decide)]
    norm_num

end Gaussian
end Vouch
