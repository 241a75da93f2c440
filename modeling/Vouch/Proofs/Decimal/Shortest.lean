import Vouch.Decimal.Shortest
import Vouch.Proofs.Decimal.Nearest
/-!
# The shortest decimal reads back

What `shortest` finds is a decimal in the interval of the double, so it is rounded to the double again.
That it finds one at all is a matter of scale: a grid on which the double has seventeen digits is finer
than its interval, since `10 ^ 16` is more than `2 ^ 53`.

* `has_iff`: the interval of a double has just the fractions that round to it.
* `onGrid_spec`, `search_spec`: what is found on one grid, and on ever finer ones.
* `lead_spec`: the exponent of the first digit.
* `exists_onGrid`: seventeen digits suffice.
* `shortest_spec`: the shortest decimal is rounded to the double.
-/
namespace Vouch.Decimal

/-! ## The interval -/

/-- A power of two as a fraction of whole numbers. -/
theorem two_zpow_eq_div (k : Int) : (2 : ℚ) ^ k = (powTwo k.toNat : ℚ) / powTwo (-k).toNat := by
  rw [powTwo_eq, powTwo_eq]
  rcases Int.le_total 0 k with hk | hk
  · obtain ⟨n, rfl⟩ := Int.eq_ofNat_of_zero_le hk
    simp
  · obtain ⟨n, hn⟩ := Int.eq_ofNat_of_zero_le (show 0 ≤ -k by omega)
    obtain rfl : k = -n := by omega
    simp

/-- A power of ten as a fraction of whole numbers. -/
theorem ten_zpow_eq_div (k : Int) : (10 : ℚ) ^ k = ((gridUnit k).1 : ℚ) / (gridUnit k).2 := by
  unfold gridUnit
  rw [powTen_eq, powTen_eq]
  rcases Int.le_total 0 k with hk | hk
  · obtain ⟨n, rfl⟩ := Int.eq_ofNat_of_zero_le hk
    simp
  · obtain ⟨n, hn⟩ := Int.eq_ofNat_of_zero_le (show 0 ≤ -k by omega)
    obtain rfl : k = -n := by omega
    simp

theorem gridUnit_pos (k : Int) : 0 < (gridUnit k).1 ∧ 0 < (gridUnit k).2 :=
  ⟨Nat.pow_pos (by decide), Nat.pow_pos (by decide)⟩

theorem interval_denominator_pos (m : Nat) (q : Int) : 0 < (interval m q).denominator :=
  Nat.pow_pos (by decide)

theorem interval_eq (m : Nat) (q : Int) :
    ((interval m q).low : ℚ) / (interval m q).denominator = lowQuarters m q * 2 ^ (q - 2) ∧
      ((interval m q).value : ℚ) / (interval m q).denominator = m * 2 ^ q ∧
      ((interval m q).high : ℚ) / (interval m q).denominator = (4 * m + 2) * 2 ^ (q - 2) ∧
      (interval m q).closed = (m % 2 == 0) := by
  have hvalue : (m * 2 ^ q : ℚ) = 4 * m * 2 ^ (q - 2) := by
    rw [two_zpow_sub_two]
    ring
  refine ⟨?_, ?_, ?_, rfl⟩
  · have hlow : (interval m q).low = lowQuarters m q * powTwo (q - 2).toNat := rfl
    rw [hlow, two_zpow_eq_div, ← mul_div_assoc]
    push_cast
    rfl
  · have hmid : (interval m q).value = 4 * m * powTwo (q - 2).toNat := rfl
    rw [hvalue, hmid, two_zpow_eq_div, ← mul_div_assoc]
    push_cast
    rfl
  · have hhigh : (interval m q).high = (4 * m + 2) * powTwo (q - 2).toNat := rfl
    rw [hhigh, two_zpow_eq_div, ← mul_div_assoc]
    push_cast
    rfl

/-- **The interval of a double** has just the fractions that round to it. -/
theorem has_iff {m n d : Nat} {q : Int} (hd : 0 < d) :
    (interval m q).has n d = true ↔ Rounds m q (n / d) := by
  obtain ⟨hlow, -, hhigh, hclosed⟩ := interval_eq m q
  have hd' : (0 : ℚ) < d := by exact_mod_cast hd
  have hD : (0 : ℚ) < (interval m q).denominator := by exact_mod_cast interval_denominator_pos m q
  have hle (c : Nat) : c * d ≤ n * (interval m q).denominator ↔
      (c : ℚ) / (interval m q).denominator ≤ n / d := by
    rw [div_le_div_iff₀ hD hd']
    exact_mod_cast Iff.rfl
  have hge (c : Nat) : n * (interval m q).denominator ≤ c * d ↔
      (n : ℚ) / d ≤ c / (interval m q).denominator := by
    rw [div_le_div_iff₀ hd' hD]
    exact_mod_cast Iff.rfl
  unfold Interval.has
  rw [hclosed]
  by_cases hm : m % 2 = 0
  · simp only [hm, beq_self_eq_true, if_true, Bool.and_eq_true, decide_eq_true_eq, hle, hge, hlow, hhigh]
    exact ⟨fun h => ⟨h.1, h.2, fun hodd => by omega⟩, fun h => ⟨h.low, h.high⟩⟩
  · have hodd : m % 2 = 1 := by omega
    have hbeq : (m % 2 == 0) = false := by simp [hodd]
    simp only [hbeq, Bool.false_eq_true, if_false, Bool.and_eq_true, decide_eq_true_eq,
      ← Nat.not_le, hle, hge, hlow, hhigh, not_le]
    exact ⟨fun h => ⟨h.1.le, h.2.le, fun _ => h⟩, fun h => h.inside hodd⟩

/-! ## Grids -/

/-- The last point of the grid of multiples of `10 ^ k` up to `m · 2 ^ q`. -/
def lastPoint (m : Nat) (q k : Int) : Nat :=
  (interval m q).value * (gridUnit k).2 / ((interval m q).denominator * (gridUnit k).1)

theorem lastPoint_le (m : Nat) (q k : Int) : (lastPoint m q k * 10 ^ k : ℚ) ≤ m * 2 ^ q ∧
    (m * 2 ^ q : ℚ) < (lastPoint m q k + 1) * 10 ^ k := by
  obtain ⟨hu, hv⟩ := gridUnit_pos k
  have hD := interval_denominator_pos m q
  have hDu := Nat.mul_pos hD hu
  rw [← (interval_eq m q).2.1, ten_zpow_eq_div]
  have hu' : (0 : ℚ) < (gridUnit k).1 := by exact_mod_cast hu
  have hv' : (0 : ℚ) < (gridUnit k).2 := by exact_mod_cast hv
  have hD' : (0 : ℚ) < (interval m q).denominator := by exact_mod_cast hD
  have hfloor : lastPoint m q k * ((interval m q).denominator * (gridUnit k).1) ≤
      (interval m q).value * (gridUnit k).2 := Nat.div_mul_le_self _ _
  have hceil : (interval m q).value * (gridUnit k).2 <
      (lastPoint m q k + 1) * ((interval m q).denominator * (gridUnit k).1) :=
    Nat.lt_mul_of_div_lt (Nat.lt_succ_self _) hDu
  constructor
  · rw [← mul_div_assoc, div_le_div_iff₀ hv' hD']
    have : (lastPoint m q k * ((interval m q).denominator * (gridUnit k).1) : ℚ) ≤
      (interval m q).value * (gridUnit k).2 := by exact_mod_cast hfloor
    linarith
  · rw [← mul_div_assoc, div_lt_div_iff₀ hD' hv']
    have : ((interval m q).value * (gridUnit k).2 : ℚ) <
      (lastPoint m q k + 1) * ((interval m q).denominator * (gridUnit k).1) := by
      exact_mod_cast hceil
    linarith

/-- Whether a point of a grid rounds to the double. -/
def hits (m : Nat) (q k : Int) (n : Nat) : Bool := (interval m q).has (n * (gridUnit k).1) (gridUnit k).2

theorem hits_iff {m n : Nat} {q k : Int} : hits m q k n = true ↔ Rounds m q (n * 10 ^ k) := by
  unfold hits
  rw [has_iff (gridUnit_pos k).2, ten_zpow_eq_div, ← mul_div_assoc]
  push_cast
  rfl

/-- A grid is searched by looking at the two neighbours of the double. -/
theorem onGrid_eq (tieUp : Bool) (m : Nat) (q k : Int) :
    onGrid tieUp (interval m q) k =
      if hits m q k (lastPoint m q k) && hits m q k (lastPoint m q k + 1) then
        if 2 * ((interval m q).value * (gridUnit k).2) <
            (lastPoint m q k + (lastPoint m q k + 1)) * (gridUnit k).1 * (interval m q).denominator
          then some (lastPoint m q k)
        else if (lastPoint m q k + (lastPoint m q k + 1)) * (gridUnit k).1 *
            (interval m q).denominator < 2 * ((interval m q).value * (gridUnit k).2)
          then some (lastPoint m q k + 1)
        else if tieUp || lastPoint m q k % 2 == 1 then some (lastPoint m q k + 1)
        else some (lastPoint m q k)
      else if hits m q k (lastPoint m q k) then some (lastPoint m q k)
      else if hits m q k (lastPoint m q k + 1) then some (lastPoint m q k + 1)
      else none := rfl

/-- **One grid.** What is found is one of the neighbours of the double and rounds to it, and nothing is
found only if neither does. -/
theorem onGrid_spec (tieUp : Bool) (m : Nat) (q k : Int) :
    match onGrid tieUp (interval m q) k with
    | some n => Rounds m q (n * 10 ^ k) ∧ (n = lastPoint m q k ∨ n = lastPoint m q k + 1)
    | none => ¬ Rounds m q (lastPoint m q k * 10 ^ k) ∧
        ¬ Rounds m q ((lastPoint m q k + 1 : Nat) * 10 ^ k) := by
  rw [onGrid_eq, ← hits_iff, ← hits_iff]
  generalize lastPoint m q k = below
  have hb (h : hits m q k below = true) := hits_iff.1 h
  have ha (h : hits m q k (below + 1) = true) := hits_iff.1 h
  cases hbelow : hits m q k below <;> cases habove : hits m q k (below + 1)
  · exact ⟨Bool.false_ne_true, Bool.false_ne_true⟩
  · exact ⟨ha habove, .inr rfl⟩
  · exact ⟨hb hbelow, .inl rfl⟩
  · rw [if_pos (Bool.and_true true)]
    split_ifs
    · exact ⟨hb hbelow, .inl rfl⟩
    · exact ⟨ha habove, .inr rfl⟩
    · exact ⟨ha habove, .inr rfl⟩
    · exact ⟨hb hbelow, .inl rfl⟩

/-- The search ends on a grid that has a point, if there is one in reach. -/
theorem search_spec {tieUp : Bool} {i : Interval} {fuel : Nat} {k lowest : Int} (hle : lowest ≤ k)
    (hfuel : k - lowest < fuel) (hpoint : ∃ n, onGrid tieUp i lowest = some n ∧ n ≠ 0) :
    ∃ n k', search tieUp i fuel k = ⟨n, k'⟩ ∧ n ≠ 0 ∧ onGrid tieUp i k' = some n ∧ lowest ≤ k' := by
  induction fuel generalizing k with
  | zero => omega
  | succ fuel ih =>
    unfold search
    have hnext (h : ∀ n, onGrid tieUp i k = some n → n = 0) :
        ∃ n k', search tieUp i fuel (k - 1) = ⟨n, k'⟩ ∧ n ≠ 0 ∧ onGrid tieUp i k' = some n ∧
          lowest ≤ k' := by
      have hne : lowest ≠ k := by
        rintro rfl
        obtain ⟨n, hn, hpos⟩ := hpoint
        exact hpos (h n hn)
      exact ih (by omega) (by omega)
    split
    · rename_i n hn
      split
      · rename_i hzero
        refine hnext fun n' hn' => ?_
        rw [hn] at hn'
        cases hn'
        exact hzero
      · rename_i hpos
        exact ⟨n, k, rfl, hpos, hn, hle⟩
    · rename_i hnone
      refine hnext fun n hn => ?_
      rw [hnone] at hn
      cases hn

/-- `strip` moves zeros from the digits to the exponent. -/
theorem strip_spec (fuel : Nat) (d : Digits) :
    ((d.strip fuel).digits * 10 ^ (d.strip fuel).exponent : ℚ) = d.digits * 10 ^ d.exponent ∧
      (d.strip fuel).digits ≤ d.digits ∧ (d.digits ≠ 0 → (d.strip fuel).digits ≠ 0) := by
  induction fuel generalizing d with
  | zero => exact ⟨rfl, Nat.le_refl _, id⟩
  | succ fuel ih =>
    unfold Digits.strip
    split
    · rename_i h
      obtain ⟨hne, hmod⟩ := h
      obtain ⟨hvalue, hle, hpos⟩ := ih ⟨d.digits / 10, d.exponent + 1⟩
      refine ⟨?_, hle.trans (Nat.div_le_self _ _), fun _ => hpos ?_⟩
      · rw [hvalue]
        have hten : (d.digits : ℚ) = (d.digits / 10 : Nat) * 10 := by
          exact_mod_cast (Nat.div_mul_cancel (Nat.dvd_of_mod_eq_zero hmod)).symm
        simp only [zpow_add_one₀ (show (10 : ℚ) ≠ 0 by norm_num)]
        rw [hten]
        ring
      · show d.digits / 10 ≠ 0
        omega
    · exact ⟨rfl, Nat.le_refl _, id⟩

/-! ## Powers of two and of ten -/

theorem zpow_le_zpow_of_nonpos {x y : ℚ} {a : Int} (hx : 0 < x) (hxy : x ≤ y) (ha : a ≤ 0) :
    y ^ a ≤ x ^ a := by
  obtain ⟨n, hn⟩ := Int.eq_ofNat_of_zero_le (show 0 ≤ -a by omega)
  obtain rfl : a = -n := by omega
  rw [zpow_neg, zpow_neg, zpow_natCast, zpow_natCast]
  gcongr

theorem zpow_pow_comm (x : ℚ) (a : Int) (n : Nat) : (x ^ a) ^ n = (x ^ n) ^ a := by
  rw [← zpow_natCast, ← zpow_natCast, ← zpow_mul, ← zpow_mul, mul_comm]

/-- A power of two is below a power of ten if it is so for the rate of `10 ^ 28` to `2 ^ 93`, or for the
rate of `10 ^ 59` to `2 ^ 196` below one. -/
theorem two_zpow_le_ten_zpow {a b : Int} (hpos : 0 ≤ a → 28 * a ≤ 93 * b)
    (hneg : a ≤ 0 → 59 * a ≤ 196 * b) : (2 : ℚ) ^ a ≤ 10 ^ b := by
  rcases Int.le_total 0 a with ha | ha
  · refine (pow_le_pow_iff_left₀ (by positivity) (by positivity) (show 93 ≠ 0 by decide)).1 ?_
    calc ((2 : ℚ) ^ a) ^ 93 = (2 ^ 93) ^ a := zpow_pow_comm 2 a 93
      _ ≤ (10 ^ 28) ^ a := zpow_le_zpow_left₀ ha (by norm_num) (by norm_num)
      _ = 10 ^ (28 * a) := by rw [zpow_mul, ← zpow_natCast]; rfl
      _ ≤ 10 ^ (b * 93) := zpow_le_zpow_right₀ (by norm_num) (by have := hpos ha; omega)
      _ = (10 ^ b) ^ 93 := by rw [zpow_mul, ← zpow_natCast]; rfl
  · refine (pow_le_pow_iff_left₀ (by positivity) (by positivity) (show 196 ≠ 0 by decide)).1 ?_
    calc ((2 : ℚ) ^ a) ^ 196 = (2 ^ 196) ^ a := zpow_pow_comm 2 a 196
      _ ≤ (10 ^ 59) ^ a := zpow_le_zpow_of_nonpos (by norm_num) (by norm_num) ha
      _ = 10 ^ (59 * a) := by rw [zpow_mul, ← zpow_natCast]; rfl
      _ ≤ 10 ^ (b * 196) := zpow_le_zpow_right₀ (by norm_num) (by have := hneg ha; omega)
      _ = (10 ^ b) ^ 196 := by rw [zpow_mul, ← zpow_natCast]; rfl

theorem ten_zpow_le_two_zpow {a b : Int} (hpos : 0 ≤ a → 196 * b ≤ 59 * a)
    (hneg : a ≤ 0 → 93 * b ≤ 28 * a) : (10 : ℚ) ^ b ≤ 2 ^ a := by
  have h := two_zpow_le_ten_zpow (a := -a) (b := -b) (fun ha => by have := hneg (by omega); omega)
    (fun ha => by have := hpos (by omega); omega)
  rwa [zpow_neg, zpow_neg, inv_le_inv₀ (by positivity) (by positivity)] at h

/-! ## The first digit -/

/-- What `floorLog10` looks for. -/
theorem floorLog10_spec {n d : Nat} {fuel : Nat} {start : Int} (hd : 0 < d)
    (hhigh : (n / d : ℚ) < 10 ^ (start + 1)) (hlow : (10 ^ (start - fuel) : ℚ) ≤ n / d) :
    (10 : ℚ) ^ floorLog10 n d fuel start ≤ n / d ∧
      (n / d : ℚ) < 10 ^ (floorLog10 n d fuel start + 1) := by
  induction fuel generalizing start with
  | zero =>
    unfold floorLog10
    exact ⟨by simpa using hlow, hhigh⟩
  | succ fuel ih =>
    have hd' : (0 : ℚ) < d := by exact_mod_cast hd
    have hv : (0 : ℚ) < (gridUnit start).2 := by exact_mod_cast (gridUnit_pos start).2
    have hiff : (gridUnit start).1 * d ≤ n * (gridUnit start).2 ↔ (10 : ℚ) ^ start ≤ n / d := by
      rw [ten_zpow_eq_div, div_le_div_iff₀ hv hd']
      exact_mod_cast Iff.rfl
    have hdef : floorLog10 n d (fuel + 1) start =
        if (gridUnit start).1 * d ≤ n * (gridUnit start).2 then start
        else floorLog10 n d fuel (start - 1) := rfl
    rw [hdef]
    split
    · rename_i h
      exact ⟨hiff.1 h, hhigh⟩
    · rename_i h
      rw [hiff, not_le] at h
      refine ih (by simpa using h) ?_
      rwa [show start - 1 - (fuel : Int) = start - (fuel + 1 : Nat) by push_cast; omega]

/-- The exponent of the first digit of a double. -/
theorem lead_spec {m : Nat} {q : Int} (hn : Normal m q) (hm : 0 < m) :
    let lead := floorLog10 (interval m q).value (interval m q).denominator 4
      (((Nat.log2 m : Int) + q) * 30103 / 100000 + 1)
    (10 : ℚ) ^ lead ≤ m * 2 ^ q ∧ (m * 2 ^ q : ℚ) < 10 ^ (lead + 1) := by
  intro lead
  have hlog : Nat.log2 m < 53 := (Nat.log2_lt hm.ne').2 hn.lt
  have hmax := hn.le_greatest
  have hmin := hn.least_le
  unfold maxExponent at hmax
  unfold minExponent at hmin
  have hq : (0 : ℚ) < 2 ^ q := by positivity
  obtain ⟨-, hvalue, -⟩ := interval_eq m q
  rw [← hvalue]
  refine floorLog10_spec (interval_denominator_pos m q) ?_ ?_
  · rw [hvalue]
    calc (m * 2 ^ q : ℚ) < 2 ^ ((Nat.log2 m : Int) + 1) * 2 ^ q := by
          gcongr
          exact lt_two_zpow_log2 m
      _ = 2 ^ ((Nat.log2 m : Int) + 1 + q) := (zpow_add₀ (by norm_num) _ q).symm
      _ ≤ _ := two_zpow_le_ten_zpow (fun _ => by omega) fun _ => by omega
  · rw [hvalue]
    calc (10 : ℚ) ^ _ ≤ 2 ^ ((Nat.log2 m : Int) + q) :=
          ten_zpow_le_two_zpow (fun _ => by push_cast; omega) fun _ => by push_cast; omega
      _ = 2 ^ (Nat.log2 m : Int) * 2 ^ q := zpow_add₀ (by norm_num) _ q
      _ ≤ m * 2 ^ q := by
        gcongr
        exact two_zpow_log2_le hm

/-! ## Seventeen digits -/

/-- Neighbours on a grid that both miss the interval are further apart than its ends. -/
theorem interval_le_of_missed {m : Nat} {q : Int} {x y : ℚ} (hx : x ≤ m * 2 ^ q) (hy : m * 2 ^ q ≤ y)
    (hmx : ¬ Rounds m q x) (hmy : ¬ Rounds m q y) :
    (4 * m + 2 - lowQuarters m q : ℚ) * 2 ^ (q - 2) ≤ y - x := by
  have hp : (0 : ℚ) < 2 ^ (q - 2) := by positivity
  have hmid : (m * 2 ^ q : ℚ) = 4 * m * 2 ^ (q - 2) := by
    rw [two_zpow_sub_two]
    ring
  have hlow : (lowQuarters m q : ℚ) ≤ 4 * m := by
    have : lowQuarters m q ≤ 4 * m := by
      unfold lowQuarters
      split <;> omega
    exact_mod_cast this
  have hbelow : x ≤ lowQuarters m q * 2 ^ (q - 2) := by
    by_contra hlt
    rw [not_le] at hlt
    exact hmx ⟨hlt.le, by nlinarith, fun _ => ⟨hlt, by nlinarith⟩⟩
  have habove : (4 * m + 2) * 2 ^ (q - 2) ≤ y := by
    by_contra hlt
    rw [not_le] at hlt
    refine hmy ⟨by nlinarith, hlt.le, fun hodd => ⟨?_, hlt⟩⟩
    have hlow' : (lowQuarters m q : ℚ) + 1 ≤ 4 * m := by
      have : lowQuarters m q + 1 ≤ 4 * m := by
        unfold lowQuarters
        split <;> omega
      exact_mod_cast this
    nlinarith
  linarith

/-- The length of the interval, in quarters of a unit in the last place. -/
theorem interval_length {m : Nat} (q : Int) (hm : 0 < m) :
    (4 * m + 2 - lowQuarters m q : ℚ) = 4 ∨
      (4 * m + 2 - lowQuarters m q : ℚ) = 3 ∧ m = 2 ^ 52 := by
  unfold lowQuarters
  split
  · rename_i h
    obtain ⟨rfl, -⟩ := h
    exact .inr ⟨by norm_num, rfl⟩
  · left
    rw [Nat.cast_sub (by omega)]
    push_cast
    ring

/-- **Seventeen digits suffice.** Where the double has seventeen digits before the point of a grid, the
grid has a point in its interval. -/
theorem exists_onGrid (tieUp : Bool) {m : Nat} {q k : Int} (hn : Normal m q) (hm : 0 < m)
    (hk : (10 ^ (k + 16) : ℚ) ≤ m * 2 ^ q) : ∃ n, onGrid tieUp (interval m q) k = some n ∧ n ≠ 0 := by
  obtain ⟨hbelow, habove⟩ := lastPoint_le m q k
  have hgrid : (0 : ℚ) < 10 ^ k := by positivity
  have hq : (0 : ℚ) < 2 ^ q := by positivity
  have hscale : (10 : ℚ) ^ k * 10000000000000000 ≤ m * 2 ^ q := by
    rw [zpow_add₀ (by norm_num)] at hk
    norm_num at hk
    exact hk
  have hspec := onGrid_spec tieUp m q k
  cases hfound : onGrid tieUp (interval m q) k with
  | some n =>
    rw [hfound] at hspec
    refine ⟨n, rfl, ?_⟩
    rintro rfl
    have hlast : lastPoint m q k = 0 := by
      have := hspec.2
      omega
    rw [hlast] at habove
    norm_num at habove
    linarith
  | none =>
    rw [hfound] at hspec
    have hmissed := interval_le_of_missed hbelow (by push_cast; exact habove.le) hspec.1 hspec.2
    rw [two_zpow_sub_two] at hmissed
    push_cast at hmissed
    have hmlt : (m : ℚ) ≤ 2 ^ 53 := by exact_mod_cast hn.lt.le
    -- The points are `10 ^ k` apart, less than the interval is long: three quarters of a unit in the last
    -- place at a power of two, and a whole unit elsewhere, where `m` can be twice as large.
    exfalso
    obtain hfour | ⟨hthree, rfl⟩ := interval_length q hm
    · rw [hfour] at hmissed
      nlinarith
    · rw [hthree] at hmissed
      norm_num at hscale
      linarith

/-- **The shortest decimal** is rounded to the double. Its digits make no larger number than `10 ^ 17`. -/
theorem shortest_spec (tieUp : Bool) {m : Nat} {q : Int} (hn : Normal m q) (hm : 0 < m) :
    Rounds m q ((shortest tieUp m q).digits * 10 ^ (shortest tieUp m q).exponent) ∧
      (shortest tieUp m q).digits ≠ 0 ∧ (shortest tieUp m q).digits ≤ 10 ^ 17 := by
  obtain ⟨hlead, hlead'⟩ := lead_spec hn hm
  have hshortest : shortest tieUp m q = (search tieUp (interval m q) 17
      (floorLog10 (interval m q).value (interval m q).denominator 4
        (((Nat.log2 m : Int) + q) * 30103 / 100000 + 1))).strip 17 := rfl
  rw [hshortest]
  generalize floorLog10 _ _ _ _ = lead at *
  have hpoint := exists_onGrid tieUp hn hm (k := lead - 16) (by rwa [Int.sub_add_cancel])
  obtain ⟨n, k, hsearch, hpos, hfound, hk⟩ :=
    search_spec (Int.sub_le_self lead (by decide)) (show lead - (lead - 16) < (17 : Nat) by omega) hpoint
  rw [hsearch]
  obtain ⟨hvalue, hle, hne⟩ := strip_spec 17 ⟨n, k⟩
  have hspec := onGrid_spec tieUp m q k
  rw [hfound] at hspec
  refine ⟨by rw [hvalue]; exact hspec.1, hne hpos, hle.trans ?_⟩
  have hlast : (lastPoint m q k : ℚ) < 10 ^ 17 := by
    have hgrid : (0 : ℚ) < 10 ^ k := by positivity
    rw [← mul_lt_mul_iff_left₀ hgrid]
    calc (lastPoint m q k * 10 ^ k : ℚ) ≤ m * 2 ^ q := (lastPoint_le m q k).1
      _ < 10 ^ (lead + 1) := hlead'
      _ ≤ 10 ^ (17 + k) := zpow_le_zpow_right₀ (by norm_num) (by omega)
      _ = 10 ^ 17 * 10 ^ k := by rw [zpow_add₀ (by norm_num)]; rfl
  have hlast' : lastPoint m q k < 10 ^ 17 := by exact_mod_cast hlast
  have := hspec.2
  show n ≤ 10 ^ 17
  omega

end Vouch.Decimal
