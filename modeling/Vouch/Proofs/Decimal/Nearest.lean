import Vouch.Proofs.Decimal.Binary64
/-!
# The nearest double is the nearest

Every double stands for an interval of reals: those up to half way to its neighbours, with the ends if
its significand is even (`Rounds`). Just above a power of two its lower neighbour is closer. A decimal in
the interval of a double is rounded to that double, although the exponent that is settled on first can be
the one below: then the significand comes out one too long, and is carried.

* `roundHalfEven_eq`: what is rounded to an integer.
* `scaleOf_spec`: the exponent settled on.
* `nearestRatio_eq`, `nearest_eq`: a fraction, and a decimal, in the interval of a double.
* `isFinite_nearest`: whole numbers of up to 64 binary digits are in range.
-/
namespace Vouch.Decimal

/-! ## Rounding to an integer -/

/-- What lies within half a unit of an integer is rounded to it. At the border the integer has to be
even. -/
theorem roundHalfEven_eq {n d m : Nat} (hd : 0 < d) (hlow : 2 * m * d ≤ 2 * n + d)
    (hhigh : 2 * n ≤ (2 * m + 1) * d)
    (htie : m % 2 = 1 → 2 * m * d ≠ 2 * n + d ∧ 2 * n ≠ (2 * m + 1) * d) :
    roundHalfEven n d = m := by
  have hdiv := Nat.div_add_mod n d
  have hmod := Nat.mod_lt n hd
  generalize hk : n / d = k at hdiv
  generalize hr : n % d = r at hdiv hmod
  have hle : k ≤ m := by
    by_contra hlt
    have : (m + 1) * d ≤ k * d := Nat.mul_le_mul_right d (by omega)
    nlinarith
  have hge : m ≤ k + 1 := by
    by_contra hlt
    have : (k + 2) * d ≤ m * d := Nat.mul_le_mul_right d (by omega)
    nlinarith
  have hdef : roundHalfEven n d = if 2 * r < d then k else if d < 2 * r then k + 1
      else if k % 2 = 0 then k else k + 1 := by
    unfold roundHalfEven
    simp only [hk, hr]
  rw [hdef]
  rcases Nat.lt_or_eq_of_le hle with hlt | rfl
  · obtain rfl : m = k + 1 := by omega
    have hhalf : d ≤ 2 * r := by nlinarith
    rw [if_neg (by omega)]
    split
    · rfl
    · rw [if_neg]
      intro heven
      refine (htie (by omega)).1 ?_
      have : d = 2 * r := by omega
      nlinarith
  · have hhalf : 2 * r ≤ d := by nlinarith
    split
    · rfl
    · rw [if_neg (by omega), if_pos]
      by_contra hodd
      refine (htie (by omega)).2 ?_
      have : d = 2 * r := by omega
      nlinarith

/-! ## The exponent of the nearest double -/

theorem unscale_pos {n d : Nat} (q : Int) (hd : 0 < d) : 0 < (unscale n d q).2 := by
  unfold unscale
  split
  · exact Nat.mul_pos hd (Nat.pow_pos (by decide))
  · exact hd

/-- `unscale` is division by a power of two. -/
theorem unscale_eq (n d : Nat) (q : Int) :
    ((unscale n d q).1 : ℚ) / (unscale n d q).2 = n / d / 2 ^ q := by
  unfold unscale
  split
  · rename_i hq
    obtain ⟨k, rfl⟩ := Int.eq_ofNat_of_zero_le hq
    rw [Int.toNat_natCast, powTwo_eq, zpow_natCast, div_div]
    push_cast
    rfl
  · rename_i hq
    obtain ⟨k, hk⟩ := Int.eq_ofNat_of_zero_le (show 0 ≤ -q by omega)
    obtain rfl : q = -k := by omega
    rw [hk, Int.toNat_natCast, powTwo_eq, zpow_neg, zpow_natCast, div_inv_eq_mul]
    push_cast
    ring

theorem two_zpow_log2_le {n : Nat} (hn : 0 < n) : (2 : ℚ) ^ (Nat.log2 n : Int) ≤ n := by
  rw [zpow_natCast]
  exact_mod_cast Nat.log2_self_le hn.ne'

theorem lt_two_zpow_log2 (n : Nat) : (n : ℚ) < 2 ^ ((Nat.log2 n : Int) + 1) := by
  have h : (n : ℚ) < 2 ^ (Nat.log2 n + 1) := by exact_mod_cast Nat.lt_log2_self
  exact_mod_cast h

/-- Whether the integral part of a fraction over a power of two is below an integer. -/
theorem unscale_div_lt_iff {n d k : Nat} {q : Int} (hd : 0 < d) :
    (unscale n d q).1 / (unscale n d q).2 < k ↔ (n / d : ℚ) < k * 2 ^ q := by
  have hpos := unscale_pos (n := n) q hd
  have hb : (0 : ℚ) < (unscale n d q).2 := by exact_mod_cast hpos
  have hq : (0 : ℚ) < 2 ^ q := by positivity
  rw [Nat.div_lt_iff_lt_mul hpos, ← div_lt_iff₀ hq, ← unscale_eq, div_lt_iff₀ hb]
  exact_mod_cast Iff.rfl

/-- Where the binary digits of numerator and denominator put a fraction. -/
theorem ratio_between {n d : Nat} (hn : 0 < n) (hd : 0 < d) :
    (2 ^ 51 * 2 ^ ((Nat.log2 n : Int) - (Nat.log2 d : Int) - 52) : ℚ) < n / d ∧
      (n / d : ℚ) < 2 ^ 53 * 2 ^ ((Nat.log2 n : Int) - (Nat.log2 d : Int) - 52) := by
  have hd' : (0 : ℚ) < d := by exact_mod_cast hd
  constructor
  · rw [lt_div_iff₀ hd']
    calc (2 ^ 51 * 2 ^ ((Nat.log2 n : Int) - (Nat.log2 d : Int) - 52) * d : ℚ)
        < 2 ^ 51 * 2 ^ ((Nat.log2 n : Int) - (Nat.log2 d : Int) - 52) *
            2 ^ ((Nat.log2 d : Int) + 1) := by
          gcongr
          exact lt_two_zpow_log2 d
      _ = 2 ^ (Nat.log2 n : Int) := by
        rw [← zpow_natCast, ← zpow_add₀ (by norm_num), ← zpow_add₀ (by norm_num)]
        congr 1
        push_cast
        omega
      _ ≤ n := two_zpow_log2_le hn
  · rw [div_lt_iff₀ hd']
    calc (n : ℚ) < 2 ^ ((Nat.log2 n : Int) + 1) := lt_two_zpow_log2 n
      _ = 2 ^ 53 * 2 ^ ((Nat.log2 n : Int) - (Nat.log2 d : Int) - 52) * 2 ^ (Nat.log2 d : Int) := by
        rw [← zpow_natCast, ← zpow_add₀ (by norm_num), ← zpow_add₀ (by norm_num)]
        congr 1
        push_cast
        omega
      _ ≤ 2 ^ 53 * 2 ^ ((Nat.log2 n : Int) - (Nat.log2 d : Int) - 52) * d := by
        gcongr
        exact two_zpow_log2_le hd

/-- **The exponent settled on** leaves a significand of 53 binary digits, or it is the lowest and leaves
fewer. -/
theorem scaleOf_spec {n d : Nat} (hn : 0 < n) (hd : 0 < d) :
    minExponent ≤ scaleOf n d ∧ (n / d : ℚ) < 2 ^ 53 * 2 ^ scaleOf n d ∧
      (scaleOf n d ≠ minExponent → (2 ^ 52 * 2 ^ scaleOf n d : ℚ) ≤ n / d) := by
  obtain ⟨hlow, hhigh⟩ := ratio_between hn hd
  -- Before the lowest exponent is taken into account.
  obtain ⟨e, he, hehigh, helow⟩ : ∃ e, scaleOf n d = max minExponent e ∧
      (n / d : ℚ) < 2 ^ 53 * 2 ^ e ∧ (2 ^ 52 * 2 ^ e : ℚ) ≤ n / d := by
    have hscale : scaleOf n d = max minExponent
        (if (unscale n d ((Nat.log2 n : Int) - (Nat.log2 d : Int) - 52)).1 /
          (unscale n d ((Nat.log2 n : Int) - (Nat.log2 d : Int) - 52)).2 < 2 ^ 52
        then (Nat.log2 n : Int) - (Nat.log2 d : Int) - 52 - 1
        else (Nat.log2 n : Int) - (Nat.log2 d : Int) - 52) := rfl
    generalize (Nat.log2 n : Int) - (Nat.log2 d : Int) - 52 = guess at *
    have hprev : (2 : ℚ) ^ (guess - 1) = 2 ^ guess / 2 := by
      rw [zpow_sub_one₀ (by norm_num)]
      rfl
    have hiff : (unscale n d guess).1 / (unscale n d guess).2 < 2 ^ 52 ↔
        (n / d : ℚ) < 2 ^ 52 * 2 ^ guess := by
      rw [unscale_div_lt_iff hd, Nat.cast_pow, Nat.cast_ofNat]
    split at hscale
    · rename_i hlt
      have hless := hiff.1 hlt
      exact ⟨guess - 1, hscale, by linarith, by linarith⟩
    · rename_i hlt
      rw [hiff, not_lt] at hlt
      exact ⟨guess, hscale, hhigh, hlt⟩
  rw [he]
  rcases le_total minExponent e with hm | hm
  · rw [max_eq_right hm]
    exact ⟨hm, hehigh, fun _ => helow⟩
  · rw [max_eq_left hm]
    refine ⟨le_refl _, hehigh.trans_le ?_, fun h => absurd rfl h⟩
    gcongr
    norm_num

/-! ## The interval of a double -/

/-- The lower end of the reals that round to `m · 2 ^ q`, in quarters of `2 ^ q`. Below a power of two
doubles are closer together. -/
def lowQuarters (m : Nat) (q : Int) : Nat :=
  if m = 2 ^ 52 ∧ minExponent < q then 4 * m - 1 else 4 * m - 2

/-- The reals that round to `m · 2 ^ q`. The ends do if `m` is even. -/
structure Rounds (m : Nat) (q : Int) (x : ℚ) : Prop where
  low : lowQuarters m q * 2 ^ (q - 2) ≤ x
  high : x ≤ (4 * m + 2) * 2 ^ (q - 2)
  inside : m % 2 = 1 → lowQuarters m q * 2 ^ (q - 2) < x ∧ x < (4 * m + 2) * 2 ^ (q - 2)

theorem le_lowQuarters (m : Nat) (q : Int) : 4 * m ≤ lowQuarters m q + 2 := by
  unfold lowQuarters
  split <;> omega

theorem two_zpow_sub_two (q : Int) : (2 : ℚ) ^ (q - 2) = 2 ^ q / 4 := by
  rw [zpow_sub₀ (by norm_num)]
  norm_num

namespace Rounds

variable {m n d : Nat} {q : Int} {x : ℚ}

theorem half_below (h : Rounds m q x) : (m - 1 / 2) * 2 ^ q ≤ x := by
  have hlow := h.low
  have hle : (4 * m : ℚ) ≤ lowQuarters m q + 2 := by exact_mod_cast le_lowQuarters m q
  have hq : (0 : ℚ) < 2 ^ q := by positivity
  rw [two_zpow_sub_two] at hlow
  nlinarith

theorem half_above (h : Rounds m q x) : x ≤ (m + 1 / 2) * 2 ^ q := by
  have hhigh := h.high
  rw [two_zpow_sub_two] at hhigh
  linarith

/-- At the exponent of the double the nearest integer is its significand. -/
theorem roundHalfEven_unscale (h : Rounds m q (n / d)) (hd : 0 < d) :
    roundHalfEven (unscale n d q).1 (unscale n d q).2 = m := by
  have hpos := unscale_pos (n := n) q hd
  have heq := unscale_eq n d q
  generalize (unscale n d q).1 = a at heq ⊢
  generalize (unscale n d q).2 = b at heq hpos ⊢
  have hb : (0 : ℚ) < b := by exact_mod_cast hpos
  have hq : (0 : ℚ) < 2 ^ q := by positivity
  have hx : (n / d : ℚ) = a / b * 2 ^ q := by rw [heq, div_mul_cancel₀ _ hq.ne']
  have hbelow := h.half_below
  have habove := h.half_above
  rw [hx, mul_le_mul_iff_left₀ hq, le_div_iff₀ hb] at hbelow
  rw [hx, mul_le_mul_iff_left₀ hq, div_le_iff₀ hb] at habove
  refine roundHalfEven_eq hpos ?_ ?_ fun hodd => ⟨?_, ?_⟩
  · have : (2 * m * b : ℚ) ≤ 2 * a + b := by linarith
    exact_mod_cast this
  · have : (2 * a : ℚ) ≤ (2 * m + 1) * b := by linarith
    exact_mod_cast this
  · have hlow := (h.inside hodd).1
    have hle : (4 * m : ℚ) ≤ lowQuarters m q + 2 := by exact_mod_cast le_lowQuarters m q
    have hlt : (m - 1 / 2) * 2 ^ q < (n / d : ℚ) := by
      rw [two_zpow_sub_two] at hlow
      nlinarith
    rw [hx, mul_lt_mul_iff_left₀ hq, lt_div_iff₀ hb] at hlt
    intro htie
    have : (2 * m * b : ℚ) = 2 * a + b := by exact_mod_cast htie
    linarith
  · have hhigh := (h.inside hodd).2
    have hlt : (n / d : ℚ) < (m + 1 / 2) * 2 ^ q := by
      rw [two_zpow_sub_two] at hhigh
      linarith
    rw [hx, mul_lt_mul_iff_left₀ hq, div_lt_iff₀ hb] at hlt
    intro htie
    have : (2 * a : ℚ) = (2 * m + 1) * b := by exact_mod_cast htie
    linarith

end Rounds

namespace Rounds

variable {m n d : Nat} {q : Int}

/-- What rounds to a positive double is positive. -/
theorem pos {x : ℚ} (h : Rounds m q x) (hm : 0 < m) : 0 < x := by
  have hm' : (1 : ℚ) ≤ m := by exact_mod_cast hm
  have hq : (0 : ℚ) < 2 ^ q := by positivity
  have := h.half_below
  nlinarith

theorem num_pos (h : Rounds m q (n / d)) (hm : 0 < m) : 0 < n := by
  rcases Nat.eq_zero_or_pos n with rfl | hn
  · have := h.pos hm
    simp at this
  · exact hn

/-- The exponent that is found is that of the double, or the one below for a real just below a power
of two. -/
theorem scaleOf_cases (h : Rounds m q (n / d)) (hn : Normal m q) (hm : 0 < m) (hd : 0 < d) :
    scaleOf n d = q ∨ scaleOf n d = q - 1 ∧ m = 2 ^ 52 := by
  obtain ⟨hmin, hhigh, hlow⟩ := scaleOf_spec (h.num_pos hm) hd
  have hmlt : (m : ℚ) + 1 ≤ 2 ^ 53 := by exact_mod_cast hn.lt
  have hleast := hn.least_le
  have hq : (0 : ℚ) < 2 ^ q := by positivity
  have hle : scaleOf n d ≤ q := by
    by_contra hlt
    have hscale : (2 : ℚ) ^ (q + 1) ≤ 2 ^ scaleOf n d := zpow_le_zpow_right₀ (by norm_num) (by omega)
    rw [zpow_add_one₀ (by norm_num)] at hscale
    have hbelow := hlow (by omega)
    have habove := h.half_above
    nlinarith
  rcases Int.lt_or_eq_of_le hle with hlt | heq
  · right
    have hm52 : ¬ m < 2 ^ 52 := fun hlt => by
      have := hn.eq_least hlt
      omega
    have hm' : (2 ^ 52 : ℚ) ≤ m := by exact_mod_cast Nat.not_lt.1 hm52
    have hprev : (2 : ℚ) ^ scaleOf n d ≤ 2 ^ (q - 1) := zpow_le_zpow_right₀ (by norm_num) (by omega)
    rw [zpow_sub_one₀ (by norm_num)] at hprev
    have hbelow := h.half_below
    have heq : m = 2 ^ 52 := by
      by_contra hne
      have hgt : 2 ^ 52 + 1 ≤ m := by omega
      have hgt' : (2 ^ 52 + 1 : ℚ) ≤ m := by exact_mod_cast hgt
      nlinarith
    refine ⟨?_, heq⟩
    by_contra hne
    have hprev' : (2 : ℚ) ^ scaleOf n d ≤ 2 ^ (q - 2) :=
      zpow_le_zpow_right₀ (by norm_num) (by omega)
    rw [two_zpow_sub_two] at hprev'
    nlinarith
  · exact .inl heq

end Rounds

theorem nearestRatio_of_round {n d r : Nat} {p : Int} (negative : Bool) (hp : scaleOf n d = p)
    (hr : roundHalfEven (unscale n d p).1 (unscale n d p).2 = r) :
    nearestRatio negative n d =
      if r = 2 ^ 53 then
        if maxExponent < p + 1 then infinityBits negative else encode negative (2 ^ 52) (p + 1)
      else if maxExponent < p then infinityBits negative else encode negative r p := by
  have hdef : nearestRatio negative n d =
      let s := if r = 2 ^ 53 then (2 ^ 52, p + 1) else (r, p)
      if maxExponent < s.2 then infinityBits negative else encode negative s.1 s.2 := by
    subst hp hr
    rfl
  rw [hdef]
  by_cases hcarry : r = 2 ^ 53
  · rw [if_pos hcarry, if_pos hcarry]
  · rw [if_neg hcarry, if_neg hcarry]

/-- **A fraction is rounded to a double** if it is among the reals that round to it. -/
theorem nearestRatio_eq {m n d : Nat} {q : Int} (negative : Bool) (h : Rounds m q (n / d))
    (hn : Normal m q) (hm : 0 < m) (hd : 0 < d) : nearestRatio negative n d = encode negative m q := by
  have hmax := hn.le_greatest
  rcases h.scaleOf_cases hn hm hd with hq | ⟨hq, rfl⟩
  · rw [nearestRatio_of_round negative hq (h.roundHalfEven_unscale hd), if_neg (Nat.ne_of_lt hn.lt),
      if_neg (Int.not_lt.2 hmax)]
  · obtain ⟨hmin, hhigh, -⟩ := scaleOf_spec (h.num_pos hm) hd
    rw [hq] at hmin hhigh
    -- At the exponent below, the same double is `2 ^ 53`, which is the one significand that is carried.
    have hcarry : Rounds (2 ^ 53) (q - 1) (n / d) := by
      have hlow := h.low
      have hp : (0 : ℚ) < 2 ^ (q - 1) := by positivity
      rw [lowQuarters, if_pos ⟨rfl, by omega⟩] at hlow
      have hquarter : (2 : ℚ) ^ (q - 2) = 2 ^ (q - 1) / 2 := by
        rw [show q - 2 = q - 1 - 1 by omega, zpow_sub_one₀ (by norm_num)]
        rfl
      rw [hquarter] at hlow
      refine ⟨?_, ?_, fun hodd => absurd hodd (by decide)⟩
      · rw [lowQuarters, if_neg fun hc => absurd hc.1 (by decide), two_zpow_sub_two]
        norm_num at hlow ⊢
        linarith
      · rw [two_zpow_sub_two]
        push_cast
        linarith
    rw [nearestRatio_of_round negative hq (hcarry.roundHalfEven_unscale hd), if_pos rfl,
      Int.sub_add_cancel, if_neg (Int.not_lt.2 hmax)]

/-- A rounded integer is next to the fraction. -/
theorem roundHalfEven_cases (n d : Nat) : roundHalfEven n d = n / d ∨ roundHalfEven n d = n / d + 1 := by
  unfold roundHalfEven
  simp only []
  split
  · exact .inl rfl
  · split
    · exact .inr rfl
    · split
      · exact .inl rfl
      · exact .inr rfl

/-- The nearest double of a whole number of up to 64 binary digits has a significand and an exponent. -/
theorem exists_normal_nearestRatio {n : Nat} (negative : Bool) (hpos : 0 < n) (hn : n < 2 ^ 64) :
    ∃ m q, Normal m q ∧ nearestRatio negative n 1 = encode negative m q := by
  obtain ⟨hmin, hhigh, hlow⟩ := scaleOf_spec hpos Nat.one_pos
  have hiff (k : Nat) := unscale_div_lt_iff (n := n) (k := k) (q := scaleOf n 1) Nat.one_pos
  have hround := roundHalfEven_cases (unscale n 1 (scaleOf n 1)).1 (unscale n 1 (scaleOf n 1)).2
  rw [nearestRatio_of_round negative rfl rfl]
  generalize roundHalfEven _ _ = r at hround ⊢
  generalize (unscale n 1 (scaleOf n 1)).1 / (unscale n 1 (scaleOf n 1)).2 = k at hiff hround
  generalize scaleOf n 1 = p at *
  have hsmall : p ≤ 12 := by
    by_contra hlt
    have hscale : (2 : ℚ) ^ (12 : Int) ≤ 2 ^ p := zpow_le_zpow_right₀ (by norm_num) (by omega)
    have hbelow := hlow (by unfold minExponent; omega)
    have hn' : (n : ℚ) < 2 ^ 64 := by exact_mod_cast hn
    rw [Nat.cast_one, div_one] at hbelow
    norm_num at hscale
    linarith
  have habove : k < 2 ^ 53 := (hiff _).2 (by push_cast; exact hhigh)
  have hbelow : p ≠ minExponent → 2 ^ 52 ≤ k := fun hne =>
    Nat.not_lt.1 fun hlt => by
      have hless := (hiff _).1 hlt
      push_cast at hless
      exact absurd hless (not_lt.2 (hlow hne))
  unfold maxExponent
  split
  · rw [if_neg (by omega)]
    exact ⟨_, _, ⟨by decide, fun h => absurd h (by decide), by omega, by unfold maxExponent; omega⟩, rfl⟩
  · rw [if_neg (by omega)]
    refine ⟨_, _, ⟨by omega, fun hr => ?_, hmin, by unfold maxExponent; omega⟩, rfl⟩
    by_contra hne
    have := hbelow hne
    omega

namespace Rounds

variable {m d : Nat} {q e : Int} (h : Rounds m q (d * 10 ^ e)) (hn : Normal m q) (hm : 0 < m)
include h hn hm

omit hn in
theorem digits_pos : 0 < d := by
  have hpos := h.pos hm
  rcases Nat.eq_zero_or_pos d with rfl | hd
  · simp at hpos
  · exact hd

/-- A decimal that is rounded to a double is not too large to be computed with. -/
theorem exponent_le : e ≤ 400 := by
  by_contra hlt
  have hd : (1 : ℚ) ≤ d := by exact_mod_cast h.digits_pos hm
  have hmlt : (m : ℚ) + 1 ≤ 2 ^ 53 := by exact_mod_cast hn.lt
  have hq : (0 : ℚ) < 2 ^ q := by positivity
  have hten : (0 : ℚ) < 10 ^ e := by positivity
  have hmax := hn.le_greatest
  unfold maxExponent at hmax
  have htop : (2 : ℚ) ^ q * 2 ^ 53 ≤ 10 ^ e :=
    calc (2 : ℚ) ^ q * 2 ^ 53 = 2 ^ (q + 53) := (zpow_add₀ (by norm_num) q 53).symm
      _ ≤ 2 ^ (3 * e) := zpow_le_zpow_right₀ (by norm_num) (by omega)
      _ = 8 ^ e := by rw [zpow_mul]; norm_num
      _ ≤ 10 ^ e := zpow_le_zpow_left₀ (by omega) (by norm_num) (by norm_num)
  have habove := h.half_above
  nlinarith

/-- Nor is it too small. -/
theorem le_exponent : -1200 ≤ e + (Nat.log2 d : Int) := by
  by_contra hlt
  have hmle : (1 : ℚ) ≤ m := by exact_mod_cast hm
  have hmin := hn.least_le
  unfold minExponent at hmin
  have hten : (10 : ℚ) ^ e ≤ 2 ^ e := by
    obtain ⟨k, hk⟩ := Int.eq_ofNat_of_zero_le (show 0 ≤ -e by omega)
    obtain rfl : e = -k := by omega
    rw [zpow_neg, zpow_neg, zpow_natCast, zpow_natCast]
    gcongr
    norm_num
  have hless : (d * 10 ^ e : ℚ) < 2 ^ (q - 2) :=
    calc (d * 10 ^ e : ℚ) ≤ d * 2 ^ e := by gcongr
      _ < 2 ^ ((Nat.log2 d : Int) + 1) * 2 ^ e := by
        gcongr
        exact lt_two_zpow_log2 d
      _ = 2 ^ ((Nat.log2 d : Int) + 1 + e) := (zpow_add₀ (by norm_num) _ e).symm
      _ ≤ 2 ^ (q - 2) := zpow_le_zpow_right₀ (by norm_num) (by omega)
  have hq : (0 : ℚ) < 2 ^ q := by positivity
  have hbelow := h.half_below
  rw [two_zpow_sub_two] at hless
  nlinarith

end Rounds

/-- A decimal among the reals that round to a double is rounded to it. -/
theorem nearestBits_eq {negative : Bool} {m d : Nat} {q e : Int} (h : Rounds m q (d * 10 ^ e))
    (hn : Normal m q) (hm : 0 < m) : nearestBits negative d e = encode negative m q := by
  have hlow := h.le_exponent hn hm
  have hhigh := h.exponent_le hn hm
  unfold nearestBits
  rw [if_neg (h.digits_pos hm).ne', if_neg (by omega), if_neg (by omega)]
  split
  · rename_i he
    obtain ⟨k, rfl⟩ := Int.eq_ofNat_of_zero_le he
    rw [Int.toNat_natCast, powTen_eq]
    refine nearestRatio_eq negative ?_ hn hm (by decide)
    push_cast
    rwa [div_one, ← zpow_natCast]
  · rename_i he
    obtain ⟨k, hk⟩ := Int.eq_ofNat_of_zero_le (show 0 ≤ -e by omega)
    obtain rfl : e = -k := by omega
    rw [hk, Int.toNat_natCast, powTen_eq]
    refine nearestRatio_eq negative ?_ hn hm (Nat.pow_pos (by decide))
    push_cast
    rwa [div_eq_mul_inv, ← zpow_natCast, ← zpow_neg]

/-- **A decimal is rounded to a double** if it is among the reals that the double stands for. Zero keeps
its sign. -/
theorem nearest_eq {x : Float} {negative : Bool} {m d : Nat} {q e : Int}
    (hx : decode x.toBits = .finite negative m q) (hzero : m = 0 → d = 0)
    (h : 0 < m → Rounds m q (d * 10 ^ e)) : nearest negative d e = x := by
  obtain ⟨hn, hbits⟩ := ofBits_encode hx
  unfold nearest
  rcases Nat.eq_zero_or_pos m with rfl | hm
  · rw [nearestBits, if_pos (hzero rfl), ← hn.eq_least (by decide), hbits]
  · rw [nearestBits_eq (h hm) hn hm, hbits]

/-- **Whole numbers** of up to 64 binary digits are in the range of doubles. -/
theorem isFinite_nearest {n : Nat} (negative : Bool) (hn : n < 2 ^ 64) :
    (nearest negative n 0).isFinite = true := by
  rcases Nat.eq_zero_or_pos n with rfl | hpos
  · exact isFinite_ofBits negative ⟨by decide, fun _ => rfl, Int.le_refl _, by decide⟩
  · have hbits : nearestBits negative n 0 = nearestRatio negative n 1 := by
      unfold nearestBits
      rw [if_neg hpos.ne', if_neg (by decide), if_neg (by omega), if_pos (Int.le_refl 0)]
      congr 1
      exact Nat.mul_one n
    obtain ⟨m, q, hnormal, hratio⟩ := exists_normal_nearestRatio negative hpos hn
    unfold nearest
    rw [hbits, hratio]
    exact isFinite_ofBits negative hnormal

end Vouch.Decimal
