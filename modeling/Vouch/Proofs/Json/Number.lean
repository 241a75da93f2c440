import Vouch.Json.Writer
import Vouch.Json.Reader
import Vouch.Proofs.Decimal.Shortest
/-!
# Numbers read back

A number is written as a numeral: some digits, perhaps a fraction, perhaps an exponent. Which of these
there are is up to the layout and to where the first digit stands, but the value is that of the shortest
decimal, and only the value counts when the numeral is read: zeros at either end change nothing. What
follows a number in an array is a comma or a bracket, neither of which continues it.

* `exists_digits`: the decimal digits of a number.
* `readUnsigned_chars`: a numeral is read as the real of its parts.
* `realNumber_eq`: which is the double nearest to its value.
* `exists_numeral`: what the layout of records makes of some digits.
* `readNumber_realText`, `readNumber_toString`: finite doubles and whole numbers read back.
-/
namespace Vouch.Text

/-! ## Digits -/

/-- Decimal digits as they are written. -/
def digitChars (ds : List Nat) : List Char := ds.map Nat.digitChar

@[simp] theorem digitChars_append (ds es : List Nat) :
    digitChars (ds ++ es) = digitChars ds ++ digitChars es := List.map_append

/-- The digits of a decimal numeral. -/
def Decimals (ds : List Nat) : Prop := ∀ d ∈ ds, d < 10

theorem digitValue?_digitChar {d : Nat} (h : d < 10) : digitValue? 10 d.digitChar = some d := by
  have hrange : 48 ≤ 48 + d ∧ 48 + d ≤ 57 := by omega
  simp only [digitValue?, Nat.toNat_digitChar_of_lt_ten h, if_pos hrange, Nat.add_sub_cancel_left,
    if_pos h]

/-- A run of digits ends where another character stands. -/
theorem spanDigits_digitChars {ds : List Nat} (h : Decimals ds) {rest : List Char}
    (hrest : ∀ c ∈ rest.head?, digitValue? 10 c = none) :
    spanDigits 10 (digitChars ds ++ rest) = (ds, rest) := by
  induction ds with
  | nil =>
    cases rest with
    | nil => rfl
    | cons c rest =>
      have hc := hrest c (by simp)
      simp [digitChars, spanDigits, hc]
  | cons d ds ih =>
    have hd := digitValue?_digitChar (h d (by simp))
    have hds := ih fun d' hd' => h d' (by simp [hd'])
    rw [digitChars] at hds ⊢
    simp [spanDigits, hd, hds]

theorem ofDigits_eq (ds : List Nat) (acc : Nat) :
    ofDigits 10 ds acc = acc * 10 ^ ds.length + ofDigits 10 ds 0 := by
  induction ds generalizing acc with
  | nil => simp [ofDigits]
  | cons d ds ih =>
    have hstep (n : Nat) : ofDigits 10 (d :: ds) n = ofDigits 10 ds (n * 10 + d) := rfl
    rw [hstep, hstep, ih (acc * 10 + d), ih (0 * 10 + d), List.length_cons, pow_succ]
    ring

theorem ofDigits_append (ds es : List Nat) :
    ofDigits 10 (ds ++ es) 0 = ofDigits 10 ds 0 * 10 ^ es.length + ofDigits 10 es 0 := by
  have hstep : ofDigits 10 (ds ++ es) 0 = ofDigits 10 es (ofDigits 10 ds 0) := by
    simp [ofDigits]
  rw [hstep, ofDigits_eq]

@[simp] theorem ofDigits_zeros (n : Nat) : ofDigits 10 (List.replicate n 0) 0 = 0 := by
  induction n with
  | zero => rfl
  | succ n ih => rwa [List.replicate_succ]

/-- **The digits of a number** are decimals, stand for it, and start with a zero for zero alone. -/
theorem exists_digits (n : Nat) : ∃ ds, Nat.toDigits 10 n = digitChars ds ∧ Decimals ds ∧
    ofDigits 10 ds 0 = n ∧ ds ≠ [] ∧ (ds.head? = some 0 → ds = [0]) := by
  induction n using Nat.strongRecOn with
  | ind n ih =>
    by_cases hn : n < 10
    · refine ⟨[n], Nat.toDigits_of_lt_base hn, ?_, ?_, List.cons_ne_nil _ _, ?_⟩
      · simpa [Decimals] using hn
      · simp [ofDigits]
      · simp
    · obtain ⟨ds, hds, hdecimals, hvalue, hne, hhead⟩ := ih (n / 10) (by omega)
      refine ⟨ds ++ [n % 10], ?_, ?_, ?_, ?_, ?_⟩
      · rw [Nat.toDigits_of_base_le (by decide) (by omega), hds, digitChars_append]
        rfl
      · intro d hd
        rcases List.mem_append.1 hd with hd | hd
        · exact hdecimals d hd
        · rw [List.mem_singleton.1 hd]
          exact Nat.mod_lt _ (by decide)
      · rw [ofDigits_append, hvalue]
        simp [ofDigits]
        omega
      · simp
      · intro hzero
        rw [List.head?_append_of_ne_nil _ hne] at hzero
        have hnil := hhead hzero
        rw [hnil] at hvalue
        have : ofDigits 10 [0] 0 = 0 := rfl
        omega

end Vouch.Text

namespace Vouch.Json

open Text

/-! ## Numerals -/

/-- The parts of a number as it is written. -/
structure Numeral where
  whole : List Nat
  fraction : Option (List Nat)
  exponent : Option Int

/-- A fraction behind its point. -/
def fractionChars : Option (List Nat) → List Char
  | none => []
  | some ds => '.' :: digitChars ds

/-- An exponent with its sign. -/
def exponentChars : Option Int → List Char
  | none => []
  | some e => 'e' :: (if e < 0 then '-' else '+') :: Nat.toDigits 10 e.natAbs

namespace Numeral

def chars (n : Numeral) : List Char :=
  digitChars n.whole ++ (fractionChars n.fraction ++ exponentChars n.exponent)

/-- A numeral of a number that is not whole: it has a fraction or an exponent. -/
structure Fractional (n : Numeral) : Prop where
  whole : Decimals n.whole
  fraction : ∀ ds ∈ n.fraction, Decimals ds ∧ ds ≠ []
  ne_nil : n.whole ≠ []
  head : n.whole.head? = some 0 → n.whole = [0]
  some_part : n.fraction ≠ none ∨ n.exponent ≠ none

end Numeral

/-- What may follow a number. -/
def Closes (rest : List Char) : Prop := ∀ c ∈ rest.head?, c = ',' ∨ c = ']'

variable {rest : List Char}

theorem Closes.not_digit (hrest : Closes rest) : ∀ c ∈ rest.head?, digitValue? 10 c = none := by
  intro c hc
  obtain rfl | rfl := hrest c hc <;> rfl

theorem readExponent_chars (e : Option Int) (hrest : Closes rest) :
    readExponent (exponentChars e ++ rest) = some (e, rest) := by
  cases e with
  | none =>
    cases rest with
    | nil => rfl
    | cons c rest => obtain rfl | rfl := hrest c rfl <;> rfl
  | some e =>
    obtain ⟨ds, hds, hdecimals, hvalue, hne, -⟩ := exists_digits e.natAbs
    have hspan := spanDigits_digitChars hdecimals hrest.not_digit
    have hempty : ds.isEmpty = false := by simpa using hne
    rw [exponentChars, hds]
    by_cases he : e < 0
    · simp only [if_pos he, List.cons_append, readExponent, true_or, if_true, hspan, hempty, hvalue,
        Bool.false_eq_true, if_false]
      rw [show -(e.natAbs : Int) = e by omega]
    · simp only [if_neg he, List.cons_append, readExponent, true_or, if_true, hspan, hempty, hvalue,
        Bool.false_eq_true, if_false]
      rw [show (e.natAbs : Int) = e by omega]

theorem not_digit_exponentChars (e : Option Int) (hrest : Closes rest) :
    ∀ c ∈ (exponentChars e ++ rest).head?, digitValue? 10 c = none ∧ c ≠ '.' := by
  intro c hc
  cases e with
  | none =>
    refine ⟨hrest.not_digit c hc, ?_⟩
    obtain rfl | rfl := hrest c hc <;> decide
  | some e =>
    cases hc
    decide

theorem readFraction_chars {f : Option (List Nat)} (hf : ∀ ds ∈ f, Decimals ds ∧ ds ≠ [])
    (e : Option Int) (hrest : Closes rest) :
    readFraction (fractionChars f ++ (exponentChars e ++ rest)) = some (f, exponentChars e ++ rest) := by
  have htail := not_digit_exponentChars e hrest
  generalize exponentChars e ++ rest = tail at *
  cases f with
  | none =>
    show readFraction tail = some (none, tail)
    unfold readFraction
    split
    · exact absurd rfl (htail '.' rfl).2
    · rfl
  | some ds =>
    obtain ⟨hdecimals, hne⟩ := hf ds rfl
    have hspan := spanDigits_digitChars hdecimals fun c hc => (htail c hc).1
    have hempty : ds.isEmpty = false := by simpa using hne
    simp only [fractionChars, List.cons_append, readFraction, hspan, hempty, Bool.false_eq_true,
      if_false]

theorem not_digit_fractionChars {f : Option (List Nat)} {tail : List Char}
    (h : ∀ c ∈ tail.head?, digitValue? 10 c = none) :
    ∀ c ∈ (fractionChars f ++ tail).head?, digitValue? 10 c = none := by
  cases f with
  | none => exact h
  | some ds =>
    intro c hc
    cases hc
    rfl

/-- **A fractional numeral** is read as the real of its parts. -/
theorem readUnsigned_chars {n : Numeral} (hn : n.Fractional) (negative : Bool) (hrest : Closes rest)
    (hfinite : (realNumber negative n.whole (n.fraction.getD []) (n.exponent.getD 0)).isFinite = true) :
    readUnsigned negative (n.chars ++ rest) =
      some (.real (realNumber negative n.whole (n.fraction.getD []) (n.exponent.getD 0)), rest) := by
  have hspan := spanDigits_digitChars hn.whole (not_digit_fractionChars (f := n.fraction)
    fun c hc => (not_digit_exponentChars n.exponent hrest c hc).1)
  have hhead : ¬ (n.whole.isEmpty = true ∨ n.whole.head? = some 0 ∧ 1 < n.whole.length) := by
    rintro (hempty | ⟨hzero, hlength⟩)
    · exact hn.ne_nil (List.isEmpty_iff.1 hempty)
    · rw [hn.head hzero] at hlength
      exact absurd hlength (by decide)
  have hfraction := readFraction_chars hn.fraction n.exponent hrest
  have hexponent := readExponent_chars n.exponent hrest
  have hpart := hn.some_part
  unfold readUnsigned Numeral.chars
  rw [List.append_assoc, List.append_assoc, hspan]
  simp only [if_neg hhead, hfraction, hexponent, Option.bind_eq_bind, Option.bind_some, Option.pure_def]
  split
  · rename_i hf he
    simp [hf, he] at hpart
  · rw [if_pos hfinite]

/-- **A whole number** is read as such. -/
theorem readUnsigned_whole {n : Nat} (hn : n < UInt64.size) (hrest : Closes rest) :
    readUnsigned false (Nat.toDigits 10 n ++ rest) = some (.int n, rest) := by
  obtain ⟨ds, hds, hdecimals, hvalue, hne, hzero⟩ := exists_digits n
  have hspan := spanDigits_digitChars hdecimals hrest.not_digit
  have hhead : ¬ (ds.isEmpty = true ∨ ds.head? = some 0 ∧ 1 < ds.length) := by
    rintro (hempty | ⟨hhead, hlength⟩)
    · exact hne (List.isEmpty_iff.1 hempty)
    · rw [hzero hhead] at hlength
      exact absurd hlength (by decide)
  have hfraction := readFraction_chars (f := none) (fun _ h => by cases h) none hrest
  have hexponent := readExponent_chars none hrest
  have hnumber : wholeNumber false n = some (.int n) := by
    simp only [wholeNumber, Bool.false_eq_true, if_false, if_pos hn]
  simp only [fractionChars, exponentChars, List.nil_append] at hfraction hexponent
  rw [hds]
  unfold readUnsigned
  simp only [hspan, if_neg hhead, hfraction, hexponent, hvalue, hnumber, Option.bind_eq_bind,
    Option.bind_some, Option.pure_def]

/-! ## Values -/

theorem exists_zeros (ds : List Nat) :
    ∃ z, ds = (ds.reverse.dropWhile (· = 0)).reverse ++ List.replicate z 0 := by
  have htake : ∀ d ∈ ds.reverse.takeWhile (· = 0), d = 0 := fun d hd => by
    simpa using List.mem_takeWhile_imp hd
  refine ⟨(ds.reverse.takeWhile (· = 0)).length, ?_⟩
  conv => lhs; rw [← List.reverse_reverse ds,
    ← List.takeWhile_append_dropWhile (p := fun d : Nat => decide (d = 0)) (l := ds.reverse)]
  rw [List.reverse_append, List.eq_replicate_of_mem htake]
  simp

theorem ofDigits_dropWhile (ds : List Nat) :
    ofDigits 10 (ds.dropWhile (· = 0)) 0 = ofDigits 10 ds 0 := by
  induction ds with
  | nil => rfl
  | cons d ds ih =>
    rw [List.dropWhile_cons]
    split
    · rename_i hd
      obtain rfl : d = 0 := by simpa using hd
      exact ih
    · rfl

/-- The value of a numeral. -/
def Numeral.value (n : Numeral) : ℚ :=
  ofDigits 10 (n.whole ++ n.fraction.getD []) 0 *
    10 ^ (n.exponent.getD 0 - ((n.fraction.getD []).length : Int))

/-- Zeros at either end do not change the real that a numeral is read as. -/
theorem realNumber_eq (negative : Bool) (n : Numeral)
    (hlength : n.whole.length + (n.fraction.getD []).length ≤ maxDigits) :
    ∃ (d : Nat) (e : Int), realNumber negative n.whole (n.fraction.getD []) (n.exponent.getD 0) =
      Decimal.nearest negative d e ∧ (d * 10 ^ e : ℚ) = n.value := by
  unfold Numeral.value
  generalize n.whole = whole at *
  generalize n.fraction.getD [] = fraction at *
  generalize n.exponent.getD 0 = exponent at *
  obtain ⟨z, hz⟩ := exists_zeros fraction
  unfold realNumber
  generalize (fraction.reverse.dropWhile (· = 0)).reverse = kept at hz ⊢
  subst hz
  have hshort : ((whole ++ kept).dropWhile (· = 0)).length ≤ maxDigits := by
    have hdrop := (List.dropWhile_sublist (fun d : Nat => decide (d = 0)) (l := whole ++ kept)).length_le
    simp only [List.length_append, List.length_replicate] at hdrop hlength
    omega
  refine ⟨_, _, if_pos hshort, ?_⟩
  rw [ofDigits_dropWhile, ← List.append_assoc, ofDigits_append (whole ++ kept), ofDigits_zeros]
  simp only [List.length_append, List.length_replicate, Nat.add_zero]
  push_cast
  rw [mul_assoc, ← zpow_natCast, ← zpow_add₀ (by norm_num)]
  congr 2
  omega

/-! ## The text of a double -/

open Decimal

theorem decimals_zeros (n : Nat) : Decimals (List.replicate n 0) := fun d hd => by
  rw [List.eq_of_mem_replicate hd]
  decide

theorem Decimals.append {ds es : List Nat} (hd : Decimals ds) (he : Decimals es) : Decimals (ds ++ es) :=
  fun d h => (List.mem_append.1 h).elim (hd d) (he d)

theorem digitChars_zeros (n : Nat) : digitChars (List.replicate n 0) = List.replicate n '0' := by
  simp [digitChars]

section layouts

variable {d : Digits} {ds : List Nat} (hds : d.chars = digitChars ds) (hdecimals : Decimals ds)
  (hvalue : ofDigits 10 ds 0 = d.digits) (hne : ds ≠ []) (hhead : ds.head? = some 0 → ds = [0])
include hds hdecimals hvalue hne hhead

/-- Digits of a whole number, without an exponent. -/
theorem numeral_of_nonneg (he : 0 ≤ d.exponent) (hzero : d.digits = 0 → d.exponent = 0) :
    ∃ n : Numeral, n.Fractional ∧ (record.positionalText d).toList = n.chars ∧
      n.value = d.digits * 10 ^ d.exponent ∧
      n.whole.length + (n.fraction.getD []).length = ds.length + d.exponent.toNat + 1 := by
  refine ⟨⟨ds ++ List.replicate d.exponent.toNat 0, some [0], none⟩, ?_, ?_, ?_, ?_⟩
  · refine ⟨Decimals.append hdecimals (decimals_zeros _), ?_, by simp [hne], fun h => ?_, .inl (by simp)⟩
    · intro es hes
      cases hes
      exact ⟨decimals_zeros 1, List.cons_ne_nil _ _⟩
    · rw [List.head?_append_of_ne_nil _ hne] at h
      have hnil := hhead h
      rw [hnil] at hvalue
      rw [hnil, hzero hvalue.symm]
      rfl
  · simp only [Layout.positionalText, if_pos he, record, hds, Numeral.chars, fractionChars,
      exponentChars, digitChars_append, digitChars_zeros, String.toList_append, String.toList_ofList]
    rfl
  · obtain ⟨e, he⟩ := Int.eq_ofNat_of_zero_le he
    simp only [Numeral.value, Option.getD_some, Option.getD_none, he, Int.toNat_natCast]
    rw [ofDigits_append (ds ++ _) [0], ofDigits_append ds, ofDigits_zeros, hvalue, List.length_replicate]
    push_cast
    rw [zpow_natCast]
    simp [ofDigits]
  · simp

/-- Digits with the point among them. -/
theorem numeral_of_inside (he : d.exponent < 0) (hinside : (-d.exponent).toNat < ds.length) :
    ∃ n : Numeral, n.Fractional ∧ (record.positionalText d).toList = n.chars ∧
      n.value = d.digits * 10 ^ d.exponent ∧
      n.whole.length + (n.fraction.getD []).length = ds.length := by
  generalize hplaces : (-d.exponent).toNat = places at hinside
  have hlength : (digitChars ds).length = ds.length := by simp [digitChars]
  have hall : ds.take (ds.length - places) ++ ds.drop (ds.length - places) = ds :=
    List.take_append_drop _ _
  refine ⟨⟨ds.take (ds.length - places), some (ds.drop (ds.length - places)), none⟩, ?_, ?_, ?_, ?_⟩
  · refine ⟨fun x hx => hdecimals x (List.mem_of_mem_take hx), ?_, ?_, fun h => ?_, .inl (by simp)⟩
    · intro es hes
      cases hes
      refine ⟨fun x hx => hdecimals x (List.mem_of_mem_drop hx), ?_⟩
      intro hnil
      rw [List.drop_eq_nil_iff] at hnil
      omega
    · intro hnil
      rw [List.take_eq_nil_iff] at hnil
      obtain hzero | hnil := hnil
      · omega
      · exact hne hnil
    · rw [List.head?_take, if_neg (by omega)] at h
      rw [hhead h] at hinside ⊢
      obtain rfl : places = 0 := by simpa using hinside
      rfl
  · simp only [Layout.positionalText, if_neg (Int.not_le.2 he), hplaces, hds, hlength, if_pos hinside,
      Numeral.chars, fractionChars, exponentChars, String.toList_ofList, List.append_nil]
    simp only [digitChars, List.map_take, List.map_drop]
  · simp only [Numeral.value, Option.getD_some, Option.getD_none, hall, hvalue, List.length_drop]
    congr 2
    omega
  · simp only [Option.getD_some, List.length_take, List.length_drop]
    omega

omit hhead in
/-- Digits behind the point. -/
theorem numeral_of_behind (he : d.exponent < 0) (hbehind : ¬ (-d.exponent).toNat < ds.length) :
    ∃ n : Numeral, n.Fractional ∧ (record.positionalText d).toList = n.chars ∧
      n.value = d.digits * 10 ^ d.exponent ∧
      n.whole.length + (n.fraction.getD []).length = (-d.exponent).toNat + 1 := by
  generalize hplaces : (-d.exponent).toNat = places at hbehind ⊢
  have hlength : (digitChars ds).length = ds.length := by simp [digitChars]
  refine ⟨⟨[0], some (List.replicate (places - ds.length) 0 ++ ds), none⟩, ?_, ?_, ?_, ?_⟩
  · refine ⟨decimals_zeros 1, ?_, List.cons_ne_nil _ _, fun _ => rfl, .inl (by simp)⟩
    intro es hes
    cases hes
    exact ⟨Decimals.append (decimals_zeros _) hdecimals, by simp [hne]⟩
  · simp only [Layout.positionalText, if_neg (Int.not_le.2 he), hplaces, hds, hlength, if_neg hbehind,
      Numeral.chars, fractionChars, exponentChars, String.toList_ofList, List.append_nil,
      digitChars_append, digitChars_zeros]
    rfl
  · simp only [Numeral.value, Option.getD_some, Option.getD_none, List.length_append,
      List.length_replicate]
    rw [← List.append_assoc, ofDigits_append, hvalue]
    have hzero : ofDigits 10 ([0] ++ List.replicate (places - ds.length) 0) 0 = 0 :=
      ofDigits_zeros (places - ds.length + 1)
    rw [hzero, Nat.zero_mul, Nat.zero_add]
    congr 2
    omega
  · simp
    omega

/-- Digits with an exponent. -/
theorem numeral_of_exponent :
    ∃ n : Numeral, n.Fractional ∧ (record.exponentText d).toList = n.chars ∧
      n.value = d.digits * 10 ^ d.exponent ∧
      n.whole.length + (n.fraction.getD []).length = ds.length := by
  have hlead : d.lead = d.exponent + ds.length - 1 := by
    simp [Digits.lead, hds, digitChars]
  obtain ⟨first, rest, rfl⟩ := List.exists_cons_of_ne_nil hne
  have hgetD : (if rest = [] then none else some rest : Option (List Nat)).getD [] = rest := by
    split
    · rename_i hrest
      exact hrest.symm
    · rfl
  refine ⟨⟨[first], if rest = [] then none else some rest, some d.lead⟩, ?_, ?_, ?_, ?_⟩
  · refine ⟨fun x hx => hdecimals x ?_, ?_, List.cons_ne_nil _ _, fun h => ?_, .inr (by simp)⟩
    · rw [List.mem_singleton.1 hx]
      exact List.mem_cons_self
    · intro es hes
      by_cases hrest : rest = []
      · rw [if_pos hrest] at hes
        cases hes
      · rw [if_neg hrest] at hes
        cases hes
        exact ⟨fun x hx => hdecimals x (List.mem_cons_of_mem _ hx), hrest⟩
    · exact congrArg (fun x => [x]) (Option.some.inj h)
  · have hsign : (if d.lead < 0 then "-" else "+").toList = [if d.lead < 0 then '-' else '+'] := by
      split <;> rfl
    have hnat : (toString d.lead.natAbs).toList = Nat.toDigits 10 d.lead.natAbs := Nat.toList_repr
    simp only [Layout.exponentText, record, hds, Numeral.chars, exponentChars, String.toList_append,
      String.toList_ofList, hsign, hnat]
    cases rest with
    | nil => rfl
    | cons second rest => simp [digitChars, fractionChars]
  · simp only [Numeral.value, hgetD, Option.getD_some]
    rw [List.singleton_append, hvalue, hlead, List.length_cons]
    congr 2
    push_cast
    omega
  · rw [hgetD, List.length_singleton, List.length_cons, Nat.add_comm]

end layouts

/-- **What the layout of records makes of some digits** is a numeral of the same value. -/
theorem exists_numeral {d : Digits} (hd : d.digits ≤ 10 ^ 17) (hzero : d.digits = 0 → d.exponent = 0) :
    ∃ n : Numeral, n.Fractional ∧ (record.digitsText d).toList = n.chars ∧
      n.value = d.digits * 10 ^ d.exponent ∧
      n.whole.length + (n.fraction.getD []).length ≤ maxDigits := by
  obtain ⟨ds, hds, hdecimals, hvalue, hne, hhead⟩ := exists_digits d.digits
  have hlength : ds.length ≤ 18 := by
    have hchars : (Nat.toDigits 10 d.digits).length ≤ 18 :=
      (Nat.length_toDigits_le_iff (by decide) (by decide)).2 (by omega)
    rw [hds] at hchars
    simpa [digitChars] using hchars
  have hlead : d.lead = d.exponent + ds.length - 1 := by
    simp [Digits.lead, Digits.chars, hds, digitChars]
  have hpositional : record.positional d.lead = (decide (-5 ≤ d.lead) && decide (d.lead ≤ 15)) := rfl
  have hmax : maxDigits = 768 := rfl
  unfold Layout.digitsText
  by_cases hp : record.positional d.lead = true
  · rw [if_pos hp]
    rw [hpositional, Bool.and_eq_true, decide_eq_true_eq, decide_eq_true_eq] at hp
    obtain ⟨hp5, hp15⟩ := hp
    by_cases he : 0 ≤ d.exponent
    · obtain ⟨n, hn, htext, hv, hl⟩ := numeral_of_nonneg hds hdecimals hvalue hne hhead he hzero
      exact ⟨n, hn, htext, hv, by omega⟩
    · by_cases hinside : (-d.exponent).toNat < ds.length
      · obtain ⟨n, hn, htext, hv, hl⟩ :=
          numeral_of_inside hds hdecimals hvalue hne hhead (Int.not_le.1 he) hinside
        exact ⟨n, hn, htext, hv, by omega⟩
      · obtain ⟨n, hn, htext, hv, hl⟩ :=
          numeral_of_behind hds hdecimals hvalue hne (Int.not_le.1 he) hinside
        exact ⟨n, hn, htext, hv, by omega⟩
  · rw [if_neg hp]
    obtain ⟨n, hn, htext, hv, hl⟩ := numeral_of_exponent hds hdecimals hvalue hne hhead
    exact ⟨n, hn, htext, hv, by omega⟩

/-- The digits of a double are read as that double, if the sign is. -/
theorem readUnsigned_text {x : Float} {negative : Bool} {m : Nat} {q : Int}
    (hx : decode x.toBits = .finite negative m q) (hrest : Closes rest) :
    ∃ d cs, d < 10 ∧
      (record.digitsText (if m = 0 then ⟨0, 0⟩ else shortest false m q)).toList = d.digitChar :: cs ∧
      readUnsigned negative (d.digitChar :: (cs ++ rest)) = some (.real x, rest) := by
  obtain ⟨hn, -⟩ := ofBits_encode hx
  obtain ⟨n, hfractional, htext, hvalue, hlength⟩ :=
    exists_numeral (d := if m = 0 then ⟨0, 0⟩ else shortest false m q) (by
      split
      · decide
      · rename_i hm
        exact (shortest_spec false hn (Nat.pos_of_ne_zero hm)).2.2) (by
      split
      · exact fun _ => rfl
      · rename_i hm
        exact fun hzero => absurd hzero (shortest_spec false hn (Nat.pos_of_ne_zero hm)).2.1)
  obtain ⟨d, e, hreal, hde⟩ := realNumber_eq negative n hlength
  have hnearest : nearest negative d e = x := by
    refine nearest_eq hx (fun hm => ?_) fun hm => ?_
    · rw [hvalue, if_pos hm] at hde
      have hzero : (d : ℚ) * 10 ^ e = 0 := by rw [hde]; simp
      have hpow : (10 : ℚ) ^ e ≠ 0 := by positivity
      exact_mod_cast (mul_eq_zero.1 hzero).resolve_right hpow
    · rw [hde, hvalue, if_neg hm.ne']
      exact (shortest_spec false hn hm).1
  have hread := readUnsigned_chars hfractional negative hrest (by
    rw [hreal, hnearest]
    exact (isFinite_iff x).2 ⟨_, _, _, hx⟩)
  rw [hreal, hnearest] at hread
  obtain ⟨first, whole, hwhole⟩ := List.exists_cons_of_ne_nil hfractional.ne_nil
  have hchars : n.chars = first.digitChar ::
      (digitChars whole ++ (fractionChars n.fraction ++ exponentChars n.exponent)) := by
    rw [Numeral.chars, hwhole]
    rfl
  rw [hchars] at htext hread
  exact ⟨first, _, hfractional.whole first (by rw [hwhole]; exact List.mem_cons_self), htext, hread⟩

/-- How the text of a number starts. -/
def StartsNumber (c : Char) : Prop := c = '-' ∨ ∃ d < 10, c = Nat.digitChar d

theorem readNumber_of_digit {d : Nat} (hd : d < 10) (cs : List Char) :
    readNumber (d.digitChar :: cs) = readUnsigned false (d.digitChar :: cs) := by
  have hne : d.digitChar ≠ '-' := by
    interval_cases d <;> decide
  unfold readNumber
  split
  · rename_i heq
    exact absurd (List.cons.inj heq).1 hne
  · rfl

/-- **Finite doubles read back**, zeros with their sign. -/
theorem readNumber_realText {x : Float} (hx : x.isFinite = true) (hrest : Closes rest) :
    ∃ c cs, StartsNumber c ∧ (realText x).toList = c :: cs ∧
      readNumber (c :: (cs ++ rest)) = some (.real x, rest) := by
  obtain ⟨negative, m, q, hdecode⟩ := (isFinite_iff x).1 hx
  obtain ⟨d, cs, hd, htext, hread⟩ := readUnsigned_text hdecode hrest
  have hreal : (realText x).toList = (if negative then "-" else "").toList ++ d.digitChar :: cs := by
    rw [realText, if_pos hx, Layout.text, hdecode, ← htext, ← String.toList_append]
    rfl
  cases negative with
  | true => exact ⟨'-', d.digitChar :: cs, .inl rfl, hreal, hread⟩
  | false =>
    refine ⟨d.digitChar, cs, .inr ⟨d, hd, rfl⟩, hreal, ?_⟩
    rw [readNumber_of_digit hd, hread]

/-- **Whole numbers read back.** -/
theorem readNumber_toString {n : Nat} (hn : n < UInt64.size) (hrest : Closes rest) :
    ∃ c cs, StartsNumber c ∧ (toString (n : Int)).toList = c :: cs ∧
      readNumber (c :: (cs ++ rest)) = some (.int n, rest) := by
  obtain ⟨ds, hds, hdecimals, -, hne, -⟩ := exists_digits n
  obtain ⟨first, more, rfl⟩ := List.exists_cons_of_ne_nil hne
  have hread := readUnsigned_whole hn hrest
  have htext : (toString (n : Int)).toList = Nat.toDigits 10 n := Nat.toList_repr
  rw [hds] at hread htext
  have hfirst := hdecimals first List.mem_cons_self
  refine ⟨first.digitChar, digitChars more, .inr ⟨first, hfirst, rfl⟩, htext, ?_⟩
  rw [readNumber_of_digit hfirst]
  exact hread

end Vouch.Json
