import Mathlib
import Vouch.Decimal.Nearest
/-!
# Doubles by significand and exponent

A finite double is one of the numbers `± m · 2 ^ q` in normal form (`Normal`), and its bits are sign, `m`
and `q` written down. So bits and these three determine each other, and so do bits and doubles, except
that all bits that are no number are one and the same double.

* `decode_encode`, `encode_of_decode`: bits, and sign, significand and exponent.
* `isFinite_iff`: a double is finite just if it has a significand and an exponent.
* `decode_toBits`, `ofBits_encode`: the double of a significand and an exponent, and back.
-/
namespace Vouch.Decimal

/-- A significand and an exponent in normal form: only at the lowest exponent are there fewer than 53
binary digits. -/
structure Normal (m : Nat) (q : Int) : Prop where
  lt : m < 2 ^ 53
  eq_least : m < 2 ^ 52 → q = minExponent
  least_le : minExponent ≤ q
  le_greatest : q ≤ maxExponent

/-! ## Bits -/

theorem powTwo_eq (n : Nat) : powTwo n = 2 ^ n := rfl

theorem powTen_eq (n : Nat) : powTen n = 10 ^ n := rfl

/-- The exponent as it stands in the bits. -/
def biased (m : Nat) (q : Int) : Nat := if m < 2 ^ 52 then 0 else (q + 1075).toNat

theorem Normal.biased_lt {m : Nat} {q : Int} (h : Normal m q) : biased m q < 2047 := by
  have hle := h.le_greatest
  unfold maxExponent at hle
  unfold biased
  split <;> omega

/-- Sign, exponent and significand each have bits of their own. -/
theorem fields {s e f : Nat} (he : e < 2 ^ 11) (hf : f < 2 ^ 52) :
    (2 ^ 63 ≤ s * 2 ^ 63 + e * 2 ^ 52 + f ↔ 1 ≤ s) ∧
      (s * 2 ^ 63 + e * 2 ^ 52 + f) / 2 ^ 52 % 2 ^ 11 = e ∧
      (s * 2 ^ 63 + e * 2 ^ 52 + f) % 2 ^ 52 = f := by
  refine ⟨?_, ?_, ?_⟩ <;> omega

theorem toNat_encode {m : Nat} {q : Int} (negative : Bool) (h : Normal m q) :
    (encode negative m q).toNat =
      negative.toNat * 2 ^ 63 + biased m q * 2 ^ 52 + m % 2 ^ 52 := by
  have he := h.biased_lt
  have hs : negative.toNat ≤ 1 := negative.toNat_le
  have hf : m % 2 ^ 52 < 2 ^ 52 := Nat.mod_lt _ (by decide)
  have hsign : signBit negative = negative.toNat * 2 ^ 63 := by cases negative <;> rfl
  have hbits : encode negative m q =
      UInt64.ofNat (signBit negative + biased m q * 2 ^ 52 + m % 2 ^ 52) := rfl
  rw [hbits, hsign, UInt64.toNat_ofNat', Nat.mod_eq_of_lt]
  omega

theorem decode_eq (bits : UInt64) : decode bits =
    if bits.toNat / 2 ^ 52 % 2 ^ 11 = 2047 then
      if bits.toNat % 2 ^ 52 = 0 then .infinite (decide (2 ^ 63 ≤ bits.toNat)) else .nan
    else if bits.toNat / 2 ^ 52 % 2 ^ 11 = 0 then
      .finite (decide (2 ^ 63 ≤ bits.toNat)) (bits.toNat % 2 ^ 52) minExponent
    else .finite (decide (2 ^ 63 ≤ bits.toNat)) (2 ^ 52 + bits.toNat % 2 ^ 52)
      ((bits.toNat / 2 ^ 52 % 2 ^ 11 : Nat) - 1075) := rfl

/-- Bits are decoded by their fields. -/
theorem decode_of_fields {bits : UInt64} {negative : Bool} {e f : Nat} (hf : f < 2 ^ 52)
    (he : e < 2047) (h : bits.toNat = negative.toNat * 2 ^ 63 + e * 2 ^ 52 + f) :
    decode bits = if e = 0 then .finite negative f minExponent
      else .finite negative (2 ^ 52 + f) ((e : Int) - 1075) := by
  obtain ⟨hsign, hexponent, hfraction⟩ := fields (s := negative.toNat)
    (Nat.lt_trans he (by decide)) hf
  rw [← h] at hsign hexponent hfraction
  have hnegative : decide (2 ^ 63 ≤ bits.toNat) = negative := by
    rw [decide_eq_decide.2 hsign]
    cases negative <;> rfl
  rw [decode_eq, hexponent, hfraction, hnegative, if_neg (Nat.ne_of_lt he)]

theorem decode_encode {m : Nat} {q : Int} (negative : Bool) (h : Normal m q) :
    decode (encode negative m q) = .finite negative m q := by
  rw [decode_of_fields (Nat.mod_lt m (by decide)) h.biased_lt (toNat_encode negative h)]
  have hlt := h.lt
  have hge := h.least_le
  unfold minExponent at hge
  unfold biased
  by_cases hm : m < 2 ^ 52
  · rw [if_pos hm, if_pos rfl, Nat.mod_eq_of_lt hm, h.eq_least hm]
  · rw [if_neg hm, if_neg (by omega)]
    congr 1 <;> omega

/-- What a double is decoded to is in normal form, and it is all there is in the bits. -/
theorem encode_of_decode {bits : UInt64} {negative : Bool} {m : Nat} {q : Int}
    (h : decode bits = .finite negative m q) : Normal m q ∧ encode negative m q = bits := by
  have hbound := bits.toNat_lt
  obtain ⟨s, e, f, he, hf, hbits⟩ : ∃ (s : Bool) (e f : Nat), e < 2 ^ 11 ∧ f < 2 ^ 52 ∧
      bits.toNat = s.toNat * 2 ^ 63 + e * 2 ^ 52 + f := by
    refine ⟨decide (2 ^ 63 ≤ bits.toNat), bits.toNat / 2 ^ 52 % 2 ^ 11, bits.toNat % 2 ^ 52,
      Nat.mod_lt _ (by decide), Nat.mod_lt _ (by decide), ?_⟩
    by_cases hs : 2 ^ 63 ≤ bits.toNat
    · simp only [hs, decide_true, Bool.toNat_true]
      omega
    · simp only [hs, decide_false, Bool.toNat_false]
      omega
  have hlast : e ≠ 2047 := by
    rintro rfl
    obtain ⟨-, hexponent, -⟩ := fields (s := s.toNat) he hf
    rw [decode_eq, hbits, hexponent, if_pos rfl] at h
    split at h <;> cases h
  rw [decode_of_fields hf (by omega) hbits] at h
  have hnormal : Normal m q := by
    split at h <;> cases h
    · exact ⟨by omega, fun _ => rfl, Int.le_refl _, by decide⟩
    · refine ⟨by omega, fun hm => by omega, ?_, ?_⟩
      · simp only [minExponent]
        omega
      · simp only [maxExponent]
        omega
  refine ⟨hnormal, UInt64.toNat_inj.1 ?_⟩
  rw [toNat_encode negative hnormal, hbits]
  split at h <;> cases h
  · rw [biased, if_pos hf, Nat.mod_eq_of_lt hf]
    omega
  · rw [biased, if_neg (by omega)]
    omega

/-! ## Doubles -/

open Float.Model

theorem toNat_unpackExponent (bits : UInt64) :
    (@UnpackedFloat.unpackExponent Format.binary64 bits.toBitVec).toNat =
      bits.toNat / 2 ^ 52 % 2 ^ 11 := by
  rw [UnpackedFloat.unpackExponent_def]
  simp [BitVec.extractLsb', Nat.shiftRight_eq_div_pow]

/-- Bits with the last exponent are those of no number. -/
theorem unpackExponent_eq_iff (bits : UInt64) :
    @UnpackedFloat.unpackExponent Format.binary64 bits.toBitVec = -1#_ ↔
      bits.toNat / 2 ^ 52 % 2 ^ 11 = 2047 := by
  rw [← BitVec.toNat_inj, toNat_unpackExponent]
  rfl

theorem exists_decode_iff (bits : UInt64) :
    (∃ negative m q, decode bits = .finite negative m q) ↔ bits.toNat / 2 ^ 52 % 2 ^ 11 ≠ 2047 := by
  rw [decode_eq]
  split
  · rename_i h
    simp only [h, ne_eq, not_true_eq_false, iff_false]
    rintro ⟨negative, m, q, hd⟩
    split at hd <;> cases hd
  · rename_i h
    simp only [ne_eq, h, not_false_eq_true, iff_true]
    split
    · exact ⟨_, _, _, rfl⟩
    · exact ⟨_, _, _, rfl⟩

/-- **A double is finite** just if it has a significand and an exponent. -/
theorem isFinite_iff (x : Float) :
    x.isFinite = true ↔ ∃ negative m q, decode x.toBits = .finite negative m q := by
  rw [exists_decode_iff, ne_eq, ← unpackExponent_eq_iff]
  show (UnpackedFloat.unpack Format.binary64 x.toBits.toBitVec).isFinite = true ↔ _
  unfold UnpackedFloat.unpack
  simp only []
  split
  · rename_i h
    split <;> simp only [UnpackedFloat.isFinite, h, not_true, Bool.false_eq_true]
  · rename_i h
    split
    · split <;> simp only [UnpackedFloat.isFinite, h, not_false_eq_true]
    · simp only [UnpackedFloat.isFinite, h, not_false_eq_true]

/-- Bits of a number are the bits of that double. -/
theorem toBits_ofBits {bits : UInt64} {negative : Bool} {m : Nat} {q : Int}
    (h : decode bits = .finite negative m q) : (Float.ofBits bits).toBits = bits := by
  have hlast := (exists_decode_iff bits).1 ⟨_, _, _, h⟩
  rw [ne_eq, ← unpackExponent_eq_iff] at hlast
  have hpack := @UnpackedFloat.pack_unpack Format.binary64 bits.toBitVec (by decide)
  rw [if_neg fun hnan => hlast (of_decide_eq_true hnan).1] at hpack
  exact congrArg UInt64.ofBitVec hpack

/-- **The double of a significand and an exponent** is decoded to them. -/
theorem decode_toBits {m : Nat} {q : Int} (negative : Bool) (h : Normal m q) :
    decode (Float.ofBits (encode negative m q)).toBits = .finite negative m q := by
  have hd := decode_encode negative h
  rw [toBits_ofBits hd, hd]

theorem isFinite_ofBits {m : Nat} {q : Int} (negative : Bool) (h : Normal m q) :
    (Float.ofBits (encode negative m q)).isFinite = true :=
  (isFinite_iff _).2 ⟨_, _, _, decode_toBits negative h⟩

/-- **A finite double** is the one of its significand and exponent. -/
theorem ofBits_encode {x : Float} {negative : Bool} {m : Nat} {q : Int}
    (h : decode x.toBits = .finite negative m q) :
    Normal m q ∧ Float.ofBits (encode negative m q) = x := by
  obtain ⟨hnormal, hbits⟩ := encode_of_decode h
  rw [hbits]
  exact ⟨hnormal, Float.ofBits_toBits x⟩

end Vouch.Decimal
