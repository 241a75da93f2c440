/-!
# Octet strings

Wire data is a list of octets; a field of fixed width is a vector. `ofNat` and `toNat` are the
big-endian reading that keys, signatures and tag sets share.

* `length_ofNat`: `ofNat w n` has exactly `w` octets.
* `toNat_ofNat`: reading back what was written loses nothing below `count w`.
* `ofNat_toNat`: writing what was read gives the octets back.
* `octets?_toList`, `toList_of_octets?`: a vector and its list of octets determine each other.
-/
namespace Vouch

/-- An octet string. -/
abbrev Bytes := List UInt8

/-- A field of exactly `n` octets. -/
abbrev Octets (n : Nat) := Vector UInt8 n

namespace Bytes

/-- The number whose big-endian digits to base 256 are the given octets. -/
def toNat (b : Bytes) : Nat := b.foldl (fun acc x => acc * 256 + x.toNat) 0

/-- The `width` lowest big-endian digits of `n` to base 256. -/
def ofNat : (width : Nat) → (n : Nat) → Bytes
  | 0, _ => []
  | w + 1, n => ofNat w (n / 256) ++ [UInt8.ofNat (n % 256)]

/-- How many octet strings have a width. -/
def count (w : Nat) : Nat := Nat.pow 256 w

/-- The octets as a field of width `n`, if there are exactly that many. -/
def octets? (n : Nat) (b : Bytes) : Option (Octets n) :=
  if h : b.length = n then some ⟨b.toArray, by simpa using h⟩ else none

@[simp] theorem length_ofNat (w n : Nat) : (ofNat w n).length = w := by
  induction w generalizing n with
  | zero => rfl
  | succ w ih => simp [ofNat, ih]

theorem count_succ (w : Nat) : count (w + 1) = 256 * count w := Nat.mul_comm _ _

theorem toNat_append_singleton (b : Bytes) (x : UInt8) :
    toNat (b ++ [x]) = toNat b * 256 + x.toNat := by simp [toNat]

theorem toNat_ofNat (w n : Nat) : toNat (ofNat w n) = n % count w := by
  induction w generalizing n with
  | zero => simp [ofNat, toNat, count, Nat.mod_one]
  | succ w ih =>
    rw [ofNat, toNat_append_singleton, ih, UInt8.toNat_ofNat']
    have h := @Nat.mod_mul 256 (count w) n
    rw [count_succ, h]
    omega

theorem toNat_lt (b : Bytes) : toNat b < count b.length := by
  induction hn : b.length generalizing b with
  | zero => simp [List.eq_nil_of_length_eq_zero hn, toNat, count]
  | succ n ih =>
    rcases List.eq_nil_or_concat b with rfl | ⟨l, x, rfl⟩
    · simp at hn
    · have hx : x.toNat < 256 := x.toNat_lt
      have hl := ih l (by simpa using hn)
      rw [List.concat_eq_append, toNat_append_singleton, count_succ]
      omega

theorem ofNat_toNat (b : Bytes) : ofNat b.length (toNat b) = b := by
  induction hn : b.length generalizing b with
  | zero => rw [List.eq_nil_of_length_eq_zero hn]; rfl
  | succ n ih =>
    rcases List.eq_nil_or_concat b with rfl | ⟨l, x, rfl⟩
    · simp at hn
    · have hx : x.toNat < 256 := x.toNat_lt
      have hl := ih l (by simpa using hn)
      rw [List.concat_eq_append, toNat_append_singleton, ofNat,
        show (toNat l * 256 + x.toNat) / 256 = toNat l by omega,
        show (toNat l * 256 + x.toNat) % 256 = x.toNat by omega, hl]
      simp

theorem octets?_toList {n : Nat} (v : Octets n) : octets? n v.toList = some v := by
  simp [octets?, Vector.toList]

theorem toList_of_octets? {n : Nat} {b : Bytes} {v : Octets n} (h : octets? n b = some v) :
    v.toList = b := by
  unfold octets? at h
  split at h
  · cases h; rfl
  · cases h

theorem octets?_eq_none {n : Nat} {b : Bytes} : octets? n b = none ↔ b.length ≠ n := by
  unfold octets?; split <;> simp_all

end Bytes
end Vouch
