/-!
# Binary64 numbers as integers

A finite double is `± m · 2 ^ q` with `m < 2 ^ 53` and `q ≥ -1074`; `decode` gives sign, `m` and `q`
from the bits, `encode` the bits of the double `± m · 2 ^ q` for `m` and `q` in normal form.
-/
namespace Vouch.Decimal

def powTwo (n : Nat) : Nat := Nat.pow 2 n

def powTen (n : Nat) : Nat := Nat.pow 10 n

/-- A double taken apart. -/
inductive Parts where
  | nan
  | infinite (negative : Bool)
  | finite (negative : Bool) (m : Nat) (q : Int)
  deriving DecidableEq, Repr

/-- The lowest exponent, that of the subnormal numbers. -/
def minExponent : Int := -1074

/-- The highest exponent of a finite double. -/
def maxExponent : Int := 971

def decode (bits : UInt64) : Parts :=
  let n := bits.toNat
  let negative := powTwo 63 ≤ n
  let e : Nat := n / powTwo 52 % powTwo 11
  let f : Nat := n % powTwo 52
  if e = 2047 then if f = 0 then .infinite negative else .nan
  else if e = 0 then .finite negative f minExponent
  else .finite negative (powTwo 52 + f) ((e : Int) - 1075)

def signBit (negative : Bool) : Nat := if negative then powTwo 63 else 0

/-- The bits of `± m · 2 ^ q`, where `m < 2 ^ 52` only if `q` is the lowest exponent. -/
def encode (negative : Bool) (m : Nat) (q : Int) : UInt64 :=
  let e := if m < powTwo 52 then 0 else (q + 1075).toNat
  UInt64.ofNat (signBit negative + e * powTwo 52 + m % powTwo 52)

def infinityBits (negative : Bool) : UInt64 := UInt64.ofNat (signBit negative + 2047 * powTwo 52)

end Vouch.Decimal
