import Vouch.Decimal.Binary64
/-!
# The double nearest to a decimal

`nearest` rounds `± d · 10 ^ e` to the closest double, a tie to the even one, in exact arithmetic.
Magnitudes of `2 ^ 1024 - 2 ^ 970` and more become infinite.
-/
namespace Vouch.Decimal

/-- `n / d` rounded to an integer, a tie to the even one. -/
def roundHalfEven (n d : Nat) : Nat :=
  let quotient := n / d
  let r := n % d
  if 2 * r < d then quotient
  else if d < 2 * r then quotient + 1
  else if quotient % 2 = 0 then quotient else quotient + 1

/-- Numerator and denominator of `(n / d) / 2 ^ q`. -/
def unscale (n d : Nat) (q : Int) : Nat × Nat :=
  if 0 ≤ q then (n, d * powTwo q.toNat) else (n * powTwo (-q).toNat, d)

/-- The exponent `q` at which `n / d` lies in `[2 ^ 52, 2 ^ 53) · 2 ^ q`, or the lowest one. -/
def scaleOf (n d : Nat) : Int :=
  let guess : Int := (Nat.log2 n : Int) - (Nat.log2 d : Int) - 52
  let (a, b) := unscale n d guess
  max minExponent (if a / b < powTwo 52 then guess - 1 else guess)

/-- The double nearest to `± n / d`, for positive `n` and `d`. -/
def nearestRatio (negative : Bool) (n d : Nat) : UInt64 :=
  let q := scaleOf n d
  let (a, b) := unscale n d q
  let m := roundHalfEven a b
  let (m, q) := if m = powTwo 53 then (powTwo 52, q + 1) else (m, q)
  if maxExponent < q then infinityBits negative else encode negative m q

/-- The double nearest to `± d · 10 ^ e`. Exponents far outside the range of doubles are settled
without computing the power. -/
def nearestBits (negative : Bool) (d : Nat) (e : Int) : UInt64 :=
  if d = 0 then encode negative 0 minExponent
  else if 400 < e then infinityBits negative
  else if e + (Nat.log2 d : Int) < -1200 then encode negative 0 minExponent
  else if 0 ≤ e then nearestRatio negative (d * powTen e.toNat) 1
  else nearestRatio negative d (powTen (-e).toNat)

def nearest (negative : Bool) (d : Nat) (e : Int) : Float := Float.ofBits (nearestBits negative d e)

end Vouch.Decimal
