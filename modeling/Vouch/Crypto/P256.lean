/-!
# The curve P-256

The group of NIST P-256, `y² = x³ - 3x + b` over the field of `p` elements. Field elements are
numbers below `p`. Points are added in Jacobian coordinates, where `(x, y, z)` stands for
`(x / z², y / z³)` and `z = 0` for the neutral element.
-/
namespace Vouch.Crypto.P256

/-- The order of the field. -/
def p : Nat := 0xffffffff00000001000000000000000000000000ffffffffffffffffffffffff

/-- The order of the group. -/
def n : Nat := 0xffffffff00000000ffffffffffffffffbce6faada7179e84f3b9cac2fc632551

/-- The constant term of the curve. -/
def b : Nat := 0x5ac635d8aa3a93e7b3ebbd55769886bc651d06b0cc53b0f63bce3c3e27d2604b

def baseX : Nat := 0x6b17d1f2e12c4247f8bce6e563a440f277037d812deb33a0f4a13945d898c296

def baseY : Nat := 0x4fe342e2fe1a7f9b8ee7eb4a7c0f9e162bce33576b315ececbb6406837bf51f5

/-! ## Arithmetic modulo `m` -/

/-- `a - b` modulo `m`, for `b ≤ m`. -/
def subMod (m a b : Nat) : Nat := (a + (m - b)) % m

/-- The binary digits of a number, most significant first. -/
def bits (k : Nat) : List Bool := (List.range (Nat.log2 k + 1)).reverse.map k.testBit

def powMod (m base exponent : Nat) : Nat :=
  (bits exponent).foldl
    (fun acc bit => let s := acc * acc % m; if bit then s * base % m else s) 1

/-- The inverse modulo a prime. -/
def invMod (m a : Nat) : Nat := powMod m a (m - 2)

/-! ## Points -/

/-- A point of the group. -/
inductive Point where
  | neutral
  | affine (x y : Nat)
  deriving DecidableEq, Repr

/-- Whether `(x, y)` are coordinates of a point of the curve. -/
def onCurve (x y : Nat) : Bool :=
  x < p && y < p && y * y % p == (x * x * x + (p - 3) * x + b) % p

/-- A point in Jacobian coordinates. -/
structure Jacobian where
  (x y z : Nat)

namespace Jacobian

def neutral : Jacobian := ⟨1, 1, 0⟩

def ofPoint : Point → Jacobian
  | .neutral => neutral
  | .affine x y => ⟨x, y, 1⟩

def toPoint (q : Jacobian) : Point :=
  if q.z = 0 then .neutral
  else
    let i := invMod p q.z
    let i2 := i * i % p
    .affine (q.x * i2 % p) (q.y * (i2 * i % p) % p)

def double (q : Jacobian) : Jacobian :=
  let delta := q.z * q.z % p
  let gamma := q.y * q.y % p
  let beta := q.x * gamma % p
  let alpha := 3 * (subMod p q.x delta * (q.x + delta)) % p
  let x := subMod p (alpha * alpha) (8 * beta % p)
  let z := subMod p ((q.y + q.z) * (q.y + q.z)) ((gamma + delta) % p)
  let y := subMod p (alpha * subMod p (4 * beta) x) (8 * gamma * gamma % p)
  ⟨x, y, z⟩

def add (q r : Jacobian) : Jacobian :=
  if q.z = 0 then r
  else if r.z = 0 then q
  else
    let z1 := q.z * q.z % p
    let z2 := r.z * r.z % p
    let u1 := q.x * z2 % p
    let u2 := r.x * z1 % p
    let s1 := q.y * (z2 * r.z % p) % p
    let s2 := r.y * (z1 * q.z % p) % p
    if u1 = u2 then if s1 = s2 then double q else neutral
    else
      let h := subMod p u2 u1
      let d := subMod p s2 s1
      let h2 := h * h % p
      let h3 := h2 * h % p
      let v := u1 * h2 % p
      let x := subMod p (d * d) ((h3 + 2 * v) % p)
      let y := subMod p (d * subMod p v x) (s1 * h3 % p)
      ⟨x, y, q.z * r.z % p * h % p⟩

/-- `k` times a point. -/
def mul (k : Nat) (q : Jacobian) : Jacobian :=
  (bits k).foldl (fun acc bit => let d := double acc; if bit then add d q else d) neutral

end Jacobian

/-- The base point. -/
def base : Point := .affine baseX baseY

def Point.mul (k : Nat) (q : Point) : Point := ((Jacobian.ofPoint q).mul k).toPoint

/-- `k` times one point plus `l` times another. -/
def combine (k : Nat) (q : Point) (l : Nat) (r : Point) : Point :=
  (((Jacobian.ofPoint q).mul k).add ((Jacobian.ofPoint r).mul l)).toPoint

end Vouch.Crypto.P256
