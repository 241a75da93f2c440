import Vouch.Decimal.Binary64
/-!
# The fewest digits that read back

Every finite double stands for the reals that round to it, an interval that contains its ends
exactly when the significand is even. `shortest` looks for a decimal in that interval on ever finer
decimal grids, and takes from the first grid that has one the point nearest to the double itself; of
two equally near points `tieUp` chooses the larger or the one with an even last digit.
-/
namespace Vouch.Decimal

/-- The number `digits · 10 ^ exponent`. -/
structure Digits where
  digits : Nat
  exponent : Int
  deriving DecidableEq, Repr

namespace Digits

/-- Without zeros at the end of its digits. -/
def strip (fuel : Nat) (d : Digits) : Digits :=
  match fuel with
  | 0 => d
  | fuel + 1 =>
    if d.digits ≠ 0 ∧ d.digits % 10 = 0 then strip fuel ⟨d.digits / 10, d.exponent + 1⟩ else d

/-- The decimal digits, most significant first. -/
def chars (d : Digits) : List Char := Nat.toDigits 10 d.digits

/-- The power of ten that the first digit counts. -/
def lead (d : Digits) : Int := d.exponent + (d.chars.length : Int) - 1

end Digits

/-- An interval of reals around a value, all three over one denominator. -/
structure Interval where
  low : Nat
  value : Nat
  high : Nat
  denominator : Nat
  closed : Bool

/-- The reals that round to `m · 2 ^ q`. -/
def interval (m : Nat) (q : Int) : Interval :=
  let closeBelow := m = powTwo 52 ∧ minExponent < q
  let low := if closeBelow then 4 * m - 1 else 4 * m - 2
  let k := q - 2
  let up := powTwo k.toNat
  ⟨low * up, 4 * m * up, (4 * m + 2) * up, powTwo (-k).toNat, m % 2 == 0⟩

/-- Whether `n / d` lies in the interval. -/
def Interval.has (i : Interval) (n d : Nat) : Bool :=
  let x := n * i.denominator
  let low := i.low * d
  let high := i.high * d
  if i.closed then low ≤ x && x ≤ high else low < x && x < high

/-- Numerator and denominator of `10 ^ k`. -/
def gridUnit (k : Int) : Nat × Nat := (powTen k.toNat, powTen (-k).toNat)

/-- The point of the grid of multiples of `10 ^ k` in the interval that is nearest to its value. -/
def onGrid (tieUp : Bool) (i : Interval) (k : Int) : Option Nat :=
  let (u, v) := gridUnit k
  let below := i.value * v / (i.denominator * u)
  let above := below + 1
  let hasBelow := i.has (below * u) v
  let hasAbove := i.has (above * u) v
  if hasBelow && hasAbove then
    let twice := 2 * (i.value * v)
    let middle := (below + above) * u * i.denominator
    if twice < middle then some below
    else if middle < twice then some above
    else if tieUp || below % 2 == 1 then some above else some below
  else if hasBelow then some below
  else if hasAbove then some above
  else none

/-- The largest `e` with `10 ^ e ≤ n / d`, looked for downwards from `start`. -/
def floorLog10 (n d : Nat) : (fuel : Nat) → (start : Int) → Int
  | 0, start => start
  | fuel + 1, start =>
    let (u, v) := gridUnit start
    if u * d ≤ n * v then start else floorLog10 n d fuel (start - 1)

/-- The first grid with a point in the interval, each ten times finer than the one before. -/
def search (tieUp : Bool) (i : Interval) : (fuel : Nat) → (k : Int) → Digits
  | 0, k => ⟨i.value * (gridUnit k).2 / (i.denominator * (gridUnit k).1), k⟩
  | fuel + 1, k =>
    match onGrid tieUp i k with
    | some n => if n = 0 then search tieUp i fuel (k - 1) else ⟨n, k⟩
    | none => search tieUp i fuel (k - 1)

/-- The shortest decimal that reads back as `m · 2 ^ q`, for positive `m`. Seventeen digits always
suffice. -/
def shortest (tieUp : Bool) (m : Nat) (q : Int) : Digits :=
  let i := interval m q
  let guess : Int := ((Nat.log2 m : Int) + q) * 30103 / 100000 + 1
  let lead := floorLog10 i.value i.denominator 4 guess
  (search tieUp i 17 lead).strip 17

end Vouch.Decimal
