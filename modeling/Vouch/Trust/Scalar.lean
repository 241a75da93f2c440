import Vouch.Decimal.Nearest
/-!
# The numbers of a score

Scores are computed with doubles in a running node and with exact fractions in an argument about
it, from the same definitions. `Scalar` lists what those definitions use; no law is assumed, since
doubles keep few of them.
-/
namespace Vouch

/-- What a score is computed with. -/
class Scalar (α : Type) extends
    Zero α, One α, Add α, Sub α, Mul α, Div α, NatCast α, IntCast α, LT α, LE α where
  /-- Whether a number can be written down. -/
  isFinite : α → Bool
  decLt : DecidableRel (α := α) (· < ·)
  decLe : DecidableRel (α := α) (· ≤ ·)

namespace Scalar

variable {α : Type} [Scalar α]

instance (x y : α) : Decidable (x < y) := decLt x y

instance (x y : α) : Decidable (x ≤ y) := decLe x y

/-- The quotient of two whole numbers. -/
def ratio (n d : Nat) : α := (n : α) / (d : α)

end Scalar

instance : Scalar Float where
  zero := 0.0
  one := 1.0
  natCast n := Decimal.nearest false n 0
  intCast i := Decimal.nearest (i < 0) i.natAbs 0
  isFinite x := x.isFinite
  decLt := fun x y => Float.decLt x y
  decLe := fun x y => Float.decLe x y

instance : Scalar Rat where
  zero := 0
  one := 1
  isFinite _ := true
  decLt := fun _ _ => inferInstance
  decLe := fun _ _ => inferInstance

end Vouch
