import Vouch.Trust.Scalar
import Vouch.Decimal.Layout
/-!
# Running mean and variance

Mean and sample variance of a quantity are kept up to date one sample at a time, without keeping the
samples. The count stops at its highest value.
-/
namespace Vouch

/-- Mean and sample variance of the samples seen so far. -/
structure Gaussian (α : Type) where
  mean : α
  variance : α
  count : UInt32
  deriving DecidableEq, Repr

namespace Gaussian

variable {α : Type} [Scalar α]

def empty : Gaussian α := ⟨0, 0, 0⟩

instance : Inhabited (Gaussian α) := ⟨empty⟩

def isEmpty (d : Gaussian α) : Bool := d.count == 0

/-- The highest count. -/
def maxCount : UInt32 := 0xffffffff

/-- The next higher count, or the highest. -/
def nextCount (c : UInt32) : UInt32 := if c = maxCount then c else c + 1

/-- Takes one more sample in. -/
def update (x : α) (d : Gaussian α) : Gaussian α :=
  let count := nextCount d.count
  let n : α := (count.toNat : α)
  let delta := x - d.mean
  let mean := d.mean + delta / n
  let variance :=
    if 1 < count then ((n - (2 : Nat)) * d.variance + delta * (x - mean)) / (n - 1)
    else d.variance
  ⟨mean, variance, count⟩

def text (d : Gaussian Float) : String :=
  s!"N(mean={Decimal.plain.text d.mean},var={Decimal.plain.text d.variance},n={d.count.toNat})"

end Gaussian
end Vouch
