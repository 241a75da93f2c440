import Vouch.Trust.Scalar
import Vouch.Decimal.Layout
/-!
# Beliefs about a yes-or-no outcome

A Beta distribution counts the good and the bad outcomes seen so far, from one of each. Its
expectation is the chance that the next outcome is good.
-/
namespace Vouch

/-- A belief about how often something goes well. -/
structure Beta (α : Type) where
  alpha : α
  beta : α
  deriving DecidableEq, Repr

namespace Beta

variable {α : Type} [Scalar α]

/-- Nothing is known. -/
def uniform : Beta α := ⟨1, 1⟩

instance : Inhabited (Beta α) := ⟨uniform⟩

def expected (d : Beta α) : α := d.alpha / (d.alpha + d.beta)

def variance (d : Beta α) : α :=
  let total := d.alpha + d.beta
  (d.alpha * d.beta) / (total * total * (total + 1))

/-- Counts one more outcome. -/
def record (good : Bool) (d : Beta α) : Beta α :=
  if good then { d with alpha := d.alpha + 1 } else { d with beta := d.beta + 1 }

def text (d : Beta Float) : String :=
  s!"Beta(a={Decimal.plain.text d.alpha},b={Decimal.plain.text d.beta})"

end Beta
end Vouch
