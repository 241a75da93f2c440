import Vouch.Trust.Gaussian
/-!
# Scoring throughput

Observed throughput is held against a least acceptable mean in each direction. With no samples an
edge gets the benefit of the doubt; with one direction sampled it is all or nothing; with both, a
shortfall scales the score by how far the mean falls short, outbound before inbound.
-/
namespace Vouch

/-- The least acceptable mean throughput in each direction. -/
structure Threshold (α : Type) where
  inbound : α
  outbound : α
  deriving DecidableEq, Repr

variable {α : Type} [Scalar α]

/-- Whether a threshold can be held against anything. -/
def Threshold.IsPositive (t : Threshold α) : Prop := 0 < t.inbound ∧ 0 < t.outbound

instance (t : Threshold α) : Decidable t.IsPositive := inferInstanceAs (Decidable (_ ∧ _))

/-- A score was asked for against a threshold that is not positive. Whoever asks is stopped. -/
structure ThresholdMisuse (α : Type) where
  threshold : Threshold α
  deriving DecidableEq, Repr

def ThresholdMisuse.message (m : ThresholdMisuse Float) : String :=
  let inbound := Decimal.exact.text m.threshold.inbound
  let outbound := Decimal.exact.text m.threshold.outbound
  s!"non-positive throughput threshold ThroughputThreshold \x7b inbound: {inbound}, outbound: {outbound} \x7d"

/-- All or nothing. -/
def meets (d : Gaussian α) (least : α) : α := if least ≤ d.mean then 1 else 0

/-- How well observed throughput does, from 0 to 1. -/
def score (inbound outbound : Gaussian α) (t : Threshold α) : α :=
  if inbound.isEmpty then
    if outbound.isEmpty then 1 else meets outbound t.outbound
  else if outbound.isEmpty then meets inbound t.inbound
  else if ¬ t.outbound ≤ outbound.mean then outbound.mean / t.outbound
  else if ¬ t.inbound ≤ inbound.mean then inbound.mean / t.inbound
  else 1

/-- The score against a threshold, which has to be positive. -/
def goodness (inbound outbound : Gaussian α) (t : Threshold α) : Except (ThresholdMisuse α) α :=
  if t.IsPositive then .ok (score inbound outbound t) else .error ⟨t⟩

end Vouch
