import Vouch.Trust.Metric
import Vouch.Trust.Record
import Vouch.Trust.Throughput
/-!
# The trust section of a configuration

Which model a node keeps statistics under, how applications weigh the metrics, which capability
stands for challenges, and the least acceptable throughput of capabilities.
-/
namespace Vouch

/-- The least acceptable throughput of a capability. -/
structure ThresholdSetting (α : Type) where
  capability : String
  threshold : Threshold α
  deriving DecidableEq, Repr

/-- How a node scores edges. -/
structure TrustConfig (α : Type) where
  model : ModelKind
  challenge : Option String
  applications : List (ApplicationWeights α)
  thresholds : List (ThresholdSetting α)

namespace TrustConfig

variable {α : Type} [Scalar α]

/-- Almost a third. -/
def third : α := Scalar.ratio 33333 100000

/-- What a node does that is told nothing. -/
def default : TrustConfig α where
  model := .baseline
  challenge := some "challenge-resp"
  applications :=
    [⟨"monitoring", .ofList [("task_submission", 1)]⟩,
      ⟨"routing", .ofList [("result_quality", third), ("task_result", third),
        ("task_submission", third)]⟩]
  thresholds := []

end TrustConfig
end Vouch
