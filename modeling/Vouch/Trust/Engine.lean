import Vouch.Trust.Edge
import Vouch.Trust.Config
import Vouch.Trust.Pooling
import Vouch.Store.Basic
/-!
# Scoring edges

The trust that an application puts in an edge is a weighted sum: how submissions and results went,
how good the results of the capability were, whether its throughput suffices, and how challenges
went. Where the edge's verified certificate has a stereotype, the first three are pooled with it.

An engine holds settings only. The statistics are in the registry and the certificates in the store,
and `trust` is a function of the three.
-/
namespace Vouch

/-- How edges are scored. -/
structure Engine (α : Type) where
  weights : Weights α
  stereotypes : StereotypeTable α
  thresholds : Table (Threshold α)
  pooling : Pooling
  /-- The capability that stands for challenges. -/
  challenge : Option String

/-- A threshold that is not positive was refused. -/
structure ThresholdRefusal (α : Type) where
  capability : String
  threshold : Threshold α
  deriving DecidableEq, Repr

def ThresholdRefusal.message (e : ThresholdRefusal Float) : String :=
  let inbound := Decimal.plain.text e.threshold.inbound
  let outbound := Decimal.plain.text e.threshold.outbound
  s!"Throughput thresholds for {e.capability} must be positive (inbound {inbound}, outbound {outbound})"

namespace Engine

variable {α : Type} [Scalar α] {k : ModelKind}

def new (weights : Weights α) : Engine α := ⟨weights, .empty, .empty, .evidence, none⟩

/-- Sets the threshold of a capability in place of an earlier one. -/
def setThreshold (g : Engine α) (capability : String) (t : Threshold α) :
    Except (ThresholdRefusal α) Unit × Engine α :=
  if t.IsPositive then (.ok (), { g with thresholds := g.thresholds.insert capability t })
  else (.error ⟨capability, t⟩, g)

/-- Takes in one setting of a threshold; one that is refused is passed over with a notice. -/
def takeThreshold (g : Engine α × List Notice) (t : ThresholdSetting α) : Engine α × List Notice :=
  match g.1.setThreshold t.capability t.threshold with
  | (.ok (), g') => (g', g.2)
  | (.error _, g') => (g', g.2 ++ [.thresholdsIgnored])

/-- The engine for statistics of a model that a configuration asks for. -/
def ofConfig (k : ModelKind) (c : TrustConfig α) : Engine α × List Notice :=
  let mismatch := if c.model ≠ k then [Notice.modelMismatch] else []
  let (weights, ignored) := Weights.ofConfig c.applications
  c.thresholds.foldl takeThreshold
    ({ new weights with challenge := c.challenge }, mismatch ++ ignored)

omit [Scalar α] in
/-- The stereotype for the tags of the edge's verified certificate. -/
def stereotypeFor? (g : Engine α) (s : Store) (e : TrustEdge α k) : Option (Stereotype α) :=
  (s.tags? e.address).bind g.stereotypes.find?

/-- What the edge's own statistics and those of the capability say, pooled with a stereotype. -/
def beliefs (g : Engine α) (prior : Option (Stereotype α)) (e : TrustEdge α k)
    (c : Capability (CapabilityTrust α k)) : List (Metric × α) :=
  [(.taskSubmission, g.pooling.expected e.trust.submission (prior.map fun s => s.edge.submission)),
    (.taskResult, g.pooling.expected e.trust.result (prior.map fun s => s.edge.result)),
    (.resultQuality, g.pooling.expected c.trust.quality (prior.bind fun s => s.quality? c.name))]

/-- What the traffic says, if it is kept and there is a threshold to hold it against. -/
def traffic (g : Engine α) (c : Capability (CapabilityTrust α k)) :
    Except (ThresholdMisuse α) (List (Metric × α)) :=
  match c.trust.traffic?, g.thresholds.find? c.name with
  | some (inbound, outbound), some t => do
    let x ← goodness inbound outbound t
    return [(.throughput, x)]
  | _, _ => .ok []

/-- What challenges say, for any capability but the one that stands for them. -/
def challenges (g : Engine α) (e : TrustEdge α k) (c : Capability (CapabilityTrust α k)) :
    List (Metric × α) :=
  match g.challenge with
  | none => []
  | some name =>
    if name = c.name then []
    else
      match e.capability? name with
      | some cr => [(.challengeResponse, cr.trust.quality.expected)]
      | none => []

/-- The metrics that go into a score, with their values, in the order in which they are added. -/
def terms (g : Engine α) (s : Store) (e : TrustEdge α k) (c : Capability (CapabilityTrust α k)) :
    Except (ThresholdMisuse α) (List (Metric × α)) := do
  let traffic ← g.traffic c
  return g.beliefs (g.stereotypeFor? s e) e c ++ traffic ++ g.challenges e c

/-- The weighted sum of some metrics. -/
def weigh (g : Engine α) (application : String) (ts : List (Metric × α)) : α :=
  ts.foldl (fun acc t => acc + g.weights.weight application t.1 * t.2) 0

/-- The weights of some metrics together. -/
def totalWeight (g : Engine α) (application : String) (ts : List (Metric × α)) : α :=
  ts.foldl (fun acc t => acc + g.weights.weight application t.1) 0

/-- The trust in an edge for work on a capability. It is not clamped. -/
def trust (g : Engine α) (s : Store) (e : TrustEdge α k) (c : Capability (CapabilityTrust α k)) :
    Except (ThresholdMisuse α) α := do
  let ts ← g.terms s e c
  return g.weigh c.name ts

/-- Whether a number is neither above nor below zero. -/
def IsZero (x : α) : Prop := x ≤ 0 ∧ 0 ≤ x

instance (x : α) : Decidable (IsZero x) := inferInstanceAs (Decidable (_ ∧ _))

/-- A threshold that is missed, and weights that do not sum to one, are worth a notice. -/
def trustNotices (g : Engine α) (s : Store) (e : TrustEdge α k)
    (c : Capability (CapabilityTrust α k)) : List Notice :=
  let missing :=
    c.trust.traffic?.isSome ∧ (g.thresholds.find? c.name).isNone ∧
      ¬ IsZero (g.weights.weight c.name .throughput)
  match g.terms s e c with
  | .error _ => []
  | .ok ts =>
    (if missing then [.thresholdsMissing] else []) ++
      (if Weights.SumsToOne (g.totalWeight c.name ts) then [] else [.weightsUnbalanced])

/-- The trust in a registered edge for work on a capability that it has announced. -/
def trustIn? (g : Engine α) (s : Store) (r : TrustRegistry α k) (id : EdgeId)
    (capability : String) : Option (Except (ThresholdMisuse α) α) :=
  (r.get? id).bind fun e => (e.capability? capability).map fun c => g.trust s e c

end Engine
end Vouch
