import Vouch.Trust.Beta
import Vouch.Trust.Gaussian
import Vouch.Trust.Outcome
/-!
# Statistics kept of an edge

Of each edge a node keeps how submissions and results went, and of each of its capabilities how good
the results were. Under the throughput model a capability also keeps the traffic in each direction.
-/
namespace Vouch

/-- What is kept of a capability. -/
inductive ModelKind where
  | baseline
  | throughput
  deriving DecidableEq, Repr

/-- The model as diagnostics show it. -/
def ModelKind.describe : ModelKind → String
  | .baseline => "Baseline"
  | .throughput => "Throughput"

/-- Statistics of an edge. The time of the last answer to a ping is not persisted. -/
structure EdgeTrust (α : Type) where
  submission : Beta α
  result : Beta α
  lastPing : Option Nat
  deriving DecidableEq, Repr

/-- Statistics of a capability under a model. -/
inductive CapabilityTrust (α : Type) : ModelKind → Type where
  | baseline (quality : Beta α) : CapabilityTrust α .baseline
  | throughput (quality : Beta α) (inbound outbound : Gaussian α) : CapabilityTrust α .throughput
  deriving DecidableEq, Repr

variable {α : Type} [Scalar α]

namespace EdgeTrust

/-- Nothing is known. -/
def fresh : EdgeTrust α := ⟨.uniform, .uniform, none⟩

def recordSubmission (good : Bool) (t : EdgeTrust α) : EdgeTrust α :=
  { t with submission := t.submission.record good }

def recordResult (good : Bool) (t : EdgeTrust α) : EdgeTrust α :=
  { t with result := t.result.record good }

/-- Notes the time of an answer; that a ping went out is not kept. -/
def ping (now : Nat) : PingEvent → EdgeTrust α → EdgeTrust α
  | .sent, t => t
  | .received, t => { t with lastPing := some now }

def text (t : EdgeTrust Float) : String :=
  s!"EdgeResourceTM(TaskSub={t.submission.text},TaskRes={t.result.text})"

end EdgeTrust

namespace CapabilityTrust

variable {k : ModelKind}

/-- Nothing is known. -/
def fresh : {k : ModelKind} → CapabilityTrust α k
  | .baseline => .baseline .uniform
  | .throughput => .throughput .uniform .empty .empty

omit [Scalar α] in
/-- How good the results were. -/
def quality : CapabilityTrust α k → Beta α
  | .baseline q => q
  | .throughput q _ _ => q

omit [Scalar α] in
/-- Inbound and outbound traffic, if the model keeps it. -/
def traffic? : CapabilityTrust α k → Option (Gaussian α × Gaussian α)
  | .baseline _ => none
  | .throughput _ inbound outbound => some (inbound, outbound)

def recordQuality (good : Bool) : CapabilityTrust α k → CapabilityTrust α k
  | .baseline q => .baseline (q.record good)
  | .throughput q inbound outbound => .throughput (q.record good) inbound outbound

/-- Takes a sample of the traffic in, if the model keeps it; the answer says whether it does. -/
def recordTraffic (d : Direction) (x : α) : CapabilityTrust α k → Bool × CapabilityTrust α k
  | .baseline q => (false, .baseline q)
  | .throughput q inbound outbound =>
    match d with
    | .inbound => (true, .throughput q (inbound.update x) outbound)
    | .outbound => (true, .throughput q inbound (outbound.update x))

def text : CapabilityTrust Float k → String
  | .baseline q => s!"EdgeCapTM(ResQual={q.text})"
  | .throughput q inbound outbound =>
    s!"EdgeCapTM(ResQual={q.text},ThroughputIn={inbound.text},ThroughputOut={outbound.text})"

omit [Scalar α] in
/-- Whether traffic is kept is up to the model. -/
theorem isSome_traffic? (t : CapabilityTrust α k) : t.traffic?.isSome = (k == .throughput) := by
  cases t <;> rfl

@[simp] theorem quality_recordQuality (good : Bool) (t : CapabilityTrust α k) :
    (t.recordQuality good).quality = t.quality.record good := by
  cases t <;> rfl

@[simp] theorem traffic?_recordQuality (good : Bool) (t : CapabilityTrust α k) :
    (t.recordQuality good).traffic? = t.traffic? := by
  cases t <;> rfl

@[simp] theorem quality_recordTraffic (d : Direction) (x : α) (t : CapabilityTrust α k) :
    (t.recordTraffic d x).2.quality = t.quality := by
  cases t <;> cases d <;> rfl

end CapabilityTrust
end Vouch
