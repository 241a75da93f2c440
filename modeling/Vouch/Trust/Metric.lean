import Vouch.Trust.Scalar
import Vouch.Table
import Vouch.Notice
/-!
# Metrics and their weights

A score is a weighted sum over five metrics. Each application weighs them as it likes; a metric that
it does not mention weighs nothing.

* `ofName?_eq_some_iff`: a name is read as the metric that has it.
* `weight_set`: setting one weight changes that weight only.
-/
namespace Vouch

/-- What a score is made of. -/
inductive Metric where
  | taskSubmission
  | taskResult
  | resultQuality
  | throughput
  | challengeResponse
  deriving DecidableEq, Repr

namespace Metric

/-- Every metric, in the order in which a score adds them up. -/
def all : List Metric :=
  [.taskSubmission, .taskResult, .resultQuality, .throughput, .challengeResponse]

def name : Metric → String
  | .taskSubmission => "task_submission"
  | .taskResult => "task_result"
  | .resultQuality => "result_quality"
  | .throughput => "throughput"
  | .challengeResponse => "challenge_response"

/-- The metric as diagnostics show it. -/
def describe : Metric → String
  | .taskSubmission => "TaskSubmission"
  | .taskResult => "TaskResult"
  | .resultQuality => "ResultQuality"
  | .throughput => "Throughput"
  | .challengeResponse => "ChallengeResponse"

/-- The metric of a name. -/
def ofName? (s : String) : Option Metric := all.find? fun m => m.name = s

/-- What is said of a name that no metric has. -/
def unknown (s : String) : String := s!"unknown trust metric {s}"

theorem mem_all (m : Metric) : m ∈ all := by cases m <;> decide

theorem ofName?_eq_some_iff {s : String} {m : Metric} : ofName? s = some m ↔ m.name = s := by
  constructor
  · intro h
    simpa using List.find?_some h
  · rintro rfl
    cases m <;> rfl

end Metric

/-- What an application says about its weights: a value under each metric's name. -/
structure ApplicationWeights (α : Type) where
  application : String
  weights : Table α

/-- The weight of each metric, by application. -/
structure Weights (α : Type) where
  tables : Table (Metric → α)

namespace Weights

variable {α : Type} [Scalar α]

def empty : Weights α := ⟨.empty⟩

instance : Inhabited (Weights α) := ⟨empty⟩

/-- The weights of an application, in which nothing weighs anything at first. -/
def table (w : Weights α) (application : String) : Metric → α :=
  (w.tables.find? application).getD fun _ => 0

def weight (w : Weights α) (application : String) (m : Metric) : α := w.table application m

def set (w : Weights α) (application : String) (m : Metric) (x : α) : Weights α :=
  ⟨w.tables.insert application fun m' => if m' = m then x else w.table application m'⟩

/-- The applications that weigh something, in alphabetical order. -/
def applications (w : Weights α) : List String := w.tables.names

/-- Takes in what an application says of one metric; a name that no metric has is passed over with a
notice. -/
def take (application : String) (w : Weights α × List Notice) (e : String × α) :
    Weights α × List Notice :=
  match Metric.ofName? e.1 with
  | some m => (w.1.set application m e.2, w.2)
  | none => (w.1, w.2 ++ [.weightIgnored application (Metric.unknown e.1)])

/-- The weights that applications ask for, a later wish before an earlier one. -/
def ofConfig (apps : List (ApplicationWeights α)) : Weights α × List Notice :=
  apps.foldl (fun w app => app.weights.toList.foldl (take app.application) w) (empty, [])

theorem weight_set (w : Weights α) (a b : String) (m k : Metric) (x : α) :
    (w.set a m x).weight b k = if b = a ∧ k = m then x else w.weight b k := by
  unfold weight table set
  simp only [Table.find?_insert]
  by_cases hb : b = a
  · subst hb
    by_cases hk : k = m <;> simp [hk, table]
  · simp [hb]

/-- How far a sum of weights may be from one without a notice. -/
def tolerance : α := Scalar.ratio 1 10000

/-- Whether a sum of weights is close enough to one. -/
def SumsToOne (total : α) : Prop := total - 1 ≤ tolerance ∧ 0 - tolerance ≤ total - 1

instance (total : α) : Decidable (SumsToOne total) := inferInstanceAs (Decidable (_ ∧ _))

end Weights
end Vouch
