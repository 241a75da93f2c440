import Vouch.Trust.Beta
/-!
# Pooling experience with a prior

What is known of an edge at first hand is merged with what its kind leads one to expect. `evidence`
adds the outcomes behind both beliefs and counts the one good and one bad outcome that every belief
starts from once; no count falls below a small positive number, whatever the prior. `sum` adds the
counts as they are.
-/
namespace Vouch

/-- How two beliefs are merged. -/
inductive Pooling where
  | evidence
  | sum
  deriving DecidableEq, Repr

namespace Pooling

variable {α : Type} [Scalar α]

def name : Pooling → String
  | .evidence => "evidence"
  | .sum => "sum"

/-- The smallest count that pooling evidence yields. -/
def minCount : α := Scalar.ratio 1 1000000

/-- A number, or the bound where it does not reach the bound. -/
def atLeast (bound x : α) : α := if bound ≤ x then x else bound

def pool : Pooling → (own prior : Beta α) → Beta α
  | .evidence, own, prior =>
    ⟨atLeast minCount (own.alpha + prior.alpha - 1), atLeast minCount (own.beta + prior.beta - 1)⟩
  | .sum, own, prior => ⟨own.alpha + prior.alpha, own.beta + prior.beta⟩

/-- The chance of a good outcome, given a prior or none. -/
def expected (p : Pooling) (own : Beta α) : (prior : Option (Beta α)) → α
  | some prior => (p.pool own prior).expected
  | none => own.expected

end Pooling
end Vouch
