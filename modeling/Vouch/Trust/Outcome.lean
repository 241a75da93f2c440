import Vouch.ResponseCode
/-!
# Outcomes and what they say

Not every outcome of an interaction says something about the peer: a request that never left the
node, or one the peer refused as malformed, is no evidence.
-/
namespace Vouch

/-- What became of a submitted task. -/
inductive SubmissionOutcome where
  | response (code : ResponseCode)
  | timeout
  | sendFailed
  deriving DecidableEq, Repr

/-- Whether the outcome is good or bad, if it is evidence at all. -/
def SubmissionOutcome.evidence : SubmissionOutcome → Option Bool
  | .response code =>
    if code.isSuccess then some true else if code.isServerError then some false else none
  | .timeout => some false
  | .sendFailed => none

/-- What became of a task's result. -/
inductive ResultOutcome where
  | delivered
  | missing
  deriving DecidableEq, Repr

def ResultOutcome.isGood : ResultOutcome → Bool
  | .delivered => true
  | .missing => false

/-- What became of a challenge. -/
inductive ChallengeOutcome where
  | correct
  | incorrect
  | timedOut
  | localFailure
  deriving DecidableEq, Repr

/-- Whether the outcome is good or bad, if it is evidence at all. -/
def ChallengeOutcome.evidence : ChallengeOutcome → Option Bool
  | .correct => some true
  | .incorrect => some false
  | .timedOut => some false
  | .localFailure => none

/-- Which way the traffic goes, seen from the node. -/
inductive Direction where
  | inbound
  | outbound
  deriving DecidableEq, Repr

/-- Whether a ping went out or its answer came in. -/
inductive PingEvent where
  | sent
  | received
  deriving DecidableEq, Repr

end Vouch
