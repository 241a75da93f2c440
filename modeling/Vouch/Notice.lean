/-!
# Notices

What a node tells its operator besides its answers: warnings and errors, each with a fixed wording.
Operations name the notices they give rise to; nothing a node decides depends on them.
-/
namespace Vouch

/-- How urgent a line of the log is, the most urgent first. -/
inductive Level where
  | error
  | warn
  | info
  | debug
  | trace
  deriving DecidableEq, Repr

def Level.text : Level → String
  | .error => "ERROR"
  | .warn => "WARN"
  | .info => "INFO"
  | .debug => "DEBUG"
  | .trace => "TRACE"

/-- A rank that grows with the detail of the log. -/
def Level.rank : Level → Nat
  | .error => 1
  | .warn => 2
  | .info => 3
  | .debug => 4
  | .trace => 5

/-- Something the operator should know. -/
inductive Notice where
  | storeExhausted
  | headVanished
  | signatureRejected
  | rejectedNotFreed
  | promotionMissed
  | entryNotPinned
  | exchangeFailed
  | lockExpired
  | requestOutstanding
  | requestFailed
  | peerNotPinned
  | registryFull
  | capabilityPoolFull
  | weightIgnored (application reason : String)
  | modelMismatch
  | thresholdsIgnored
  | thresholdsMissing
  | weightsUnbalanced
  | challengeUnconfigured
  | challengeMissing
  deriving DecidableEq, Repr

namespace Notice

def level : Notice → Level
  | .signatureRejected => .error
  | .exchangeFailed => .error
  | .requestFailed => .error
  | .thresholdsIgnored => .error
  | .thresholdsMissing => .error
  | .challengeUnconfigured => .error
  | .challengeMissing => .error
  | _ => .warn

def message : Notice → String
  | .storeExhausted => "certificate store exhausted"
  | .headVanished => "pending head vanished before verification"
  | .signatureRejected => "certificate signature verification failed"
  | .rejectedNotFreed => "could not free rejected entry"
  | .promotionMissed => "verified entry disappeared before promotion"
  | .entryNotPinned => "cannot pin entry for key exchange"
  | .exchangeFailed => "key exchange failed"
  | .lockExpired => "lock expired without release"
  | .requestOutstanding => "public key request already outstanding"
  | .requestFailed => "public key request failed"
  | .peerNotPinned => "cannot pin peer for key exchange"
  | .registryFull => "edge registry full"
  | .capabilityPoolFull => "capability pool full"
  | .weightIgnored _ _ => "ignoring weight"
  | .modelMismatch => "trust model mismatch"
  | .thresholdsIgnored => "throughput thresholds ignored"
  | .thresholdsMissing => "no throughput thresholds configured"
  | .weightsUnbalanced => "trust weights should total close to 1"
  | .challengeUnconfigured => "no challenge-response capability configured"
  | .challengeMissing => "failed to find challenge-response capability"

/-- The line of the log, without the details that go with it. -/
def line (n : Notice) : String := s!"{n.level.text} {n.message}"

end Notice
end Vouch
