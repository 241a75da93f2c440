import Vouch.Notice
/-!
# A lock that lapses

At most one holder at a time, and none for longer than the timeout: a holder that never releases
stops counting at its deadline. Every acquisition gets a token of its own, so a late release by a
holder whose time is up does not touch the next one.

Time is given to each operation, in milliseconds.
-/
namespace Vouch

/-- Proof of one acquisition. -/
structure LockToken where
  generation : Nat
  deriving DecidableEq, Repr

def LockToken.describe (t : LockToken) : String :=
  s!"LockToken \x7b generation: {t.generation} \x7d"

/-- The current acquisition and the time it counts until. -/
structure LockHolder where
  generation : Nat
  deadline : Nat
  deriving DecidableEq, Repr

/-- A lock whose holder counts for at most `timeout`. -/
structure TimedLock where
  timeout : Nat
  holder : Option LockHolder
  nextGeneration : Nat
  deriving DecidableEq, Repr

namespace TimedLock

def new (timeout : Nat) : TimedLock := ⟨timeout, none, 0⟩

/-- Whether a holder counts at a time. -/
def isLocked (l : TimedLock) (now : Nat) : Bool :=
  match l.holder with
  | some h => now < h.deadline
  | none => false

/-- Takes the lock unless a holder counts. -/
def tryLock (l : TimedLock) (now : Nat) : Option LockToken × TimedLock :=
  if l.isLocked now then (none, l)
  else
    (some ⟨l.nextGeneration⟩, { l with
      holder := some ⟨l.nextGeneration, now + l.timeout⟩
      nextGeneration := l.nextGeneration + 1 })

/-- Releases the lock if the token is that of the latest holder, in time or not. -/
def unlock (l : TimedLock) (t : LockToken) : Bool × TimedLock :=
  match l.holder with
  | some h => if h.generation = t.generation then (true, { l with holder := none }) else (false, l)
  | none => (false, l)

/-- Taking over from a holder that never released is worth a notice. -/
def tryNotices (l : TimedLock) (now : Nat) : List Notice :=
  if l.holder.isSome ∧ ¬ l.isLocked now then [.lockExpired] else []

end TimedLock
end Vouch
