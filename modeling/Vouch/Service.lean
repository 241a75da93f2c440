import Vouch.Verification
/-!
# Running the pipeline

`Round.run` is a round with nothing in between, `drain` repeats it until the queue is empty, and
`Service` is the pipeline as it runs in a node: it drains the queue, then sleeps until it is woken.
A wake-up that comes while it works is kept, as one permit.
-/
namespace Vouch

/-- A job that a round waits for. -/
inductive Job where
  | verify (c : Certificate) (rootKey : PublicKey)
  | agree (key : PublicKey)
  deriving DecidableEq, Repr

namespace Round

/-- The job a round waits for, if it waits. -/
def job? : Round → Option Job
  | .checking _ c rootKey => some (.verify c rootKey)
  | .exchanging _ _ (.agreeing _ _ key) => some (.agree key)
  | _ => none

/-- What a round came to, if it is over. -/
def result? : Round → Option RoundResult
  | .finished r => some r
  | _ => none

/-- Has the backend do the job that a round waits for. -/
def serve (b : Backend) (p : VerificationPolicy) (r : Round) : Round × List Notice :=
  match r.job? with
  | some (.verify c rootKey) => (r.judge (b.verify c.signedPart c.signature rootKey), [])
  | some (.agree key) => (r.agree p.self (b.agree key), Exchange.answerNotices (b.agree key))
  | none => (r, [])

/-- A whole round with nothing in between: it waits at most twice. -/
def run (b : Backend) (p : VerificationPolicy) (s : Store) : RoundResult × Store × List Notice :=
  let (r, s, n1) := Round.ready.settle p s
  let (r, n2) := r.serve b p
  let (r, s, n3) := r.settle p s
  let (r, n4) := r.serve b p
  let (r, s, n5) := r.settle p s
  (r.result?.getD .nothing, s, n1 ++ n2 ++ n3 ++ n4 ++ n5)

end Round

/-- Rounds until one finds nothing to do, at most `limit` of them. The flag says whether one did: a
rejected entry that someone else has pinned stays at the head of the queue for ever. -/
def drain (b : Backend) (p : VerificationPolicy) :
    (limit : Nat) → Store → List RoundResult × Bool × Store × List Notice
  | 0, s => ([], false, s, [])
  | limit + 1, s =>
    match Round.run b p s with
    | (.nothing, s, ns) => ([], true, s, ns)
    | (.stopped m, s, ns) => ([.stopped m], false, s, ns)
    | (r, s, ns) =>
      let (rs, done, s, more) := drain b p limit s
      (r :: rs, done, s, ns ++ more)

/-- The pipeline of a node: asleep, at work on a round, or stopped by a broken promise. -/
inductive Service where
  | asleep
  | working (r : Round)
  | stopped

namespace Service

/-- The step a service makes by itself. `permit` is the wake-up that has been kept. -/
def step (p : VerificationPolicy) (v : Service) (permit : Bool) (s : Store) :
    Option (Service × Bool × Store × List Notice) :=
  match v with
  | .asleep => if permit then some (.working .ready, false, s, []) else none
  | .working (.finished .nothing) => some (.asleep, permit, s, [])
  | .working (.finished (.stopped _)) => some (.stopped, permit, s, [])
  | .working (.finished _) => some (.working .ready, permit, s, [])
  | .working r =>
    match r.step p s with
    | some (r, s, ns) => some (.working r, permit, s, ns)
    | none => none
  | .stopped => none

/-- Hands over the answer that the service waits for. -/
def serve (b : Backend) (p : VerificationPolicy) : Service → Service × List Notice
  | .working r => let (r, ns) := r.serve b p; (.working r, ns)
  | v => (v, [])

/-- Runs the service, with a backend that answers at once, until it sleeps; `limit` bounds the
number of its steps. -/
def runUntilAsleep (b : Backend) (p : VerificationPolicy) :
    (limit : Nat) → Service → Bool → Store → Service × Bool × Store × List Notice
  | 0, v, permit, s => (v, permit, s, [])
  | limit + 1, v, permit, s =>
    let (v, n1) := v.serve b p
    match v.step p permit s with
    | some (v, permit, s, n2) =>
      let (v, permit, s, more) := runUntilAsleep b p limit v permit s
      (v, permit, s, n1 ++ n2 ++ more)
    | none => (v, permit, s, n1)

end Service
end Vouch
