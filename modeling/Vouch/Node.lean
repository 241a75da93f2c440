import Vouch.Service
import Vouch.KeyRequest
import Vouch.TimedLock
/-!
# A node

What the parts of a node share: the store, the permit that wakes the pipeline, and the lock that
allows one outstanding request. `request` and `missingContext` start the work for a peer that is
unknown or has no security context; the work itself is a `Request` or an `Exchange` that the caller
carries on, and a request gives the lock back when it is over.
-/
namespace Vouch

/-- The shared state of a node. -/
structure Node where
  store : Store
  /-- A wake-up that the pipeline has not taken yet. -/
  permit : Bool
  lock : TimedLock

/-- How a call for a peer was answered. -/
inductive RequestOutcome where
  /-- A verified certificate is already held. -/
  | alreadyKnown
  /-- Another request is outstanding. -/
  | busy
  /-- A request is on its way; it holds the lock. -/
  | sent (token : LockToken) (r : Request)
  /-- The peer is verified and has no context; an exchange is on its way and holds a pin. -/
  | exchanging (x : Exchange)

namespace Node

def new (store : Store) (timeout : Nat) : Node := ⟨store, false, .new timeout⟩

/-- Accepts a certificate and wakes the pipeline if there is something to look at. -/
def add (n : Node) (c : Certificate) (origin : Origin) :
    Except StoreError AddOutcome × Node × List Notice :=
  match n.store.add c origin with
  | (.ok o, s) => (.ok o, { n with store := s, permit := n.permit || o.wakes }, [])
  | (.error e, s) => (.error e, { n with store := s }, Store.addNotices (.error e))

/-- Whether a request is outstanding. -/
def isRequesting (n : Node) (now : Nat) : Bool := n.lock.isLocked now

/-- Asks for the certificate of the peer at an address, unless it is known or another request is
outstanding. -/
def request (n : Node) (now : Nat) (a : Address) : RequestOutcome × Node × List Notice :=
  if (n.store.findAddress? a).isSome then (.alreadyKnown, n, [])
  else
    match n.lock.tryLock now with
    | (none, lock) => (.busy, { n with lock := lock }, [.requestOutstanding])
    | (some token, lock) =>
      (.sent token (.signing a), { n with lock := lock }, n.lock.tryNotices now)

/-- The verified entry of the peer at an address that has no security context. -/
def withoutContext? (n : Node) (a : Address) : Option EntryId :=
  match n.store.findAddress? a with
  | none => none
  | some id =>
    match n.store.get? id with
    | some e => if e.context.isNone then some id else none
    | none => some id

/-- Answers a secured message from a peer without a context: a verified peer goes through a key
exchange, any other is asked for. -/
def missingContext (n : Node) (now : Nat) (a : Address) : RequestOutcome × Node × List Notice :=
  match n.withoutContext? a with
  | none => n.request now a
  | some id =>
    match n.store.pin id with
    | (.ok _, s) => (.exchanging (.pinned id), { n with store := s }, [])
    | (.error _, s) =>
      let (o, n, ns) := { n with store := s }.request now a
      (o, n, .peerNotPinned :: ns)

/-- Takes the certificate of a confirmed request into the store and, when a request is over, gives
its lock back. -/
def settleRequest (n : Node) (token : LockToken) (r : Request) : Request × Node × List Notice :=
  let (r, s, ns) := r.settle n.store
  match r with
  | .finished (.ok o) =>
    (r, { store := s, permit := n.permit || o.wakes, lock := (n.lock.unlock token).2 }, ns)
  | .finished (.error e) =>
    (.finished (.error e), { n with store := s, lock := (n.lock.unlock token).2 },
      ns ++ [.requestFailed])
  | r => (r, { n with store := s }, ns)

end Node
end Vouch
