import Vouch.Store.Basic
import Vouch.Crypto.Backend
/-!
# Key exchange with a verified peer

An exchange reads the peer's key from its entry, has the backend agree on a secret, derives the
security context and attaches both to the entry. Its holder has pinned the entry beforehand; the
exchange gives the pin back as its last act, whatever came of it. Other work goes on between any two
of its steps, so an exchange is a machine: `step` makes the step that a state allows, and in the
state `agreeing` the backend's answer is awaited.

* `rank_step`, `rank_answer`: every step and every answer brings an exchange closer to its end.
-/
namespace Vouch

/-- Why an exchange gave no context. -/
inductive ExchangeError where
  | store (e : StoreError)
  | crypto (e : CryptoError)
  deriving DecidableEq, Repr

def ExchangeError.message : ExchangeError → String
  | .store e => e.message
  | .crypto e => e.message

/-- Where an exchange stands. -/
inductive Exchange where
  /-- The entry is pinned and not read yet. -/
  | pinned (id : EntryId)
  /-- The backend is at work. -/
  | agreeing (id : EntryId) (peer : Eui64) (key : PublicKey)
  /-- The context is derived and not stored yet. -/
  | derived (id : EntryId) (secret : SharedSecret) (context : SecurityContext)
  /-- The result stands; the pin is still held. -/
  | settled (id : EntryId) (result : Except ExchangeError Unit)
  | finished (result : Except ExchangeError Unit)
  /-- Giving the pin back broke a promise. -/
  | stopped (m : PinMisuse)

namespace Exchange

def rank : Exchange → Nat
  | .pinned _ => 4
  | .agreeing _ _ _ => 3
  | .derived _ _ _ => 2
  | .settled _ _ => 1
  | .finished _ => 0
  | .stopped _ => 0

/-- The step an exchange makes by itself, if it is not waiting and not over. -/
def step (x : Exchange) (s : Store) : Option (Exchange × Store) :=
  match x with
  | .pinned id =>
    match s.get? id with
    | none => some (.settled id (.error (.store (.unknownEntry id))), s)
    | some e => some (.agreeing id e.subject e.certificate.publicKey, s)
  | .agreeing _ _ _ => none
  | .derived id secret context =>
    match s.setContext id secret context with
    | (.ok (), s) => some (.settled id (.ok ()), s)
    | (.error e, s) => some (.settled id (.error (.store e)), s)
  | .settled id result =>
    match s.dropGuard id with
    | (some m, s) => some (.stopped m, s)
    | (none, s) => some (.finished result, s)
  | .finished _ => none
  | .stopped _ => none

/-- Hands over the secret that the backend agreed on, or its failure. -/
def answer (self : Eui64) (secret : Except CryptoError SharedSecret) : Exchange → Exchange
  | .agreeing id peer _ =>
    match secret with
    | .ok k => .derived id k (.derive k self peer)
    | .error e => .settled id (.error (.crypto e))
  | x => x

/-- A failed agreement is worth a notice. -/
def answerNotices : Except CryptoError SharedSecret → List Notice
  | .ok _ => []
  | .error _ => [.exchangeFailed]

theorem rank_step {x x' : Exchange} {s s' : Store} (h : x.step s = some (x', s')) :
    x'.rank < x.rank := by
  unfold step at h
  repeat' split at h
  all_goals simp_all [rank]
  all_goals (obtain ⟨rfl, rfl⟩ := h; simp)

theorem rank_answer (self : Eui64) (secret : Except CryptoError SharedSecret) (id : EntryId)
    (peer : Eui64) (key : PublicKey) :
    (answer self secret (.agreeing id peer key)).rank < (Exchange.agreeing id peer key).rank := by
  cases secret <;> simp [answer, rank]

/-- The steps up to the next wait or the end. -/
def settle (x : Exchange) (s : Store) : Exchange × Store :=
  match h : x.step s with
  | some (x', s') =>
    have := rank_step h
    x'.settle s'
  | none => (x, s)
termination_by x.rank

/-- A whole exchange with nothing in between. -/
def run (b : Backend) (self : Eui64) (x : Exchange) (s : Store) : Exchange × Store × List Notice :=
  match x.settle s with
  | (.agreeing id peer key, s) =>
    let secret := b.agree key
    let (x, s) := (answer self secret (.agreeing id peer key)).settle s
    (x, s, answerNotices secret)
  | (x, s) => (x, s, [])

end Exchange
end Vouch
