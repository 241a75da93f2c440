import Vouch.Certificate
import Vouch.SecurityContext
/-!
# Entries of the certificate store

An entry is a certificate on its way to being trusted, or trusted. It is named by the slot it lives
in and the number of times that slot was released before, so that a name outlives its entry without
ever naming another.
-/
namespace Vouch

/-- The name of an entry: its slot and the slot's generation. -/
structure EntryId where
  index : UInt32
  generation : UInt32
  deriving DecidableEq, Repr

def EntryId.describe (id : EntryId) : String :=
  s!"EntryId \x7b index: {id.index.toNat}, generation: {id.generation.toNat} \x7d"

/-- How a certificate reached the node: sent by the peer or overheard, or asked for. -/
inductive Origin where
  | unsolicited
  | requested
  deriving DecidableEq, Repr

/-- Whether the root's signature has been checked. -/
inductive EntryState where
  | pending
  | verified
  deriving DecidableEq, Repr

/-- A certificate with what is known about it. -/
structure Entry where
  certificate : Certificate
  origin : Origin
  state : EntryState
  pins : UInt32
  secret : Option SharedSecret
  context : Option SecurityContext
  deriving DecidableEq

namespace Entry

/-- The entry of a certificate that has just arrived. -/
def fresh (c : Certificate) (origin : Origin) : Entry := ⟨c, origin, .pending, 0, none, none⟩

def subject (e : Entry) : Eui64 := e.certificate.subject

end Entry

/-- A place for an entry; the generation counts how often it was released. -/
structure Slot where
  generation : UInt32
  entry : Option Entry
  deriving DecidableEq

/-- What adding a certificate came to. -/
inductive AddOutcome where
  | enqueued (id : EntryId)
  | alreadyPending (id : EntryId)
  | alreadyVerified (id : EntryId)
  deriving DecidableEq, Repr

namespace AddOutcome

def id : AddOutcome → EntryId
  | .enqueued id => id
  | .alreadyPending id => id
  | .alreadyVerified id => id

/-- Whether the verification pipeline has something to look at. -/
def wakes : AddOutcome → Bool
  | .alreadyVerified _ => false
  | _ => true

def kind : AddOutcome → String
  | .enqueued _ => "Enqueued"
  | .alreadyPending _ => "AlreadyPending"
  | .alreadyVerified _ => "AlreadyVerified"

def describe (o : AddOutcome) : String := s!"{o.kind}({o.id.describe})"

end AddOutcome

/-- Why the store refuses. -/
inductive StoreError where
  | exhausted (capacity : Nat)
  | pinned (subject : Eui64) (pins : UInt32)
  | unknownEntry (id : EntryId)
  | unknownSubject (subject : Eui64)
  deriving DecidableEq, Repr

def StoreError.message : StoreError → String
  | .exhausted capacity => s!"Certificate store exhausted (capacity {capacity})"
  | .pinned subject pins => s!"Entry for {subject.toHex} is pinned ({pins.toNat} references)"
  | .unknownEntry id => s!"Certificate not found: {id.describe}"
  | .unknownSubject subject => s!"Certificate not found: {subject.toHex}"

/-- A broken promise about pins: a holder that does not exist gives one back, or there are more
holders than can be counted. Whoever breaks one is stopped. -/
inductive PinMisuse where
  | notPinned (subject : Eui64)
  | tooMany
  deriving DecidableEq, Repr

def PinMisuse.message : PinMisuse → String
  | .notPinned subject => s!"unpin of {subject.toHex} with zero pin count"
  | .tooMany => "attempt to add with overflow"

/-- Why a pin was not taken or given back. -/
inductive PinError where
  | unknownEntry (id : EntryId)
  | misuse (m : PinMisuse)
  deriving DecidableEq, Repr

end Vouch
