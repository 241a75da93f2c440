import Vouch.Store.Entry
import Vouch.Address.Basic
import Vouch.Notice
import Vouch.Room
/-!
# The certificate store

A fixed number of slots hold entries. A free list names the empty slots, a queue the entries whose
signature is still to be checked, and a list the verified ones in the order of their promotion. An
entry that is pinned is not reclaimed, and of each subject there is at most one entry.

Every operation returns its answer with the store it leaves behind, also when it refuses.
-/
namespace Vouch

/-- The certificates a node holds, with the address and key of the network root. -/
structure Store where
  slots : List Slot
  free : List UInt32
  verified : List EntryId
  pending : List EntryId
  rootAddress : Address
  rootKey : PublicKey
  deriving DecidableEq

namespace Store

/-- An empty store. Slots are used from the lowest up. -/
def empty (capacity : Nat) (rootAddress : Address) (rootKey : PublicKey) : Store where
  slots := List.replicate capacity ⟨0, none⟩
  free := (List.range (capacity % UInt32.size)).map UInt32.ofNat
  verified := []
  pending := []
  rootAddress := rootAddress.normalise
  rootKey := rootKey

/-- The room that a slot takes. -/
def slotOctets : Nat := 256

/-- An empty store, unless the capacity is more than there is room for. -/
def create? (capacity : Nat) (rootAddress : Address) (rootKey : PublicKey) : Option Store :=
  if Room.isFor capacity slotOctets then some (empty capacity rootAddress rootKey) else none

/-! ## Looking up -/

def capacity (s : Store) : Nat := s.slots.length

/-- The number of entries. -/
def size (s : Store) : Nat := s.slots.length - s.free.length

/-- The entry an id names, if that very entry is still there. -/
def get? (s : Store) (id : EntryId) : Option Entry :=
  match s.slots[id.index.toNat]? with
  | some slot => if slot.generation = id.generation then slot.entry else none
  | none => none

/-- Whether an id names an entry of the given subject. -/
def names (s : Store) (subject : Eui64) (id : EntryId) : Bool :=
  match s.get? id with
  | some e => e.subject = subject
  | none => false

/-- The verified entry of a subject. -/
def find? (s : Store) (subject : Eui64) : Option EntryId := s.verified.find? (s.names subject)

/-- The entry of a subject that waits for verification. -/
def findPending? (s : Store) (subject : Eui64) : Option EntryId :=
  s.pending.find? (s.names subject)

/-- The verified entry of the peer at an address in either form. -/
def findAddress? (s : Store) (a : Address) : Option EntryId := s.find? a.normalise.eui64

/-- The certificate that vouches for the peer at an address. -/
def certificate? (s : Store) (a : Address) : Option Certificate :=
  (s.findAddress? a).bind fun id => (s.get? id).map Entry.certificate

/-- The key to check messages from an address with: the root's own for the root's address, else that
of the verified peer. -/
def publicKey? (s : Store) (a : Address) : Option PublicKey :=
  if a.normalise = s.rootAddress then some s.rootKey
  else (s.certificate? a).map Certificate.publicKey

/-- The tags certified for the peer at an address. -/
def tags? (s : Store) (a : Address) : Option Tags := (s.certificate? a).map Certificate.tags

def isPinned (s : Store) (id : EntryId) : Bool :=
  match s.get? id with
  | some e => 0 < e.pins
  | none => false

/-- The oldest entry that waits for verification. -/
def head? (s : Store) : Option EntryId := s.pending.head?

/-- The verified entries in the order of their promotion. -/
def verifiedEntries (s : Store) : List (EntryId × Entry) :=
  s.verified.filterMap fun id => (s.get? id).map fun e => (id, e)

/-! ## Changing -/

/-- Replaces an entry in place; an id that names none changes nothing. -/
def update (s : Store) (id : EntryId) (f : Entry → Entry) : Store :=
  match s.get? id with
  | some e => { s with slots := s.slots.set id.index.toNat ⟨id.generation, some (f e)⟩ }
  | none => s

/-- Accepts a certificate for verification, unless its subject already has an entry. A waiting entry
that is asked for after all becomes a requested one. -/
def add (s : Store) (c : Certificate) (origin : Origin) : Except StoreError AddOutcome × Store :=
  match s.find? c.subject with
  | some id => (.ok (.alreadyVerified id), s)
  | none =>
    match s.findPending? c.subject with
    | some id =>
      (.ok (.alreadyPending id),
        if origin = .requested then s.update id fun e => { e with origin := .requested } else s)
    | none =>
      match s.free with
      | [] => (.error (.exhausted s.capacity), s)
      | i :: free =>
        let generation := (s.slots[i.toNat]?.map Slot.generation).getD 0
        let id : EntryId := ⟨i, generation⟩
        (.ok (.enqueued id), { s with
          slots := s.slots.set i.toNat ⟨generation, some (Entry.fresh c origin)⟩
          free := free
          pending := s.pending ++ [id] })

/-- The most pins that can be counted. -/
def maxPins : UInt32 := 0xffffffff

/-- Takes a pin; the answer is the number of pins then held. -/
def pin (s : Store) (id : EntryId) : Except PinError UInt32 × Store :=
  match s.get? id with
  | none => (.error (.unknownEntry id), s)
  | some e =>
    if e.pins = maxPins then (.error (.misuse .tooMany), s)
    else (.ok (e.pins + 1), s.update id fun e => { e with pins := e.pins + 1 })

/-- Gives a pin back; the answer is the number of pins left. -/
def unpin (s : Store) (id : EntryId) : Except PinError UInt32 × Store :=
  match s.get? id with
  | none => (.error (.unknownEntry id), s)
  | some e =>
    if e.pins = 0 then (.error (.misuse (.notPinned e.subject)), s)
    else (.ok (e.pins - 1), s.update id fun e => { e with pins := e.pins - 1 })

/-- Gives back the pin of a guard. An entry that is gone needs none; one that has no pin left stops
the holder of the guard. -/
def dropGuard (s : Store) (id : EntryId) : Option PinMisuse × Store :=
  match s.unpin id with
  | (.error (.misuse m), s) => (some m, s)
  | (_, s) => (none, s)

/-- Makes an entry a verified one. -/
def promote (s : Store) (id : EntryId) : Except StoreError Unit × Store :=
  match s.get? id with
  | none => (.error (.unknownEntry id), s)
  | some _ =>
    let s := s.update id fun e => { e with state := .verified }
    (.ok (), { s with pending := s.pending.filter (· ≠ id), verified := s.verified ++ [id] })

/-- Empties the slot of an entry, unless it is pinned. -/
def release (s : Store) (id : EntryId) : Except StoreError Certificate × Store :=
  match s.get? id with
  | none => (.error (.unknownEntry id), s)
  | some e =>
    if 0 < e.pins then (.error (.pinned e.subject e.pins), s)
    else (.ok e.certificate, { s with
      slots := s.slots.set id.index.toNat ⟨id.generation + 1, none⟩
      free := id.index :: s.free })

/-- Drops an entry that failed verification; a pinned one stays in the queue. -/
def discard (s : Store) (id : EntryId) : Except StoreError Certificate × Store :=
  match s.release id with
  | (.ok c, s) => (.ok c, { s with pending := s.pending.filter (· ≠ id) })
  | (.error e, s) => (.error e, s)

/-- Reclaims the verified entry of a subject, unless it is pinned. -/
def remove (s : Store) (subject : Eui64) : Except StoreError Certificate × Store :=
  match s.find? subject with
  | none => (.error (.unknownSubject subject), s)
  | some id =>
    match s.release id with
    | (.ok c, s) => (.ok c, { s with verified := s.verified.filter (· ≠ id) })
    | (.error e, s) => (.error e, s)

/-- Attaches what a key exchange came to. -/
def setContext (s : Store) (id : EntryId) (secret : SharedSecret) (context : SecurityContext) :
    Except StoreError Unit × Store :=
  match s.get? id with
  | none => (.error (.unknownEntry id), s)
  | some _ =>
    (.ok (), s.update id fun e => { e with secret := some secret, context := some context })

/-- A full store is worth a notice. -/
def addNotices : Except StoreError AddOutcome → List Notice
  | .error (.exhausted _) => [.storeExhausted]
  | _ => []

end Store
end Vouch
