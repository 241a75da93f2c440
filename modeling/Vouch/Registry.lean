import Vouch.Address.Text
import Vouch.Notice
import Vouch.Room
/-!
# The registry of edges

Edges are registered under an address and an identity, and announce capabilities by name. There are
three limits: on edges, on the capabilities of one edge, and on all capabilities together. Edges are
kept in the order of registration and capabilities in the order of announcement, each with
statistics of a type that the registry does not look into.

Registering or announcing anew what is there already gives it back untouched. Every operation
returns its answer with the registry it leaves behind, also when it refuses.
-/
namespace Vouch

/-- The number under which an edge is registered. -/
structure EdgeId where
  number : UInt32
  deriving DecidableEq, Repr

def EdgeId.text (id : EdgeId) : String := s!"edge#{id.number.toNat}"

/-- Something an edge can do, with statistics of how well it does it. -/
structure Capability (κ : Type) where
  name : String
  trust : κ
  deriving DecidableEq, Repr

/-- A registered edge. -/
structure Edge (ε κ : Type) where
  id : EdgeId
  /-- In its global form. -/
  address : Address
  identity : String
  capabilities : List (Capability κ)
  trust : ε
  deriving DecidableEq, Repr

structure RegistryLimits where
  edges : Nat
  /-- Over all edges together. -/
  capabilities : Nat
  perEdge : Nat
  deriving DecidableEq, Repr

/-- Statistics that start out in a fixed state. -/
class Fresh (τ : Type) where
  fresh : τ
  /-- The room that they take. -/
  octets : Nat

/-- The registered edges. -/
structure Registry (ε κ : Type) where
  edges : List (Edge ε κ)
  limits : RegistryLimits
  nextId : UInt32
  deriving DecidableEq, Repr

/-- What can run out. -/
inductive Pool where
  | edges
  | capabilitiesPerEdge
  | capabilities
  deriving DecidableEq, Repr

def Pool.text : Pool → String
  | .edges => "edge"
  | .capabilitiesPerEdge => "per-edge capability"
  | .capabilities => "capability"

/-- Why the registry refuses. -/
inductive RegistryError where
  | exhausted (pool : Pool) (capacity : Nat)
  | addressInUse (a : Address) (owner : String)
  | nameTooLong (name : String) (limit : Nat)
  | unknownEdge (id : EdgeId)
  | unknownCapability (edge capability : String)
  /-- The capabilities of an edge would need more room than there is. -/
  | noRoom
  deriving DecidableEq, Repr

def RegistryError.message : RegistryError → String
  | .exhausted pool capacity => s!"{pool.text} capacity {capacity} exhausted"
  | .addressInUse a owner => s!"Address {a.text} already registered to {owner}"
  | .nameTooLong name limit => s!"Name too long: {Text.quoteString name} exceeds {limit} bytes"
  | .unknownEdge id => s!"Unknown edge resource: {id.text}"
  | .unknownCapability edge capability => s!"Unknown capability {capability} on {edge}"
  | .noRoom => Room.exceeded

/-- A full registry or pool is worth a notice; a full edge is not. -/
def RegistryError.notices : RegistryError → List Notice
  | .exhausted .edges _ => [.registryFull]
  | .exhausted .capabilities _ => [.capabilityPoolFull]
  | _ => []

/-- The longest identity of an edge, in octets. -/
def maxIdentityLength : Nat := 32

/-- The longest name of a capability, in octets. -/
def maxCapabilityNameLength : Nat := 16

namespace Edge

variable {ε κ : Type}

def capability? (e : Edge ε κ) (name : String) : Option (Capability κ) :=
  e.capabilities.find? fun c => c.name = name

end Edge

namespace Registry

variable {ε κ : Type}

def empty (limits : RegistryLimits) : Registry ε κ := ⟨[], limits, 0⟩

/-- Whether there is room for as many edges as the limits allow. Besides its statistics an edge
takes seventy-two octets. -/
def hasRoom (ε : Type) [Fresh ε] (limits : RegistryLimits) : Bool :=
  Room.isFor limits.edges (72 + Fresh.octets ε)

/-- An empty registry, unless the limits ask for more edges than there is room for. -/
def create? [Fresh ε] (limits : RegistryLimits) : Option (Registry ε κ) :=
  if hasRoom ε limits then some (.empty limits) else none

/-- Whether there is room for as many capabilities of an edge as the limits allow. Besides its
statistics a capability takes twenty-four octets. -/
def hasRoomPerEdge (κ : Type) [Fresh κ] (limits : RegistryLimits) : Bool :=
  Room.isFor limits.perEdge (24 + Fresh.octets κ)

/-! ## Looking up -/

def size (r : Registry ε κ) : Nat := r.edges.length

/-- The number of capabilities of all edges together. -/
def capabilityTotal (r : Registry ε κ) : Nat :=
  r.edges.foldr (fun e n => e.capabilities.length + n) 0

def get? (r : Registry ε κ) (id : EdgeId) : Option (Edge ε κ) := r.edges.find? fun e => e.id = id

/-- The edge at an address in either form. -/
def findAddress? (r : Registry ε κ) (a : Address) : Option (Edge ε κ) :=
  r.edges.find? fun e => e.address = a.normalise

def findIdentity? (r : Registry ε κ) (identity : String) : Option (Edge ε κ) :=
  r.edges.find? fun e => e.identity = identity

def findCapability? (r : Registry ε κ) (id : EdgeId) (name : String) : Option (Capability κ) :=
  (r.get? id).bind fun e => e.capability? name

/-! ## Changing -/

/-- Replaces the first of the edges that has a property. -/
def modifyFirst (p : Edge ε κ → Bool) (f : Edge ε κ → Edge ε κ) :
    List (Edge ε κ) → List (Edge ε κ)
  | [] => []
  | e :: rest => if p e then f e :: rest else e :: modifyFirst p f rest

/-- Replaces an edge; an id that names none changes nothing. -/
def modify (r : Registry ε κ) (id : EdgeId) (f : Edge ε κ → Edge ε κ) : Registry ε κ :=
  { r with edges := modifyFirst (fun e => e.id = id) f r.edges }

/-- Registers an edge, or gives back the one of that identity. Room for all its capabilities is laid
out at once; where there is none, the number of the edge is used up nevertheless. -/
def add [Fresh ε] [Fresh κ] (r : Registry ε κ) (a : Address) (identity : String) :
    Except RegistryError (Edge ε κ) × Registry ε κ :=
  if maxIdentityLength < identity.utf8ByteSize then
    (.error (.nameTooLong identity maxIdentityLength), r)
  else
    match r.findIdentity? identity with
    | some e => (.ok e, r)
    | none =>
      match r.findAddress? a with
      | some owner => (.error (.addressInUse a.normalise owner.identity), r)
      | none =>
        if r.limits.edges ≤ r.size then (.error (.exhausted .edges r.limits.edges), r)
        else if ¬ hasRoomPerEdge κ r.limits then (.error .noRoom, { r with nextId := r.nextId + 1 })
        else
          let e : Edge ε κ := ⟨⟨r.nextId⟩, a.normalise, identity, [], Fresh.fresh⟩
          (.ok e, { r with edges := r.edges ++ [e], nextId := r.nextId + 1 })

/-- Strikes an edge off with its capabilities. -/
def remove (r : Registry ε κ) (id : EdgeId) : Except RegistryError (Edge ε κ) × Registry ε κ :=
  match r.get? id with
  | none => (.error (.unknownEdge id), r)
  | some e => (.ok e, { r with edges := r.edges.eraseP fun e => e.id = id })

/-- Adds a capability to an edge, or gives back the one of that name. -/
def addCapability [Fresh κ] (r : Registry ε κ) (id : EdgeId) (name : String) :
    Except RegistryError (Capability κ) × Registry ε κ :=
  if maxCapabilityNameLength < name.utf8ByteSize then
    (.error (.nameTooLong name maxCapabilityNameLength), r)
  else
    match r.get? id with
    | none => (.error (.unknownEdge id), r)
    | some e =>
      match e.capability? name with
      | some c => (.ok c, r)
      | none =>
        if r.limits.perEdge ≤ e.capabilities.length then
          (.error (.exhausted .capabilitiesPerEdge r.limits.perEdge), r)
        else if r.limits.capabilities ≤ r.capabilityTotal then
          (.error (.exhausted .capabilities r.limits.capabilities), r)
        else
          let c : Capability κ := ⟨name, Fresh.fresh⟩
          (.ok c, r.modify id fun e => { e with capabilities := e.capabilities ++ [c] })

/-- Withdraws a capability of an edge. -/
def removeCapability (r : Registry ε κ) (id : EdgeId) (name : String) :
    Except RegistryError (Capability κ) × Registry ε κ :=
  match r.get? id with
  | none => (.error (.unknownEdge id), r)
  | some e =>
    match e.capability? name with
    | none => (.error (.unknownCapability e.identity name), r)
    | some c =>
      (.ok c, r.modify id fun e =>
        { e with capabilities := e.capabilities.eraseP fun c => c.name = name })

/-- Changes the statistics of an edge and answers with what the change came to. -/
def withEdge {β : Type} (r : Registry ε κ) (id : EdgeId) (f : Edge ε κ → β × Edge ε κ) :
    Option β × Registry ε κ :=
  match r.get? id with
  | none => (none, r)
  | some e => (some (f e).1, r.modify id fun e => (f e).2)

end Registry
end Vouch
