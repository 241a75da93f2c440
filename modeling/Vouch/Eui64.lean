import Vouch.Hex
/-!
# Device identities

A device is named by its EUI-64, eight octets written as sixteen hexadecimal digits. The trailing
octets double as short identifiers of a security context.

* `ofBytes?_toBytes`, `toBytes_inj`: an identity is determined by its octets.
-/
namespace Vouch

/-- The identity of a device, the subject of its certificate. -/
structure Eui64 where
  octets : Octets 8
  deriving DecidableEq, Repr

/-- Why a text names no device. -/
inductive Eui64Error where
  | hex (cause : HexError)
  | length (found : Nat)
  deriving DecidableEq, Repr

def Eui64Error.message : Eui64Error → String
  | .hex cause => s!"Invalid encoding: {cause.message}"
  | .length found => s!"Invalid encoding: EUI-64 must be 8 bytes, got {found}"

namespace Eui64

def toBytes (e : Eui64) : Bytes := e.octets.toList

def ofBytes? (b : Bytes) : Option Eui64 := (Bytes.octets? 8 b).map Eui64.mk

def toHex (e : Eui64) : String := Hex.encode e.toBytes

/-- The identity with its kind, as diagnostics show it. -/
def describe (e : Eui64) : String := s!"Eui64({e.toHex})"

def ofHex (s : String) : Except Eui64Error Eui64 :=
  match Hex.decode s with
  | .error cause => .error (.hex cause)
  | .ok b =>
    match ofBytes? b with
    | some e => .ok e
    | none => .error (.length b.length)

/-- The last `n` octets, or all eight. -/
def suffix (e : Eui64) (n : Nat) : Bytes := e.toBytes.drop (8 - min n 8)

@[simp] theorem length_toBytes (e : Eui64) : e.toBytes.length = 8 := by simp [toBytes]

theorem ofBytes?_toBytes (e : Eui64) : ofBytes? e.toBytes = some e := by
  simp [ofBytes?, toBytes, Bytes.octets?_toList]

theorem toBytes_inj {a b : Eui64} : a.toBytes = b.toBytes ↔ a = b := by
  constructor
  · intro h
    have := ofBytes?_toBytes a
    rw [h, ofBytes?_toBytes] at this
    exact (Option.some.inj this).symm
  · rintro rfl; rfl

end Eui64
end Vouch
