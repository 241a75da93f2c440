import Vouch.Bytes
import Vouch.Text.Quoted
/-!
# Hexadecimal text

Octets are written as two lower-case digits each; digits of either case are read. Reading works on
the UTF-8 octets of the text: an odd number of them is refused before any digit is looked at, and
the first octet that is no digit is reported with its position.
-/
namespace Vouch

/-- Why a text is not hexadecimal. -/
inductive HexError where
  | oddLength
  | notADigit (octet : UInt8) (position : Nat)
  deriving DecidableEq, Repr

/-- An octet that is no digit is shown as the character of that number. -/
def HexError.message : HexError → String
  | .oddLength => "Odd number of digits"
  | .notADigit octet position =>
    s!"Invalid character {Text.quoteChar (Char.ofNat octet.toNat)} at position {position}"

namespace Hex

def digit (n : Nat) : Char := if n < 10 then Char.ofNat (48 + n) else Char.ofNat (87 + n)

def encode (b : Bytes) : String :=
  String.ofList (b.flatMap fun x => [digit (x.toNat / 16), digit (x.toNat % 16)])

def value? (x : UInt8) : Option UInt8 :=
  if 48 ≤ x ∧ x ≤ 57 then some (x - 48)
  else if 97 ≤ x ∧ x ≤ 102 then some (x - 87)
  else if 65 ≤ x ∧ x ≤ 70 then some (x - 55)
  else none

/-- The value of one digit at `position`. -/
def value (position : Nat) (x : UInt8) : Except HexError UInt8 :=
  match value? x with
  | some v => .ok v
  | none => .error (.notADigit x position)

/-- Reads pairs of digits, the first of them at `position`. -/
def decodeFrom (position : Nat) : Bytes → Except HexError Bytes
  | hi :: lo :: rest => do
    let h ← value position hi
    let l ← value (position + 1) lo
    return (h * 16 + l) :: (← decodeFrom (position + 2) rest)
  | _ => .ok []

def decodeOctets (b : Bytes) : Except HexError Bytes :=
  if b.length % 2 = 1 then .error .oddLength else decodeFrom 0 b

def decode (s : String) : Except HexError Bytes := decodeOctets s.toUTF8.toList

end Hex
end Vouch
