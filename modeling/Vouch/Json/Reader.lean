import Vouch.Json.Basic
import Vouch.Decimal.Nearest
import Vouch.Text.Digits
/-!
# Reading JSON text

A strict reader: blanks are the four of RFC 8259, at most 127 containers nest, of equal names in an
object the last counts, and a number whose magnitude no double has is refused. A number without
fraction and exponent is an integer if it lies between `-2 ^ 63` and `2 ^ 64 - 1`, else a real; so
is `-0`, for its sign.

Every step consumes a character, so a reader given the length of the text as fuel does not run out.
-/
namespace Vouch.Json

/-- The deepest nesting of containers. -/
def maxDepth : Nat := 127

def isBlank (c : Char) : Bool := c = ' ' || c = '\t' || c = '\n' || c = '\r'

def skipBlanks (cs : List Char) : List Char := cs.dropWhile isBlank

/-! ## Numbers -/

/-- A fraction, if a point comes next: its digits, of which there must be one. -/
def readFraction (cs : List Char) : Option (Option (List Nat) × List Char) :=
  match cs with
  | '.' :: rest =>
    let (ds, tail) := Text.spanDigits 10 rest
    if ds.isEmpty then none else some (some ds, tail)
  | _ => some (none, cs)

/-- An exponent, if `e` or `E` comes next. -/
def readExponent (cs : List Char) : Option (Option Int × List Char) :=
  match cs with
  | c :: rest =>
    if c = 'e' ∨ c = 'E' then
      let (negative, rest) := match rest with
        | '-' :: r => (true, r)
        | '+' :: r => (false, r)
        | r => (false, r)
      let (ds, tail) := Text.spanDigits 10 rest
      if ds.isEmpty then none
      else
        let n : Int := Text.ofDigits 10 ds 0
        some (some (if negative then -n else n), tail)
    else some (none, cs)
  | [] => some (none, cs)

/-- The value of a number without fraction and exponent. -/
def wholeNumber (negative : Bool) (n : Nat) : Option (Json Float) :=
  let finite (x : Float) : Option (Json Float) := if x.isFinite then some (.real x) else none
  if negative then
    if n = 0 then some (.real (Decimal.nearest true 0 0))
    else if n ≤ 0x8000000000000000 then some (.int (-(n : Int)))
    else finite (Decimal.nearest true n 0)
  else if n < UInt64.size then some (.int n)
  else finite (Decimal.nearest false n 0)

/-- The most digits of a number that are looked at. Neither a double nor a midpoint between two has
more, so what follows can only tell that the number is above a midpoint. -/
def maxDigits : Nat := 768

/-- The real that some digits, those of a fraction and an exponent stand for. Zeros at the end of a
fraction do not count. Beyond `maxDigits` all digits are taken for a single 1, also if they are
zeros, so a midpoint written with that many goes away from zero. -/
def realNumber (negative : Bool) (whole fraction : List Nat) (exponent : Int) : Float :=
  let fraction := (fraction.reverse.dropWhile (· = 0)).reverse
  let digits := (whole ++ fraction).dropWhile (· = 0)
  let lowest := exponent - fraction.length
  if digits.length ≤ maxDigits then Decimal.nearest negative (Text.ofDigits 10 digits 0) lowest
  else
    Decimal.nearest negative (Text.ofDigits 10 (digits.take maxDigits ++ [1]) 0)
      (lowest + (digits.length - (maxDigits + 1) : Nat))

def readUnsigned (negative : Bool) (cs : List Char) : Option (Json Float × List Char) := do
  let (whole, cs) := Text.spanDigits 10 cs
  if whole.isEmpty ∨ (whole.head? = some 0 ∧ 1 < whole.length) then none
  let (fraction, cs) ← readFraction cs
  let (exponent, cs) ← readExponent cs
  let n := Text.ofDigits 10 whole 0
  match fraction, exponent with
  | none, none => return (← wholeNumber negative n, cs)
  | _, _ =>
    let x := realNumber negative whole (fraction.getD []) (exponent.getD 0)
    if x.isFinite then return (.real x, cs) else none

def readNumber (cs : List Char) : Option (Json Float × List Char) :=
  match cs with
  | '-' :: rest => readUnsigned true rest
  | _ => readUnsigned false cs

/-! ## Strings -/

/-- Four hexadecimal digits. -/
def readUnit (cs : List Char) : Option (Nat × List Char) :=
  (Text.readDigits 16 4 cs).map fun (ds, rest) => (Text.ofDigits 16 ds 0, rest)

/-- The character after `\u`: one unit, or a pair of surrogates. -/
def readCodePoint (cs : List Char) : Option (Char × List Char) := do
  let (u, cs) ← readUnit cs
  if 0xD800 ≤ u ∧ u < 0xDC00 then
    match cs with
    | '\\' :: 'u' :: rest =>
      let (v, rest) ← readUnit rest
      if 0xDC00 ≤ v ∧ v < 0xE000 then
        return (Char.ofNat (0x10000 + (u - 0xD800) * 0x400 + (v - 0xDC00)), rest)
      else none
    | _ => none
  else if 0xDC00 ≤ u ∧ u < 0xE000 then none
  else return (Char.ofNat u, cs)

/-- The character a letter after a backslash stands for. -/
def simpleEscape? (c : Char) : Option Char :=
  if c = '"' ∨ c = '\\' ∨ c = '/' then some c
  else if c = 'b' then some '\x08'
  else if c = 'f' then some '\x0c'
  else if c = 'n' then some '\n'
  else if c = 'r' then some '\r'
  else if c = 't' then some '\t'
  else none

/-- The rest of a string, up to its closing quote; `acc` holds what was read, last first. -/
def readChars (acc : List Char) : (fuel : Nat) → List Char → Option (String × List Char)
  | 0, _ => none
  | _ + 1, [] => none
  | fuel + 1, c :: cs =>
    if c = '"' then some (String.ofList acc.reverse, cs)
    else if c = '\\' then
      match cs with
      | 'u' :: rest =>
        match readCodePoint rest with
        | some (d, rest) => readChars (d :: acc) fuel rest
        | none => none
      | e :: rest =>
        match simpleEscape? e with
        | some d => readChars (d :: acc) fuel rest
        | none => none
      | [] => none
    else if c.toNat < 0x20 then none
    else readChars (c :: acc) fuel cs

/-! ## Values -/

def readWord (word : String) (v : Json Float) (cs : List Char) : Option (Json Float × List Char) :=
  let w := word.toList
  if cs.take w.length = w then some (v, cs.drop w.length) else none

mutual

/-- A value; `depth` containers may still open. -/
def readValue (depth : Nat) : (fuel : Nat) → List Char → Option (Json Float × List Char)
  | 0, _ => none
  | fuel + 1, cs =>
    match skipBlanks cs with
    | [] => none
    | c :: rest =>
      if c = '"' then (readChars [] fuel rest).map fun (s, cs) => (.str s, cs)
      else if c = '[' then
        match depth with
        | 0 => none
        | depth + 1 =>
          match skipBlanks rest with
          | ']' :: rest => some (.arr [], rest)
          | rest => readItems depth [] fuel rest
      else if c = '\x7b' then
        match depth with
        | 0 => none
        | depth + 1 =>
          match skipBlanks rest with
          | '\x7d' :: rest => some (.obj [], rest)
          | rest => readMembers depth [] fuel rest
      else if c = 'n' then readWord "null" .null (c :: rest)
      else if c = 't' then readWord "true" (.bool true) (c :: rest)
      else if c = 'f' then readWord "false" (.bool false) (c :: rest)
      else readNumber (c :: rest)

/-- The items of an array from here on; `acc` holds the earlier ones, last first. -/
def readItems (depth : Nat) (acc : List (Json Float)) : (fuel : Nat) → List Char → Option (Json Float × List Char)
  | 0, _ => none
  | fuel + 1, cs =>
    match readValue depth fuel cs with
    | none => none
    | some (v, cs) =>
      match skipBlanks cs with
      | ',' :: rest => readItems depth (v :: acc) fuel rest
      | ']' :: rest => some (.arr (v :: acc).reverse, rest)
      | _ => none

/-- The members of an object from here on. -/
def readMembers (depth : Nat) (acc : List (String × Json Float)) :
    (fuel : Nat) → List Char → Option (Json Float × List Char)
  | 0, _ => none
  | fuel + 1, cs =>
    match skipBlanks cs with
    | '"' :: rest =>
      match readChars [] fuel rest with
      | none => none
      | some (name, cs) =>
        match skipBlanks cs with
        | ':' :: rest =>
          match readValue depth fuel rest with
          | none => none
          | some (v, cs) =>
            let acc := Entries.insert name v acc
            match skipBlanks cs with
            | ',' :: rest => readMembers depth acc fuel rest
            | '\x7d' :: rest => some (.obj acc, rest)
            | _ => none
        | _ => none
    | _ => none

end

/-- The value a text stands for. -/
def parse? (s : String) : Option (Json Float) :=
  let cs := s.toList
  match readValue maxDepth (2 * cs.length + 2) cs with
  | some (v, rest) => if (skipBlanks rest).isEmpty then some v else none
  | none => none

/-- The value that octets stand for, which must be UTF-8. -/
def parseOctets? (b : List UInt8) : Option (Json Float) :=
  (String.fromUTF8? ⟨b.toArray⟩).bind parse?

end Vouch.Json
