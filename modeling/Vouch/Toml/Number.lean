import Vouch.Toml.Value
import Vouch.Decimal.Nearest
import Vouch.Text.Digits
/-!
# Numbers, dates and times

Digits may be grouped by single underscores. Whole numbers are decimal, without leading zeros, or
`0x`, `0o` and `0b` without a sign, and fit 64 bits; a fraction or an exponent makes a real, of
which none may overflow upwards. Dates and times follow RFC 3339 and have to exist.

A reader gives `none` where a text is not TOML, and otherwise what it read and the text after it.
-/
namespace Vouch.Toml

open Text (digitValue? ofDigits readDigits expect)

/-- Digits with single underscores between them. -/
def readGrouped (radix : Nat) : List Char → Option (List Nat × List Char)
  | [] => none
  | c :: rest => (digitValue? radix c).bind fun d => tail [d] rest
where
  /-- The digits after a digit; `acc` holds those read, last first. -/
  tail (acc : List Nat) : List Char → Option (List Nat × List Char)
    | '_' :: c :: rest =>
      match digitValue? radix c with
      | some d => tail (d :: acc) rest
      | none => none
    | ['_'] => none
    | c :: rest =>
      match digitValue? radix c with
      | some d => tail (d :: acc) rest
      | none => some (acc.reverse, c :: rest)
    | [] => some (acc.reverse, [])

/-- How many non-negative numbers fit 64 bits with a sign. -/
def wordBound : Nat := 0x8000000000000000

/-- A whole number that fits 64 bits with a sign. -/
def word? (i : Int) : Option Value :=
  if -(wordBound : Int) ≤ i ∧ i < wordBound then some (.int i) else none

/-- A whole number in a radix other than ten. -/
def readRadix (radix : Nat) (cs : List Char) : Option (Value × List Char) := do
  let (ds, rest) ← readGrouped radix cs
  return (← word? (ofDigits radix ds 0), rest)

/-- A sign, if there is one; whether it is a minus. -/
def readSign : List Char → Option Bool × List Char
  | '-' :: rest => (some true, rest)
  | '+' :: rest => (some false, rest)
  | cs => (none, cs)

/-- Decimal digits without a leading zero. -/
def readWhole : List Char → Option (List Nat × List Char)
  | '0' :: rest => some ([0], rest)
  | cs => readGrouped 10 cs

/-- A fraction, if a point comes next. -/
def readFraction : List Char → Option (Option (List Nat) × List Char)
  | '.' :: rest => (readGrouped 10 rest).map fun (ds, rest) => (some ds, rest)
  | cs => some (none, cs)

/-- The digits of an exponent, with a sign or without. -/
def readExponentDigits (cs : List Char) : Option (Option Int × List Char) := do
  let (minus, cs) := readSign cs
  let (ds, rest) ← readGrouped 10 cs
  let n : Int := ofDigits 10 ds 0
  return (some (if minus = some true then -n else n), rest)

/-- An exponent, if `e` or `E` comes next. -/
def readExponent : List Char → Option (Option Int × List Char)
  | 'e' :: rest => readExponentDigits rest
  | 'E' :: rest => readExponentDigits rest
  | cs => some (none, cs)

/-- A decimal number behind its sign. -/
def readDecimal (minus : Bool) (cs : List Char) : Option (Value × List Char) := do
  let (whole, cs) ← readWhole cs
  let (fraction, cs) ← readFraction cs
  let (exponent, cs) ← readExponent cs
  let n := ofDigits 10 whole 0
  if fraction.isNone && exponent.isNone then
    return (← word? (if minus then -(n : Int) else n), cs)
  else
    let ds := fraction.getD []
    let x := Decimal.nearest minus (ofDigits 10 ds n) (exponent.getD 0 - ds.length)
    if x.isInf && !minus then none else return (.real x, cs)

/-- A sign's effect on a number that no digits write. -/
def signed (minus : Bool) (x : Float) : Value := .real (if minus then -x else x)

/-- A number. -/
def readNumber (cs : List Char) : Option (Value × List Char) :=
  match cs with
  | '0' :: 'x' :: rest => readRadix 16 rest
  | '0' :: 'o' :: rest => readRadix 8 rest
  | '0' :: 'b' :: rest => readRadix 2 rest
  | _ =>
    let (sign, rest) := readSign cs
    let minus := sign = some true
    match rest with
    | 'i' :: 'n' :: 'f' :: rest => some (signed minus (1.0 / 0.0), rest)
    | 'n' :: 'a' :: 'n' :: rest => some (signed minus (0.0 / 0.0), rest)
    | rest => readDecimal minus rest

/-! ## Dates and times -/

/-- Two digits of a number up to a bound. -/
def readTwo (highest : Nat) (cs : List Char) : Option (Nat × List Char) := do
  let (ds, rest) ← readDigits 10 2 cs
  let n := ofDigits 10 ds 0
  if n ≤ highest then some (n, rest) else none

def isLeapYear (y : Nat) : Bool := y % 4 = 0 && (y % 100 ≠ 0 || y % 400 = 0)

def daysInMonth (y m : Nat) : Nat :=
  if m = 2 then if isLeapYear y then 29 else 28
  else if m = 4 ∨ m = 6 ∨ m = 9 ∨ m = 11 then 30
  else 31

/-- The month and the day behind the year of a date. -/
def readMonthDay (year : Nat) (cs : List Char) : Option (List Char) := do
  let (m, cs) ← readTwo 12 cs
  let cs ← expect '-' cs
  let (d, cs) ← readTwo (daysInMonth year m) cs
  if 1 ≤ m ∧ 1 ≤ d then some cs else none

/-- Minutes, seconds and a fraction of a second behind the hour of a time. -/
def readMinutes (cs : List Char) : Option (List Char) := do
  let (_, cs) ← readTwo 59 cs
  let cs ← expect ':' cs
  let (_, cs) ← readTwo 60 cs
  match cs with
  | '.' :: rest =>
    match Text.spanDigits 10 rest with
    | ([], _) => none
    | (_, rest) => some rest
  | _ => some cs

/-- The hour of a time with its colon, if a time comes next. -/
def hour? (cs : List Char) : Option (List Char) := do
  let (_, cs) ← readTwo 23 cs
  expect ':' cs

/-- An offset from universal time, if one comes next. -/
def readOffset (cs : List Char) : Option (List Char) :=
  match cs with
  | 'Z' :: rest => some rest
  | 'z' :: rest => some rest
  | '+' :: rest => hourMinute rest
  | '-' :: rest => hourMinute rest
  | _ => some cs
where
  hourMinute (cs : List Char) : Option (List Char) := do
    let cs ← hour? cs
    let (_, cs) ← readTwo 59 cs
    return cs

/-- The time behind a date, if one comes next. -/
def readTimeOfDay (cs : List Char) : Option (List Char) :=
  match cs with
  | c :: rest =>
    if c = 'T' ∨ c = 't' ∨ c = ' ' then
      match hour? rest with
      | some rest => (readMinutes rest).bind readOffset
      | none => some cs
    else some cs
  | [] => some cs

/-- The year of a date with its dash, if a date comes next. -/
def year? (cs : List Char) : Option (Nat × List Char) := do
  let (ds, cs) ← readDigits 10 4 cs
  let cs ← expect '-' cs
  return (ofDigits 10 ds 0, cs)

/-- A date, a time, both, or a number. -/
def readNumberOrTime (cs : List Char) : Option (Value × List Char) :=
  match year? cs with
  | some (year, rest) =>
    ((readMonthDay year rest).bind readTimeOfDay).map fun rest => (.time, rest)
  | none =>
    match hour? cs with
    | some rest => (readMinutes rest).map fun rest => (.time, rest)
    | none => readNumber cs

end Vouch.Toml
