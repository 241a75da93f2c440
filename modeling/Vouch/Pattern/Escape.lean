import Vouch.Pattern.Options
import Vouch.Text.Digits
/-!
# Escapes of a pattern

A backslash takes its special meaning from the character behind it, or gives it one. All of ASCII but
letters, digits and angle brackets stands for itself behind a backslash; a letter stands for a
control, for a code point in hexadecimal, for a place in the text, or for a set of characters.
-/
namespace Vouch.Pattern

/-- What a backslash and the text behind it stand for. -/
inductive Escape where
  | literal (l : Literal)
  /-- Digits, blanks, the characters of words, or all but these. -/
  | shorthand (negated : Bool)
  /-- The start or the end of the text. -/
  | anchor
  /-- The edge of a word. -/
  | boundary
  deriving DecidableEq, Repr

/-- The number of hexadecimal digits behind a letter that introduces them. -/
def codeDigits? (c : Char) : Option Nat :=
  if c = 'x' then some 2 else if c = 'u' then some 4 else if c = 'U' then some 8 else none

/-- The control that a letter stands for. -/
def control? (c : Char) : Option Char :=
  [('a', '\x07'), ('f', '\x0c'), ('t', '\t'), ('n', '\n'), ('r', '\r'), ('v', '\x0b')].lookup c

/-- Whether a character stands for itself behind a backslash. -/
def isInert (c : Char) : Bool := c.toNat < 0x80 && !c.isAlphanum && c ≠ '<' && c ≠ '>'

/-- A number of hexadecimal digits, each of which may have blanks behind it where these are skipped;
`acc` is what the digits before them stand for. -/
def readCode (o : Options) : (count acc : Nat) → List Char → Option (Nat × List Char)
  | 0, acc, cs => some (acc, cs)
  | _ + 1, _, [] => none
  | count + 1, acc, c :: cs =>
    match Text.digitValue? 16 c with
    | some d => readCode o count (acc * 16 + d) (o.skip cs)
    | none => none

/-- Reads an escape behind its backslash. -/
def readEscape (o : Options) : List Char → Option (Escape × List Char)
  | [] => none
  | c :: cs =>
    match codeDigits? c with
    | some count =>
      match readCode o count 0 (o.skip cs) with
      | some (n, rest) =>
        if n.isValidChar then some (.literal ⟨Char.ofNat n, c = 'x'⟩, rest) else none
      | none => none
    | none =>
      match control? c with
      | some d => some (.literal ⟨d, false⟩, cs)
      | none =>
        if isInert c then some (.literal ⟨c, false⟩, cs)
        else if c ∈ ['d', 's', 'w'] then some (.shorthand false, cs)
        else if c ∈ ['D', 'S', 'W'] then some (.shorthand true, cs)
        else if c ∈ ['A', 'z'] then some (.anchor, cs)
        else if c ∈ ['b', 'B', '<', '>'] then some (.boundary, cs)
        else none

end Vouch.Pattern
