import Vouch.Text.Digits
/-!
# Quoted text in TOML

Text between double quotes has escapes, text between single quotes has none. Three quotes in a row
open a text that may run over lines; a line end right behind them is not part of it, and one or two
quotes may stand inside or before the closing three. Line ends are read as a single `\n`. Controls
other than the tab have to be escaped.

Every step consumes a character, so a reader given the length of the text as fuel does not run out.
-/
namespace Vouch.Toml

/-- Whether a character may stand in a text or a comment as it is. -/
def isPlain (c : Char) : Bool := c = '\t' || (0x20 ≤ c.toNat && c.toNat ≠ 0x7F)

def isBlank (c : Char) : Bool := c = ' ' || c = '\t'

def skipBlanks (cs : List Char) : List Char := cs.dropWhile isBlank

/-- The text behind a line end, if one comes next. -/
def lineEnd? : List Char → Option (List Char)
  | '\n' :: rest => some rest
  | '\r' :: '\n' :: rest => some rest
  | _ => none

/-- The text behind any blanks and line ends. -/
def skipBlankLines : List Char → List Char
  | ' ' :: rest => skipBlankLines rest
  | '\t' :: rest => skipBlankLines rest
  | '\n' :: rest => skipBlankLines rest
  | '\r' :: '\n' :: rest => skipBlankLines rest
  | cs => cs

/-- The character with the code point that the next digits give. -/
def readCodePoint (digits : Nat) (cs : List Char) : Option (Char × List Char) := do
  let (ds, rest) ← Text.readDigits 16 digits cs
  let n := Text.ofDigits 16 ds 0
  if n.isValidChar then some (Char.ofNat n, rest) else none

/-- The character an escape stands for, read behind its backslash. -/
def readEscape : List Char → Option (Char × List Char)
  | 'b' :: rest => some ('\x08', rest)
  | 't' :: rest => some ('\t', rest)
  | 'n' :: rest => some ('\n', rest)
  | 'f' :: rest => some ('\x0c', rest)
  | 'r' :: rest => some ('\r', rest)
  | '"' :: rest => some ('"', rest)
  | '\\' :: rest => some ('\\', rest)
  | 'u' :: rest => readCodePoint 4 rest
  | 'U' :: rest => readCodePoint 8 rest
  | _ => none

/-- The rest of a text on one line up to its closing quote; `acc` holds what was read, last first. -/
def readLine (quote : Char) (acc : List Char) : (fuel : Nat) → List Char → Option (String × List Char)
  | 0, _ => none
  | _ + 1, [] => none
  | fuel + 1, c :: cs =>
    if c = quote then some (String.ofList acc.reverse, cs)
    else if c = '\\' ∧ quote = '"' then
      match readEscape cs with
      | some (d, rest) => readLine quote (d :: acc) fuel rest
      | none => none
    else if isPlain c then readLine quote (c :: acc) fuel cs
    else none

/-- How many quotes come next, up to five. -/
def quoteRun (quote : Char) (cs : List Char) : Nat := ((cs.take 5).takeWhile (· = quote)).length

/-- A backslash at the end of a line joins it to the next one that holds anything: the text from
there. -/
def joined? (cs : List Char) : Option (List Char) := (lineEnd? (skipBlanks cs)).map skipBlankLines

/-- The rest of a text over lines up to its closing quotes. -/
def readLines (quote : Char) (acc : List Char) :
    (fuel : Nat) → List Char → Option (String × List Char)
  | 0, _ => none
  | _ + 1, [] => none
  | fuel + 1, c :: cs =>
    if c = quote then
      let run := quoteRun quote (c :: cs)
      if 3 ≤ run then
        some (String.ofList (acc.reverse ++ List.replicate (run - 3) quote), cs.drop (run - 1))
      else readLines quote (c :: acc) fuel cs
    else if c = '\\' ∧ quote = '"' then
      match joined? cs with
      | some rest => readLines quote acc fuel rest
      | none =>
        match readEscape cs with
        | some (d, rest) => readLines quote (d :: acc) fuel rest
        | none => none
    else
      match lineEnd? (c :: cs) with
      | some rest => readLines quote ('\n' :: acc) fuel rest
      | none => if isPlain c then readLines quote (c :: acc) fuel cs else none

/-- A text on one line, behind its opening quote. -/
def readShort (quote : Char) (cs : List Char) : Option (String × List Char) :=
  readLine quote [] (cs.length + 1) cs

/-- A text of either form, behind its first quote. -/
def readText (quote : Char) (cs : List Char) : Option (String × List Char) :=
  if cs.take 2 = [quote, quote] then
    let body := cs.drop 2
    readLines quote [] (cs.length + 1) ((lineEnd? body).getD body)
  else readShort quote cs

end Vouch.Toml
