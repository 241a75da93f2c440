import Vouch.Toml.Document
import Vouch.Toml.Number
import Vouch.Toml.Quoted
/-!
# Reading TOML text

A document is read line by line into statements, which `Document` puts together. Arrays may run over
lines, with comments and a last comma; tables within braces may do none of this. Containers nest
less than eighty deep, and a dotted name has less than eighty parts.

Every step consumes a character, so a reader given the length of the text as fuel does not run out.
-/
namespace Vouch.Toml

open Text (expect)

/-- The bound on the nesting of containers and on the parts of a dotted name. -/
def depthBound : Nat := 80

/-- The text behind a comment, if one comes next. -/
def skipComment : List Char → List Char
  | '#' :: rest => rest.dropWhile isPlain
  | cs => cs

/-- The text of the next line, if nothing but blanks and a comment is left on this one. -/
def endLine (cs : List Char) : Option (List Char) :=
  match skipComment (skipBlanks cs) with
  | [] => some []
  | cs => lineEnd? cs

/-- The text behind blanks, line ends and comments. -/
def skipLines : (fuel : Nat) → List Char → Option (List Char)
  | 0, _ => none
  | fuel + 1, cs =>
    match skipBlanks cs with
    | '#' :: rest => (lineEnd? (rest.dropWhile isPlain)).bind (skipLines fuel)
    | cs =>
      match lineEnd? cs with
      | some rest => skipLines fuel rest
      | none => some cs

/-! ## Names -/

def isBare (c : Char) : Bool :=
  let n := c.toNat
  (48 ≤ n && n ≤ 57) || (65 ≤ n && n ≤ 90) || (97 ≤ n && n ≤ 122) || c = '-' || c = '_'

/-- One part of a dotted name. -/
def readPart (cs : List Char) : Option (String × List Char) :=
  match cs with
  | '"' :: rest => readShort '"' rest
  | '\'' :: rest => readShort '\'' rest
  | _ =>
    let name := cs.takeWhile isBare
    if name.isEmpty then none else some (String.ofList name, cs.dropWhile isBare)

/-- The parts of a dotted name with blanks around each. -/
def readParts : (fuel : Nat) → List Char → Option (List String × List Char)
  | 0, _ => none
  | fuel + 1, cs => do
    let (part, cs) ← readPart (skipBlanks cs)
    match skipBlanks cs with
    | '.' :: rest =>
      let (parts, rest) ← readParts fuel rest
      return (part :: parts, rest)
    | cs => return ([part], cs)

/-- A dotted name: the parts before the last one, and the last one. -/
def readName (cs : List Char) : Option ((List String × String) × List Char) := do
  let (parts, rest) ← readParts (cs.length + 1) cs
  if depthBound ≤ parts.length then none
  else return ((parts.dropLast, ← parts.getLast?), rest)

/-! ## Values -/

def readWord (word : String) (v : Value) (cs : List Char) : Option (Value × List Char) :=
  let w := word.toList
  if cs.take w.length = w then some (v, cs.drop w.length) else none

mutual

/-- A value; `depth` is the number of containers around it. -/
def readValue (depth : Nat) : (fuel : Nat) → List Char → Option (Value × List Char)
  | 0, _ => none
  | fuel + 1, cs =>
    match cs with
    | '"' :: rest => (readText '"' rest).map fun (s, rest) => (.str s, rest)
    | '\'' :: rest => (readText '\'' rest).map fun (s, rest) => (.str s, rest)
    | '[' :: rest => if depth + 1 < depthBound then readItems (depth + 1) [] fuel rest else none
    | '\x7b' :: rest =>
      if depth + 1 < depthBound then
        match skipBlanks rest with
        | '\x7d' :: rest => some (.tbl [], rest)
        | rest => readInline (depth + 1) [] fuel rest
      else none
    | 't' :: _ => readWord "true" (.bool true) cs
    | 'f' :: _ => readWord "false" (.bool false) cs
    | _ => readNumberOrTime cs

/-- The items of an array from here on; `acc` holds the earlier ones, last first. -/
def readItems (depth : Nat) (acc : List Value) :
    (fuel : Nat) → List Char → Option (Value × List Char)
  | 0, _ => none
  | fuel + 1, cs =>
    match skipLines (cs.length + 1) cs with
    | none => none
    | some (']' :: rest) => some (.arr acc.reverse, rest)
    | some cs =>
      match readValue depth fuel cs with
      | none => none
      | some (v, cs) =>
        match skipLines (cs.length + 1) cs with
        | some (',' :: rest) => readItems depth (v :: acc) fuel rest
        | some (']' :: rest) => some (.arr (v :: acc).reverse, rest)
        | _ => none

/-- The entries of a table within braces from here on; `acc` holds the earlier ones, last first. -/
def readInline (depth : Nat) (acc : List EntryLine) :
    (fuel : Nat) → List Char → Option (Value × List Char)
  | 0, _ => none
  | fuel + 1, cs =>
    match readName cs with
    | none => none
    | some ((path, name), cs) =>
      match expect '=' cs with
      | none => none
      | some cs =>
        match readValue depth fuel (skipBlanks cs) with
        | none => none
        | some (v, cs) =>
          let acc := ⟨path, name, v⟩ :: acc
          match skipBlanks cs with
          | ',' :: rest => readInline depth acc fuel rest
          | '\x7d' :: rest => (inlineTable? acc.reverse).map fun v => (v, rest)
          | _ => none

end

/-! ## Statements -/

/-- A line of a document. -/
inductive Line where
  | blank
  | entry (e : EntryLine)
  | header (h : Header)

/-- An entry, up to the end of its value. -/
def readEntry (cs : List Char) : Option (EntryLine × List Char) := do
  let ((path, name), cs) ← readName cs
  let cs ← expect '=' cs
  let cs := skipBlanks cs
  let (v, cs) ← readValue 0 (2 * cs.length + 2) cs
  return (⟨path, name, v⟩, cs)

/-- A header, up to its closing bracket. -/
def readHeader (cs : List Char) : Option (Header × List Char) :=
  match cs with
  | '[' :: '[' :: rest => do
    let ((path, name), rest) ← readName rest
    let rest ← expect ']' rest
    let rest ← expect ']' rest
    return (.item path name, rest)
  | '[' :: rest => do
    let ((path, name), rest) ← readName rest
    let rest ← expect ']' rest
    return (.table path name, rest)
  | _ => none

/-- A line and the text of those after it. -/
def readStatement (cs : List Char) : Option (Line × List Char) :=
  match skipBlanks cs with
  | [] => some (.blank, [])
  | '[' :: rest => do
    let (h, rest) ← readHeader ('[' :: rest)
    return (.header h, ← endLine rest)
  | c :: rest =>
    if c = '#' ∨ c = '\n' ∨ c = '\r' then (endLine (c :: rest)).map fun rest => (.blank, rest)
    else do
      let (e, rest) ← readEntry (c :: rest)
      return (.entry e, ← endLine rest)

/-- Every line of a text. -/
def readStatements : (fuel : Nat) → List Char → Option (List Line)
  | 0, _ => none
  | _ + 1, [] => some []
  | fuel + 1, c :: cs => do
    let (line, rest) ← readStatement (c :: cs)
    return line :: (← readStatements fuel rest)

/-- Gathers lines into sections. -/
def gather : List Line → Document
  | [] => ⟨[], []⟩
  | .blank :: rest => gather rest
  | .entry e :: rest => let d := gather rest; { d with entries := e :: d.entries }
  | .header h :: rest => let d := gather rest; ⟨[], ⟨h, d.entries⟩ :: d.sections⟩

/-- A byte order mark at the start is no part of the text. -/
def withoutMark : List Char → List Char
  | '\uFEFF' :: rest => rest
  | cs => cs

/-- The table a text stands for. -/
def parse? (s : String) : Option Value := do
  let cs := withoutMark s.toList
  let lines ← readStatements (cs.length + 1) cs
  (gather lines).value?

end Vouch.Toml
