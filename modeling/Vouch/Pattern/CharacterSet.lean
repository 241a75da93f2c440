import Vouch.Pattern.Escape
/-!
# Sets of characters in a pattern

A set stands in square brackets: characters, ranges, shorthands, sets given by name such as
`[:digit:]`, and further sets, joined by `&&`, `--` and `~~`. A circumflex at the front asks for all
other characters. Hyphens at the front stand for themselves, and so does a closing bracket if nothing
is before it, for no set is empty.

Reading a set gives how deep it nests, and what is behind it. A set is one deeper than its deepest
part; to join sets, or to list more than one member, is a level of its own.

Every step consumes a character, so a reader given the length of the text as fuel does not run out.
-/
namespace Vouch.Pattern

/-- How deep a sequence nests, given how deep its parts do: one deeper than the deepest, if there is
more than one. -/
def nestAll : List Nat → Nat
  | [] => 0
  | [n] => n
  | n :: m :: rest => 1 + (m :: rest).foldl max n

/-- A set that is being read: what its members nest, last first, and what is left of the last
operator. -/
structure OpenSet where
  operand : Option Nat
  members : List Nat
  deriving DecidableEq, Repr

namespace OpenSet

/-- One more member. -/
def add (s : OpenSet) (nesting : Nat) : OpenSet := { s with members := nesting :: s.members }

/-- How deep what has been read nests. -/
def nesting (s : OpenSet) : Nat :=
  match s.operand with
  | none => nestAll s.members
  | some n => 1 + max n (nestAll s.members)

/-- What has been read becomes the left side of an operator. -/
def operate (s : OpenSet) : OpenSet := ⟨some s.nesting, []⟩

end OpenSet

/-- The sets that are given by name. -/
def setNames : List String :=
  ["alnum", "alpha", "ascii", "blank", "cntrl", "digit", "graph", "lower", "print", "punct", "space",
    "upper", "word", "xdigit"]

/-- A set given by name behind its opening bracket: whether all other characters are meant, and what
is behind it. -/
def readNamed? : List Char → Option (Bool × List Char)
  | ':' :: cs =>
    let (negated, cs) := match cs with
      | '^' :: cs => (true, cs)
      | cs => (false, cs)
    let (name, rest) := cs.span (· ≠ ':')
    match rest with
    | ':' :: ']' :: rest => if String.ofList name ∈ setNames then some (negated, rest) else none
    | _ => none
  | _ => none

/-- Hyphens at the front of a set; how many, and what is behind them. -/
def readHyphens (o : Options) : (fuel : Nat) → List Char → Nat × List Char
  | 0, cs => (0, cs)
  | fuel + 1, cs =>
    match cs with
    | '-' :: rest => let (n, rest) := readHyphens o fuel (o.skip rest); (n + 1, rest)
    | cs => (0, cs)

/-- The front of a set behind its opening bracket. -/
def openSet? (o : Options) (cs : List Char) : Option (OpenSet × List Char) :=
  let (negated, cs) := match o.skip cs with
    | '^' :: rest => (true, o.skip rest)
    | cs => (false, cs)
  let (hyphens, cs) := readHyphens o (cs.length + 1) cs
  let (brackets, cs) := match hyphens, cs with
    | 0, ']' :: rest => (1, o.skip rest)
    | _, cs => (0, cs)
  let count := hyphens + brackets
  if o.allowsSet negated && (count = 0 || o.allowsMember ⟨'-', false⟩) then
    some (⟨none, List.replicate count 0⟩, cs)
  else none

/-- A character of a set, as it is or as an escape. -/
def readPrimitive (o : Options) : List Char → Option (Escape × List Char)
  | [] => none
  | '\\' :: cs => readEscape o cs
  | c :: cs => some (.literal ⟨c, false⟩, cs)

/-- Whether an escape is a member of a set by itself. -/
def allowsAlone (o : Options) : Escape → Bool
  | .literal l => o.allowsMember l
  | .shorthand negated => o.allowsShorthand negated
  | _ => false

/-- Whether two escapes are the ends of a range. -/
def allowsRange (o : Options) : Escape → Escape → Bool
  | .literal a, .literal b => o.allowsMember a && o.allowsMember b && decide (a.char ≤ b.char)
  | _, _ => false

/-- A character, a range or a shorthand in a set; what is behind it. -/
def readMember (o : Options) (cs : List Char) : Option (List Char) := do
  let (first, cs) ← readPrimitive o cs
  let cs := o.skip cs
  let alone := if allowsAlone o first then some cs else none
  match cs with
  | '-' :: rest =>
    if o.glance rest = some ']' ∨ o.glance rest = some '-' then alone
    else
      let (last, cs) ← readPrimitive o (o.skip rest)
      if allowsRange o first last then some cs else none
  | _ => alone

/-- Whether two characters join sets. -/
def isOperator (c d : Char) : Bool := c = d && (c = '&' || c = '-' || c = '~')

/-- The rest of a set, and of the sets that it stands in. -/
def readMembers (o : Options) :
    (fuel : Nat) → (outer : List OpenSet) → OpenSet → List Char → Option (Nat × List Char)
  | 0, _, _, _ => none
  | fuel + 1, outer, s, cs =>
    match o.skip cs with
    | [] => none
    | '[' :: rest =>
      match readNamed? rest with
      | some (negated, rest) =>
        if o.allowsNamedSet negated then readMembers o fuel outer (s.add 0) rest else none
      | none =>
        match openSet? o rest with
        | some (inner, rest) => readMembers o fuel (s :: outer) inner rest
        | none => none
    | ']' :: rest =>
      match outer with
      | [] => some (1 + s.nesting, rest)
      | t :: outer => readMembers o fuel outer (t.add (1 + s.nesting)) rest
    | c :: rest =>
      match rest with
      | d :: behind =>
        if isOperator c d then readMembers o fuel outer s.operate behind
        else
          match readMember o (c :: d :: behind) with
          | some rest => readMembers o fuel outer (s.add 0) rest
          | none => none
      | [] => none

/-- A set behind its opening bracket: how deep it nests, and what is behind it. -/
def readSet (o : Options) (cs : List Char) : Option (Nat × List Char) :=
  match openSet? o cs with
  | some (s, rest) => readMembers o (rest.length + 1) [] s rest
  | none => none

end Vouch.Pattern
