import Vouch.Address.Basic
import Vouch.Text.Digits
/-!
# Address text

An address is read from groups of one to four hexadecimal digits between colons; a trailing dotted
quad may stand for the last two groups, and one `::` for one or more zero groups. Nothing may
surround it. It is written in lower case, the first longest run of two or more zero groups as `::`,
and a quad only for the IPv4-mapped addresses `::ffff:a.b.c.d`.
-/
namespace Vouch.Address

open Text (spanDigits ofDigits expect)

/-! ## Reading -/

/-- One to four hexadecimal digits; a fifth is refused. -/
def readGroup (cs : List Char) : Option (Nat × List Char) :=
  let (ds, rest) := spanDigits 16 cs
  if ds.isEmpty ∨ 4 < ds.length then none else some (ofDigits 16 ds 0, rest)

/-- A number below 256 in at most three decimal digits, without a leading zero. -/
def readOctet (cs : List Char) : Option (Nat × List Char) :=
  let (ds, rest) := spanDigits 10 cs
  let v := ofDigits 10 ds 0
  if ds.isEmpty ∨ 3 < ds.length ∨ (ds.head? = some 0 ∧ 1 < ds.length) ∨ 255 < v then none
  else some (v, rest)

/-- A dotted quad, as two groups. -/
def readQuad (cs : List Char) : Option (Nat × Nat × List Char) := do
  let (a, cs) ← readOctet cs
  let cs ← expect '.' cs
  let (b, cs) ← readOctet cs
  let cs ← expect '.' cs
  let (c, cs) ← readOctet cs
  let cs ← expect '.' cs
  let (d, cs) ← readOctet cs
  return (a * 256 + b, c * 256 + d, cs)

/-- What a run of groups came to: the groups, whether a quad ended it, and the text after it. -/
structure Run where
  groups : List Nat
  quad : Bool
  rest : List Char

/-- Reads up to `slots` groups with a colon before each but the first. A quad is tried wherever two
slots are left; the run ends where neither it nor a group can be read. -/
def readRun : (slots : Nat) → (first : Bool) → List Char → Run
  | 0, _, cs => ⟨[], false, cs⟩
  | slots + 1, first, cs =>
    match (if first then some cs else expect ':' cs) with
    | none => ⟨[], false, cs⟩
    | some body =>
      match (if 1 ≤ slots then readQuad body else none) with
      | some (a, b, rest) => ⟨[a, b], true, rest⟩
      | none =>
        match readGroup body with
        | none => ⟨[], false, cs⟩
        | some (g, rest) =>
          let tail := readRun slots false rest
          { tail with groups := g :: tail.groups }

/-- Reads an address from the front of a text. -/
def read (cs : List Char) : Option (Address × List Char) :=
  let head := readRun 8 true cs
  if head.groups.length = 8 then some (ofGroups head.groups, head.rest)
  else if head.quad then none
  else do
    let cs ← expect ':' head.rest
    let cs ← expect ':' cs
    let tail := readRun (7 - head.groups.length) true cs
    let zeros := List.replicate (8 - head.groups.length - tail.groups.length) 0
    return (ofGroups (head.groups ++ zeros ++ tail.groups), tail.rest)

/-- The address a text stands for, if it is one and nothing else. -/
def parse? (s : String) : Option Address :=
  match read s.toList with
  | some (a, []) => some a
  | _ => none

/-! ## Writing -/

/-- The length of the run of zeros at the front. -/
def zeroRun (g : List Nat) : Nat := (g.takeWhile (· = 0)).length

/-- Start and length of the first longest run of zeros. -/
def longestZeroRun (g : List Nat) : Nat × Nat :=
  (List.range g.length).foldl
    (fun best i => let n := zeroRun (g.drop i); if best.2 < n then (i, n) else best) (0, 0)

def hexGroup (n : Nat) : String := String.ofList (Nat.toDigits 16 n)

def joinGroups (g : List Nat) : String := String.intercalate ":" (g.map hexGroup)

/-- The text of an address. -/
def text (a : Address) : String :=
  let g := a.groups
  if g.take 6 = [0, 0, 0, 0, 0, 0xffff] then
    "::ffff:" ++ String.intercalate "." ((a.toBytes.drop 12).map fun x => toString x.toNat)
  else
    let (start, len) := longestZeroRun g
    if 1 < len then joinGroups (g.take start) ++ "::" ++ joinGroups (g.drop (start + len))
    else joinGroups g

end Vouch.Address
