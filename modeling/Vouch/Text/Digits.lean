/-!
# Digits of a radix

Numbers in text are runs of digits; letters of either case continue the decimal digits up to the
radix, which is at most sixteen.
-/
namespace Vouch.Text

/-- The value of a digit. -/
def digitValue? (radix : Nat) (c : Char) : Option Nat :=
  let n := c.toNat
  let v := if 48 ≤ n ∧ n ≤ 57 then n - 48
    else if 97 ≤ n ∧ n ≤ 102 then n - 87
    else if 65 ≤ n ∧ n ≤ 70 then n - 55
    else radix
  if v < radix then some v else none

/-- The longest run of digits at the front, as values, and what follows it. -/
def spanDigits (radix : Nat) : List Char → List Nat × List Char
  | [] => ([], [])
  | c :: rest =>
    match digitValue? radix c with
    | some v => let (vs, tail) := spanDigits radix rest; (v :: vs, tail)
    | none => ([], c :: rest)

/-- The number that digits stand for, after digits that stand for `acc`. -/
def ofDigits (radix : Nat) (ds : List Nat) (acc : Nat) : Nat :=
  ds.foldl (fun n d => n * radix + d) acc

/-- Exactly `count` digits at the front. -/
def readDigits (radix : Nat) : (count : Nat) → List Char → Option (List Nat × List Char)
  | 0, cs => some ([], cs)
  | _ + 1, [] => none
  | count + 1, c :: rest => do
    let v ← digitValue? radix c
    let (vs, tail) ← readDigits radix count rest
    return (v :: vs, tail)

/-- The text behind a character that has to come next. -/
def expect (c : Char) : List Char → Option (List Char)
  | d :: rest => if c = d then some rest else none
  | [] => none

end Vouch.Text
