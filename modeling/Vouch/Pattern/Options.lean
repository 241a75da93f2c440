import Vouch.Text.Blank
/-!
# Options of a pattern

How a pattern is read can be changed on the way, for the rest of a group. In a verbose pattern
blanks and comments are skipped. With Unicode characters are matched, without it octets. Texts are
UTF-8, so without Unicode nothing is allowed that could match half a character. There are no tables
of characters, so with Unicode letters cannot be matched in either case, and there are no shorthands
for digits, blanks and words.

* `skip_of_not_verbose`: where blanks count, none is skipped.
* `length_skip_le`: what is left after skipping is not longer.
-/
namespace Vouch.Pattern

structure Options where
  verbose : Bool
  unicode : Bool
  caseless : Bool
  deriving DecidableEq, Repr

/-- A character that a pattern names, `octet` if it is written as one octet in hexadecimal. -/
structure Literal where
  char : Char
  octet : Bool
  deriving DecidableEq, Repr

namespace Options

/-- What a pattern begins with. -/
def default : Options := ⟨false, true, false⟩

/-! ## Flags -/

/-- The letters of the options, and the mark behind which they are switched off. Those of `m`, `s`,
`U` and `R` change what a pattern matches, and not whether it is one. -/
def flags : List Char := ['i', 'm', 's', 'U', 'u', 'R', 'x', '-']

/-- What flags say of an option. -/
def setting? (flag : Char) (given : List Char) : Option Bool :=
  if flag ∈ given then some ('-' ∉ given.takeWhile (· ≠ flag)) else none

/-- The options that flags leave in force. -/
def set (o : Options) (given : List Char) : Options where
  verbose := (setting? 'x' given).getD o.verbose
  unicode := (setting? 'u' given).getD o.unicode
  caseless := (setting? 'i' given).getD o.caseless

/-! ## Blanks and comments -/

/-- The text behind blanks and comments; a comment ends with its line. -/
def skipNotes (comment : Bool) : List Char → List Char
  | [] => []
  | c :: cs =>
    if comment then skipNotes (c ≠ '\n') cs
    else if Text.isBlank c then skipNotes false cs
    else if c = '#' then skipNotes true cs
    else c :: cs

/-- The text behind what these options skip. -/
def skip (o : Options) (cs : List Char) : List Char := if o.verbose then skipNotes false cs else cs

/-- The first character behind blanks and one mark of a comment. -/
def firstShown? (comment : Bool) : List Char → Option Char
  | [] => none
  | c :: cs =>
    if Text.isBlank c then firstShown? comment cs
    else if c = '#' ∧ ¬ comment then firstShown? true cs
    else some c

/-- The character that decides whether a hyphen is the middle of a range. In a verbose pattern blanks
before it are looked past, and so is the mark of a comment, but not the comment. -/
def glance (o : Options) (cs : List Char) : Option Char :=
  if o.verbose then (firstShown? false cs).or cs.head? else cs.head?

/-! ## What is allowed -/

/-- Whether a character may stand by itself. -/
def allowsLiteral (o : Options) (l : Literal) : Bool :=
  if o.unicode then !o.caseless else !(l.octet && 0x7F < l.char.toNat)

/-- Whether a character may be named in a set. -/
def allowsMember (o : Options) (l : Literal) : Bool :=
  if o.unicode then !o.caseless else l.char.toNat ≤ 0x7F

/-- Whether a shorthand is known; its complement would match half a character. -/
def allowsShorthand (o : Options) (negated : Bool) : Bool := !o.unicode && !negated

/-- Whether a set given by name may be used. -/
def allowsNamedSet (o : Options) (negated : Bool) : Bool := if o.unicode then !o.caseless else !negated

/-- Whether a set may be complemented. -/
def allowsSet (o : Options) (negated : Bool) : Bool := o.unicode || !negated

/-- Whether anything but a line end may be asked for. -/
def allowsDot (o : Options) : Bool := o.unicode

theorem skip_of_not_verbose {o : Options} (h : o.verbose = false) (cs : List Char) :
    o.skip cs = cs := by
  simp [skip, h]

theorem length_skipNotes_le (comment : Bool) (cs : List Char) :
    (skipNotes comment cs).length ≤ cs.length := by
  induction cs generalizing comment with
  | nil => exact Nat.le_refl _
  | cons c cs ih =>
    rw [skipNotes]
    split
    · exact Nat.le_succ_of_le (ih _)
    · split
      · exact Nat.le_succ_of_le (ih _)
      · split
        · exact Nat.le_succ_of_le (ih _)
        · exact Nat.le_refl _

theorem length_skip_le (o : Options) (cs : List Char) : (o.skip cs).length ≤ cs.length := by
  rw [skip]
  split
  · exact length_skipNotes_le false cs
  · exact Nat.le_refl _

end Options
end Vouch.Pattern
