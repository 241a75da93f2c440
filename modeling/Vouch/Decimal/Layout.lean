import Vouch.Decimal.Shortest
/-!
# Layouts of a floating-point number

A double is written with the fewest digits that read back. Three layouts differ in when an exponent
appears and how whole numbers look: `plain` for messages, `exact` for values shown in a broken
promise, and `record` for persisted statistics.
-/
namespace Vouch.Decimal

/-- How digits become text. -/
structure Layout where
  /-- The exponents of the first digit that are written without an exponent. -/
  positional : Int → Bool
  /-- Whether a whole number is written with `.0`. -/
  wholePoint : Bool
  /-- What stands between `e` and a non-negative exponent. -/
  exponentSign : String
  /-- Whether a tie between two shortest decimals goes to the larger. -/
  tieUp : Bool

/-- Never an exponent, and nothing after a whole number. -/
def plain : Layout := ⟨fun _ => true, false, "", true⟩

/-- Whole numbers end in `.0`; an exponent from `1e16` on and below `1e-4`. -/
def exact : Layout := ⟨fun e => -4 ≤ e && e ≤ 15, true, "", true⟩

/-- Whole numbers end in `.0`; an exponent, always signed, from `1e16` on and below `1e-5`. -/
def record : Layout := ⟨fun e => -5 ≤ e && e ≤ 15, true, "+", false⟩

namespace Layout

/-- Digits without an exponent. -/
def positionalText (l : Layout) (d : Digits) : String :=
  let cs := d.chars
  if 0 ≤ d.exponent then
    String.ofList (cs ++ List.replicate d.exponent.toNat '0') ++ (if l.wholePoint then ".0" else "")
  else
    let places := (-d.exponent).toNat
    if places < cs.length then
      String.ofList (cs.take (cs.length - places) ++ '.' :: cs.drop (cs.length - places))
    else String.ofList ('0' :: '.' :: (List.replicate (places - cs.length) '0' ++ cs))

/-- Digits with an exponent: one before the point, no point without digits after it. -/
def exponentText (l : Layout) (d : Digits) : String :=
  let (first, rest) := (d.chars.take 1, d.chars.drop 1)
  let mantissa := String.ofList (if rest.isEmpty then first else first ++ '.' :: rest)
  let sign := if d.lead < 0 then "-" else l.exponentSign
  mantissa ++ "e" ++ sign ++ toString d.lead.natAbs

def digitsText (l : Layout) (d : Digits) : String :=
  if l.positional d.lead then l.positionalText d else l.exponentText d

def text (l : Layout) (x : Float) : String :=
  match decode x.toBits with
  | .nan => "NaN"
  | .infinite negative => if negative then "-inf" else "inf"
  | .finite negative m q =>
    let digits := if m = 0 then ⟨0, 0⟩ else shortest l.tieUp m q
    (if negative then "-" else "") ++ l.digitsText digits

end Layout
end Vouch.Decimal
