import Vouch.Notice
import Vouch.Pattern.Reader
import Vouch.Text.Alphanumeric
import Vouch.Text.Blank
import Vouch.Text.Slice
/-!
# Directives of a log filter

A directive is a level, or names a part of the program and gives the level up to which it is logged:
`part=level`. Behind the part a span and a field may stand in brackets: `part[span]=level`,
`part[{field}]=level`, `part[span{field=value}]=level`. Without a level all is logged.

Blanks at both ends are not looked at when the marks of a directive are searched, but they are not
taken away either: what is between two marks is cut from the whole text, at the octets where the
marks would stand without blanks. Behind blanks a part therefore begins and ends too early, and
where it would end inside a character nothing can be cut.

* `cut_eq_ok_iff`: when a part can be cut, and what it is.
* `isBroader_irrefl`, `isBroader_trans`: directives are ordered by how narrow they are.
-/
namespace Vouch

/-- A condition on a field: that it is there, or that it has a value as well. -/
structure FieldCondition where
  name : String
  value : Option String
  deriving DecidableEq, Repr

/-- Logs events up to a rank, 0 for none. -/
structure Directive where
  /-- What the name of a part of the program starts with. -/
  part : String
  span : Option String
  field : Option FieldCondition
  rank : Nat
  deriving DecidableEq, Repr

/-- Why a text is no directive. -/
inductive DirectiveError where
  | malformed
  | unknownLevel
  /-- A value is neither a number nor a pattern that can be matched. -/
  | badPattern (cause : Pattern.PatternError)
  /-- A part would begin or end inside a character. -/
  | misaligned
  deriving DecidableEq, Repr

def DirectiveError.message : DirectiveError → String
  | .malformed => "invalid filter directive"
  | .unknownLevel =>
    "error parsing level filter: expected one of \"off\", \"error\", \"warn\", \"info\", " ++
      "\"debug\", \"trace\", or a number 0-5"
  | .badPattern cause => "invalid field filter: " ++ cause.message
  | .misaligned => "part of a directive cut inside a character"

/-! ## Fields -/

namespace FieldCondition

/-- Whether characters are a decimal number, which may have a fraction and an exponent. -/
def isDecimal (cs : List Char) : Bool :=
  let (whole, rest) := Text.spanDigits 10 cs
  let (fraction, rest) := match rest with
    | '.' :: rest => Text.spanDigits 10 rest
    | rest => ([], rest)
  !(whole.isEmpty && fraction.isEmpty) && (rest.isEmpty || isExponent rest)
where
  isExponent : List Char → Bool
    | e :: cs =>
      let digits := match cs with
        | '+' :: cs => cs
        | '-' :: cs => cs
        | cs => cs
      (e = 'e' || e = 'E') && match Text.spanDigits 10 digits with
        | (_ :: _, []) => true
        | _ => false
    | [] => false

/-- Whether a text is a number with a plus sign. -/
def isSigned (s : String) : Bool :=
  match s.toList with
  | '+' :: cs => isDecimal cs || (String.ofList cs).toLower ∈ ["inf", "infinity", "nan"]
  | _ => false

/-- Reads a condition on a field. A value is a number, a truth value or a pattern. -/
def read (s : String) : Except DirectiveError FieldCondition :=
  match s.splitOn "=" with
  | name :: value :: _ =>
    if isSigned value then .ok ⟨name, some value⟩
    else
      match Pattern.check value with
      | .ok () => .ok ⟨name, some value⟩
      | .error cause => .error (.badPattern cause)
  | _ => .ok ⟨s, none⟩

end FieldCondition

namespace Directive

/-! ## Levels -/

/-- The rank that a number stands for; a plus sign and zeros may stand in front. -/
def numberRank? (word : String) : Option Nat :=
  let digits := match word.toList with
    | '+' :: cs => cs
    | cs => cs
  match Text.spanDigits 10 digits with
  | (d :: ds, []) => some (Text.ofDigits 10 (d :: ds) 0) |>.filter (· ≤ Level.trace.rank)
  | _ => none

/-- The rank that a name in letters of either case stands for. -/
def nameRank? (word : String) : Option Nat :=
  let names := [("off", 0), ("error", 1), ("warn", 2), ("info", 3), ("debug", 4), ("trace", 5)]
  (names.find? fun n => n.1 = word.toLower).map Prod.snd

/-- The rank that a word stands for. -/
def rank? (word : String) : Option Nat := (numberRank? word).or (nameRank? word)

/-- The rank behind an equals sign. -/
def levelRank (word : String) : Except DirectiveError Nat :=
  if word = "" then .ok Level.trace.rank
  else
    match rank? word with
    | some r => .ok r
    | none => .error .unknownLevel

/-! ## Directives -/

/-- The part of a text between two octets. -/
def cut (s : String) (start stop : Nat) : Except DirectiveError String :=
  match Text.slice? s.toList start stop with
  | some cs => .ok (String.ofList cs)
  | none => .error .misaligned

/-- The part of a text from an octet on. -/
def cutFrom (s : String) (start : Nat) : Except DirectiveError String :=
  cut s start (Text.octets s.toList)

/-- The level behind a closing bracket. -/
def levelBehind (s : String) (start : Nat) : List Char → Except DirectiveError Nat
  | [] => .ok Level.trace.rank
  | '=' :: _ => do levelRank (← cutFrom s (start + 1))
  | _ => .error .malformed

/-- The rest of a directive from the octet `start` on, behind the bracket that opens. -/
def qualified (s : String) (part : String) (start : Nat) (cs : List Char) :
    Except DirectiveError Directive := do
  let (name, rest) := cs.span fun c => c ≠ ']' && c ≠ '\x7b'
  let stop := start + Text.octets name
  match rest with
  | [] => .error .malformed
  | ']' :: rest =>
    let span ← cut s start stop
    return ⟨part, some span, none, ← levelBehind s (stop + 1) rest⟩
  | _ :: rest =>
    let span ← cut s start stop
    let (condition, rest) := rest.span fun c => c ≠ '\x7d'
    let close := stop + 1 + Text.octets condition
    match rest with
    | [] => .error .malformed
    | _ :: rest =>
      let condition ← cut s (stop + 1) close
      if condition = "" then .error .malformed
      let condition ← FieldCondition.read condition
      match rest with
      | ']' :: rest =>
        let span := if span = "" then none else some span
        return ⟨part, span, some condition, ← levelBehind s (close + 2) rest⟩
      | _ => .error .malformed

/-- Whether the name of a part may start with a character. -/
def startsPart (c : Char) : Bool := c ∈ ['-', ':', '_'] || Text.isAlphanumeric c

/-- A directive of one word: a level, or a part that is logged in full. -/
def ofWord (s : String) : Directive :=
  match rank? s with
  | some r => ⟨"", none, none, r⟩
  | none => ⟨s, none, none, Level.trace.rank⟩

/-- Reads a directive. -/
def read (s : String) : Except DirectiveError Directive := do
  match (Text.trim s).toList with
  | [] => .error .malformed
  | '[' :: cs => qualified s "" 1 cs
  | c :: cs =>
    if ¬ startsPart c then .error .malformed
    else
      let (name, rest) := (c :: cs).span fun c => c ≠ '=' && c ≠ '['
      let stop := Text.octets name
      match rest with
      | [] => return ofWord s
      | '=' :: _ =>
        let part ← cut s 0 stop
        return ⟨part, none, none, ← levelRank (← cutFrom s (stop + 1))⟩
      | _ :: rest => qualified s (← cut s 0 stop) (stop + 1) rest

theorem cut_eq_ok_iff {s p : String} {start stop : Nat} :
    cut s start stop = .ok p ↔ Text.slice? s.toList start stop = some p.toList := by
  rw [cut]
  cases Text.slice? s.toList start stop with
  | none => simp
  | some cs =>
    simp only [Except.ok.injEq, Option.some.injEq]
    constructor
    · rintro rfl
      rw [String.toList_ofList]
    · rintro rfl
      rw [String.ofList_toList]

/-! ## What a directive concerns -/

/-- Whether a directive applies to events that are in no span; one that names a span or compares a
value does not. -/
def isSpanless (d : Directive) : Bool :=
  d.span.isNone && (d.field.all fun f => f.value.isNone)

/-- Whether a directive is about an event of a part of the program with some fields. -/
def covers (d : Directive) (part : String) (fields : List String) : Bool :=
  d.isSpanless && part.startsWith d.part && (d.field.all fun f => fields.contains f.name)

/-- The name of the field that a directive asks for. -/
def fieldName (d : Directive) : String := (d.field.map FieldCondition.name).getD ""

/-- Whether a directive says less than another of what it is about: its part is shorter, or as long
and its field comes earlier. To ask for no field comes first. -/
def isBroader (d e : Directive) : Bool :=
  d.part.utf8ByteSize < e.part.utf8ByteSize ||
    (d.part.utf8ByteSize = e.part.utf8ByteSize && d.fieldName < e.fieldName)

theorem isBroader_iff {d e : Directive} : d.isBroader e = true ↔
    d.part.utf8ByteSize < e.part.utf8ByteSize ∨
      d.part.utf8ByteSize = e.part.utf8ByteSize ∧ d.fieldName < e.fieldName := by
  simp [isBroader]

theorem isBroader_irrefl (d : Directive) : ¬ d.isBroader d = true := by
  rw [isBroader_iff]
  rintro (h | ⟨_, h⟩)
  · exact Nat.lt_irrefl _ h
  · exact String.lt_irrefl _ h

theorem isBroader_trans {d e f : Directive} (h : d.isBroader e = true) (h' : e.isBroader f = true) :
    d.isBroader f = true := by
  rw [isBroader_iff] at *
  rcases h with h | ⟨h, hn⟩
  · rcases h' with h' | ⟨h', _⟩
    · exact .inl (Nat.lt_trans h h')
    · exact .inl (h' ▸ h)
  · rcases h' with h' | ⟨h', hn'⟩
    · exact .inl (h ▸ h')
    · exact .inr ⟨h.trans h', String.lt_trans hn hn'⟩

end Directive
end Vouch
