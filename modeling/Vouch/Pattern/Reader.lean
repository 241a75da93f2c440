import Vouch.Pattern.CharacterSet
import Vouch.Text.Alphanumeric
/-!
# Reading a pattern

A pattern describes texts: characters, sets of characters, places in a text, groups in parentheses,
alternatives between bars, and marks that repeat what is before them. `check` says whether a text is
a pattern that can be matched: it has to be well-formed, to nest at most `maxNesting` deep, and to
ask for no edges of words with Unicode.

A group may be named, each name once, or may change the options up to its end; flags in parentheses
change them up to the end of the group that they stand in. Repetition is not counted.

Every step consumes a character, so a reader given the length of the text as fuel does not run out.

* `check_of_isPlain`: a text without special characters is a pattern.
-/
namespace Vouch.Pattern

/-- Why a text is no pattern that can be matched. -/
inductive PatternError where
  | malformed
  | wordBoundary
  deriving DecidableEq, Repr

def PatternError.message : PatternError → String
  | .malformed => "error building NFA"
  | .wordBoundary =>
    "unsupported regex feature for DFAs: cannot build DFAs for regexes with Unicode word " ++
      "boundaries; switch to ASCII word boundaries, or heuristically enable Unicode word " ++
      "boundaries or use a different regex engine"

/-- The deepest nesting of a pattern. -/
def maxNesting : Nat := 250

/-- A part of a pattern: how deep it nests, and whether it may be repeated. -/
structure Item where
  nesting : Nat
  repeatable : Bool
  deriving DecidableEq, Repr

/-- The alternatives of a group: the items of the last one, last first, and how deep the earlier ones
nest. -/
structure Alternatives where
  items : List Item
  earlier : List Nat
  deriving DecidableEq, Repr

namespace Alternatives

def empty : Alternatives := ⟨[], []⟩

/-- How deep the last alternative nests. -/
def lastNesting (a : Alternatives) : Nat := nestAll (a.items.map Item.nesting)

def nesting (a : Alternatives) : Nat := nestAll (a.lastNesting :: a.earlier)

/-- One more item. -/
def add (a : Alternatives) (i : Item) : Alternatives := { a with items := i :: a.items }

/-- Begins another alternative. -/
def next (a : Alternatives) : Alternatives := ⟨[], a.lastNesting :: a.earlier⟩

/-- Repeats the last item. -/
def repeatLast? (a : Alternatives) : Option Alternatives :=
  match a.items with
  | i :: rest => if i.repeatable then some { a with items := ⟨1 + i.nesting, true⟩ :: rest } else none
  | [] => none

end Alternatives

/-- What has been read of a pattern. -/
structure Progress where
  options : Options
  alternatives : Alternatives
  /-- The groups around, innermost first, with the options to go back to. -/
  outer : List (Options × Alternatives)
  names : List String
  /-- Whether an edge of a word has been asked for with Unicode. -/
  boundary : Bool
  deriving DecidableEq, Repr

namespace Progress

def start : Progress := ⟨.default, .empty, [], [], false⟩

def add (p : Progress) (i : Item) : Progress := { p with alternatives := p.alternatives.add i }

/-- One more item that has no parts. -/
def addSimple (p : Progress) : Progress := p.add ⟨0, true⟩

/-- Opens a group with the options it has inside. -/
def openGroup (p : Progress) (o : Options) : Progress where
  options := o
  alternatives := .empty
  outer := (p.options, p.alternatives) :: p.outer
  names := p.names
  boundary := p.boundary

/-- Closes the innermost group. -/
def closeGroup? (p : Progress) : Option Progress :=
  match p.outer with
  | [] => none
  | (o, a) :: outer =>
    some { p with
      options := o, alternatives := a.add ⟨1 + p.alternatives.nesting, true⟩, outer := outer }

/-- The verdict on a pattern that has been read to its end. -/
def finish (p : Progress) : Except PatternError Unit :=
  if ¬ p.outer.isEmpty ∨ maxNesting < p.alternatives.nesting then .error .malformed
  else if p.boundary then .error .wordBoundary
  else .ok ()

end Progress

/-- Whether the name of a group may begin with a character. -/
def beginsName (c : Char) : Bool := c = '_' || Text.isAlphabetic c

/-- Whether the name of a group may go on with a character. -/
def continuesName (c : Char) : Bool := c ∈ ['_', '.', '[', ']'] || Text.isAlphanumeric c

/-- Opens a group that has a name, from its name on. -/
def readNamedGroup (p : Progress) (cs : List Char) : Option (Progress × List Char) :=
  let (name, rest) := cs.span (· ≠ '>')
  match name, rest with
  | c :: more, _ :: rest =>
    if beginsName c && more.all continuesName && String.ofList name ∉ p.names then
      some ({ p.openGroup p.options with names := String.ofList name :: p.names }, rest)
    else none
  | _, _ => none

/-- Flags up to the mark behind them; `given` holds those read, last first. -/
def readFlags (given : List Char) : List Char → Option (List Char × Char × List Char)
  | [] => none
  | c :: cs =>
    if c = ':' ∨ c = ')' then
      if given.head? = some '-' then none else some (given.reverse, c, cs)
    else if c ∈ Options.flags ∧ c ∉ given then readFlags (c :: given) cs
    else none

/-- Opens a group that has options, or changes the options of the group around. -/
def readOptions (p : Progress) (cs : List Char) : Option (Progress × List Char) :=
  match readFlags [] cs with
  | none => none
  | some (given, mark, rest) =>
    let o := p.options.set given
    if mark = ':' then some (p.openGroup o, rest)
    else if given.isEmpty then none
    else some ({ p.add ⟨0, false⟩ with options := o }, rest)

/-- Opens a group behind its parenthesis. -/
def readGroup (p : Progress) (cs : List Char) : Option (Progress × List Char) :=
  match p.options.skip cs with
  | '?' :: 'P' :: '<' :: rest => readNamedGroup p rest
  | '?' :: '<' :: rest => readNamedGroup p rest
  | '?' :: rest => readOptions p rest
  | rest => some (p.openGroup p.options, rest)

/-- One more item that is written as an escape. -/
def addEscape (p : Progress) : Escape → Option Progress
  | .literal l => if p.options.allowsLiteral l then some p.addSimple else none
  | .shorthand negated => if p.options.allowsShorthand negated then some p.addSimple else none
  | .anchor => some p.addSimple
  | .boundary => some { p.addSimple with boundary := p.boundary || p.options.unicode }

/-- The text behind a mark that repeats; a question mark asks for as little as possible. -/
def skipLazy : List Char → List Char
  | '?' :: cs => cs
  | cs => cs

/-- Reads one part of a pattern. -/
def step (p : Progress) (c : Char) (cs : List Char) : Option (Progress × List Char) :=
  match c with
  | '(' => readGroup p cs
  | ')' => p.closeGroup?.map fun p => (p, cs)
  | '|' => some ({ p with alternatives := p.alternatives.next }, cs)
  | '[' => (readSet p.options cs).map fun (n, rest) => (p.add ⟨n, true⟩, rest)
  | '*' | '+' | '?' =>
    p.alternatives.repeatLast?.map fun a => ({ p with alternatives := a }, skipLazy cs)
  | '{' => none
  | '\\' => (readEscape p.options cs).bind fun (e, rest) => (addEscape p e).map fun p => (p, rest)
  | '.' => if p.options.allowsDot then some (p.addSimple, cs) else none
  | '^' | '$' => some (p.addSimple, cs)
  | c => if p.options.allowsLiteral ⟨c, false⟩ then some (p.addSimple, cs) else none

/-- Reads the rest of a pattern. -/
def readAll : (fuel : Nat) → Progress → List Char → Option Progress
  | 0, _, _ => none
  | fuel + 1, p, cs =>
    match p.options.skip cs with
    | [] => some p
    | c :: cs =>
      match step p c cs with
      | some (p, rest) => readAll fuel p rest
      | none => none

/-- Whether characters are a pattern that can be matched. -/
def checkChars (cs : List Char) : Except PatternError Unit :=
  match readAll (cs.length + 1) .start cs with
  | some p => p.finish
  | none => .error .malformed

/-- Whether a text is a pattern that can be matched. -/
def check (s : String) : Except PatternError Unit := checkChars s.toList

/-! ## Texts without special characters -/

/-- Whether a character stands for itself wherever it is. -/
def isPlain (c : Char) : Bool :=
  c ∉ ['(', ')', '|', '[', '*', '+', '?', '{', '\\', '.', '^', '$']

theorem step_of_isPlain {p : Progress} (hp : p.options = .default) {c : Char} (h : isPlain c = true)
    (cs : List Char) : step p c cs = some (p.addSimple, cs) := by
  have hl : p.options.allowsLiteral ⟨c, false⟩ = true := by rw [hp]; rfl
  unfold step
  split <;> simp_all [isPlain]

theorem foldl_max_replicate_zero (k : Nat) : (List.replicate k 0).foldl max 0 = 0 := by
  induction k with
  | zero => rfl
  | succ k ih => exact ih

/-- Items without parts nest one deep at most. -/
theorem lastNesting_le_one {a : Alternatives} (h : ∀ i ∈ a.items, i.nesting = 0) :
    a.lastNesting ≤ 1 := by
  have hz : a.items.map Item.nesting = List.replicate a.items.length 0 := by
    refine List.eq_replicate_iff.2 ⟨List.length_map _, fun n hn => ?_⟩
    obtain ⟨i, hm, rfl⟩ := List.mem_map.1 hn
    exact h i hm
  rw [Alternatives.lastNesting, hz]
  match a.items.length with
  | 0 => exact Nat.zero_le _
  | 1 => exact Nat.zero_le _
  | k + 2 => exact Nat.le_of_eq (congrArg (1 + ·) (foldl_max_replicate_zero (k + 1)))

theorem readAll_of_isPlain {cs : List Char} (h : ∀ c ∈ cs, isPlain c = true) {p : Progress}
    (hp : p.options = .default) (hn : p.alternatives.lastNesting ≤ 1)
    (hi : ∀ i ∈ p.alternatives.items, i.nesting = 0) :
    ∃ q, readAll (cs.length + 1) p cs = some q ∧ q.outer = p.outer ∧ q.boundary = p.boundary ∧
      q.alternatives.earlier = p.alternatives.earlier ∧ q.alternatives.lastNesting ≤ 1 := by
  have hskip (cs : List Char) : p.options.skip cs = cs :=
    Options.skip_of_not_verbose (by rw [hp]; rfl) cs
  induction cs generalizing p with
  | nil => exact ⟨p, by rw [readAll, hskip], rfl, rfl, rfl, hn⟩
  | cons c cs ih =>
    have hi' : ∀ i ∈ p.addSimple.alternatives.items, i.nesting = 0 := by
      intro i hm
      rcases List.mem_cons.1 hm with rfl | hm
      · rfl
      · exact hi i hm
    obtain ⟨q, hq, ho, hb, he, hl⟩ := ih (fun d hd => h d (List.mem_cons_of_mem _ hd))
      (p := p.addSimple) hp (lastNesting_le_one hi') hi' hskip
    refine ⟨q, ?_, ho, hb, he, hl⟩
    rw [List.length_cons, readAll, hskip]
    simp only [step_of_isPlain hp (h c List.mem_cons_self)]
    exact hq

theorem check_of_isPlain {s : String} (h : ∀ c ∈ s.toList, isPlain c = true) :
    check s = .ok () := by
  obtain ⟨q, hq, ho, hb, he, hl⟩ := readAll_of_isPlain h (p := .start) rfl (Nat.zero_le _)
    (fun i hi => absurd hi (by simp [Progress.start, Alternatives.empty]))
  have hn : q.alternatives.nesting = q.alternatives.lastNesting := by
    rw [Alternatives.nesting, he]
    rfl
  have hdeep : ¬ maxNesting < q.alternatives.nesting := by
    rw [hn]
    exact Nat.not_lt.2 (Nat.le_trans hl (by decide))
  rw [check, checkChars, hq]
  simp only [Progress.finish, ho, hb, hdeep]
  rfl

end Vouch.Pattern
