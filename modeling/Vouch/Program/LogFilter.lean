import Vouch.Program.Directive
/-!
# Choosing what is logged

A filter is a list of directives between commas. Of those that cover an event the narrowest decides,
and of several equally narrow ones the last. What is no directive is complained of and left out.
Where no directive is left, errors are logged; where one cannot be cut, there is no filter.

* `mem_of_decisive?`, `not_isBroader_of_decisive?`: the directive that decides about an event is one
  of those that cover it, and none of these is narrower.
-/
namespace Vouch

structure LogFilter where
  directives : List Directive
  deriving DecidableEq, Repr

namespace LogFilter

/-- The pieces of a text between commas, without the empty ones. -/
def pieces (s : String) : List String := (s.splitOn ",").filter (· ≠ "")

/-- The directives of some pieces; none if one of them cannot be cut. -/
def directives? : List String → Option (List Directive)
  | [] => some []
  | p :: rest =>
    match Directive.read p with
    | .ok d => (directives? rest).map (d :: ·)
    | .error .misaligned => none
    | .error _ => directives? rest

/-- What is said of a piece that is no directive. -/
def complaint (piece : String) (e : DirectiveError) : String :=
  "ignoring \x60" ++ piece ++ "\x60: " ++ e.message

/-- What is said of the pieces that are no directives, up to one that cannot be cut. -/
def piecesComplaints : List String → List String
  | [] => []
  | p :: rest =>
    match Directive.read p with
    | .ok _ => piecesComplaints rest
    | .error .misaligned => []
    | .error e => complaint p e :: piecesComplaints rest

/-- What is said of the pieces of a text. -/
def complaints (s : String) : List String := piecesComplaints (pieces s)

/-- The filter a text stands for. -/
def parse (s : String) : Option LogFilter :=
  match directives? (pieces s) with
  | none => none
  | some [] => some ⟨[⟨"", none, none, Level.error.rank⟩]⟩
  | some ds => some ⟨ds⟩

/-- The last of the narrowest of some directives. -/
def narrowest : List Directive → Option Directive
  | [] => none
  | d :: rest =>
    match narrowest rest with
    | some e => if e.isBroader d then some d else some e
    | none => some d

/-- The directive that decides about an event. -/
def decisive? (f : LogFilter) (part : String) (fields : List String) : Option Directive :=
  narrowest (f.directives.filter fun d => d.covers part fields)

/-- Whether an event of a part of the program is logged. -/
def allows (f : LogFilter) (part : String) (level : Level) (fields : List String) : Bool :=
  match f.decisive? part fields with
  | some d => level.rank ≤ d.rank
  | none => false

theorem mem_of_narrowest {l : List Directive} {d : Directive} (h : narrowest l = some d) :
    d ∈ l := by
  induction l generalizing d with
  | nil => simp [narrowest] at h
  | cons a rest ih =>
    rw [narrowest] at h
    cases hr : narrowest rest with
    | none =>
      simp only [hr, Option.some.injEq] at h
      exact h ▸ List.mem_cons_self
    | some e =>
      simp only [hr] at h
      split at h
      · exact Option.some.inj h ▸ List.mem_cons_self
      · exact List.mem_cons_of_mem _ (ih (hr.trans h))

theorem narrowest_cons_ne_none (d : Directive) (rest : List Directive) :
    narrowest (d :: rest) ≠ none := by
  rw [narrowest]
  cases narrowest rest with
  | none => simp
  | some e => dsimp only; split <;> simp

theorem not_isBroader_of_narrowest {l : List Directive} {d : Directive} (h : narrowest l = some d) :
    ∀ e ∈ l, ¬ d.isBroader e = true := by
  induction l generalizing d with
  | nil => simp
  | cons a rest ih =>
    rw [narrowest] at h
    cases hr : narrowest rest with
    | none =>
      simp only [hr, Option.some.injEq] at h
      have hnil : rest = [] := by
        cases rest with
        | nil => rfl
        | cons b rest => exact absurd hr (narrowest_cons_ne_none b rest)
      subst h hnil
      intro e he
      rw [List.mem_singleton.1 he]
      exact Directive.isBroader_irrefl a
    | some e =>
      simp only [hr] at h
      have hrest : ∀ x ∈ rest, ¬ e.isBroader x = true := ih hr
      split at h
      · next hb =>
        rw [← Option.some.inj h]
        intro x hx
        rcases List.mem_cons.1 hx with rfl | hx
        · exact Directive.isBroader_irrefl x
        · exact fun hax => hrest x hx (Directive.isBroader_trans hb hax)
      · next hb =>
        rw [← Option.some.inj h]
        intro x hx
        rcases List.mem_cons.1 hx with rfl | hx
        · exact hb
        · exact hrest x hx

theorem mem_of_decisive? {f : LogFilter} {part : String} {fields : List String} {d : Directive}
    (h : f.decisive? part fields = some d) : d ∈ f.directives ∧ d.covers part fields = true :=
  List.mem_filter.1 (mem_of_narrowest h)

theorem not_isBroader_of_decisive? {f : LogFilter} {part : String} {fields : List String}
    {d e : Directive} (h : f.decisive? part fields = some d) (he : e ∈ f.directives)
    (hc : e.covers part fields = true) : ¬ d.isBroader e = true :=
  not_isBroader_of_narrowest h e (List.mem_filter.2 ⟨he, hc⟩)

end LogFilter
end Vouch
