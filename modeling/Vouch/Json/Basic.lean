import Vouch.Table
/-!
# JSON values

Persisted statistics are JSON. A number is an integer or a real of some type `α`, so that the same
values carry doubles in a running node and exact fractions in an argument about it. The members of
an object are in ascending order of their names.
-/
namespace Vouch

/-- A JSON value whose fractional numbers are of type `α`. -/
inductive Json (α : Type) where
  | null
  | bool (b : Bool)
  | int (i : Int)
  | real (x : α)
  | str (s : String)
  | arr (items : List (Json α))
  | obj (members : List (String × Json α))

namespace Json

variable {α : Type}

instance : Inhabited (Json α) := ⟨.null⟩

/-- The member of an object under a name. -/
def get? (name : String) : Json α → Option (Json α)
  | .obj members => Entries.find? name members
  | _ => none

end Json
end Vouch
