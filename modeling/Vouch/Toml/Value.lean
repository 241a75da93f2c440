import Vouch.Table
/-!
# TOML values

What a TOML document comes to once its tables have been put together. A date or time is kept as
such without its parts, since nothing in a configuration is one.

A structure is read from a table by the names of its fields, or from an array by their positions.
-/
namespace Vouch.Toml

/-- A TOML value. The members of a table have distinct names. -/
inductive Value where
  | str (s : String)
  | int (i : Int)
  | real (x : Float)
  | bool (b : Bool)
  | time
  | arr (items : List Value)
  | tbl (members : List (String × Value))

instance : Inhabited Value := ⟨.tbl []⟩

/-- The fields of a structure, by name or by position. -/
inductive Fields where
  | named (members : List (String × Value))
  | listed (items : List Value)

/-- The fields that a value offers. A date or time has fields that no structure asks for. -/
def Value.fields? : Value → Option Fields
  | .tbl members => some (.named members)
  | .arr items => some (.listed items)
  | .time => some (.named [])
  | _ => none

namespace Fields

variable {τ : Type}

def get? (f : Fields) (position : Nat) (name : String) : Option Value :=
  match f with
  | .named members => Entries.find? name members
  | .listed items => items[position]?

/-- A field that has to be there. -/
def required (f : Fields) (position : Nat) (name : String) (decode : Value → Option τ) : Option τ :=
  (f.get? position name).bind decode

/-- A field that has a value of its own where it is absent. -/
def withDefault (f : Fields) (position : Nat) (name : String) (decode : Value → Option τ)
    (default : τ) : Option τ :=
  match f.get? position name with
  | some v => decode v
  | none => some default

/-- A field that a table may leave out, and a list may not. -/
def optional (f : Fields) (position : Nat) (name : String) (decode : Value → Option τ) :
    Option (Option τ) :=
  match f.get? position name, f with
  | some v, _ => (decode v).map some
  | none, .named _ => some none
  | none, .listed _ => none

end Fields

namespace Value

def string? : Value → Option String
  | .str s => some s
  | _ => none

def bool? : Value → Option Bool
  | .bool b => some b
  | _ => none

/-- A size or a count. -/
def nat? : Value → Option Nat
  | .int i => if 0 ≤ i then some i.toNat else none
  | _ => none

/-- The items of an array, each read. -/
def list? {τ : Type} (decode : Value → Option τ) : Value → Option (List τ)
  | .arr items => items.mapM decode
  | _ => none

/-- The members of a table, each read. -/
def table? {τ : Type} (decode : Value → Option τ) : Value → Option (Table τ)
  | .tbl members => do
    let l ← members.mapM fun m => (decode m.2).map fun x => (m.1, x)
    return .ofList l
  | _ => none

/-- The name of a choice: a string, or the one name of a table with nothing under it. -/
def choice? : Value → Option String
  | .str s => some s
  | .tbl [(name, .tbl [])] => some name
  | .tbl [(name, .arr [])] => some name
  | _ => none

end Value
end Vouch.Toml
