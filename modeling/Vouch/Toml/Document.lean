import Vouch.Toml.Value
/-!
# Putting a document together

A document is a list of statements: a header opens a table or a new item of a list of tables, and an
entry puts a value into the table that was opened last. Headers and the dotted names of entries
bring tables into being on the way. What has once been written out may not be extended later:

* a table under a header is opened once, except that one brought into being by a longer header may
  be opened afterwards;
* a table brought into being by dotted names takes further dotted names from the same table only;
* a value is never taken for a table, and no name is given twice.
-/
namespace Vouch.Toml

/-- How a table came into being. -/
inductive Standing where
  /-- Under its own header, or as the value of an entry. -/
  | opened
  /-- On the way to a longer header. -/
  | passed
  /-- By a dotted name. -/
  | dotted
  deriving DecidableEq

/-- A document under construction. -/
inductive Node where
  | value (v : Value)
  | table (standing : Standing) (members : List (String × Node))
  | tables (items : List (List (String × Node)))

abbrev Members := List (String × Node)

/-- An entry: the names before its last one, its last name, and its value. -/
structure EntryLine where
  path : List String
  name : String
  value : Value

/-- What opens a table. -/
inductive Header where
  | table (path : List String) (name : String)
  | item (path : List String) (name : String)

/-- A header with the entries below it. -/
structure Section where
  header : Header
  entries : List EntryLine

/-- The statements of a document: entries of the outermost table, then sections. -/
structure Document where
  entries : List EntryLine
  sections : List Section

/-- Changes the last of some tables. -/
def modifyLast (f : Members → Option Members) : List Members → Option (List Members)
  | [] => none
  | [m] => (f m).map fun m => [m]
  | m :: rest => (modifyLast f rest).map fun rest => m :: rest

/-- Changes the table that a path of a header leads to, bringing tables into being on the way and
going through the last item of a list of tables. -/
def underHeader (f : Members → Option Members) : (path : List String) → Members → Option Members
  | [], m => f m
  | name :: path, m =>
    match Entries.find? name m with
    | none => do
      let inner ← underHeader f path []
      return Entries.insert name (.table .passed inner) m
    | some (.table standing members) => do
      let inner ← underHeader f path members
      return Entries.insert name (.table standing inner) m
    | some (.tables items) => do
      let items ← modifyLast (underHeader f path) items
      return Entries.insert name (.tables items) m
    | some (.value _) => none

/-- Puts a value under a dotted name. `way` tells whether some of the name has been followed; a
table that was not brought into being by dotted names takes no further ones. -/
def putEntry (name : String) (v : Value) :
    (way : Bool) → Standing → (path : List String) → Members → Option Members
  | way, standing, [], m =>
    if way ∧ standing ≠ .dotted then none
    else
      match Entries.find? name m with
      | none => some (Entries.insert name (.value v) m)
      | some _ => none
  | _, _, step :: path, m =>
    match Entries.find? step m with
    | none => do
      let inner ← putEntry name v true .dotted path []
      return Entries.insert step (.table .dotted inner) m
    | some (.table .opened _) => none
    | some (.table standing members) => do
      let inner ← putEntry name v true standing path members
      return Entries.insert step (.table standing inner) m
    | some (.tables items) => do
      let items ← modifyLast (putEntry name v true .opened path) items
      return Entries.insert step (.tables items) m
    | some (.value _) => none

/-- Puts entries into a table, one after the other. -/
def putEntries (m : Members) (entries : List EntryLine) : Option Members :=
  entries.foldlM (fun m e => putEntry e.name e.value false .opened e.path m) m

/-- Opens a table in its parent and fills it. -/
def openTable (name : String) (entries : List EntryLine) (parent : Members) : Option Members :=
  match Entries.find? name parent with
  | none => (putEntries [] entries).map fun m => Entries.insert name (.table .opened m) parent
  | some (.table .passed members) =>
    (putEntries members entries).map fun m => Entries.insert name (.table .opened m) parent
  | some _ => none

/-- Adds an item to a list of tables in its parent and fills it. -/
def openItem (name : String) (entries : List EntryLine) (parent : Members) : Option Members :=
  match Entries.find? name parent with
  | none => (putEntries [] entries).map fun m => Entries.insert name (.tables [m]) parent
  | some (.tables items) =>
    (putEntries [] entries).map fun m => Entries.insert name (.tables (items ++ [m])) parent
  | some _ => none

def putSection (root : Members) (s : Section) : Option Members :=
  match s.header with
  | .table path name => underHeader (openTable name s.entries) path root
  | .item path name => underHeader (openItem name s.entries) path root

mutual

/-- The value of a finished node. -/
def Node.toValue : Node → Value
  | .value v => v
  | .table _ members => .tbl (membersToValues members)
  | .tables items => .arr (itemsToValues items)

def membersToValues : List (String × Node) → List (String × Value)
  | [] => []
  | (name, n) :: rest => (name, n.toValue) :: membersToValues rest

def itemsToValues : List (List (String × Node)) → List Value
  | [] => []
  | m :: rest => .tbl (membersToValues m) :: itemsToValues rest

end

/-- The value of a document, if its statements agree with each other. -/
def Document.value? (d : Document) : Option Value := do
  let root ← putEntries [] d.entries
  let root ← d.sections.foldlM putSection root
  return .tbl (membersToValues root)

/-- The value of a table written on one line, if its entries agree with each other. -/
def inlineTable? (entries : List EntryLine) : Option Value :=
  (putEntries [] entries).map fun m => .tbl (membersToValues m)

end Vouch.Toml
