/-!
# Tables keyed by name

A table holds one value per name, in ascending order of the names. The order is part of the type, so
two tables with the same look-ups are equal.

* `find?_insert`: an insertion is seen under its own name and nowhere else.
* `find?_eq_some_iff`: a look-up finds the entries and nothing else.
* `ofList_toList`: a table is rebuilt from its own entries.
-/
namespace Vouch

namespace Entries

variable {β : Type}

/-- Entries in ascending order of their names. -/
def Sorted (l : List (String × β)) : Prop := l.Pairwise fun a b => a.1 < b.1

/-- Puts a value at its place among sorted entries, replacing one of the same name. -/
def insert (name : String) (value : β) : List (String × β) → List (String × β)
  | [] => [(name, value)]
  | e :: rest =>
    if name < e.1 then (name, value) :: e :: rest
    else if name = e.1 then (name, value) :: rest
    else e :: insert name value rest

/-- The value under a name. -/
def find? (name : String) : List (String × β) → Option β
  | [] => none
  | e :: rest => if name = e.1 then some e.2 else find? name rest

theorem mem_insert {name : String} {value : β} {l : List (String × β)} {e : String × β}
    (h : e ∈ insert name value l) : e = (name, value) ∨ e ∈ l := by
  induction l with
  | nil => simpa [insert] using h
  | cons a rest ih =>
    rw [insert] at h
    split at h
    · simpa using h
    · split at h
      · rcases List.mem_cons.1 h with h | h
        · exact .inl h
        · exact .inr (List.mem_cons_of_mem _ h)
      · rcases List.mem_cons.1 h with h | h
        · exact .inr (h ▸ List.mem_cons_self)
        · exact (ih h).imp id (List.mem_cons_of_mem _)

theorem lt_of_not_lt_of_ne {a b : String} (h : ¬ a < b) (hn : a ≠ b) : b < a := by
  rcases Classical.em (b < a) with h' | h'
  · exact h'
  · exact absurd (String.le_antisymm (String.not_lt.1 h') (String.not_lt.1 h)) hn

theorem Sorted.insert {name : String} {value : β} {l : List (String × β)} (h : Sorted l) :
    Sorted (insert name value l) := by
  induction l with
  | nil => simp [Entries.insert, Sorted]
  | cons a rest ih =>
    have hr : Sorted rest := (List.pairwise_cons.1 h).2
    have ha := (List.pairwise_cons.1 h).1
    rw [Entries.insert]
    split
    · rename_i hlt
      refine List.pairwise_cons.2 ⟨fun e he => ?_, h⟩
      rcases List.mem_cons.1 he with rfl | he
      · exact hlt
      · exact String.lt_trans hlt (ha e he)
    · split
      · rename_i heq
        refine List.pairwise_cons.2 ⟨fun e he => ?_, hr⟩
        show name < e.1
        rw [heq]
        exact ha e he
      · rename_i hnlt hne
        refine List.pairwise_cons.2 ⟨fun e he => ?_, ih hr⟩
        rcases mem_insert he with rfl | he
        · exact lt_of_not_lt_of_ne hnlt hne
        · exact ha e he

theorem find?_insert (name other : String) (value : β) (l : List (String × β)) :
    find? other (insert name value l) = if other = name then some value else find? other l := by
  induction l with
  | nil => simp [insert, find?]
  | cons a rest ih =>
    rw [insert]
    split
    · rw [find?]
    · split
      · rename_i heq
        simp only [find?, ← heq]
        split <;> rfl
      · rename_i hne
        simp only [find?, ih]
        by_cases hao : other = a.1
        · rw [if_pos hao, if_neg (fun hc => hne (by rw [← hc, hao])), if_pos hao]
        · rw [if_neg hao, if_neg hao]

theorem insert_of_forall_lt {name : String} {value : β} {l : List (String × β)}
    (h : ∀ e ∈ l, e.1 < name) : insert name value l = l ++ [(name, value)] := by
  induction l with
  | nil => rfl
  | cons a rest ih =>
    have ha : a.1 < name := h a List.mem_cons_self
    have h1 : ¬ name < a.1 := String.lt_asymm ha
    have h2 : ¬ name = a.1 := fun hc => String.lt_irrefl _ (hc ▸ ha)
    rw [insert, if_neg h1, if_neg h2, ih fun e he => h e (List.mem_cons_of_mem _ he)]
    rfl

theorem find?_eq_none_of_lt {name : String} {l : List (String × β)}
    (h : ∀ e ∈ l, name < e.1) : find? name l = none := by
  induction l with
  | nil => rfl
  | cons e rest ih =>
    have hne : name ≠ e.1 := fun heq => String.lt_irrefl e.1 (heq ▸ h e List.mem_cons_self)
    rw [find?, if_neg hne, ih fun e' he' => h e' (List.mem_cons_of_mem e he')]

/-- Among sorted entries, at most one is of a name. -/
theorem filterMap_of_sorted {l : List (String × β)} (h : Sorted l) (name : String) :
    (l.filterMap fun e => if name = e.1 then some e.2 else none) = (find? name l).toList := by
  induction l with
  | nil => rfl
  | cons e rest ih =>
    obtain ⟨hlt, hrest⟩ := List.pairwise_cons.1 h
    rw [List.filterMap_cons, ih hrest, find?]
    split
    · rename_i hne
      rw [if_neg fun heq => by simp [heq] at hne]
    · rename_i v hv
      obtain ⟨rfl, rfl⟩ : name = e.1 ∧ e.2 = v := by simpa using hv
      rw [if_pos rfl, find?_eq_none_of_lt hlt]
      rfl

end Entries

/-- Values under names, in ascending order of the names. -/
structure Table (β : Type) where
  toList : List (String × β)
  sorted : Entries.Sorted toList
  deriving DecidableEq

namespace Table

variable {β : Type}

def empty : Table β := ⟨[], List.Pairwise.nil⟩

instance : Inhabited (Table β) := ⟨empty⟩

def insert (t : Table β) (name : String) (value : β) : Table β :=
  ⟨Entries.insert name value t.toList, t.sorted.insert⟩

def find? (t : Table β) (name : String) : Option β := Entries.find? name t.toList

/-- The table of some entries, the last of several with one name. -/
def ofList (l : List (String × β)) : Table β := l.foldl (fun t e => t.insert e.1 e.2) empty

def names (t : Table β) : List String := t.toList.map Prod.fst

@[ext] theorem ext_toList {a b : Table β} (h : a.toList = b.toList) : a = b := by
  cases a; cases b; cases h; rfl

theorem find?_insert (t : Table β) (name other : String) (value : β) :
    (t.insert name value).find? other = if other = name then some value else t.find? other :=
  Entries.find?_insert name other value t.toList

theorem find?_eq_some_iff (t : Table β) {name : String} {value : β} :
    t.find? name = some value ↔ (name, value) ∈ t.toList := by
  rw [find?, ← Option.mem_toList, ← Entries.filterMap_of_sorted t.sorted, List.mem_filterMap]
  constructor
  · rintro ⟨e, he, hv⟩
    obtain ⟨rfl, rfl⟩ : name = e.1 ∧ e.2 = value := by simpa using hv
    exact he
  · intro h
    exact ⟨_, h, if_pos rfl⟩

theorem mem_names_iff (t : Table β) {name : String} : name ∈ t.names ↔ (t.find? name).isSome := by
  simp [names, Option.isSome_iff_exists, find?_eq_some_iff]

theorem nodup_names (t : Table β) : t.names.Nodup := by
  refine List.Pairwise.map _ (fun a b hlt heq => ?_) t.sorted
  exact String.lt_irrefl b.1 (heq ▸ hlt)

theorem toList_foldl_insert (t : Table β) (l : List (String × β))
    (h : Entries.Sorted (t.toList ++ l)) :
    (l.foldl (fun t e => t.insert e.1 e.2) t).toList = t.toList ++ l := by
  induction l generalizing t with
  | nil => simp
  | cons e rest ih =>
    have hlt : ∀ x ∈ t.toList, x.1 < e.1 := fun x hx =>
      (List.pairwise_append.1 h).2.2 x hx e List.mem_cons_self
    have hi : (t.insert e.1 e.2).toList = t.toList ++ [e] := Entries.insert_of_forall_lt hlt
    rw [List.foldl_cons, ih (t.insert e.1 e.2) (by rw [hi]; simpa using h), hi]
    simp

theorem ofList_toList (t : Table β) : ofList t.toList = t :=
  ext_toList (toList_foldl_insert empty t.toList t.sorted)

end Table
end Vouch
