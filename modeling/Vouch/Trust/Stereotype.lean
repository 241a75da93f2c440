import Vouch.Trust.Record
import Vouch.Certificate
import Vouch.Table
/-!
# Stereotypes

The network root publishes what one may expect of edges of a certain kind, for use while there is
little first-hand experience. A kind is a set of certificate tags, and a stereotype applies to edges
whose certificate carries exactly those tags.

* `find?_insert`, `find?_erase`: the table holds, for each tag set, the stereotype inserted last and
  not removed since.
-/
namespace Vouch

/-- What to expect of edges with a set of tags. -/
structure Stereotype (α : Type) where
  tags : Tags
  edge : EdgeTrust α
  /-- The expected quality of results, by capability. -/
  capabilities : Table (Beta α)

namespace Stereotype

variable {α : Type}

def quality? (s : Stereotype α) (capability : String) : Option (Beta α) :=
  s.capabilities.find? capability

def withCapability (s : Stereotype α) (name : String) (quality : Beta α) : Stereotype α :=
  { s with capabilities := s.capabilities.insert name quality }

def text (s : Stereotype Float) : String := s!"Stereotype(tags={s.tags.text},{s.edge.text})"

end Stereotype

/-- Stereotypes, at most one for each set of tags. -/
structure StereotypeTable (α : Type) where
  toList : List (Stereotype α)

namespace StereotypeTable

variable {α : Type}

def empty : StereotypeTable α := ⟨[]⟩

def size (t : StereotypeTable α) : Nat := t.toList.length

def find? (t : StereotypeTable α) (tags : Tags) : Option (Stereotype α) :=
  t.toList.find? fun s => s.tags = tags

def erase (t : StereotypeTable α) (tags : Tags) : StereotypeTable α :=
  ⟨t.toList.filter fun s => s.tags ≠ tags⟩

/-- Adds a stereotype in place of the one with its tags. -/
def insert (t : StereotypeTable α) (s : Stereotype α) : StereotypeTable α :=
  ⟨s :: (t.erase s.tags).toList⟩

theorem find?_erase (t : StereotypeTable α) (tags other : Tags) :
    (t.erase tags).find? other = if other = tags then none else t.find? other := by
  simp only [erase, find?, List.find?_filter]
  split
  · rename_i h
    subst h
    simp
  · rename_i h
    refine congrArg (fun p => List.find? p t.toList) (funext fun s => ?_)
    by_cases hs : s.tags = other
    · simp [hs, h]
    · simp [hs]

theorem find?_insert (t : StereotypeTable α) (s : Stereotype α) (tags : Tags) :
    (t.insert s).find? tags = if tags = s.tags then some s else t.find? tags := by
  by_cases h : tags = s.tags
  · simp [insert, find?, h]
  · have h' : ¬ s.tags = tags := fun e => h e.symm
    have he := find?_erase t s.tags tags
    simp only [find?] at he
    simp [insert, find?, h, h', he]

end StereotypeTable
end Vouch
