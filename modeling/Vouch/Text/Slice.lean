/-!
# Parts of a text by octets

A part of a text may be named by the octets of its ends, counted from the start of the text. There
is no such part if an end falls inside a character.

* `slice?_append`: a part is found at its place between what is before and behind it.
-/
namespace Vouch.Text

/-- The number of octets of some characters. -/
def octets : List Char → Nat
  | [] => 0
  | c :: cs => c.utf8Size + octets cs

/-- What follows the first octets. -/
def dropOctets? : List Char → Nat → Option (List Char)
  | cs, 0 => some cs
  | [], _ + 1 => none
  | c :: cs, n + 1 => if c.utf8Size ≤ n + 1 then dropOctets? cs (n + 1 - c.utf8Size) else none

/-- The characters of the first octets. -/
def takeOctets? : List Char → Nat → Option (List Char)
  | _, 0 => some []
  | [], _ + 1 => none
  | c :: cs, n + 1 =>
    if c.utf8Size ≤ n + 1 then (takeOctets? cs (n + 1 - c.utf8Size)).map (c :: ·) else none

/-- The part between two ends. -/
def slice? (cs : List Char) (start stop : Nat) : Option (List Char) :=
  (dropOctets? cs start).bind fun rest => takeOctets? rest (stop - start)

theorem dropOctets?_append (a b : List Char) : dropOctets? (a ++ b) (octets a) = some b := by
  induction a with
  | nil => simp [octets, dropOctets?]
  | cons c cs ih =>
    obtain ⟨n, hn⟩ : ∃ n, octets (c :: cs) = n + 1 :=
      ⟨_, (Nat.succ_pred_eq_of_pos (Nat.add_pos_left c.utf8Size_pos _)).symm⟩
    have hle : c.utf8Size ≤ n + 1 := hn ▸ Nat.le_add_right _ _
    have hsub : n + 1 - c.utf8Size = octets cs := by rw [← hn, octets, Nat.add_sub_cancel_left]
    rw [hn, List.cons_append, dropOctets?, if_pos hle, hsub, ih]

theorem takeOctets?_append (a b : List Char) : takeOctets? (a ++ b) (octets a) = some a := by
  induction a with
  | nil => simp [octets, takeOctets?]
  | cons c cs ih =>
    obtain ⟨n, hn⟩ : ∃ n, octets (c :: cs) = n + 1 :=
      ⟨_, (Nat.succ_pred_eq_of_pos (Nat.add_pos_left c.utf8Size_pos _)).symm⟩
    have hle : c.utf8Size ≤ n + 1 := hn ▸ Nat.le_add_right _ _
    have hsub : n + 1 - c.utf8Size = octets cs := by rw [← hn, octets, Nat.add_sub_cancel_left]
    rw [hn, List.cons_append, takeOctets?, if_pos hle, hsub, ih, Option.map_some]

theorem slice?_append (a b c : List Char) :
    slice? (a ++ (b ++ c)) (octets a) (octets a + octets b) = some b := by
  rw [slice?, dropOctets?_append, Option.bind_some, Nat.add_sub_cancel_left, takeOctets?_append]

end Vouch.Text
