/-!
# Room for tables

A table is laid out in one block of memory, and no block has more octets than `Room.limit`. A table
for which more would be needed is refused before anything is laid out.
-/
namespace Vouch.Room

/-- The most octets of a block: the largest signed number of sixty-four bits. -/
def limit : Nat := 9223372036854775807

/-- Whether there is room for a number of records of some octets each. -/
def isFor (count octets : Nat) : Bool := count * octets ≤ limit

/-- What is said where there is no room. -/
def exceeded : String := "capacity overflow"

theorem isFor_of_le {m n octets : Nat} (h : m ≤ n) (hn : isFor n octets = true) :
    isFor m octets = true :=
  decide_eq_true (Nat.le_trans (Nat.mul_le_mul_right octets h) (of_decide_eq_true hn))

end Vouch.Room
