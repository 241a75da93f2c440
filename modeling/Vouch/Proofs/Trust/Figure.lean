import Vouch.Trust.Beta
import Mathlib.Algebra.Order.Field.Rat
/-!
# Fractions with an undefined value

Doubles have a value that is not a number. It comes out of a division of zero by zero, stays in
every sum and product, also in one by zero, and compares with nothing. A `Figure` is an exact fraction
or that value, so that an argument about scores can follow it without rounding.

Division by zero is undefined here whatever is divided.

* `add_eq_undefined_iff`, `div_eq_undefined_iff`: where the undefined value comes from.
* `zero_mul`: what becomes of it in a product with zero.
* `foldl_add_eq_undefined_iff`: a running sum is undefined just if it starts so or a summand is.
* `isFinite_iff`: a figure is finite just if it is a fraction.
-/
namespace Vouch

/-- A fraction, or the value of what has none. -/
inductive Figure where
  | exact (q : Rat)
  | undefined
  deriving DecidableEq, Repr

namespace Figure

/-- What has a value only where both operands have one. -/
def lift (f : Rat → Rat → Figure) : Figure → Figure → Figure
  | .exact p, .exact q => f p q
  | _, _ => .undefined

/-- A quotient, unless it is one by zero. -/
def quotient (p q : Rat) : Figure := if q = 0 then .undefined else .exact (p / q)

/-- A comparison that fails where an operand is undefined. -/
def Compares (R : Rat → Rat → Prop) : Figure → Figure → Prop
  | .exact p, .exact q => R p q
  | _, _ => False

instance (R : Rat → Rat → Prop) [DecidableRel R] : DecidableRel (Compares R)
  | .exact p, .exact q => inferInstanceAs (Decidable (R p q))
  | .exact _, .undefined => isFalse id
  | .undefined, _ => isFalse id

instance : Scalar Figure where
  zero := .exact 0
  one := .exact 1
  add := lift fun p q => .exact (p + q)
  sub := lift fun p q => .exact (p - q)
  mul := lift fun p q => .exact (p * q)
  div := lift quotient
  natCast n := .exact n
  intCast i := .exact i
  lt := Compares (· < ·)
  le := Compares (· ≤ ·)
  isFinite
    | .exact _ => true
    | .undefined => false
  decLt := inferInstanceAs (DecidableRel (Compares (· < ·)))
  decLe := inferInstanceAs (DecidableRel (Compares (· ≤ ·)))

variable {p q : Rat} {x y : Figure}

theorem zero_def : (0 : Figure) = .exact 0 := rfl

theorem one_def : (1 : Figure) = .exact 1 := rfl

theorem natCast_def (n : Nat) : (n : Figure) = .exact n := rfl

@[simp] theorem exact_add_exact : (.exact p + .exact q : Figure) = .exact (p + q) := rfl

@[simp] theorem exact_sub_exact : (.exact p - .exact q : Figure) = .exact (p - q) := rfl

@[simp] theorem exact_mul_exact : (.exact p * .exact q : Figure) = .exact (p * q) := rfl

theorem exact_div_exact : (.exact p / .exact q : Figure) = quotient p q := rfl

@[simp] theorem exact_le_exact : (.exact p ≤ (.exact q : Figure)) ↔ p ≤ q := .rfl

@[simp] theorem undefined_add : .undefined + y = .undefined := rfl

@[simp] theorem add_undefined : x + .undefined = .undefined := by cases x <;> rfl

@[simp] theorem undefined_mul : .undefined * y = .undefined := rfl

@[simp] theorem mul_undefined : x * .undefined = .undefined := by cases x <;> rfl

@[simp] theorem undefined_div : .undefined / y = .undefined := rfl

@[simp] theorem div_undefined : x / .undefined = .undefined := by cases x <;> rfl

theorem add_zero (x : Figure) : x + 0 = x := by
  cases x with
  | exact p => simp [zero_def]
  | undefined => rfl

/-- Nothing comes of an undefined value, not even when it counts for nothing. -/
theorem zero_mul (x : Figure) : 0 * x = if x = .undefined then .undefined else 0 := by
  cases x <;> simp [zero_def]

theorem add_eq_undefined_iff : x + y = .undefined ↔ x = .undefined ∨ y = .undefined := by
  cases x <;> cases y <;> simp

theorem div_eq_undefined_iff :
    x / y = .undefined ↔ x = .undefined ∨ y = .undefined ∨ y = 0 := by
  cases x <;> cases y <;> simp [exact_div_exact, quotient, zero_def]

/-- **A running sum** is undefined from the first undefined summand on. -/
theorem foldl_add_eq_undefined_iff {β : Type} (f : β → Figure) (l : List β) (x : Figure) :
    l.foldl (fun acc m => acc + f m) x = .undefined ↔
      x = .undefined ∨ ∃ m ∈ l, f m = .undefined := by
  induction l generalizing x with
  | nil => simp
  | cons m l ih => simp [ih, add_eq_undefined_iff, or_assoc]

/-! ## Figures that can be written down -/

theorem isFinite_iff_ne : Scalar.isFinite x = true ↔ x ≠ .undefined := by
  cases x <;> simp [Scalar.isFinite]

theorem isFinite_iff : Scalar.isFinite x = true ↔ ∃ q, x = .exact q := by
  cases x <;> simp [Scalar.isFinite]

theorem isFinite_lift (f : Rat → Rat → Rat) (hx : Scalar.isFinite x = true)
    (hy : Scalar.isFinite y = true) :
    Scalar.isFinite (lift (fun p q => .exact (f p q)) x y) = true := by
  obtain ⟨p, rfl⟩ := isFinite_iff.1 hx
  obtain ⟨q, rfl⟩ := isFinite_iff.1 hy
  rfl

theorem isFinite_add (hx : Scalar.isFinite x = true) (hy : Scalar.isFinite y = true) :
    Scalar.isFinite (x + y) = true := isFinite_lift _ hx hy

theorem isFinite_sub (hx : Scalar.isFinite x = true) (hy : Scalar.isFinite y = true) :
    Scalar.isFinite (x - y) = true := isFinite_lift _ hx hy

theorem isFinite_mul (hx : Scalar.isFinite x = true) (hy : Scalar.isFinite y = true) :
    Scalar.isFinite (x * y) = true := isFinite_lift _ hx hy

theorem isFinite_div (hx : Scalar.isFinite x = true) (hy : Scalar.isFinite y = true)
    (hy0 : y ≠ 0) : Scalar.isFinite (x / y) = true := by
  rw [isFinite_iff_ne, Ne, div_eq_undefined_iff]
  simp [isFinite_iff_ne.1 hx, isFinite_iff_ne.1 hy, hy0]

theorem isFinite_div_of_pos (hx : Scalar.isFinite x = true) (hy : 0 < y) :
    Scalar.isFinite (x / y) = true := by
  cases y with
  | undefined => cases hy
  | exact q =>
    refine isFinite_div hx rfl fun h0 => ?_
    rw [h0] at hy
    exact lt_irrefl (0 : Rat) hy

end Figure
end Vouch
