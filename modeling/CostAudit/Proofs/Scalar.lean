import Mathlib.Algebra.Order.Field.Rat
import Mathlib.Data.Rat.Floor
import Mathlib.Tactic.Ring
import Mathlib.Tactic.Linarith
import CostAudit.Scalar

/-!
# Laws of the numbers

What the operations of `Scalar` are over the fractions. The comparisons
never fail, so `smaller`, `larger` and `clamp` are the lattice operations.

Two laws hold of doubles as well, and what uses only these holds of both.
Numbers keep the order of counts (`Scalar.KeepsOrder`): a longer span does
not become a smaller number, and what lies above a limit, which may be no
number at all, does not fall to it when it grows. And products and
quotients of nothing are nothing (`Scalar.KeepsNothing`), where nothing is
what is neither above nor below zero: a double may leave the zeros on that
way, for a zero times an infinity is no number, but it is never above or
below zero again.
-/

namespace CostAudit.Scalar

variable (a b low high : Rat)

@[simp] theorem lt_rat : Scalar.lt a b = decide (a < b) := rfl

@[simp] theorem le_rat : Scalar.le a b = decide (a ≤ b) := rfl

@[simp] theorem isFinite_rat : Scalar.isFinite a = true := rfl

@[simp] theorem ofNat_rat (n : Nat) : (Scalar.ofNat n : Rat) = n := rfl

@[simp] theorem zero_rat : (Scalar.zero : Rat) = 0 := rfl

@[simp] theorem one_rat : (Scalar.one : Rat) = 1 := rfl

@[simp] theorem isNaN_rat : Scalar.isNaN a = false := by
  simp [Scalar.isNaN]

@[simp] theorem smaller_rat : Scalar.smaller a b = min a b := by
  simp [Scalar.smaller, min_comm a b, min_def]

@[simp] theorem larger_rat : Scalar.larger a b = max a b := by
  simp [Scalar.larger, max_def]

/-- A clamp is the meet with the upper end and then the join with the
lower one. -/
theorem clamp_rat (h : low ≤ high) : Scalar.clamp low high a = max low (min high a) := by
  simp only [Scalar.clamp, lt_rat, decide_eq_true_eq]
  rcases lt_or_ge a low with ha | ha
  · rw [if_pos ha, min_eq_right (ha.le.trans h), max_eq_left ha.le]
  · rw [if_neg ha.not_gt]
    rcases lt_or_ge high a with hb | hb
    · rw [if_pos hb, min_eq_left hb.le, max_eq_right h]
    · rw [if_neg hb.not_gt, min_eq_right hb, max_eq_right ha]

end CostAudit.Scalar

namespace CostAudit

/-! ## The order of counts -/

/-- A kind of number whose comparisons respect the order of the natural
numbers. -/
class Scalar.KeepsOrder (α : Type) [Scalar α] : Prop where
  ofNat_le {m n : Nat} (h : m ≤ n) : Scalar.le (Scalar.ofNat m : α) (Scalar.ofNat n) = true
  lt_of_lt_of_le {a b c : α} (hab : Scalar.lt a b = true) (hbc : Scalar.le b c = true) :
    Scalar.lt a c = true

instance : Scalar.KeepsOrder Rat where
  ofNat_le h := decide_eq_true (Nat.cast_le.mpr h)
  lt_of_lt_of_le hab hbc :=
    decide_eq_true (lt_of_lt_of_le (of_decide_eq_true hab) (of_decide_eq_true hbc))

/-- A number that is above a limit when counted from `m` is above it when
counted from anything larger. -/
theorem Scalar.lt_ofNat_of_le {α : Type} [Scalar α] [Scalar.KeepsOrder α] {limit : α} {m n : Nat}
    (hlt : Scalar.lt limit (Scalar.ofNat m) = true) (hle : m ≤ n) :
    Scalar.lt limit (Scalar.ofNat n) = true :=
  KeepsOrder.lt_of_lt_of_le hlt (KeepsOrder.ofNat_le hle)

/-! ## Nothing -/

/-- The number is neither above nor below zero. -/
structure Scalar.IsNothing {α : Type} [Scalar α] (a : α) : Prop where
  not_above : Scalar.lt Scalar.zero a = false
  not_below : Scalar.lt a Scalar.zero = false

/-- A kind of number whose products and quotients of nothing are nothing. -/
class Scalar.KeepsNothing (α : Type) [Scalar α] : Prop where
  zero : Scalar.IsNothing (Scalar.zero : α)
  mul {a : α} (ha : Scalar.IsNothing a) (b : α) : Scalar.IsNothing (a * b)
  div {a : α} (ha : Scalar.IsNothing a) (b : α) : Scalar.IsNothing (a / b)

theorem Scalar.isNothing_rat_iff {a : Rat} : Scalar.IsNothing a ↔ a = 0 := by
  constructor
  · intro h
    have habove : ¬0 < a := of_decide_eq_false h.not_above
    have hbelow : ¬a < 0 := of_decide_eq_false h.not_below
    exact le_antisymm (not_lt.mp habove) (not_lt.mp hbelow)
  · rintro rfl
    exact ⟨rfl, rfl⟩

instance : Scalar.KeepsNothing Rat where
  zero := Scalar.isNothing_rat_iff.mpr rfl
  mul ha b := by rw [Scalar.isNothing_rat_iff] at ha ⊢; rw [ha, zero_mul]
  div ha b := by rw [Scalar.isNothing_rat_iff] at ha ⊢; rw [ha, zero_div]

end CostAudit
