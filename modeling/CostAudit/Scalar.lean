import CostAudit.Binary64
import CostAudit.Decimal.Digits
import CostAudit.Saturating

/-!
# Arithmetic of the analyses

The sampling loop and the growth analysis compute with fractions: cost per
unit of work, fitted lines, smoothed series. They are written once over
the operations of `Scalar` and run in two readings:

* `Float`, double precision, is what a run computes with;
* `Rat`, exact arithmetic, is what laws are stated over.

The order of operations in a formula is part of it, since a double
precision sum depends on how it is bracketed.

Comparisons are Boolean and may all fail: a value with `¬ le a a` is not a
number, and `smaller`, `larger` and `clamp` say what becomes of it.
-/

namespace CostAudit

/-- A kind of number the analyses can compute with. -/
class Scalar (α : Type) extends Add α, Sub α, Mul α, Div α, Neg α, OfScientific α where
  /-- The number nearest to a natural number. -/
  ofNat : Nat → α
  /-- The strict order; false when an operand is not a number. -/
  lt : α → α → Bool
  /-- The order; false when an operand is not a number. -/
  le : α → α → Bool
  isFinite : α → Bool
  /-- The whole part as a word: below zero and for what is not a number
  zero, above the greatest word the greatest word. -/
  toWord : α → UInt64
  /-- The nearest whole number as text, a half going to the even
  neighbour. -/
  rounded : α → String

/-- A kind of number with a logarithm. -/
class Logarithm (α : Type) where
  log : α → α

namespace Scalar

variable {α : Type} [Scalar α]

/-- Zero. -/
def zero : α := ofNat 0

def one : α := ofNat 1

/-- Whether a value is not a number: it is not even at most itself. -/
def isNaN (a : α) : Bool := !le a a

/-- The smaller of two values, the second of two equal ones; a value that
is not a number yields to the other. -/
def smaller (a b : α) : α := if isNaN a || le b a then b else a

/-- The larger of two values, the second of two equal ones; a value that
is not a number yields to the other. -/
def larger (a b : α) : α := if isNaN a || le a b then b else a

/-- The value moved into the interval from `low` to `high`. What is not a
number stays as it is. -/
def clamp (low high a : α) : α :=
  if lt a low then low else if lt high a then high else a

end Scalar

/-! ## Double precision -/

instance : Scalar Float where
  ofNat := Float.ofNat
  lt a b := a < b
  le a b := a ≤ b
  isFinite := Float.isFinite
  toWord := Float.toUInt64
  rounded := Binary64.roundedText

instance : Logarithm Float where
  log := Float.log

/-! ## Exact arithmetic

Every value is a finite number, and decimal coefficients are the fractions
as written. A logarithm of a fraction is no fraction, so exact arithmetic
has none of its own; a statement about the whole loop takes any function
for it. -/

instance : Scalar Rat where
  ofNat n := (n : Rat)
  lt a b := a < b
  le a b := a ≤ b
  isFinite _ := true
  toWord a := satOfNat a.floor.toNat
  rounded a :=
    let n := Decimal.roundHalfEven a
    String.ofList ((if n < 0 then ['-'] else []) ++ Decimal.digits n.natAbs)

end CostAudit
