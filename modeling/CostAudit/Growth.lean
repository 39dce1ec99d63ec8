import CostAudit.Decimal.Digits
import CostAudit.Growth.Setup
import CostAudit.Growth.Smoothing
import CostAudit.Series

/-!
# Growth of the time per unit

Work that is proportional to its size takes the same time per unit at
every size, once the setup time is taken off. Time per unit that climbs is
work that the declared steps do not explain. The verdict is reached in
three stages: the fitted setup time is subtracted from every time, the
time per unit is smoothed, and the smoothed series is scanned for a rise
above an anchor.

A series is compared with its own past: a value has risen when it exceeds
a tolerated multiple of the lowest positive anchor before it. The scan
keeps that lowest anchor and compares a value with it before taking the
value in.

A value may serve as an anchor when its size is at least sixteen and its
work takes at least as long as the setup; below that the time per unit is
mostly the resolution of the timer.
-/

namespace CostAudit.Growth

/-! ## Rise above an anchor -/

/-- A value and whether later values may be compared with it. -/
structure Mark (α : Type) where
  value : α
  anchor : Bool

variable {α : Type} [Scalar α]

/-- By what factor a value may exceed an anchor when the scale is one. -/
def tolerance : α := Scalar.ofNat 2

/-- Whether a value exceeds the tolerated multiple of the lowest anchor. -/
def exceeds (limit : α) (lowest : Option α) (value : α) : Bool :=
  match lowest with
  | none => false
  | some base => Scalar.lt (base * limit) value

/-- The lowest positive anchor once one more value has been seen. -/
def lowestWith (lowest : Option α) (m : Mark α) : Option α :=
  if m.anchor && Scalar.lt Scalar.zero m.value then
    some (lowest.elim m.value fun base => Scalar.smaller base m.value)
  else lowest

/-- Scans a series from a lowest anchor already known. -/
def risesFrom (limit : α) (lowest : Option α) : List (Mark α) → Bool
  | [] => false
  | m :: ms => exceeds limit lowest m.value || risesFrom limit (lowestWith lowest m) ms

/-- Whether some value of a series rises above an anchor before it. -/
def rises (scale : α) (ms : List (Mark α)) : Bool :=
  risesFrom (tolerance * scale) none ms

/-! ## Time per unit -/

/-- The least size whose time per unit may serve as an anchor. -/
def anchorSize : Nat := 16

/-- The time per unit of a reading, net of the setup time. -/
def Reading.perUnit (setup : α) (r : Reading α) : α :=
  Scalar.larger (r.time - setup) Scalar.zero / Scalar.ofNat (max r.size 1)

/-- Whether the time per unit of a reading may serve as an anchor. -/
def Reading.isAnchor (setup : α) (r : Reading α) : Bool :=
  anchorSize ≤ r.size && Scalar.le setup (r.time - setup)

/-- The smoothed time per unit of every reading, marked where it may serve
as an anchor. -/
def marks (rs : List (Reading α)) : List (Mark α) :=
  let setup := setupTime rs
  (smooth (rs.map (Reading.perUnit setup))).zipWith Mark.mk (rs.map (Reading.isAnchor setup))

def dangerous (scale : α) (rs : List (Reading α)) : Bool := rises scale (marks rs)

/-! ## Lists that must be equally long -/

/-- Two lists that must be equally long are not. -/
structure LengthMismatch where
  left : Nat
  right : Nat
  deriving DecidableEq

def LengthMismatch.message (e : LengthMismatch) : String :=
  "assertion `left == right` failed\n  left: " ++ Decimal.text e.left ++
    "\n right: " ++ Decimal.text e.right

/-- The entries of two lists side by side; the lists must be equally
long. -/
def sideBySide {β γ δ : Type} (f : β → γ → δ) (xs : List β) (ys : List γ) :
    Except LengthMismatch (List δ) :=
  if xs.length = ys.length then .ok (xs.zipWith f ys) else .error ⟨xs.length, ys.length⟩

/-- The readings of a list of times and a list of sizes. -/
def readings (times : List α) (sizes : List Nat) : Except LengthMismatch (List (Reading α)) :=
  sideBySide Reading.mk times sizes

/-- The marks of a list of values and a list that says which are anchors. -/
def marked (values : List α) (anchors : List Bool) : Except LengthMismatch (List (Mark α)) :=
  sideBySide Mark.mk values anchors

end CostAudit.Growth

namespace CostAudit

def Series.readings {α : Type} [Scalar α] (s : Series) : List (Growth.Reading α) :=
  s.samples.toList.map fun x => ⟨x.nanos, x.size.toNat⟩

/-- Whether the time per unit of a series grows dangerously. -/
def Series.grows {α : Type} [Scalar α] (s : Series) (scale : α) : Bool :=
  Growth.dangerous scale s.readings

end CostAudit
