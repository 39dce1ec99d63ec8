import CostAudit.Saturating
import CostAudit.Decimal.Digits

/-!
# Values kept alive

A routine hands over values that must stay alive until its call has been
measured. Keeping a value costs the audit itself memory: a box of the
value's size and, now and then, a larger block for the list of boxes. The
list has room for no value at first, then for four, and doubles whenever
it is full; a growth is charged with the whole new block, sixteen bytes a
place. These charges are the overhead, which is later taken out of the
measured bytes.

`rollback` returns to a mark: the values kept since are dropped and their
charges forgotten. The list keeps its room, so a growth that was forgotten
is not charged again.
-/

namespace CostAudit

/-- Values kept alive, and what keeping them has cost. -/
structure Retention where
  /-- The sizes in bytes of the values kept, oldest first. -/
  sizes : Array UInt64 := #[]
  capacity : Nat := 0
  /-- Bytes spent on boxes and on growing the list. -/
  overhead : UInt64 := 0
  deriving Inhabited

namespace Retention

def slotBytes : Nat := 16

/-- A position to return to. -/
structure Mark where
  length : Nat
  overhead : UInt64
  deriving DecidableEq, Inhabited

def length (r : Retention) : Nat := r.sizes.size

def isEmpty (r : Retention) : Bool := r.length == 0

/-- The room of a list that has to grow from a given room. -/
def grownCapacity (capacity : Nat) : Nat := max 4 (2 * capacity)

def keep : Retention → UInt64 → Retention
  | ⟨sizes, capacity, overhead⟩, size =>
    if sizes.size < capacity then
      { sizes := sizes.push size, capacity, overhead := satAdd overhead size }
    else
      let capacity := grownCapacity capacity
      { sizes := sizes.push size
        capacity
        overhead := satAdd (satAdd overhead size) (satOfNat (capacity * slotBytes)) }

def mark (r : Retention) : Mark := ⟨r.length, r.overhead⟩

/-- Drops the values kept since a mark and forgets their charges. -/
def rollback (r : Retention) (m : Mark) : Retention :=
  { r with sizes := r.sizes.shrink m.length, overhead := m.overhead }

/-- Releases every value. Room and overhead stay. -/
def clear (r : Retention) : Retention := { r with sizes := #[] }

def summary (r : Retention) : String :=
  "KeepAlive \x7b len: " ++ Decimal.text r.length ++ ", capacity: " ++
    Decimal.text r.capacity ++ ", overhead: " ++ Decimal.text r.overhead.toNat ++ " \x7d"

end Retention

end CostAudit
