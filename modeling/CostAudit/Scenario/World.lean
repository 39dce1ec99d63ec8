import CostAudit.Duration
import CostAudit.Probe

/-!
# A simulated world

A world in which nothing happens by itself: a clock that moves only when
told to, a heap that holds what it is told to hold, and a count of the
calls made.

Bytes given to the heap are live until they are freed. Bytes that are
deferred become free only at the second collection pass after that, which
is why a precise reading takes two.
-/

namespace CostAudit.Scenario

/-- A clock that moves only when told to. It reads a word of
nanoseconds. -/
structure Clock where
  nanos : UInt64 := 0
  deriving Inhabited

namespace Clock

def now (c : Clock) : Duration := .ofWord c.nanos

/-- The clock some nanoseconds later. -/
def later (c : Clock) (nanos : UInt64) : Clock := ⟨satAdd c.nanos nanos⟩

def advance (c : Clock) (span : Duration) : Clock := c.later span.toWord

def ofDuration (d : Duration) : Clock := ⟨d.toWord⟩

end Clock

/-- A heap that holds what it is told to hold. -/
structure SimulatedHeap where
  live : UInt64 := 0
  total : UInt64 := 0
  /-- Bytes that the next collection pass makes ready. -/
  staged : UInt64 := 0
  /-- Bytes that the next collection pass frees. -/
  ready : UInt64 := 0
  /-- Collection passes so far. -/
  collections : Nat := 0
  /-- Whether readings mean anything. -/
  active : Bool := true
  deriving Inhabited

namespace SimulatedHeap

def allocate (h : SimulatedHeap) (bytes : UInt64) : SimulatedHeap :=
  { h with live := satAdd h.live bytes, total := satAdd h.total bytes }

def free (h : SimulatedHeap) (bytes : UInt64) : SimulatedHeap :=
  { h with live := satSub h.live bytes }

def defer (h : SimulatedHeap) (bytes : UInt64) : SimulatedHeap :=
  { h with staged := satAdd h.staged bytes }

/-- Runs a collection pass. -/
def collect (h : SimulatedHeap) : SimulatedHeap :=
  { h with
    collections := h.collections + 1
    live := satSub h.live h.ready
    ready := h.staged
    staged := 0 }

end SimulatedHeap

/-- The world of a scenario. -/
structure World where
  clock : Clock := {}
  heap : SimulatedHeap := {}
  calls : Nat := 0
  deriving Inhabited

/-- The probes a scenario can use. -/
inductive ProbeKind where
  | simulated
  | null
  /-- Reads a counting heap that nothing allocates through. -/
  | counting
  deriving DecidableEq, Inhabited

def ProbeKind.probe : ProbeKind → Probe World
  | simulated =>
    { collect := fun w => { w with heap := w.heap.collect }
      live := fun w => w.heap.live
      allocated := fun w => w.heap.total
      active := fun w => w.heap.active }
  | null => .null
  | counting => .ofHeap (fun _ => {}) fun _ => false

end CostAudit.Scenario
