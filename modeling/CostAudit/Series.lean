import CostAudit.Duration
import CostAudit.Json
import CostAudit.Scalar

/-!
# Samples and series

A sample is one measured call of the routine: how many units of work it
was asked for, how long it took, and what was measured and declared
meanwhile. A series is the samples of a run in order, with the running
totals of sizes and measured bytes. Sizes never decrease along a series;
a sample that would break this is refused.

The JSON form of a series has its samples, each with its time in seconds
and nanoseconds, and the running totals.
-/

namespace CostAudit

/-- One measured call. -/
structure Sample where
  size : UInt64
  elapsed : Duration
  measured : UInt64
  declaredBytes : UInt64
  declaredSteps : UInt64
  deriving DecidableEq, Inhabited

namespace Sample

variable {α : Type} [Scalar α]

/-- The time in nanoseconds. -/
def nanos (s : Sample) : α := Scalar.ofNat s.elapsed.nanos

/-- The size, counted as at least one. -/
def divisor (s : Sample) : α := Scalar.ofNat (max s.size.toNat 1)

/-- Nanoseconds per unit of work. -/
def nanosPerUnit (s : Sample) : α := s.nanos / s.divisor

def bytesPerUnit (s : Sample) : α := Scalar.ofNat s.measured.toNat / s.divisor

end Sample

/-- An assumption of the bookkeeping that does not hold. -/
inductive Fault where
  | sizesDecrease
  /-- A run ended for lack of room although no budget is short. -/
  | noShortBudget
  deriving DecidableEq

def Fault.message : Fault → String
  | sizesDecrease => "sample sizes must not decrease"
  | noShortBudget => "a run must end on a budget that binds"

/-- The samples of a run. -/
structure Series where
  samples : Array Sample := #[]
  units : UInt64 := 0
  measured : UInt64 := 0
  deriving Inhabited

namespace Series

def last? (s : Series) : Option Sample := s.samples.back?

def append : Series → Sample → Series
  | ⟨samples, units, measured⟩, x =>
    { samples := samples.push x
      units := satAdd units x.size
      measured := satAdd measured x.measured }

def admits (s : Series) (x : Sample) : Bool :=
  match s.last? with
  | none => true
  | some prev => prev.size ≤ x.size

/-- Puts a sample at the end of the series, unless it is smaller than the
one before it. -/
def push (s : Series) (x : Sample) : Except Fault Series :=
  if s.admits x then .ok (s.append x) else .error .sizesDecrease

/-- The sizes, in order. -/
def sizes (s : Series) : List UInt64 := s.samples.toList.map Sample.size

/-- The times in nanoseconds, in order. -/
def times {α : Type} [Scalar α] (s : Series) : List α := s.samples.toList.map Sample.nanos

end Series

/-! ## Series as JSON -/

/-- The JSON form of a span: seconds and nanoseconds. -/
def Duration.toJson (d : Duration) : Json :=
  .record [("secs", .natural d.secs), ("nanos", .natural d.subsecNanos)]

def Sample.toJson (x : Sample) : Json :=
  .record [
    ("n", .word x.size),
    ("elapsed", x.elapsed.toJson),
    ("measured_alloc_bytes", .word x.measured),
    ("declared_alloc_bytes", .word x.declaredBytes),
    ("declared_steps", .word x.declaredSteps)]

def Series.toJson (s : Series) : Json :=
  .record [
    ("samples", .array (s.samples.toList.map Sample.toJson)),
    ("n_sum", .word s.units),
    ("measured_sum", .word s.measured)]

end CostAudit
