import CostAudit.Config
import CostAudit.Series

/-!
# Choosing the next size

A run takes samples of growing size until a budget is used up. The next
size is twice the last one, cut down to what is left of the sample budget
and to what the time and memory budgets admit at the last observed rates,
and never less than one. When that falls below the last size, the run
ends on the budget that made it so.

Everything here is decided from the series so far and the time since the
start; `Settings.next` is the decision.
-/

namespace CostAudit.Loop

/-- The budgets of a run and how it measures. -/
structure Settings (α : Type) where
  sampleBudget : UInt64
  memoryBudget : UInt64
  timeBudget : Duration
  mode : ProbeMode
  noiseScale : α
  pinThread : Bool := false

def Settings.ofConfig (c : Config) : Settings Float where
  sampleBudget := c.sampleBudget
  memoryBudget := c.memoryBudget
  timeBudget := c.timeBudget
  mode := c.probeMode
  noiseScale := c.noiseScale
  pinThread := c.pinThread

/-- What a run does next. -/
inductive Next where
  | stop (budget : Budget)
  | call (size : UInt64)
  deriving DecidableEq

namespace Settings

variable {α : Type} [Scalar α] (cfg : Settings α)

def samplesLeft (s : Series) : UInt64 := satSub cfg.sampleBudget s.units

/-- The size that uses up the rest of the memory budget at the last
observed rate, if there is a rate. -/
def sizeForMemory? (s : Series) (prev : Sample) : Option UInt64 :=
  let rate : α := prev.bytesPerUnit
  if Scalar.lt Scalar.zero rate then
    some (Scalar.toWord (Scalar.ofNat (satSub cfg.memoryBudget s.measured).toNat / rate))
  else none

/-- The size that uses up the rest of the time budget at the last observed
rate, if there is a rate. -/
def sizeForTime? (elapsed : Duration) (prev : Sample) : Option UInt64 :=
  let rate : α := prev.nanosPerUnit
  if Scalar.lt Scalar.zero rate then
    some (Scalar.toWord (Scalar.ofNat (cfg.timeBudget.satSub elapsed).nanos / rate))
  else none

/-- A size cut down to a cap, if there is one. -/
def cutTo (size : UInt64) (cap : Option UInt64) : UInt64 := cap.elim size (min size)

def nextSize (s : Series) (elapsed : Duration) (prev : Sample) : UInt64 :=
  let doubled := min (satAdd prev.size prev.size) (cfg.samplesLeft s)
  max (cutTo (cutTo doubled (cfg.sizeForMemory? s prev)) (cfg.sizeForTime? elapsed prev)) 1

/-- The budget that leaves no room for a sample as large as the last one.
That there is one is an assumption of the bookkeeping. -/
def shortBudget (s : Series) (elapsed : Duration) (prev : Sample) :
    Except Fault Budget :=
  if cfg.samplesLeft s < prev.size then .ok .samples
  else if (cfg.sizeForMemory? s prev).any (· < prev.size) then .ok .memory
  else if (cfg.sizeForTime? elapsed prev).any (· < prev.size) then .ok .time
  else .error .noShortBudget

/-- What the run does after a series, some time after its start. -/
def next (s : Series) (elapsed : Duration) : Except Fault Next :=
  if cfg.sampleBudget ≤ s.units then .ok (.stop .samples)
  else if cfg.memoryBudget ≤ s.measured then .ok (.stop .memory)
  else if cfg.timeBudget ≤ elapsed then .ok (.stop .time)
  else
    match s.last? with
    | none => .ok (.call 1)
    | some prev =>
      let size := cfg.nextSize s elapsed prev
      if size < prev.size then (cfg.shortBudget s elapsed prev).map .stop
      else .ok (.call size)

end Settings

end CostAudit.Loop
