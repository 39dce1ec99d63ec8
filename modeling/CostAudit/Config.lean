import CostAudit.Duration
import CostAudit.Flag
import CostAudit.Scalar
import CostAudit.Decimal.Shortest

/-!
# Configuration of an audit

A configuration names the flags to hold a routine to, optional bounds on
its mean costs, the three budgets of a run, and two multipliers of the
reference curves. A bound that is absent is not checked.

`Config.validate` says which configurations are usable. The settings that
keep a configuration usable are in `CostAudit.Config.Setting`.
-/

namespace CostAudit

/-- How the memory probe is read. -/
inductive ProbeMode where
  /-- Settle the heap, then read live bytes. -/
  | precise
  /-- Read the cumulative count of allocated bytes. -/
  | approximate
  deriving DecidableEq, Inhabited

def ProbeMode.text : ProbeMode → String
  | precise => "precise"
  | approximate => "approximate"

/-- A budget of a run. -/
inductive Budget where
  | samples
  | memory
  | time
  deriving DecidableEq, Inhabited

namespace Budget

def name : Budget → String
  | samples => "max_n"
  | memory => "max_memory_bytes"
  | time => "time_budget"

def exhausted : Budget → String
  | samples => "sample budget exhausted"
  | memory => "memory budget exhausted"
  | time => "time budget exhausted"

end Budget

/-- The configuration of an audit. -/
structure Config where
  /-- Flags the routine must live up to. -/
  required : FlagSet := .empty
  /-- Greatest mean of allocated bytes per unit of work. -/
  maxMeanBytes : Option UInt64 := none
  /-- Greatest mean of declared steps per unit of work. -/
  maxMeanSteps : Option UInt64 := none
  /-- Least mean of declared steps per unit of work. -/
  minMeanSteps : Option UInt64 := none
  sampleBudget : UInt64 := 100000
  memoryBudget : UInt64 := 209715200
  timeBudget : Duration := .ofParts 1 0
  /-- Multiplier of the curve above which a time counts as a spike. -/
  noiseScale : Float := 1.0
  /-- Multiplier of the rise in unit cost that counts as growth. -/
  growthScale : Float := 1.0
  pinThread : Bool := true
  raisePriority : Bool := false

namespace Config

def standard : Config := {}

/-- Small budgets, for quick feedback. -/
def quick : Config :=
  { sampleBudget := 10000, memoryBudget := 33554432, timeBudget := .ofParts 0 250000000 }

/-- Large budgets, for looking into a suspicion. -/
def thorough : Config :=
  { sampleBudget := 1000000, memoryBudget := 1073741824, timeBudget := .ofParts 10 0 }

/-- Precise readings are needed exactly when memory is held to account. -/
def probeMode (c : Config) : ProbeMode :=
  if c.required.has .memSafe then .precise else .approximate

def isScale (x : Float) : Bool := Scalar.isFinite x && Scalar.lt Scalar.zero x

/-- A multiplier of a reference curve. -/
inductive Curve where
  | noise
  | growth
  deriving DecidableEq

def Curve.name : Curve → String
  | noise => "noise_reference_scale"
  | growth => "growth_reference_scale"

/-- Why a configuration is not usable. -/
inductive Invalid where
  /-- A budget is zero, so no sample could be taken. -/
  | emptyBudget (budget : Budget)
  /-- The least mean of steps is above the greatest. -/
  | crossedStepBounds (min max : UInt64)
  | unusableScale (curve : Curve) (value : Float)

def Invalid.message : Invalid → String
  | emptyBudget b => b.name ++ " must be positive"
  | crossedStepBounds min max =>
    "min_execution_steps (" ++ Decimal.text min.toNat ++
      ") exceeds max_execution_steps (" ++ Decimal.text max.toNat ++ ")"
  | unusableScale c x =>
    c.name ++ " must be positive and finite, got " ++ Decimal.floatText x

/-- A budget must be positive. -/
def checkBudget (b : Budget) (positive : Bool) : Except Invalid Unit :=
  if positive then .ok () else .error (.emptyBudget b)

/-- When both bounds on steps are set, the least is at most the greatest. -/
def checkSteps : Option UInt64 → Option UInt64 → Except Invalid Unit
  | some min, some max => if max < min then .error (.crossedStepBounds min max) else .ok ()
  | _, _ => .ok ()

/-- A multiplier must be positive and finite. -/
def checkScale (curve : Curve) (x : Float) : Except Invalid Unit :=
  if isScale x then .ok () else .error (.unusableScale curve x)

/-- Checks that a configuration is usable; of several reasons against it
the first is given. -/
def validate (c : Config) : Except Invalid Unit := do
  checkBudget .samples (0 < c.sampleBudget)
  checkBudget .memory (0 < c.memoryBudget)
  checkBudget .time (Duration.zero < c.timeBudget)
  checkSteps c.minMeanSteps c.maxMeanSteps
  checkScale .noise c.noiseScale
  checkScale .growth c.growthScale

end Config

end CostAudit
