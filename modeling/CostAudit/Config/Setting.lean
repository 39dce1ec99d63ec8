import CostAudit.Config

/-!
# Settings

A configuration is built up from a preset by settings, one field at a
time. `Config.update` makes the change and checks nothing. `Config.set?`
refuses a setting that would leave the configuration unusable, judged
from the setting and, for the bounds on steps, from the other bound.
-/

namespace CostAudit

/-- One change to a configuration. -/
inductive Setting where
  | require (flags : FlagSet)
  | maxMeanBytes (bytes : UInt64)
  | maxMeanSteps (steps : UInt64)
  | minMeanSteps (steps : UInt64)
  | sampleBudget (units : UInt64)
  | memoryBudget (bytes : UInt64)
  | timeBudget (budget : Duration)
  | noiseScale (scale : Float)
  | growthScale (scale : Float)
  | pinThread (pin : Bool)
  | raisePriority (enable : Bool)

/-- Why a setting is refused. -/
inductive Setting.Refused where
  | greatestBelowLeast
  | leastAboveGreatest
  | emptyBudget (budget : Budget)
  | unusableScale (curve : Config.Curve)
  deriving DecidableEq

def Setting.Refused.message : Setting.Refused → String
  | greatestBelowLeast => "max_execution_steps must be >= min_execution_steps"
  | leastAboveGreatest => "min_execution_steps must be <= max_execution_steps"
  | emptyBudget b => b.name ++ " must be positive"
  | unusableScale c => c.name ++ " must be positive"

namespace Config

def update (c : Config) : Setting → Config
  | .require flags => { c with required := c.required.union flags }
  | .maxMeanBytes bytes => { c with maxMeanBytes := some bytes }
  | .maxMeanSteps steps => { c with maxMeanSteps := some steps }
  | .minMeanSteps steps => { c with minMeanSteps := some steps }
  | .sampleBudget units => { c with sampleBudget := units }
  | .memoryBudget bytes => { c with memoryBudget := bytes }
  | .timeBudget budget => { c with timeBudget := budget }
  | .noiseScale scale => { c with noiseScale := scale }
  | .growthScale scale => { c with growthScale := scale }
  | .pinThread pin => { c with pinThread := pin }
  | .raisePriority enable => { c with raisePriority := enable }

def objection (c : Config) : Setting → Option Setting.Refused
  | .maxMeanSteps steps =>
    if c.minMeanSteps.any (steps < ·) then some .greatestBelowLeast else none
  | .minMeanSteps steps =>
    if c.maxMeanSteps.any (· < steps) then some .leastAboveGreatest else none
  | .sampleBudget units => if units = 0 then some (.emptyBudget .samples) else none
  | .memoryBudget bytes => if bytes = 0 then some (.emptyBudget .memory) else none
  | .timeBudget budget =>
    if budget.nanos = 0 then some (.emptyBudget .time) else none
  | .noiseScale scale => if isScale scale then none else some (.unusableScale .noise)
  | .growthScale scale => if isScale scale then none else some (.unusableScale .growth)
  | _ => none

/-- The configuration with one setting changed, unless something speaks
against it. -/
def set? (c : Config) (s : Setting) : Except Setting.Refused Config :=
  match c.objection s with
  | some refused => .error refused
  | none => .ok (c.update s)

end Config

end CostAudit
