import CostAudit.Config
import CostAudit.Decimal.Digits
import CostAudit.Sink

/-!
# Verification

The totals of a run are judged by their means per unit of work, rounded to
the nearest whole number. Six checks are made, each on its own: no check
depends on whether another one failed. Checks on measured bytes need an
active probe; checks on the honesty of declared bytes are made when memory
safety is required; growth of the time counts against a routine whose CPU
safety is required and whose steps have no upper bound. A check that
fails is a violation, with the numbers it failed on; its message is what
the sink and the report show.

A run without samples is not judged at all.
-/

namespace CostAudit

/-! ## Violations -/

/-- A check that failed. -/
inductive Violation where
  /-- Mean measured bytes exceed the greatest mean allowed. -/
  | measuredAboveMax (mean max : UInt64)
  /-- Mean declared bytes exceed the greatest mean allowed. -/
  | declaredAboveMax (mean max : UInt64)
  | measuredAboveDeclared (measured declared : UInt64)
  /-- Mean declared steps exceed the greatest mean allowed. -/
  | stepsAboveMax (mean max : UInt64)
  /-- Mean declared steps fall short of the least mean allowed. -/
  | stepsBelowMin (mean min : UInt64)
  | undeclaredCpuGrowth
  deriving DecidableEq, Inhabited

def wordText (w : UInt64) : String := Decimal.text w.toNat

def Violation.message : Violation → String
  | measuredAboveMax mean max =>
    "measured memory above maximum (" ++ wordText mean ++ " > " ++ wordText max ++
      " bytes per N)"
  | declaredAboveMax mean max =>
    "declared allocations above maximum (" ++ wordText mean ++ " > " ++ wordText max ++
      " bytes per N)"
  | measuredAboveDeclared measured declared =>
    "measured memory above declared allocations (" ++ wordText measured ++ " > " ++
      wordText declared ++ " bytes)"
  | stepsAboveMax mean max =>
    "execution steps are above maximum (" ++ wordText mean ++ " > " ++ wordText max ++
      " per N)"
  | stepsBelowMin mean min =>
    "execution steps are below minimum (" ++ wordText mean ++ " < " ++ wordText min ++
      " per N)"
  | undeclaredCpuGrowth =>
    "execution uses CPU time not accounted for by declared steps"

/-! ## Means and checks -/

/-- The totals of a run. -/
structure Totals where
  units : UInt64
  /-- Measured bytes, net of overhead. -/
  measured : UInt64
  declaredBytes : UInt64
  declaredSteps : UInt64
  /-- Whether the measured bytes mean anything. -/
  probeActive : Bool
  deriving DecidableEq, Inhabited

/-- Means per unit of work and the checks that failed. -/
structure Verification where
  meanMeasured : UInt64 := 0
  meanDeclared : UInt64 := 0
  meanSteps : UInt64 := 0
  growth : Bool := false
  /-- The checks that failed, in the order of the checks. -/
  failures : List Violation := []
  deriving DecidableEq, Inhabited

namespace Verification

def passed (v : Verification) : Bool := v.failures.isEmpty

def messages (v : Verification) : List String := v.failures.map Violation.message

end Verification

/-- A total divided by the sum of the sizes, a half rounded up; zero when
there is nothing to divide by. -/
def meanPerUnit (total units : UInt64) : UInt64 :=
  if units = 0 then 0
  else satOfNat ((total.toNat + units.toNat / 2) / units.toNat)

/-- A violation when a condition holds. -/
def violationIf (condition : Bool) (v : Violation) : Option Violation :=
  if condition then some v else none

/-- Whether the measured bytes exceed the declared ones by at least half a
byte per unit of work. -/
def Totals.underdeclared (t : Totals) : Bool :=
  t.declaredBytes < t.measured &&
    t.units.toNat ≤ (t.measured.toNat - t.declaredBytes.toNat) * 2

/-- The means of a run's totals, before any check is made. -/
def Verification.means (t : Totals) (growth : Bool) : Verification where
  meanMeasured := meanPerUnit t.measured t.units
  meanDeclared := meanPerUnit t.declaredBytes t.units
  meanSteps := meanPerUnit t.declaredSteps t.units
  growth := growth

/-- The outcome of each check, in order. -/
def Config.checks (c : Config) (t : Totals) (means : Verification) : List (Option Violation) :=
  let memSafe := c.required.has .memSafe
  [ c.maxMeanBytes.bind fun max =>
      violationIf (t.probeActive && max < means.meanMeasured)
        (.measuredAboveMax means.meanMeasured max),
    c.maxMeanBytes.bind fun max =>
      violationIf (memSafe && max < means.meanDeclared) (.declaredAboveMax means.meanDeclared max),
    violationIf (memSafe && t.probeActive && t.underdeclared)
      (.measuredAboveDeclared t.measured t.declaredBytes),
    c.maxMeanSteps.bind fun max =>
      violationIf (max < means.meanSteps) (.stepsAboveMax means.meanSteps max),
    c.minMeanSteps.bind fun min =>
      violationIf (means.meanSteps < min) (.stepsBelowMin means.meanSteps min),
    violationIf (c.required.has .cpuSafe && c.maxMeanSteps.isNone && means.growth)
      .undeclaredCpuGrowth ]

def Config.judge (c : Config) (t : Totals) (growth : Bool) : Verification :=
  let means := Verification.means t growth
  { means with failures := (c.checks t means).filterMap id }

/-- The line logged when a run took no samples. -/
def nothingToVerify : String := "no samples taken, nothing to verify"

/-- Judges the totals of a run and sends the failures to the sink. -/
def Config.verify {σ : Type} [Sink σ] (c : Config) (t : Totals) (growth : Bool) (sink : σ) :
    Verification × σ :=
  if t.units = 0 then ({}, Sink.note sink nothingToVerify)
  else
    let v := c.judge t growth
    (v, v.messages.foldl Sink.fail sink)

end CostAudit
