import CostAudit.Json
import CostAudit.Json.Reader
import CostAudit.Json.Writer
import CostAudit.Report

/-!
# Reports as JSON

The JSON form of reports and of their parts, and its reading. The time of
a run is written in nanoseconds and capped at the greatest word.
-/

namespace CostAudit

open Json (fields? choice? plainChoice?)

def Flag.toJson (f : Flag) : Json := .text f.name

def Flag.ofJson? (v : Json) : Option Flag :=
  (plainChoice? v).bind fun name => Flag.all.find? (·.name = name)

/-- The JSON form of a set of flags: its bits. -/
def FlagSet.toJson (s : FlagSet) : Json := .natural s.bits.toNat

def FlagSet.ofJson? (v : Json) : Option FlagSet :=
  (v.below? 256).map fun n => ⟨n.toUInt8⟩

def ProbeMode.name : ProbeMode → String
  | precise => "Precise"
  | approximate => "Approximate"

def ProbeMode.toJson (m : ProbeMode) : Json := .text m.name

def ProbeMode.ofJson? (v : Json) : Option ProbeMode :=
  (plainChoice? v).bind fun name => [precise, approximate].find? (·.name = name)

def Outcome.name : Outcome → String
  | pass => "Pass"
  | fail => "Fail"
  | aborted => "Aborted"

def Outcome.toJson (o : Outcome) : Json := .text o.name

def Outcome.ofJson? (v : Json) : Option Outcome :=
  (plainChoice? v).bind fun name => [pass, fail, aborted].find? (·.name = name)

/-- The JSON form of a choice with two numbers in it. -/
def Json.pair (name first second : String) (a b : UInt64) : Json :=
  .record [(name, .record [(first, .word a), (second, .word b)])]

def Violation.toJson : Violation → Json
  | measuredAboveMax mean max => .pair "MeasuredAboveMax" "mean" "max" mean max
  | declaredAboveMax mean max => .pair "DeclaredAboveMax" "mean" "max" mean max
  | measuredAboveDeclared measured declared =>
    .pair "MeasuredAboveDeclared" "measured" "declared" measured declared
  | stepsAboveMax mean max => .pair "StepsAboveMax" "mean" "max" mean max
  | stepsBelowMin mean min => .pair "StepsBelowMin" "mean" "min" mean min
  | undeclaredCpuGrowth => .text "UndeclaredCpuGrowth"

def Json.pair? (first second : String) (v : Json) : Option (UInt64 × UInt64) := do
  match ← fields? [first, second] v with
  | [a, b] => return (← a.word?, ← b.word?)
  | _ => none

def Violation.ofJson? (v : Json) : Option Violation := do
  match ← choice? v with
  | ("MeasuredAboveMax", some v) =>
    (Json.pair? "mean" "max" v).map fun (a, b) => measuredAboveMax a b
  | ("DeclaredAboveMax", some v) =>
    (Json.pair? "mean" "max" v).map fun (a, b) => declaredAboveMax a b
  | ("MeasuredAboveDeclared", some v) =>
    (Json.pair? "measured" "declared" v).map fun (a, b) => measuredAboveDeclared a b
  | ("StepsAboveMax", some v) =>
    (Json.pair? "mean" "max" v).map fun (a, b) => stepsAboveMax a b
  | ("StepsBelowMin", some v) =>
    (Json.pair? "mean" "min" v).map fun (a, b) => stepsBelowMin a b
  | ("UndeclaredCpuGrowth", none) => some undeclaredCpuGrowth
  | ("UndeclaredCpuGrowth", some .null) => some undeclaredCpuGrowth
  | _ => none

def Verification.fieldNames : List String :=
  ["mean_measured_allocs_per_n", "mean_declared_allocs_per_n",
    "mean_execution_steps_per_n", "cpu_growth_flag", "failures"]

def Verification.toJson (v : Verification) : Json :=
  .record (fieldNames.zip
    [.word v.meanMeasured, .word v.meanDeclared, .word v.meanSteps, .bool v.growth,
      .array (v.failures.map Violation.toJson)])

def Verification.ofJson? (v : Json) : Option Verification := do
  match ← fields? fieldNames v with
  | [measured, declared, steps, growth, failures] =>
    return {
      meanMeasured := ← measured.word?
      meanDeclared := ← declared.word?
      meanSteps := ← steps.word?
      growth := ← growth.bool?
      failures := ← failures.list? Violation.ofJson? }
  | _ => none

def Metadata.fieldNames : List String :=
  ["samples", "n_sum", "elapsed", "probe_mode", "probe_active", "pinned"]

def Metadata.toJson (m : Metadata) : Json :=
  .record (fieldNames.zip
    [.natural m.samples, .word m.units, .word m.elapsed.toWord, m.probeMode.toJson,
      .bool m.probeActive, .bool m.pinned])

def Metadata.ofJson? (v : Json) : Option Metadata := do
  match ← fields? fieldNames v with
  | [samples, units, elapsed, probeMode, probeActive, pinned] =>
    return {
      samples := ← samples.below? 18446744073709551616
      units := ← units.word?
      elapsed := .ofWord (← elapsed.word?)
      probeMode := ← ProbeMode.ofJson? probeMode
      probeActive := ← probeActive.bool?
      pinned := ← pinned.bool? }
  | _ => none

def Report.fieldNames : List String := ["outcome", "result", "metadata", "errors", "logs"]

def Report.toJson (r : Report) : Json :=
  .record (fieldNames.zip
    [r.outcome.toJson, r.result.toJson, r.metadata.toJson, .texts r.errors, .texts r.logs])

def Report.ofJson? (v : Json) : Option Report := do
  match ← fields? fieldNames v with
  | [outcome, result, metadata, errors, logs] =>
    return {
      outcome := ← Outcome.ofJson? outcome
      result := ← Verification.ofJson? result
      metadata := ← Metadata.ofJson? metadata
      errors := ← errors.list? Json.text?
      logs := ← logs.list? Json.text? }
  | _ => none

def Report.read? (s : String) : Option Report := (Json.read? s).bind Report.ofJson?

end CostAudit
