import CostAudit.Growth
import CostAudit.Loop.Run
import CostAudit.Warning

/-!
# Audits

An audit checks the configuration, warns of what cannot be checked, takes
a run, and verifies its totals. A configuration that is not usable, or a
run that is stopped early, leaves nothing to verify; the failure that
caused it is on the sink.

`Config.audit` reports to any sink. `Config.report` records failures and
log lines itself and gathers everything into a report.
-/

namespace CostAudit

open Loop (Rig Run Settings)

def Loop.Run.totals {W σ : Type} (r : Run W σ) : Totals where
  units := r.state.series.units
  measured := r.netMeasured
  declaredBytes := r.state.ledger.bytes
  declaredSteps := r.state.ledger.steps
  probeActive := r.probeActive

/-- What an audit leaves behind. -/
structure Findings (W σ : Type) where
  /-- The verification, unless nothing was verified. -/
  result? : Option Verification
  metadata : Metadata
  sink : σ
  world : W
  /-- Every call of the workload, in order. -/
  calls : List Loop.Call

namespace Config

variable {W σ : Type} [Sink σ]

/-- Judges a series with its totals, and sends the failures to the sink. -/
def verifySeries (c : Config) (series : Series) (t : Totals) (sink : σ) : Verification × σ :=
  c.verify t (series.grows c.growthScale) sink

def completedMetadata (c : Config) (r : Run W σ) : Metadata where
  samples := r.state.series.samples.size
  units := r.state.series.units
  elapsed := r.elapsed
  probeMode := c.probeMode
  probeActive := r.probeActive
  pinned := r.pinned

/-- The line logged at the end of a run that a budget ended. -/
def completedLine (m : Metadata) (budget : Budget) : String :=
  Decimal.text m.samples ++ " samples, N total " ++ wordText m.units ++ ", " ++ budget.exhausted

/-- The findings of a run: verified when a budget ended it, and otherwise
only described. Whether the probe was active is what it said before the
run when the run was stopped early. -/
def conclude (c : Config) (probeActive : Bool) (r : Run W σ) : Findings W σ :=
  match r.ending with
  | .aborted =>
    { result? := none
      metadata :=
        { Metadata.empty c.probeMode with
          samples := r.state.series.samples.size
          elapsed := r.elapsed
          probeActive }
      sink := r.state.sink
      world := r.state.world
      calls := r.calls }
  | .stopped budget _ =>
    let metadata := c.completedMetadata r
    let sink := Sink.note r.state.sink (completedLine metadata budget)
    let (result, sink) := c.verifySeries r.state.series r.totals sink
    { result? := some result
      metadata
      sink
      world := r.state.world
      calls := r.calls }

/-- Audits the workload of a rig and sends failures and log lines to a
sink. -/
def audit (c : Config) (rig : Rig W σ) (sink : σ) (w : W) : Except Fault (Findings W σ) :=
  match c.validate with
  | .error e =>
    .ok {
      result? := none
      metadata := .empty c.probeMode
      sink := Sink.fail sink ("invalid configuration: " ++ e.message)
      world := w
      calls := [] }
  | .ok () => do
    let (probeActive, w) := rig.active w
    let sink := (c.warnings probeActive).foldl (fun s x => Sink.note s x.text) sink
    let r ← Loop.run rig (Settings.ofConfig c) sink w
    return c.conclude probeActive r

end Config

/-- The outcome of an audit with a verification, or without one. -/
def Outcome.ofResult : Option Verification → Outcome
  | none => .aborted
  | some v => if v.passed then .pass else .fail

def Findings.report {W : Type} (f : Findings W Transcript) : Report where
  outcome := .ofResult f.result?
  result := f.result?.getD {}
  metadata := f.metadata
  errors := f.sink.failures.toList
  logs := f.sink.logs.toList

def Config.report {W : Type} (c : Config) (rig : Rig W Transcript) (w : W) :
    Except Fault Report :=
  (c.audit rig {} w).map Findings.report

end CostAudit
