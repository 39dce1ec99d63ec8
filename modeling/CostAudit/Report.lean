import CostAudit.Verification

/-!
# Reports

A report is everything an audit found: the outcome, the verification, how
the run went, and what the sink recorded. An aborted run has the empty
verification.

`Report.passed` and `Report.mentions` ask a report for its outcome and for
a text among its failures.
-/

namespace CostAudit

/-- The outcome of an audit. -/
inductive Outcome where
  | pass
  | fail
  /-- The run stopped before it finished, and nothing was verified. -/
  | aborted
  deriving DecidableEq, Inhabited

def Outcome.text : Outcome → String
  | pass => "PASS"
  | fail => "FAIL"
  | aborted => "ABORTED"

/-- How a run went. -/
structure Metadata where
  samples : Nat
  units : UInt64
  elapsed : Duration
  probeMode : ProbeMode
  probeActive : Bool
  pinned : Bool
  deriving DecidableEq, Inhabited

def Metadata.empty (mode : ProbeMode) : Metadata where
  samples := 0
  units := 0
  elapsed := .zero
  probeMode := mode
  probeActive := false
  pinned := false

/-- What an audit found. -/
structure Report where
  outcome : Outcome
  /-- Means and failed checks; empty when the run was aborted. -/
  result : Verification
  metadata : Metadata
  errors : List String
  logs : List String
  deriving DecidableEq, Inhabited

def occursIn (needle text : List Char) : Bool :=
  match text with
  | [] => needle.isEmpty
  | _ :: rest => needle.isPrefixOf text || occursIn needle rest

namespace Report

def passed (r : Report) : Bool := r.outcome = .pass

def mentions (r : Report) (needle : String) : Bool :=
  r.errors.any fun e => occursIn needle.toList e.toList

end Report

end CostAudit
