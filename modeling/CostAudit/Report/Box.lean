import CostAudit.Binary64
import CostAudit.Report
import CostAudit.Text.Quoted
import CostAudit.Text.Style
import CostAudit.Text.Words

/-!
# Reports in a box

A report for the terminal is a box of lines of equal width: the outcome,
how the run went, the means unless the run was aborted, and the recorded
failures, wrapped. Width is counted in characters that show.

An expectation that a report does not meet is answered by a message that
carries the box, so that a test shows why it failed.
-/

namespace CostAudit.Report

open Text (Style paint visible)

def innerWidth : Nat := 60

def wrapWidth : Nat := innerWidth - 6

def rule (left right : Char) : List Char :=
  left :: List.replicate innerWidth '\u2500' ++ [right]

/-- A line of the box with some content, filled up with blanks. -/
def row (content : List Char) : List Char :=
  '\u2502' :: ' ' :: content ++
    List.replicate (innerWidth - 2 - (visible content).length) ' ' ++ [' ', '\u2502']

def topRule : List Char := rule '\u250c' '\u2510'

def midRule : List Char := rule '\u251c' '\u2524'

def bottomRule : List Char := rule '\u2514' '\u2518'

/-- A span in milliseconds as double precision finds it: seconds and
nanoseconds are added up in seconds first. -/
def millis (d : Duration) : Rat :=
  let seconds := Binary64.nearest (Binary64.nearest (d.secs : Rat) +
    Binary64.nearest ((d.subsecNanos : Rat) / (nanosPerSecond : Rat)))
  Binary64.nearest (seconds * 1000)

def headline (colours : Bool) : Outcome → List Char
  | .pass => paint colours .boldGreen ['\u2713'] ++ ' ' :: paint colours .boldGreen "PASS".toList
  | .fail =>
    paint colours .boldRed ['\u2717'] ++ ' ' ::
      paint colours .boldRed "SAFETY VIOLATION".toList
  | .aborted =>
    paint colours .boldYellow ['\u26a0'] ++ ' ' ::
      paint colours .boldYellow "ABORTED".toList

/-- The contents of the lines on how the run went. -/
def runLines (colours : Bool) (m : Metadata) : List (List Char) :=
  [ "Samples: ".toList ++ Decimal.digits m.samples ++ " (N total ".toList ++
      Decimal.digits m.units.toNat ++ [')'],
    "Elapsed: ".toList ++ Decimal.fixed 1 (millis m.elapsed) ++ " ms".toList,
    "Memory probe: ".toList ++
      (if m.probeActive then m.probeMode.text.toList
       else paint colours .yellow "inactive".toList),
    "Pinned: ".toList ++ (if m.pinned then "yes" else "no").toList ]

def meanLines (colours : Bool) (v : Verification) : List (List Char) :=
  [ paint colours .bold "Per N:".toList,
    "  Measured allocs: ".toList ++ Decimal.digits v.meanMeasured.toNat ++ " B".toList,
    "  Declared allocs: ".toList ++ Decimal.digits v.meanDeclared.toNat ++ " B".toList,
    "  Declared steps:  ".toList ++ Decimal.digits v.meanSteps.toNat,
    "CPU growth: ".toList ++
      (if v.growth then paint colours .red "dangerous".toList
       else paint colours .green "ok".toList) ]

def failureLines (colours : Bool) (errors : List String) : List (List Char) :=
  paint colours .bold "Failures:".toList ::
    errors.flatMap fun e =>
      (Text.wrap wrapWidth e.toList).map fun chunk => ' ' :: ' ' :: paint colours .red chunk

def lines (colours : Bool) (r : Report) : List (List Char) :=
  [topRule, row (headline colours r.outcome), midRule] ++
    (runLines colours r.metadata).map row ++
    (if r.outcome = .aborted then [] else midRule :: (meanLines colours r.result).map row) ++
    (if r.errors.isEmpty then [] else midRule :: (failureLines colours r.errors).map row) ++
    [bottomRule]

/-- The report as text for a terminal, with or without colours. -/
def render (colours : Bool) (r : Report) : String :=
  String.ofList ((r.lines colours).flatMap (· ++ ['\n']))

/-! ## Expectations -/

/-- The report in a message: a blank line and the box. -/
def attached (r : Report) : String := "\n\n" ++ r.render false

def expectPass (r : Report) : Except String Unit :=
  match r.outcome with
  | .pass => .ok ()
  | .fail => .error ("Safety violation detected!" ++ r.attached)
  | .aborted =>
    .error ("Verification aborted: " ++ "; ".intercalate r.errors ++ r.attached)

def expectViolation (r : Report) : Except String Unit :=
  if r.outcome = .fail then .ok ()
  else .error ("Expected a safety violation, got " ++ r.outcome.text ++ r.attached)

/-- Expects that some check failed with a message that contains a text. -/
def expectViolationWith (r : Report) (needle : String) : Except String Unit := do
  r.expectViolation
  if r.mentions needle then .ok ()
  else .error ("Expected a violation containing " ++ Text.quoted needle ++ ", got " ++
    Text.quotedList r.errors)

end CostAudit.Report
