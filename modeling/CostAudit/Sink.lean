/-!
# Sinks

Failures and log lines of a run go to a sink. Once the sink counts as
failed, the run stops at the next boundary between samples and nothing is
verified.

`Transcript` is the sink that keeps everything in memory and counts as
failed from the first failure on. A `RuledTranscript` may be deaf to its
failures, and may count as failed once it has a number of log lines.
-/

namespace CostAudit

/-- A place for failures and log lines. -/
class Sink (σ : Type) where
  fail : σ → String → σ
  note : σ → String → σ
  /-- Whether the run must stop. -/
  failed : σ → Bool

/-- Failures and log lines, in order. -/
structure Transcript where
  failures : Array String := #[]
  logs : Array String := #[]
  deriving DecidableEq, Inhabited

namespace Transcript

def fail (r : Transcript) (message : String) : Transcript :=
  { r with failures := r.failures.push message }

def note (r : Transcript) (line : String) : Transcript :=
  { r with logs := r.logs.push line }

def failed (r : Transcript) : Bool := !r.failures.isEmpty

end Transcript

instance : Sink Transcript where
  fail := Transcript.fail
  note := Transcript.note
  failed := Transcript.failed

/-- A transcript with a rule of its own for when the run must stop. -/
structure RuledTranscript where
  transcript : Transcript := {}
  /-- Whether recorded failures do not stop the run. -/
  deaf : Bool := false
  /-- The number of log lines that stops the run, if any. -/
  failAfterLogs : Option Nat := none
  deriving Inhabited

/-- Whether the run must stop. -/
def RuledTranscript.failed (r : RuledTranscript) : Bool :=
  (!r.deaf && r.transcript.failed) || r.failAfterLogs.any (· ≤ r.transcript.logs.size)

instance : Sink RuledTranscript where
  fail r message := { r with transcript := r.transcript.fail message }
  note r line := { r with transcript := r.transcript.note line }
  failed := RuledTranscript.failed

end CostAudit
