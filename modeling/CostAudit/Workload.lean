import CostAudit.Retention
import CostAudit.Sink

/-!
# Workloads

A workload is a routine under audit. It is called once for each sample
with an iteration: the number of units of work to do, and what it may act
on, namely the ledger, the values kept alive and the sink. Its reply is
the list of its actions, in order, and whether it gave up.

A routine declares what it costs, bytes allocated and steps taken; the
ledger keeps both totals and stops at the greatest word.

A workload sees the iteration as it stands when it is called, so it can
work out the effect of its own actions; `Iteration.act` says what each
action does.
-/

namespace CostAudit

/-- Declared totals. -/
structure Ledger where
  bytes : UInt64 := 0
  steps : UInt64 := 0
  deriving DecidableEq, Inhabited

namespace Ledger

def declareBytes (l : Ledger) (bytes : UInt64) : Ledger :=
  { l with bytes := satAdd l.bytes bytes }

def declareSteps (l : Ledger) (steps : UInt64) : Ledger :=
  { l with steps := satAdd l.steps steps }

end Ledger

/-- What a workload sees when it is called. -/
structure Iteration (σ : Type) where
  size : UInt64
  ledger : Ledger
  retention : Retention
  sink : σ

/-- What a workload can do besides its work. -/
inductive Action where
  | declareBytes (bytes : UInt64)
  | declareSteps (steps : UInt64)
  /-- Keeps a value of some size alive until the call has been measured. -/
  | keep (size : UInt64)
  | fail (message : String)
  | note (line : String)
  deriving DecidableEq

/-- What a workload did. -/
structure Reply where
  /-- Its actions, in order. -/
  actions : List Action := []
  /-- Whether it gave up, so that the run must stop. -/
  aborted : Bool := false

namespace Iteration

variable {σ : Type}

def act [Sink σ] (it : Iteration σ) : Action → Iteration σ
  | .declareBytes bytes => { it with ledger := it.ledger.declareBytes bytes }
  | .declareSteps steps => { it with ledger := it.ledger.declareSteps steps }
  | .keep size => { it with retention := it.retention.keep size }
  | .fail message => { it with sink := Sink.fail it.sink message }
  | .note line => { it with sink := Sink.note it.sink line }

def perform [Sink σ] (it : Iteration σ) (actions : List Action) : Iteration σ :=
  actions.foldl act it

def summary (it : Iteration σ) : String :=
  "Iteration \x7b n: " ++ Decimal.text it.size.toNat ++
    ", ledger: Ledger \x7b allocs: " ++ Decimal.text it.ledger.bytes.toNat ++
    ", steps: " ++ Decimal.text it.ledger.steps.toNat ++
    " \x7d, keep_alive: " ++ it.retention.summary ++ ", .. \x7d"

end Iteration

end CostAudit
