import CostAudit.Loop.Pass
import CostAudit.Scenario.World

/-!
# Scripted workloads

A script is a workload written down: for each call a list of directives,
chosen by the number of the call, by its size, or by default. A directive
moves the world or acts on the iteration. `Script.rig` runs a script in a
simulated world.

Directives spend amounts that are a formula of the size of the call: a
constant, multiples of `n`, `n ^ 2`, `n * log n` and `n * sqrt n`, and a
divisor. The logarithm is rounded up and the root down; the formula is
worked out exactly and cut to a word at the end.
-/

namespace CostAudit.Scenario

open Loop (Rig)

/-! ## Amounts that depend on the size -/

/-- The logarithm to base two, rounded up; zero up to one. -/
def ceilLog2 (n : Nat) : Nat := if n ≤ 1 then 0 else (n - 1).log2 + 1

/-- The root of `n` found bit by bit from a root known so far. -/
def rootFrom (n : Nat) : Nat → Nat → Nat
  | 0, root => root
  | bits + 1, root =>
    let larger := root + Nat.pow 2 bits
    rootFrom n bits (if larger * larger ≤ n then larger else root)

/-- The square root, rounded down. -/
def floorSqrt (n : Nat) : Nat := rootFrom n (n.log2 / 2 + 1) 0

/-- A formula for an amount. -/
structure Amount where
  const : Nat := 0
  linear : Nat := 0
  square : Nat := 0
  sizeLogSize : Nat := 0
  sizeRootSize : Nat := 0
  divisor : Nat := 1

def Amount.fixed (n : Nat) : Amount := { const := n }

def Amount.at (a : Amount) (size : UInt64) : UInt64 :=
  let n := size.toNat
  satOfNat ((a.const + a.linear * n + a.square * n * n + a.sizeLogSize * n * ceilLog2 n +
    a.sizeRootSize * n * floorSqrt n) / a.divisor)

/-! ## Directives -/

/-- One step of a scripted workload. -/
inductive Directive where
  /-- Moves the clock forward, in nanoseconds. -/
  | advance (nanos : Amount)
  /-- Sets the clock, in nanoseconds. -/
  | setClock (nanos : Amount)
  | declareBytes (bytes : Amount)
  | declareSteps (steps : Amount)
  | allocate (bytes : Amount)
  | free (bytes : Amount)
  | defer (bytes : Amount)
  | keep (size : UInt64) (count : Amount)
  | note (line : String)
  | fail (message : String)
  | noteFailed
  | noteLedger
  | noteIteration
  | fatal (message : String)
  | abort

/-- The actions of a directive, and the world after it. -/
def Directive.perform {σ : Type} [Sink σ] (it : Iteration σ) (w : World) :
    Directive → List Action × World
  | advance x => ([], { w with clock := w.clock.later (x.at it.size) })
  | setClock x => ([], { w with clock := ⟨x.at it.size⟩ })
  | declareBytes x => ([.declareBytes (x.at it.size)], w)
  | declareSteps x => ([.declareSteps (x.at it.size)], w)
  | allocate x => ([], { w with heap := w.heap.allocate (x.at it.size) })
  | free x => ([], { w with heap := w.heap.free (x.at it.size) })
  | defer x => ([], { w with heap := w.heap.defer (x.at it.size) })
  | keep size x => (List.replicate (x.at it.size).toNat (.keep size), w)
  | note line => ([.note line], w)
  | fail message => ([.fail message], w)
  | noteFailed => ([.note ("failed: " ++ if Sink.failed it.sink then "true" else "false")], w)
  | noteLedger =>
    ([.note ("ledger: " ++ Decimal.text it.ledger.bytes.toNat ++ " " ++
      Decimal.text it.ledger.steps.toNat)], w)
  | noteIteration => ([.note it.summary], w)
  | fatal message => ([.fail message], w)
  | abort => ([], w)

def Directive.givesUp : Directive → Bool
  | fatal _ => true
  | abort => true
  | _ => false

/-- The reply of a workload that follows some directives, and the world
after it. -/
def play {σ : Type} [Sink σ] (it : Iteration σ) (w : World) : List Directive → Reply × World
  | [] => ({}, w)
  | d :: ds =>
    let (actions, w) := d.perform it w
    if d.givesUp then ({ actions, aborted := true }, w)
    else
      let (reply, w) := play (it.perform actions) w ds
      ({ reply with actions := actions ++ reply.actions }, w)

/-- A workload written down. -/
structure Script where
  /-- The directives of a call that has none of its own. -/
  otherwise : List Directive := []
  /-- Directives by the number of the call, counted from zero. -/
  byCall : List (Nat × List Directive) := []
  bySize : List (Nat × List Directive) := []

def Script.directives (s : Script) (call size : Nat) : List Directive :=
  ((s.byCall.lookup call).or (s.bySize.lookup size)).getD s.otherwise

def Script.rig {σ : Type} [Sink σ] (s : Script) (kind : ProbeKind) : Rig World σ where
  now w := (w.clock.now, w)
  active w := (kind.probe.active w, w)
  read := kind.probe.read
  call it w :=
    play it { w with calls := w.calls + 1 } (s.directives w.calls it.size.toNat)

end CostAudit.Scenario
