import CostAudit.Workload
import Mathlib.Algebra.Order.Ring.Nat

/-!
# What a reply does

The actions of a reply reach the ledger, the kept values and the sink
independently: each of the three sees only its own kind of action, in
order. The three projections of `Iteration.perform` below are what the
theory of the loop uses; it never looks at an iteration in between.

For the ledger the fold is kept as it is (`Ledger.record`). For the kept
values it is the list of their sizes (`Reply.kept`), since only that list
decides when the room grows. For a transcript it is the list of failure
messages (`Reply.failures`), since only those stop a run.
-/

namespace CostAudit

/-! ## The ledger -/

/-- What an action declares on the ledger. -/
def Ledger.record (l : Ledger) : Action → Ledger
  | .declareBytes bytes => l.declareBytes bytes
  | .declareSteps steps => l.declareSteps steps
  | _ => l

/-- What some actions declare on the ledger, in order. -/
def Ledger.recordAll (l : Ledger) (actions : List Action) : Ledger :=
  actions.foldl Ledger.record l

theorem Ledger.recordAll_append (l : Ledger) (xs ys : List Action) :
    l.recordAll (xs ++ ys) = (l.recordAll xs).recordAll ys :=
  List.foldl_append

theorem Iteration.perform_ledger {σ : Type} [Sink σ] (actions : List Action)
    (it : Iteration σ) : (it.perform actions).ledger = it.ledger.recordAll actions := by
  induction actions generalizing it with
  | nil => rfl
  | cons a as ih =>
      have hstep : (it.act a).ledger = it.ledger.record a := by cases a <;> rfl
      rw [perform, List.foldl_cons, ← perform, ih, hstep]
      rfl

/-- A declaration never lowers a total. -/
theorem Ledger.le_record (l : Ledger) (a : Action) :
    l.bytes.toNat ≤ (l.record a).bytes.toNat ∧ l.steps.toNat ≤ (l.record a).steps.toNat := by
  have hb := l.bytes.toNat_lt
  have hs := l.steps.toNat_lt
  cases a <;>
    simp only [record, declareBytes, declareSteps, toNat_satAdd] <;> omega

theorem Ledger.le_recordAll (actions : List Action) (l : Ledger) :
    l.bytes.toNat ≤ (l.recordAll actions).bytes.toNat ∧
      l.steps.toNat ≤ (l.recordAll actions).steps.toNat := by
  induction actions generalizing l with
  | nil => exact ⟨Nat.le_refl _, Nat.le_refl _⟩
  | cons a as ih =>
      have h := ih (l.record a)
      have ha := l.le_record a
      exact ⟨Nat.le_trans ha.1 h.1, Nat.le_trans ha.2 h.2⟩

/-- The bytes that an action declares. -/
def Action.declaredBytes : Action → Nat
  | .declareBytes bytes => bytes.toNat
  | _ => 0

def Action.declaredSteps : Action → Nat
  | .declareSteps steps => steps.toNat
  | _ => 0

def Reply.declaredBytes (r : Reply) : Nat := (r.actions.map Action.declaredBytes).sum

def Reply.declaredSteps (r : Reply) : Nat := (r.actions.map Action.declaredSteps).sum

/-- The totals of a ledger are sums that stop at the greatest word. -/
theorem Ledger.toNat_recordAll (actions : List Action) (l : Ledger) :
    (l.recordAll actions).bytes.toNat =
        min (l.bytes.toNat + (actions.map Action.declaredBytes).sum) (2 ^ 64 - 1) ∧
      (l.recordAll actions).steps.toNat =
        min (l.steps.toNat + (actions.map Action.declaredSteps).sum) (2 ^ 64 - 1) := by
  have hb := l.bytes.toNat_lt
  have hs := l.steps.toNat_lt
  induction actions generalizing l with
  | nil =>
      simp only [recordAll, List.foldl_nil, List.map_nil, List.sum_nil]
      omega
  | cons a as ih =>
      obtain ⟨hbytes, hsteps⟩ := ih (l.record a) (UInt64.toNat_lt _) (UInt64.toNat_lt _)
      rw [recordAll, List.foldl_cons, ← recordAll, hbytes, hsteps]
      cases a <;>
        simp only [record, declareBytes, declareSteps, toNat_satAdd, List.map_cons, List.sum_cons,
          Action.declaredBytes, Action.declaredSteps] <;> omega

/-! ## The kept values -/

/-- The size of the value that an action keeps, if it keeps one. -/
def Action.kept? : Action → Option UInt64
  | .keep size => some size
  | _ => none

/-- The sizes of the values kept by a reply, in order. -/
def Reply.kept (r : Reply) : List UInt64 := r.actions.filterMap Action.kept?

/-- Keeps values of some sizes, one after another. -/
def Retention.keepAll (r : Retention) (sizes : List UInt64) : Retention :=
  sizes.foldl Retention.keep r

theorem Iteration.perform_retention {σ : Type} [Sink σ] (actions : List Action)
    (it : Iteration σ) :
    (it.perform actions).retention = it.retention.keepAll (actions.filterMap Action.kept?) := by
  induction actions generalizing it with
  | nil => rfl
  | cons a as ih =>
      rw [perform, List.foldl_cons, ← perform, ih]
      cases a <;> rfl

/-! ## The sink -/

/-- The message of the failure that an action records, if it records one. -/
def Action.failure? : Action → Option String
  | .fail message => some message
  | _ => none

/-- The messages of the failures that a reply records, in order. -/
def Reply.failures (r : Reply) : List String := r.actions.filterMap Action.failure?

/-- What an action tells a sink. -/
def Sink.tell {σ : Type} [Sink σ] (s : σ) : Action → σ
  | .fail message => Sink.fail s message
  | .note line => Sink.note s line
  | _ => s

theorem Iteration.perform_sink {σ : Type} [Sink σ] (actions : List Action)
    (it : Iteration σ) : (it.perform actions).sink = actions.foldl Sink.tell it.sink := by
  induction actions generalizing it with
  | nil => rfl
  | cons a as ih =>
      have hstep : (it.act a).sink = Sink.tell it.sink a := by cases a <;> rfl
      rw [perform, List.foldl_cons, ← perform, ih, hstep]
      rfl

/-- A transcript keeps the failures it had and those of the actions. -/
theorem Transcript.failures_tell (actions : List Action) (s : Transcript) :
    (actions.foldl Sink.tell s).failures.toList =
      s.failures.toList ++ actions.filterMap Action.failure? := by
  induction actions generalizing s with
  | nil => simp
  | cons a as ih =>
      rw [List.foldl_cons, ih]
      cases a <;>
        simp [List.filterMap_cons, Sink.tell, Action.failure?, Sink.fail, Sink.note,
          Transcript.fail, Transcript.note]

end CostAudit
