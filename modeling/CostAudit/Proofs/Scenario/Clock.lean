import CostAudit.Scenario.Script
import CostAudit.Proofs.Loop.Clock

/-!
# The clock of a scripted world

A script moves the clock of its world in calls only, and forward unless it
sets the clock. So the runs of every script that leaves the setting of the
clock alone have a clock that moves in calls.
-/

namespace CostAudit.Scenario

def Directive.setsClock : Directive → Bool
  | setClock _ => true
  | _ => false

/-- No directive of the script sets the clock. -/
def Script.LeavesClock (s : Script) : Prop :=
  (∀ d ∈ s.otherwise, d.setsClock = false) ∧
    (∀ p ∈ s.byCall, ∀ d ∈ p.2, d.setsClock = false) ∧
    ∀ p ∈ s.bySize, ∀ d ∈ p.2, d.setsClock = false

instance (s : Script) : Decidable s.LeavesClock :=
  inferInstanceAs (Decidable (_ ∧ _ ∧ _))

theorem mem_of_lookup_eq_some {β : Type} {xs : List (Nat × β)} {k : Nat} {b : β}
    (h : xs.lookup k = some b) : (k, b) ∈ xs := by
  obtain ⟨before, after, rfl, -⟩ := List.lookup_eq_some_iff.mp h
  simp

/-- The directives of every call are written in the script. -/
theorem Script.LeavesClock.directives {s : Script} (h : s.LeavesClock) (call size : Nat) :
    ∀ d ∈ s.directives call size, d.setsClock = false := by
  obtain ⟨hotherwise, hbyCall, hbySize⟩ := h
  unfold Script.directives
  cases hcall : s.byCall.lookup call with
  | some ds => exact hbyCall _ (mem_of_lookup_eq_some hcall)
  | none =>
      cases hsize : s.bySize.lookup size with
      | some ds => exact hbySize _ (mem_of_lookup_eq_some hsize)
      | none => exact hotherwise

section

variable {σ : Type} [Sink σ]

theorem Clock.le_later (c : Clock) (nanos : UInt64) :
    c.nanos.toNat ≤ (c.later nanos).nanos.toNat := by
  have hlt := c.nanos.toNat_lt
  rw [later, toNat_satAdd]
  omega

theorem Directive.clock_le (it : Iteration σ) (w : World) {d : Directive}
    (h : d.setsClock = false) : w.clock.nanos.toNat ≤ (d.perform it w).2.clock.nanos.toNat := by
  cases d with
  | setClock => cases h
  | advance x => exact w.clock.le_later _
  | _ => exact Nat.le_refl _

theorem clock_le_play (ds : List Directive) (it : Iteration σ) (w : World)
    (h : ∀ d ∈ ds, d.setsClock = false) :
    w.clock.nanos.toNat ≤ (play it w ds).2.clock.nanos.toNat := by
  induction ds generalizing it w with
  | nil => exact Nat.le_refl _
  | cons d ds ih =>
      have hstep := d.clock_le it w (h d (List.mem_cons_self ..))
      simp only [play]
      split
      · exact hstep
      · exact Nat.le_trans hstep (ih _ _ fun d hd => h d (List.mem_cons_of_mem _ hd))

theorem ProbeKind.clock_read (kind : ProbeKind) (mode : ProbeMode) (w : World) :
    (kind.probe.read mode w).2.clock = w.clock := by
  cases kind <;> cases mode <;> rfl

/-- The clock of a script that does not set it moves in calls. -/
theorem Script.movesInCalls {s : Script} (h : s.LeavesClock) (kind : ProbeKind) :
    (s.rig kind : Loop.Rig World σ).MovesInCalls where
  now _ := rfl
  active _ := rfl
  read mode w := congrArg Clock.now (kind.clock_read mode w)
  call it w := by
    have hle := clock_le_play (s.directives w.calls it.size.toNat) it
      { w with calls := w.calls + 1 } (h.directives w.calls it.size.toNat)
    simp only [Script.rig, Clock.now, Duration.le_iff, Duration.nanos_ofWord]
    exact hle
  word w := by
    simp only [Script.rig, Clock.now, Duration.nanos_ofWord]
    exact w.clock.nanos.toNat_lt

end

end CostAudit.Scenario
