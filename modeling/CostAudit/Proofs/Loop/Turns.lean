import CostAudit.Loop.Run
import CostAudit.Proofs.Loop.Pass
import Mathlib.Data.List.Forall2
import Mathlib.Logic.Relation

/-!
# The loop as a transition system

`iterate` is read as a system of states at the head of the loop. A `Turn`
leads from one such state to the next by a pass whose sample is kept;
`Leaves` lists the ways the loop can end in a state instead. Turns are
deterministic, and the loop follows them: `iterate` gives the same answer
before and after a turn (`iterate_of_turn`), and from every state some turns
lead to a state in which the loop ends with that answer
(`exists_turns_leaves_iterate`). So what a turn preserves holds at every head of
every run (`Visits.induction`) and, by cases on `Leaves`, at its end.
-/

namespace CostAudit.Loop

open Relation

section

variable {W σ α : Type} [Sink σ] [Scalar α] [Logarithm α]
variable (rig : Rig W σ) (cfg : Settings α) (origin : Duration) (probeActive : Bool)

/-- The time since the start that is read in a state at the head of the
loop. -/
def headTime (s : State W σ) : Duration := (rig.now s.world).1.satSub origin

/-- A state after that reading. -/
def State.ticked (s : State W σ) : State W σ := { s with world := (rig.now s.world).2 }

/-- The pass at some size that follows a state at the head of the loop. -/
def passFrom (size : UInt64) (s : State W σ) : Taken W σ :=
  takePass rig cfg origin probeActive size (s.ticked rig)

/-- In the state the loop starts a pass at the size. -/
structure Starts (s : State W σ) (size : UInt64) : Prop where
  live : Sink.failed s.sink = false
  next : cfg.next s.series (headTime rig origin s) = .ok (.call size)

/-- The state after a pass that started in a state `s` and whose sample
joins the series. -/
def Taken.settled (t : Taken W σ) (s : State W σ) (x : Sample) : State W σ :=
  { t.state with series := s.series.append x, passes := s.passes.push t.pass }

/-- One turn of the loop. -/
inductive Turn : State W σ → State W σ → Prop
  | pass {s : State W σ} {size : UInt64} {x : Sample}
      (hstarts : Starts rig cfg origin s size)
      (hsample : (passFrom rig cfg origin probeActive size s).sample? = some x)
      (hadmits : s.series.admits x = true) :
      Turn s ((passFrom rig cfg origin probeActive size s).settled s x)

/-- The ways the loop ends in a state at its head, and its answer. -/
inductive Leaves (s : State W σ) : Except Fault (Ending × State W σ) → Prop
  | failed (hfailed : Sink.failed s.sink = true) : Leaves s (.ok (.aborted, s))
  | undecided {fault : Fault} (hlive : Sink.failed s.sink = false)
      (hnext : cfg.next s.series (headTime rig origin s) = .error fault) :
      Leaves s (.error fault)
  | stopped {budget : Budget} (hlive : Sink.failed s.sink = false)
      (hnext : cfg.next s.series (headTime rig origin s) = .ok (.stop budget)) :
      Leaves s (.ok (.stopped budget (headTime rig origin s), s.ticked rig))
  | gaveUp {size : UInt64} (hstarts : Starts rig cfg origin s size)
      (hsample : (passFrom rig cfg origin probeActive size s).sample? = none) :
      Leaves s (.ok (.aborted, { (passFrom rig cfg origin probeActive size s).state with
        passes := s.passes.push (passFrom rig cfg origin probeActive size s).pass }))
  | refused {size : UInt64} {x : Sample} (hstarts : Starts rig cfg origin s size)
      (hsample : (passFrom rig cfg origin probeActive size s).sample? = some x)
      (hadmits : s.series.admits x = false) : Leaves s (.error .sizesDecrease)

/-- One unfolding of the loop, without the bookkeeping of its
termination. -/
theorem iterate_eq (s : State W σ) :
    iterate rig cfg origin probeActive s =
      if Sink.failed s.sink then .ok (.aborted, s)
      else
        match cfg.next s.series (headTime rig origin s) with
        | .error fault => .error fault
        | .ok (.stop budget) => .ok (.stopped budget (headTime rig origin s), s.ticked rig)
        | .ok (.call size) =>
          let taken := passFrom rig cfg origin probeActive size s
          let passes := s.passes.push taken.pass
          match taken.sample? with
          | none => .ok (.aborted, { taken.state with passes })
          | some x =>
            if s.series.admits x then iterate rig cfg origin probeActive (taken.settled s x)
            else .error .sizesDecrease := by
  rw [iterate]
  unfold passFrom State.ticked headTime
  rcases rig.now s.world with ⟨now, w⟩
  simp only
  split
  · rfl
  · split <;> rename_i hnext <;> rw [hnext]
    split <;> rename_i hsample <;> simp only [hsample]
    rename_i x
    by_cases hadmits : s.series.admits x = true
    · rw [if_pos hadmits]
      split <;> rename_i hpush <;> rw [Series.push, if_pos hadmits] at hpush <;> cases hpush
      rfl
    · rw [if_neg hadmits]
      split <;> rename_i hpush <;> rw [Series.push, if_neg hadmits] at hpush <;> cases hpush
      rfl

variable {rig cfg origin probeActive}

/-- Ending the loop adds no sample. -/
theorem Leaves.series_eq {s final : State W σ} {ending : Ending}
    (h : Leaves rig cfg origin probeActive s (.ok (ending, final))) :
    final.series = s.series := by
  cases h with
  | failed => rfl
  | stopped => rfl
  | gaveUp => exact (passEnds_takePass ..).series_eq

theorem iterate_of_turn {s t : State W σ} (h : Turn rig cfg origin probeActive s t) :
    iterate rig cfg origin probeActive s = iterate rig cfg origin probeActive t := by
  cases h with
  | pass hstarts hsample hadmits =>
      rw [iterate_eq, hstarts.live, hstarts.next]
      simp only [hsample, hadmits, Bool.false_eq_true, if_false, if_true]

theorem iterate_of_leaves {s : State W σ} {answer : Except Fault (Ending × State W σ)}
    (h : Leaves rig cfg origin probeActive s answer) :
    iterate rig cfg origin probeActive s = answer := by
  rw [iterate_eq]
  cases h with
  | failed hfailed => rw [if_pos hfailed]
  | undecided hlive hnext => rw [hlive, hnext, if_neg Bool.false_ne_true]
  | stopped hlive hnext => rw [hlive, hnext, if_neg Bool.false_ne_true]
  | gaveUp hstarts hsample =>
      rw [hstarts.live, hstarts.next, if_neg Bool.false_ne_true]
      simp only [hsample]
  | refused hstarts hsample hadmits =>
      rw [hstarts.live, hstarts.next, if_neg Bool.false_ne_true]
      simp only [hsample, hadmits, Bool.false_eq_true, if_false]

theorem iterate_of_turns {s t : State W σ}
    (h : ReflTransGen (Turn rig cfg origin probeActive) s t) :
    iterate rig cfg origin probeActive s = iterate rig cfg origin probeActive t := by
  induction h with
  | refl => rfl
  | tail _ hturn ih => exact ih.trans (iterate_of_turn hturn)

variable (rig cfg origin probeActive) in
theorem turn_or_leaves (s : State W σ) :
    (∃ t, Turn rig cfg origin probeActive s t) ∨
      Leaves rig cfg origin probeActive s (iterate rig cfg origin probeActive s) := by
  rw [iterate_eq]
  split
  · rename_i hfailed
    exact Or.inr (.failed hfailed)
  · rename_i hlive
    rw [Bool.not_eq_true] at hlive
    split <;> rename_i hnext
    · exact Or.inr (.undecided hlive hnext)
    · exact Or.inr (.stopped hlive hnext)
    · simp only
      split <;> rename_i hsample
      · exact Or.inr (.gaveUp ⟨hlive, hnext⟩ hsample)
      · split <;> rename_i hadmits
        · exact Or.inl ⟨_, .pass ⟨hlive, hnext⟩ hsample hadmits⟩
        · exact Or.inr (.refused ⟨hlive, hnext⟩ hsample (Bool.eq_false_iff.mpr hadmits))

/-- A turn uses up some of the sample budget. -/
theorem left_lt_of_turn {s t : State W σ} (h : Turn rig cfg origin probeActive s t) :
    cfg.sampleBudget.toNat - t.series.units.toNat <
      cfg.sampleBudget.toNat - s.series.units.toNat := by
  cases h with
  | pass hstarts hsample hadmits =>
      have hnext := units_lt_of_next_call hstarts.next
      exact units_push_lt hnext.1 (takePass_sample_size hsample ▸ hnext.2) (if_pos hadmits)

variable (rig cfg origin probeActive) in
/-- From every state some turns lead to a state in which the loop ends. -/
theorem exists_turns_leaves_iterate (s : State W σ) :
    ∃ t, ReflTransGen (Turn rig cfg origin probeActive) s t ∧
      Leaves rig cfg origin probeActive t (iterate rig cfg origin probeActive s) := by
  induction hleft : cfg.sampleBudget.toNat - s.series.units.toNat using Nat.strongRecOn
    generalizing s with
  | ind left ih =>
      rcases turn_or_leaves rig cfg origin probeActive s with ⟨t, hturn⟩ | hleaves
      · obtain ⟨u, hturns, hu⟩ := ih _ (hleft ▸ left_lt_of_turn hturn) t rfl
        exact ⟨u, .head hturn hturns, iterate_of_turn hturn ▸ hu⟩
      · exact ⟨s, .refl, hleaves⟩

end

/-! ## Whole runs -/

section

variable {W σ α : Type} [Sink σ] [Scalar α] [Logarithm α]
variable (rig : Rig W σ) (cfg : Settings α) (sink : σ) (w : W)

/-- The clock at the start of a run. -/
def startTime : Duration := (rig.now w).1

/-- What the probe answers at the start of a run when it is asked whether it
is active. -/
def startActive : Bool := (rig.active (rig.now w).2).1

/-- The state in which a run begins. -/
def startState : State W σ := .initial sink (rig.active (rig.now w).2).2

/-- The states that a run goes through at the head of its loop. -/
def Visits (s : State W σ) : Prop :=
  ReflTransGen (Turn rig cfg (startTime rig w) (startActive rig w)) (startState rig sink w) s

/-- What holds at the start and is preserved by every turn holds at every
head of the loop. -/
theorem Visits.induction {motive : State W σ → Prop} {rig : Rig W σ} {cfg : Settings α}
    {sink : σ} {w : W} {s : State W σ} (h : Visits rig cfg sink w s)
    (start : motive (startState rig sink w))
    (turn : ∀ {t u : State W σ}, Turn rig cfg (startTime rig w) (startActive rig w) t u →
      motive t → motive u) : motive s := by
  induction h with
  | refl => exact start
  | tail _ hturn ih => exact turn hturn ih

/-- What holds of every sample that joins the series and of its pass holds
of the samples and the passes in order. -/
theorem Visits.forall₂ {motive : Sample → Pass → Prop} {rig : Rig W σ} {cfg : Settings α}
    {sink : σ} {w : W} {s : State W σ} (h : Visits rig cfg sink w s)
    (pass : ∀ {t : State W σ} {size : UInt64} {x : Sample},
      Starts rig cfg (startTime rig w) t size →
      (passFrom rig cfg (startTime rig w) (startActive rig w) size t).sample? = some x →
      motive x (passFrom rig cfg (startTime rig w) (startActive rig w) size t).pass) :
    List.Forall₂ motive s.series.samples.toList s.passes.toList := by
  refine h.induction
    (motive := fun s => List.Forall₂ motive s.series.samples.toList s.passes.toList) .nil ?_
  intro t u hturn ih
  cases hturn with
  | pass hstarts hsample =>
      simp only [Taken.settled, Series.append, Array.toList_push]
      exact List.rel_append ih (.cons (pass hstarts hsample) .nil)

/-- The record of a run whose loop ended in a state. -/
def Run.ofEnd (ending : Ending) (s : State W σ) : Run W σ where
  ending := ending
  origin := startTime rig w
  elapsed := (rig.now s.world).1.satSub (startTime rig w)
  probeActive := startActive rig w
  pinned := cfg.pinThread && rig.canPin
  state := s.ticked rig

theorem run_eq :
    run rig cfg sink w =
      (iterate rig cfg (startTime rig w) (startActive rig w) (startState rig sink w)).map
        fun p => .ofEnd rig cfg w p.1 p.2 := by
  unfold run
  simp only [startTime, startActive, startState, bind, Except.bind]
  split <;> rename_i h <;> rw [h] <;> rfl

variable {rig cfg sink w}

/-- A run with a sink that has failed before makes no pass. -/
theorem run_of_failed (h : Sink.failed sink = true) :
    run rig cfg sink w = .ok (.ofEnd rig cfg w .aborted (startState rig sink w)) := by
  have hstart : Sink.failed (startState rig sink w).sink = true := h
  rw [run_eq, iterate_eq, if_pos hstart]
  rfl

/-- A run that returns a record has ended in a state that it visits. -/
theorem exists_visits_of_run {r : Run W σ} (h : run rig cfg sink w = .ok r) :
    ∃ s ending final, Visits rig cfg sink w s ∧
      Leaves rig cfg (startTime rig w) (startActive rig w) s (.ok (ending, final)) ∧
      r = .ofEnd rig cfg w ending final := by
  obtain ⟨s, hturns, hleaves⟩ := exists_turns_leaves_iterate rig cfg (startTime rig w)
    (startActive rig w) (startState rig sink w)
  rw [run_eq] at h
  cases hanswer : iterate rig cfg (startTime rig w) (startActive rig w) (startState rig sink w)
  with
  | error fault =>
      rw [hanswer] at h
      cases h
  | ok p =>
      rw [hanswer] at h hleaves
      exact ⟨s, p.1, p.2, hturns, hleaves, (Except.ok.inj h).symm⟩

/-- A state that a run visits and in which its loop ends is where the run
ends. -/
theorem run_of_leaves {s final : State W σ} {ending : Ending} (hvisits : Visits rig cfg sink w s)
    (hleaves : Leaves rig cfg (startTime rig w) (startActive rig w) s (.ok (ending, final))) :
    run rig cfg sink w = .ok (.ofEnd rig cfg w ending final) := by
  rw [run_eq, iterate_of_turns hvisits, iterate_of_leaves hleaves]
  rfl

/-! ### The calls of a run -/

/-- Every call so far, in order. -/
def State.calls (s : State W σ) : List Call := s.passes.toList.flatMap Pass.calls

omit [Sink σ] in
theorem State.calls_push (s : State W σ) (t : Taken W σ) :
    ({ t.state with passes := s.passes.push t.pass } : State W σ).calls =
      s.calls ++ t.pass.calls := by
  simp [calls]

omit [Sink σ] in
theorem Taken.calls_settled (t : Taken W σ) (s : State W σ) (x : Sample) :
    (t.settled s x).calls = s.calls ++ t.pass.calls := s.calls_push t

/-- The samples of a run are those of its last head of the loop, and a pass
without a sample may follow. -/
theorem exists_visits_series_eq {r : Run W σ} (h : run rig cfg sink w = .ok r) :
    ∃ s, Visits rig cfg sink w s ∧ r.state.series = s.series ∧ s.calls <+: r.calls := by
  obtain ⟨s, ending, final, hvisits, hleaves, rfl⟩ := exists_visits_of_run h
  refine ⟨s, hvisits, hleaves.series_eq, ?_⟩
  cases hleaves with
  | failed => exact List.prefix_rfl
  | stopped => exact List.prefix_rfl
  | gaveUp => exact ⟨_, (s.calls_push _).symm⟩

variable (rig cfg sink w) in
/-- A call is made in a pass that the run begins in a state. -/
structure MadeFrom (s : State W σ) (size : UInt64) (c : Call) : Prop where
  visits : Visits rig cfg sink w s
  starts : Starts rig cfg (startTime rig w) s size
  mem : c ∈ (passFrom rig cfg (startTime rig w) (startActive rig w) size s).pass.calls

theorem exists_madeFrom_of_visits {s : State W σ} (h : Visits rig cfg sink w s) {c : Call}
    (hc : c ∈ s.calls) : ∃ t size, MadeFrom rig cfg sink w t size c := by
  induction h with
  | refl => cases hc
  | @tail t u hvisits hturn ih =>
      cases hturn with
      | @pass size x hstarts hsample hadmits =>
          rw [Taken.calls_settled, List.mem_append] at hc
          rcases hc with hc | hc
          · exact ih hc
          · exact ⟨t, size, hvisits, hstarts, hc⟩

/-- Every call of a run is made in a pass that the run begins. -/
theorem exists_madeFrom_of_run {r : Run W σ} (h : run rig cfg sink w = .ok r) {c : Call}
    (hc : c ∈ r.calls) : ∃ s size, MadeFrom rig cfg sink w s size c := by
  obtain ⟨s, ending, final, hvisits, hleaves, rfl⟩ := exists_visits_of_run h
  cases hleaves with
  | failed => exact exists_madeFrom_of_visits hvisits hc
  | stopped => exact exists_madeFrom_of_visits hvisits hc
  | @gaveUp size hstarts =>
      have hcalls : c ∈ s.calls ++
          (passFrom rig cfg (startTime rig w) (startActive rig w) size s).pass.calls :=
        s.calls_push _ ▸ hc
      rcases List.mem_append.mp hcalls with hc | hc
      · exact exists_madeFrom_of_visits hvisits hc
      · exact ⟨s, size, hvisits, hstarts, hc⟩

/-- A run that a budget stopped has ended in a state that it visits, in
which the loop decided so. -/
theorem exists_visits_of_stopped {r : Run W σ} {budget : Budget} {head : Duration}
    (h : run rig cfg sink w = .ok r) (hending : r.ending = .stopped budget head) :
    ∃ s, Visits rig cfg sink w s ∧ Sink.failed s.sink = false ∧
      cfg.next s.series (headTime rig (startTime rig w) s) = .ok (.stop budget) ∧
      head = headTime rig (startTime rig w) s ∧
      r = .ofEnd rig cfg w (.stopped budget head) (s.ticked rig) := by
  obtain ⟨s, ending, final, hvisits, hleaves, rfl⟩ := exists_visits_of_run h
  obtain rfl : ending = .stopped budget head := hending
  cases hleaves with
  | stopped hlive hnext => exact ⟨s, hvisits, hlive, hnext, rfl, rfl⟩

end

/-! ## Recorded worlds -/

/-- A world that plays back recorded readings and replies. -/
structure Tape where
  clock : List Nat
  probe : List UInt64
  replies : List Reply

/-- The rig that plays a tape. -/
def Tape.rig {σ : Type} : Rig Tape σ where
  now t := (.ofNanos (t.clock.headD 0), { t with clock := t.clock.tail })
  active t := (true, t)
  read _ t := (t.probe.headD 0, { t with probe := t.probe.tail })
  call _ t := (t.replies.headD {}, { t with replies := t.replies.tail })

end CostAudit.Loop
