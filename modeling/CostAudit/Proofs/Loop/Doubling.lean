import Mathlib.Order.Bounds.Basic
import CostAudit.Proofs.Binary64.Compare
import CostAudit.Proofs.Loop.Accounts
import CostAudit.Proofs.Loop.Clock

/-!
# A run that only the sample budget ends

When the clock stands still, nothing is measured and no call fails, the sample
budget alone decides. A sample that took no time and no memory sets no cap on
the next size and no limit for a spike, so every pass makes one call, and the
next size is twice the last one or what is left of the budget.

What then remains is arithmetic on the budget. `Course` says where such a run
can be: it has doubled the size some number of times, or it has put what was
left of the budget behind that. A head of the loop goes on along the course
(`Course.snoc`) or finds nothing more to do in one of three ways, and in each
of them the sizes are the closed form (`Course.closed`): the budget may have
been met by the doublings, met by what was left behind them, or be short of a
size as large as the last one.
-/

namespace CostAudit

/-- The sample took no time, and nothing was measured. -/
structure Sample.Idle (x : Sample) : Prop where
  elapsed : x.elapsed.nanos = 0
  measured : x.measured = 0

namespace Loop

/-! ## The course of the sizes -/

/-- The sizes 1, 2, 4 and so on, as many as are asked for. -/
def doublings (k : Nat) : List Nat := (List.range k).map (2 ^ ·)

theorem doublings_succ (k : Nat) : doublings (k + 1) = doublings k ++ [2 ^ k] := by
  simp [doublings, List.range_succ]

theorem getLast?_doublings (k : Nat) : (doublings (k + 1)).getLast? = some (2 ^ k) := by
  rw [doublings_succ, List.getLast?_concat]

theorem sum_doublings (k : Nat) : (doublings k).sum = 2 ^ k - 1 := by
  induction k with
  | zero => rfl
  | succ k ih =>
      have hpos := Nat.one_le_two_pow (n := k)
      rw [doublings_succ, List.sum_append, ih, List.sum_singleton, Nat.pow_succ]
      omega

/-- What is left of a budget after some doublings. -/
def rest (budget k : Nat) : Nat := budget - (2 ^ k - 1)

/-- The doublings, and behind them what is left of the budget if it is as much
as the last of them. -/
def sizesWithin (budget k : Nat) : List Nat :=
  doublings k ++ if 2 ^ (k - 1) ≤ rest budget k then [rest budget k] else []

/-- The sizes of a run that only its sample budget bounds, at some head of its
loop. -/
inductive Course (budget : Nat) : List Nat → Prop
  | doubled {k : Nat} (h : 2 ^ k - 1 ≤ budget) : Course budget (doublings k)
  | filled {k left : Nat} (hlow : 2 ^ k ≤ left) (hhigh : left < 2 ^ (k + 1))
      (hsum : 2 ^ (k + 1) - 1 + left = budget) : Course budget (doublings (k + 1) ++ [left])

/-- The number of doublings that fit the budget when one more does not. -/
theorem isGreatest_doublings {budget k : Nat} (hlow : 2 ^ k - 1 ≤ budget)
    (hhigh : budget + 1 < 2 ^ (k + 1)) : IsGreatest {k | 2 ^ k - 1 ≤ budget} k := by
  refine ⟨hlow, fun j hj => ?_⟩
  by_contra hlt
  have hpow : 2 ^ (k + 1) ≤ 2 ^ j := Nat.pow_le_pow_right two_pos (not_le.mp hlt)
  have hj' : 2 ^ j - 1 ≤ budget := hj
  omega

/-- The sizes are the closed form with as many doublings as fit. -/
def Closed (budget : Nat) (ns : List Nat) : Prop :=
  ∃ k, IsGreatest {k | 2 ^ k - 1 ≤ budget} k ∧ ns = sizesWithin budget k

/-- The doublings are the closed form when less is left than the last of
them. -/
theorem closed_doublings {budget k : Nat} (hfits : 2 ^ (k + 1) - 1 ≤ budget)
    (hless : rest budget (k + 1) < 2 ^ k) : Closed budget (doublings (k + 1)) := by
  refine ⟨k + 1, isGreatest_doublings hfits ?_, ?_⟩
  · have hpow : 2 ^ (k + 1) = 2 * 2 ^ k := Nat.pow_succ'
    rw [rest] at hless
    rw [Nat.pow_succ']
    omega
  · rw [sizesWithin, Nat.add_sub_cancel, if_neg hless.not_ge, List.append_nil]

/-- The doublings and what is left are the closed form when that is at least
the last doubling and less than another one. -/
theorem closed_filled {budget k left : Nat} (hlow : 2 ^ k ≤ left) (hhigh : left < 2 ^ (k + 1))
    (hsum : 2 ^ (k + 1) - 1 + left = budget) : Closed budget (doublings (k + 1) ++ [left]) := by
  refine ⟨k + 1, isGreatest_doublings (by omega) ?_, ?_⟩
  · have hpos := Nat.one_le_two_pow (n := k + 1)
    rw [Nat.pow_succ']
    omega
  · have hleft : rest budget (k + 1) = left := by
      rw [rest]
      omega
    rw [sizesWithin, hleft, Nat.add_sub_cancel, if_pos hlow]

namespace Course

variable {budget prev : Nat} {ns : List Nat}

/-- As long as the last size fits into what is left, the run goes on with twice
that size or with what is left. -/
theorem snoc (h : Course budget ns) (hlast : ns.getLast? = some prev) (hleft : ns.sum < budget)
    (hle : prev ≤ budget - ns.sum) : Course budget (ns ++ [min (2 * prev) (budget - ns.sum)]) := by
  cases h with
  | @doubled k hk =>
      cases k with
      | zero => cases hlast
      | succ k =>
          obtain rfl : 2 ^ k = prev := Option.some.inj ((getLast?_doublings k).symm.trans hlast)
          have hpow : 2 * 2 ^ k = 2 ^ (k + 1) := Nat.pow_succ'.symm
          rw [sum_doublings] at hleft hle ⊢
          rw [hpow]
          rcases Nat.lt_or_ge (budget - (2 ^ (k + 1) - 1)) (2 ^ (k + 1)) with hlt | hge
          · -- No room for another doubling: the budget is filled up.
            rw [Nat.min_eq_right hlt.le]
            exact .filled hle hlt (Nat.add_sub_cancel' hk)
          · have hnext : 2 ^ (k + 1 + 1) - 1 ≤ budget := by
              rw [Nat.pow_succ']
              omega
            rw [Nat.min_eq_left hge, ← doublings_succ]
            exact .doubled hnext
  | filled _ _ hsum =>
      -- There is nothing left.
      rw [List.sum_append, sum_doublings, List.sum_singleton, hsum] at hleft
      exact absurd hleft (lt_irrefl budget)

/-- When the budget is met, or is short of a size as large as the last one, the
sizes are the closed form. -/
theorem closed (h : Course budget ns) (hbudget : 1 ≤ budget)
    (hstop : budget ≤ ns.sum ∨ ∃ prev, ns.getLast? = some prev ∧ budget - ns.sum < prev) :
    Closed budget ns := by
  cases h with
  | @doubled k hk =>
      cases k with
      | zero =>
          rcases hstop with hspent | ⟨prev, hprev, -⟩
          · exact absurd (hbudget.trans hspent) (Nat.not_succ_le_zero 0)
          · cases hprev
      | succ k =>
          -- Met or short, the budget leaves less than the last doubling.
          have hless : rest budget (k + 1) < 2 ^ k := by
            rw [sum_doublings] at hstop
            rcases hstop with hspent | ⟨prev, hprev, hless⟩
            · rw [rest, Nat.sub_eq_zero_of_le hspent]
              exact Nat.two_pow_pos k
            · obtain rfl : 2 ^ k = prev :=
                Option.some.inj ((getLast?_doublings k).symm.trans hprev)
              exact hless
          exact closed_doublings hk hless
  | @filled k left hlow hhigh hsum => exact closed_filled hlow hhigh hsum

end Course

/-- The closed form leaves less than a third of the budget. -/
theorem sum_sizesWithin {budget k : Nat} (hbudget : 1 ≤ budget)
    (hk : IsGreatest {k | 2 ^ k - 1 ≤ budget} k) :
    ((sizesWithin budget k).sum = budget ∨ (sizesWithin budget k).sum = 2 ^ k - 1) ∧
      2 * budget < 3 * (sizesWithin budget k).sum := by
  have hfits : 2 ^ k - 1 ≤ budget := hk.1
  have hone : 1 ≤ k := hk.2 (show 2 ^ 1 - 1 ≤ budget from hbudget)
  obtain ⟨k, rfl⟩ := Nat.exists_eq_add_of_le' hone
  have hpow : 2 ^ (k + 1) = 2 * 2 ^ k := Nat.pow_succ'
  have hpos := Nat.one_le_two_pow (n := k)
  rw [sizesWithin, List.sum_append, sum_doublings, Nat.add_sub_cancel]
  split_ifs with hrest
  · rw [List.sum_singleton, rest]
    omega
  · rw [rest] at hrest
    rw [List.sum_nil]
    omega

/-! ## Samples without a cost -/

section

variable {α : Type} [Scalar α] [Scalar.KeepsNothing α] {cfg : Settings α} {s : Series}
variable {elapsed : Duration} {prev x : Sample} {size : UInt64}

theorem sizeForTime?_of_idle (h : prev.Idle) : cfg.sizeForTime? elapsed prev = none := by
  have hrate : Scalar.IsNothing (prev.nanosPerUnit : α) := by
    rw [Sample.nanosPerUnit, Sample.nanos, h.elapsed]
    exact Scalar.KeepsNothing.div Scalar.KeepsNothing.zero _
  exact if_neg (Bool.eq_false_iff.mp hrate.not_above)

theorem sizeForMemory?_of_idle (h : prev.Idle) : cfg.sizeForMemory? s prev = none := by
  have hrate : Scalar.IsNothing (prev.bytesPerUnit : α) := by
    rw [Sample.bytesPerUnit, h.measured]
    exact Scalar.KeepsNothing.div Scalar.KeepsNothing.zero _
  exact if_neg (Bool.eq_false_iff.mp hrate.not_above)

/-- No time is a spike after no time, whatever the scale of the limit. -/
theorem spike?_of_idle [Logarithm α] (hlast : ∀ prev ∈ s.last?, prev.Idle) (hx : x.Idle) :
    spike? cfg s x = none := by
  rw [Option.eq_none_iff_forall_ne_some]
  intro limit hspike
  obtain ⟨prev, hprev, hlimit⟩ := Option.bind_eq_some_iff.mp hspike
  obtain ⟨hlimit, habove⟩ := Option.filter_eq_some_iff.mp hlimit
  have hnothing : Scalar.IsNothing limit := by
    rw [spikeLimit, Sample.nanos, (hlast prev hprev).elapsed] at hlimit
    split at hlimit
    · cases hlimit
    · cases hlimit
      exact Scalar.KeepsNothing.mul (Scalar.KeepsNothing.div
        (Scalar.KeepsNothing.mul Scalar.KeepsNothing.zero _) _) _
  rw [Sample.nanos, hx.elapsed] at habove
  exact Bool.false_ne_true (hnothing.not_below.symm.trans habove)

/-- Without caps the next size is twice the last one or what is left of the
sample budget. -/
theorem nextSize_of_idle (hfits : s.Fits cfg.sampleBudget) (hlast : s.last? = some prev)
    (h : prev.Idle) (hleft : s.units < cfg.sampleBudget) :
    (cfg.nextSize s elapsed prev).toNat =
      min (2 * prev.size.toNat) (cfg.sampleBudget.toNat - s.units.toNat) := by
  have hpos := hfits.pos _ (s.size_mem_sizes (Array.mem_of_back? hlast))
  have hlt := cfg.sampleBudget.toNat_lt
  have h1 : (1 : UInt64).toNat = 1 := rfl
  rw [UInt64.le_iff_toNat_le] at hpos
  rw [UInt64.lt_iff_toNat_lt] at hleft
  rw [Settings.nextSize, sizeForMemory?_of_idle h, sizeForTime?_of_idle h]
  simp only [Settings.cutTo, Option.elim_none, toNat_max, toNat_min, toNat_satAdd,
    Settings.samplesLeft, toNat_satSub]
  omega

theorem toNat_getLast? (s : Series) :
    (s.sizes.map UInt64.toNat).getLast? = s.last?.map fun x => x.size.toNat := by
  rw [List.getLast?_map, ← s.last?_map_size, Option.map_map]
  rfl

/-- After samples without a cost the loop goes on along the course or, at the
end of it, stops on the sample budget. -/
theorem next_of_course (hfits : s.Fits cfg.sampleBudget) (hbudget : 1 ≤ cfg.sampleBudget)
    (hmemory : s.measured < cfg.memoryBudget) (htime : ¬cfg.timeBudget ≤ elapsed)
    (hidle : ∀ prev ∈ s.last?, prev.Idle)
    (hcourse : Course cfg.sampleBudget.toNat (s.sizes.map UInt64.toNat)) :
    (cfg.next s elapsed = .ok (.stop .samples) ∧
      Closed cfg.sampleBudget.toNat (s.sizes.map UInt64.toNat)) ∨
    ∃ size, cfg.next s elapsed = .ok (.call size) ∧
      Course cfg.sampleBudget.toNat (s.sizes.map UInt64.toNat ++ [size.toNat]) := by
  have hbudget' : 1 ≤ cfg.sampleBudget.toNat := UInt64.le_iff_toNat_le.mp hbudget
  have hlast := toNat_getLast? s
  have hsum := hfits.units
  have hdecides := decides_next cfg s elapsed
  generalize cfg.next s elapsed = answer at hdecides ⊢
  cases hdecides with
  | samplesSpent hspent =>
      refine .inl ⟨rfl, hcourse.closed hbudget' (.inl ?_)⟩
      rw [← hsum]
      exact UInt64.le_iff_toNat_le.mp hspent
  | memorySpent _ hspent => exact absurd hspent (UInt64.not_le.mpr hmemory)
  | timeSpent _ _ hspent => exact absurd hspent htime
  | first _ hnone =>
      rw [hnone, Option.map_none, List.getLast?_eq_none_iff] at hlast
      refine .inr ⟨1, rfl, ?_⟩
      rw [hlast]
      exact .doubled (k := 1) hbudget'
  | @short prev budget haffords hprev hless hshort =>
      have hleft : cfg.sampleBudget.toNat - s.units.toNat < prev.size.toNat := by
        rw [UInt64.lt_iff_toNat_lt,
          nextSize_of_idle hfits hprev (hidle prev hprev) haffords.units] at hless
        omega
      have hsamples : cfg.samplesLeft s < prev.size := by
        rw [UInt64.lt_iff_toNat_lt, Settings.samplesLeft, toNat_satSub]
        exact hleft
      rw [Settings.shortBudget, if_pos hsamples] at hshort
      cases hshort
      rw [hprev, Option.map_some] at hlast
      exact .inl ⟨rfl, hcourse.closed hbudget' (.inr ⟨_, hlast, hsum ▸ hleft⟩)⟩
  | @further prev haffords hprev hle =>
      have hnext : (cfg.nextSize s elapsed prev).toNat = _ :=
        nextSize_of_idle hfits hprev (hidle prev hprev) haffords.units
      have hunits := UInt64.lt_iff_toNat_lt.mp haffords.units
      rw [UInt64.le_iff_toNat_le, hnext] at hle
      rw [hprev, Option.map_some] at hlast
      refine .inr ⟨_, rfl, ?_⟩
      rw [hnext, hsum]
      rw [hsum] at hunits hle
      exact hcourse.snoc hlast hunits (Nat.le_trans hle (Nat.min_le_right _ _))

end

/-! ## Worlds without a cost -/

/-- Nothing moves the clock. -/
structure Rig.StandsStill {W σ : Type} (rig : Rig W σ) : Prop extends rig.StillBetweenCalls where
  call : ∀ it w, (rig.now (rig.call it w).2).1 = (rig.now w).1

/-- No reading of the probe in a mode is above one before it. -/
structure Rig.NeverRises {W σ : Type} (rig : Rig W σ) (mode : ProbeMode) : Prop where
  now : ∀ w, (rig.read mode (rig.now w).2).1 ≤ (rig.read mode w).1
  read : ∀ w, (rig.read mode (rig.read mode w).2).1 ≤ (rig.read mode w).1
  call : ∀ it w, (rig.read mode (rig.call it w).2).1 ≤ (rig.read mode w).1

/-- No call of the workload gives up or records a failure. -/
structure Rig.NeverFails {W σ : Type} (rig : Rig W σ) : Prop where
  aborted : ∀ it w, (rig.call it w).1.aborted = false
  failures : ∀ it w, (rig.call it w).1.failures = []

/-- Nothing but the sample budget can end the run. -/
structure Unbound {W σ α : Type} [Sink σ] (rig : Rig W σ) (cfg : Settings α) (sink : σ) (w : W) :
    Prop where
  clock : rig.StandsStill
  probe : startActive rig w = false ∨ rig.NeverRises cfg.mode
  workload : rig.NeverFails
  /-- Log lines are no failures. -/
  notes : ∀ (s : σ) (line : String), Sink.failed s = false → Sink.failed (Sink.note s line) = false
  live : Sink.failed sink = false
  memory : 0 < cfg.memoryBudget
  time : 0 < cfg.timeBudget.nanos

/-- Actions that record no failure leave a sink that has not failed so. -/
theorem live_tell {σ : Type} [Sink σ]
    (hnotes : ∀ (s : σ) (line : String), Sink.failed s = false →
      Sink.failed (Sink.note s line) = false)
    {actions : List Action} (hactions : actions.filterMap Action.failure? = []) {sink : σ}
    (hsink : Sink.failed sink = false) : Sink.failed (actions.foldl Sink.tell sink) = false := by
  induction actions generalizing sink with
  | nil => exact hsink
  | cons a as ih =>
      rw [List.filterMap_eq_nil_iff, List.forall_mem_cons] at hactions
      rw [List.foldl_cons]
      refine ih (List.filterMap_eq_nil_iff.mpr hactions.2) ?_
      cases a with
      | note line => exact hnotes sink line hsink
      | fail => cases hactions.1
      | _ => exact hsink

section

variable {W σ α : Type} [Sink σ] {rig : Rig W σ} {cfg : Settings α} {sink : σ} {w : W}
variable {size : UInt64} {s : State W σ}

theorem Rig.NeverRises.after_le_before (h : rig.NeverRises cfg.mode) (probeActive : Bool)
    (size : UInt64) (s : State W σ) :
    (attempt rig cfg probeActive size s).call.after ≤
      (attempt rig cfg probeActive size s).call.before :=
  UInt64.le_trans (h.now _) (UInt64.le_trans (h.call _ _) (UInt64.le_trans (h.now _) (h.read _)))

/-- Nothing is measured with an inactive probe, or with readings that do not
rise. -/
theorem Unbound.measured_eq_zero (h : Unbound rig cfg sink w) (size : UInt64) (s : State W σ) :
    (attempt rig cfg (startActive rig w) size s).call.measured (startActive rig w) = 0 := by
  rcases h.probe with hinactive | hrises
  · rw [Call.measured, hinactive]
    rfl
  · have hle := UInt64.le_iff_toNat_le.mp (hrises.after_le_before (startActive rig w) size s)
    rw [Call.measured]
    split
    · rw [← UInt64.toNat_inj, toNat_satSub]
      exact Nat.sub_eq_zero_of_le hle
    · rfl

theorem Unbound.ended_eq (h : Unbound rig cfg sink w) (probeActive : Bool) (size : UInt64)
    (s : State W σ) :
    (attempt rig cfg probeActive size s).call.ended = (rig.now s.world).1 := by
  simp only [attempt, h.clock.call, h.clock.now, h.clock.read]

/-- A call yields a sample without a cost, and changes neither the clock nor
whether the sink has failed. -/
theorem Unbound.idle_attempt (h : Unbound rig cfg sink w) (hlive : Sink.failed s.sink = false)
    (size : UInt64) :
    ∃ x, (attempt rig cfg (startActive rig w) size s).sample? = some x ∧ x.Idle ∧
      Sink.failed (attempt rig cfg (startActive rig w) size s).state.sink = false ∧
      (rig.now (attempt rig cfg (startActive rig w) size s).state.world).1 =
        (rig.now s.world).1 := by
  have hstill := h.clock.toStillBetweenCalls
  have hended := h.ended_eq (startActive rig w) size s
  have hsink : Sink.failed (attempt rig cfg (startActive rig w) size s).state.sink = false := by
    rw [attempt_sink]
    exact live_tell h.notes (h.workload.failures _ _) hlive
  have haborted : (attempt rig cfg (startActive rig w) size s).call.reply.aborted = false :=
    h.workload.aborted _ _
  have hsample : (attempt rig cfg (startActive rig w) size s).sample? =
      some ((attempt rig cfg (startActive rig w) size s).call.sample (startActive rig w) s.ledger
        (attempt rig cfg (startActive rig w) size s).state.ledger) := by
    rw [attempt_sample?, haborted, hsink]
    rfl
  refine ⟨_, hsample, ⟨?_, h.measured_eq_zero size s⟩, hsink, ?_⟩
  · show ((attempt rig cfg (startActive rig w) size s).call.ended.satSub _).nanos = 0
    rw [hended, attempt_started hstill, Duration.nanos_satSub, Nat.sub_self]
  · rw [now_attempt hstill, hended]

variable [Scalar α] [Scalar.KeepsNothing α] [Logarithm α] {origin : Duration} {t : Taken W σ}

/-- A pass after a sample without a cost makes one call, and yields another
such sample. -/
theorem PassEnds.idle (hends : PassEnds rig cfg origin (startActive rig w) size s t)
    (h : Unbound rig cfg sink w) (hlive : Sink.failed s.sink = false)
    (hidle : ∀ prev ∈ s.series.last?, prev.Idle) :
    ∃ x, t.sample? = some x ∧ x.Idle ∧ Sink.failed t.state.sink = false ∧
      (rig.now t.state.world).1 = (rig.now s.world).1 ∧ t.pass.calls.map Call.size = [size] := by
  obtain ⟨x, hx, hxidle, hsink, hclock⟩ := h.idle_attempt hlive size
  have hnone : spike? cfg s.series x = none := spike?_of_idle hidle hxidle
  cases hends with
  | gaveUp hfirst => cases hx.symm.trans hfirst
  | kept hfirst => exact ⟨x, hfirst.symm.trans hx, hxidle, hsink, hclock, rfl⟩
  | noTime hfirst hspike =>
      obtain rfl := Option.some.inj (hx.symm.trans hfirst)
      cases hnone.symm.trans hspike
  | repeated hfirst hspike =>
      obtain rfl := Option.some.inj (hx.symm.trans hfirst)
      cases hnone.symm.trans hspike

end

/-! ## The heads of the loop -/

section

variable {W σ α : Type} [Sink σ] [Scalar α] [Scalar.KeepsNothing α] [Logarithm α]
variable {rig : Rig W σ} {cfg : Settings α} {sink : σ} {w : W} {s : State W σ}

/-- No sample has had a cost, every call has become a sample, and the sizes are
on their course. -/
structure State.OnCourse (s : State W σ) (rig : Rig W σ) (cfg : Settings α) (w : W) : Prop where
  live : Sink.failed s.sink = false
  clock : (rig.now s.world).1 = startTime rig w
  measured : s.series.measured = 0
  idle : ∀ x ∈ s.series.last?, x.Idle
  calls : s.calls.map Call.size = s.series.sizes
  course : Course cfg.sampleBudget.toNat (s.series.sizes.map UInt64.toNat)

omit [Scalar α] [Scalar.KeepsNothing α] [Logarithm α] in
theorem State.OnCourse.headTime_eq (hs : s.OnCourse rig cfg w) :
    headTime rig (startTime rig w) s = .zero := by
  rw [headTime, hs.clock]
  exact Duration.ext_nanos (Nat.sub_self _)

/-- What the loop decides at a head of a run that is on its course. -/
theorem State.OnCourse.next (hs : s.OnCourse rig cfg w) (h : Unbound rig cfg sink w)
    (hbudget : 1 ≤ cfg.sampleBudget) (hvisits : Visits rig cfg sink w s) :
    (cfg.next s.series (headTime rig (startTime rig w) s) = .ok (.stop .samples) ∧
      Closed cfg.sampleBudget.toNat (s.series.sizes.map UInt64.toNat)) ∨
    ∃ size, cfg.next s.series (headTime rig (startTime rig w) s) = .ok (.call size) ∧
      Course cfg.sampleBudget.toNat (s.series.sizes.map UInt64.toNat ++ [size.toNat]) := by
  have hmemory : s.series.measured < cfg.memoryBudget := hs.measured ▸ h.memory
  have htime : ¬cfg.timeBudget ≤ headTime rig (startTime rig w) s := by
    rw [hs.headTime_eq]
    exact Nat.not_le.mpr h.time
  exact next_of_course (fits_of_visits hvisits) hbudget hmemory htime hs.idle hs.course

theorem onCourse_of_visits (h : Unbound rig cfg sink w) (hbudget : 1 ≤ cfg.sampleBudget)
    (hvisits : Visits rig cfg sink w s) : s.OnCourse rig cfg w := by
  induction hvisits with
  | refl =>
      refine ⟨h.live, ?_, rfl, fun x hx => (nomatch hx), rfl, .doubled (k := 0) (Nat.zero_le _)⟩
      exact (h.clock.active _).trans (h.clock.now w)
  | @tail t u hvisits hturn ht =>
      cases hturn with
      | @pass size x hstarts hsample =>
          obtain ⟨y, hy, hidle, hlive, hclock, hsize⟩ :=
            (passEnds_takePass rig cfg (startTime rig w) (startActive rig w) size
              (t.ticked rig)).idle h ht.live ht.idle
          obtain rfl : x = y := Option.some.inj (hsample.symm.trans hy)
          have hsizes : (t.series.append x).sizes = t.series.sizes ++ [size] := by
            rw [Series.sizes_append, takePass_sample_size hsample]
          have hcourse : Course cfg.sampleBudget.toNat
              (t.series.sizes.map UInt64.toNat ++ [size.toNat]) := by
            rcases ht.next h hbudget hvisits with ⟨hstop, -⟩ | ⟨next, hnext, hcourse⟩
            · cases hstop.symm.trans hstarts.next
            · cases hnext.symm.trans hstarts.next
              exact hcourse
          refine ⟨hlive, ?clock, ?measured, ?idle, ?calls, ?course⟩
          case clock =>
            exact hclock.trans ((t.now_ticked h.clock.toStillBetweenCalls).trans ht.clock)
          case measured =>
            show satAdd t.series.measured x.measured = 0
            rw [ht.measured, hidle.measured]
            rfl
          case idle =>
            intro y hy
            obtain rfl : x = y := Option.some.inj ((Array.back?_push ..).symm.trans hy)
            exact hidle
          case calls =>
            rw [Taken.calls_settled, List.map_append, ht.calls]
            exact (congrArg (t.series.sizes ++ ·) hsize).trans hsizes.symm
          case course =>
            show Course _ ((t.series.append x).sizes.map UInt64.toNat)
            rw [hsizes, List.map_append]
            exact hcourse

end

/-! ## Whole runs -/

section

variable {W σ α : Type} [Sink σ] [Scalar α] [Scalar.KeepsNothing α] [Logarithm α]
variable {rig : Rig W σ} {cfg : Settings α} {sink : σ} {w : W}

/-- **Doubling up to the sample budget.** A run that nothing but its sample
budget can end is completed, and stopped by that budget. Its sizes are the
doublings that fit the budget, and behind them what is left if that is as much
as the last doubling. Each of them is called once. The units are the budget or
those of the doublings, and more than two thirds of the budget in any case. -/
theorem sizes_of_unbound (h : Unbound rig cfg sink w) (hbudget : 1 ≤ cfg.sampleBudget) :
    ∃ r k, run rig cfg sink w = .ok r ∧
      IsGreatest {k | 2 ^ k - 1 ≤ cfg.sampleBudget.toNat} k ∧
      r.ending = .stopped .samples .zero ∧
      r.state.series.sizes.map UInt64.toNat = sizesWithin cfg.sampleBudget.toNat k ∧
      r.calls.map Call.size = r.state.series.sizes ∧
      (r.state.series.units = cfg.sampleBudget ∨ r.state.series.units.toNat = 2 ^ k - 1) ∧
      2 * cfg.sampleBudget.toNat < 3 * r.state.series.units.toNat := by
  obtain ⟨r, hr⟩ := exists_run_eq_ok rig cfg sink w
  obtain ⟨s, ending, final, hvisits, hleaves, rfl⟩ := exists_visits_of_run hr
  have hs := onCourse_of_visits h hbudget hvisits
  cases hleaves with
  | failed hfailed => exact absurd hfailed (Bool.eq_false_iff.mp hs.live)
  | @gaveUp size hstarts hsample =>
      obtain ⟨x, hx, -⟩ := (passEnds_takePass rig cfg (startTime rig w) (startActive rig w) size
        (s.ticked rig)).idle h hs.live hs.idle
      cases hsample.symm.trans hx
  | @stopped budget _ hnext =>
      obtain ⟨hstop, k, hk, hsizes⟩ | ⟨size, hcall, -⟩ := hs.next h hbudget hvisits
      · obtain rfl : budget = .samples := by
          cases hnext.symm.trans hstop
          rfl
        have hunits := (fits_of_visits hvisits).units
        obtain ⟨hsum, htwoThirds⟩ := sum_sizesWithin (UInt64.le_iff_toNat_le.mp hbudget) hk
        rw [← hsizes, ← hunits] at hsum htwoThirds
        refine ⟨_, k, hr, hk, ?_, hsizes, hs.calls, hsum.imp_left UInt64.toNat_inj.mp, htwoThirds⟩
        exact congrArg (Ending.stopped .samples) hs.headTime_eq
      · cases hnext.symm.trans hcall

end

/-! A workload that takes no time and frees memory from call to call, with a
scale of the spike limit that is no number. -/

/-- The world is the bytes in use, and a call frees as many as its size. -/
def freeing : Rig UInt64 Transcript where
  now bytes := (.ofNanos 5, bytes)
  active bytes := (true, bytes)
  read _ bytes := (bytes, bytes)
  call it bytes := ({ actions := [.declareSteps it.size, .note "freed"] }, satSub bytes it.size)

def hundredUnits : Settings Float where
  sampleBudget := 100
  memoryBudget := 1
  timeBudget := .ofNanos 1
  mode := .precise
  noiseScale := 0.0 / 0.0

theorem unbound_freeing (bytes : UInt64) : Unbound freeing hundredUnits {} bytes where
  clock := { now := fun _ => rfl, active := fun _ => rfl, read := fun _ _ => rfl,
             call := fun _ _ => rfl }
  probe := by
    right
    refine ⟨fun _ => UInt64.le_refl _, fun _ => UInt64.le_refl _, fun it bytes => ?_⟩
    show satSub bytes it.size ≤ bytes
    rw [UInt64.le_iff_toNat_le, toNat_satSub]
    exact Nat.sub_le _ _
  workload := ⟨fun _ _ => rfl, fun _ _ => rfl⟩
  notes _ _ h := h
  live := rfl
  memory := by decide
  time := by decide

theorem sizes_freeing_hundredUnits :
    Unbound freeing hundredUnits {} 1000 ∧ 1 ≤ hundredUnits.sampleBudget ∧
      ∃ r, run freeing hundredUnits {} 1000 = .ok r ∧ r.ending = .stopped .samples .zero ∧
        r.state.series.sizes.map UInt64.toNat = [1, 2, 4, 8, 16, 32, 37] ∧
        r.state.series.units = 100 := by
  have hbudget : 1 ≤ hundredUnits.sampleBudget := by decide
  obtain ⟨r, k, hr, hk, hending, hsizes, -, -, -⟩ := sizes_of_unbound (unbound_freeing 1000) hbudget
  have hsix : IsGreatest {k | 2 ^ k - 1 ≤ hundredUnits.sampleBudget.toNat} 6 :=
    isGreatest_doublings (by decide) (by decide)
  obtain rfl : k = 6 := hk.unique hsix
  have hsum := (fits_of_run hr).units
  rw [hsizes] at hsum
  exact ⟨unbound_freeing 1000, hbudget, r, hr, hending, hsizes, UInt64.toNat_inj.mp hsum⟩

end Loop

end CostAudit
