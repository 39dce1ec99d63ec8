import CostAudit.Proofs.Loop.Accounts
import CostAudit.Proofs.Loop.Clock
import CostAudit.Proofs.Scalar
import CostAudit.Proofs.Scenario.Clock

/-!
# Routines of a steady cost

When every call takes the same time and the same memory for each unit of
work, the rates seen at the last sample are those of the next call. A size
that the caps admit then fits both budgets exactly (`room_of_next_call`).
Only the floor of one is taken without looking at the caps, and it is taken
only after samples of size one.

Nothing is asked of the spike limit. A spike that is repeated has been found
to fit once more at its own time, which at a steady cost is the time of the
repetition; one that is kept for lack of time has cost no more than the caps
allowed. The repetition leaves no bytes behind, since only one of the two
calls is counted. So at each head of the loop either both budgets are kept
or there are only samples of size one (`within_or_ones_of_visits`), whatever
happened before.
-/

namespace CostAudit

/-! ## Exact quotients -/

/-- A kind of number that finds the quotients of counts exactly, as far as
the caps of the loop ask for them. -/
class Scalar.ExactQuotients (α : Type) [Scalar α] : Prop where
  zero_lt_div (m : Nat) {n : Nat} (hn : 0 < n) :
    Scalar.lt Scalar.zero (Scalar.ofNat m / Scalar.ofNat n : α) = decide (0 < m)
  toWord_div (r : Nat) {m n : Nat} (hm : 0 < m) (hn : 0 < n) :
    Scalar.toWord (Scalar.ofNat r / (Scalar.ofNat m / Scalar.ofNat n) : α) =
      satOfNat (r * n / m)

instance : Scalar.ExactQuotients Rat where
  zero_lt_div m n hn := by
    have hn' : (0 : Rat) < n := Nat.cast_pos.mpr hn
    rw [Scalar.lt_rat, Scalar.zero_rat, Scalar.ofNat_rat, Scalar.ofNat_rat, decide_eq_decide]
    exact (div_pos_iff_of_pos_right hn').trans Nat.cast_pos
  toWord_div r m n hm hn := by
    have hquotient : (r : Rat) / (m / n) = (r * n : Nat) / (m : Nat) := by
      rw [div_div_eq_mul_div, Nat.cast_mul]
    have hfloor : ((r : Rat) / (m / n)).floor = ((r * n / m : Nat) : Int) := by
      rw [hquotient]
      exact Rat.floor_natCast_div_natCast (r * n) m
    show satOfNat ((r : Rat) / (m / n)).floor.toNat = _
    rw [hfloor, Int.toNat_natCast]

/-- The sample shows as many nanoseconds and bytes for each unit. -/
structure Sample.Costs (nanos bytes : Nat) (x : Sample) : Prop where
  elapsed : x.elapsed.nanos = nanos * x.size.toNat
  measured : x.measured.toNat = bytes * x.size.toNat

namespace Loop

/-- The call takes as many nanoseconds for each unit, and an active probe
reads as many bytes more for each. -/
structure Call.Steady (probeActive : Bool) (nanos bytes : Nat) (c : Call) : Prop where
  ended : c.ended.nanos = c.started.nanos + nanos * c.size.toNat
  after (h : probeActive = true) : c.after.toNat = c.before.toNat + bytes * c.size.toNat

theorem Call.steady_iff {probeActive : Bool} {nanos bytes : Nat} {c : Call} :
    c.Steady probeActive nanos bytes ↔
      c.ended.nanos = c.started.nanos + nanos * c.size.toNat ∧
        (probeActive = true → c.after.toNat = c.before.toNat + bytes * c.size.toNat) :=
  ⟨fun h => ⟨h.ended, h.after⟩, fun h => ⟨h.1, h.2⟩⟩

instance (probeActive : Bool) (nanos bytes : Nat) (c : Call) :
    Decidable (c.Steady probeActive nanos bytes) := decidable_of_iff _ Call.steady_iff.symm

/-! ## What the caps admit -/

section

variable {α : Type} [Scalar α] [Scalar.ExactQuotients α] {cfg : Settings α} {s : Series}
variable {elapsed : Duration} {prev : Sample} {nanos bytes : Nat} {size : UInt64}

/-- What is left of a budget at a rate, as the loop finds it. -/
theorem cap_eq (left rate : Nat) {units : Nat} (hunits : 0 < units) :
    (if Scalar.lt Scalar.zero (Scalar.ofNat (rate * units) / Scalar.ofNat units : α) then
      some (Scalar.toWord
        (Scalar.ofNat left / (Scalar.ofNat (rate * units) / Scalar.ofNat units : α)))
      else none) = if 0 < rate then some (satOfNat (left / rate)) else none := by
  rw [Scalar.ExactQuotients.zero_lt_div _ hunits]
  by_cases hrate : 0 < rate
  · have hpos := Nat.mul_pos hrate hunits
    rw [if_pos (decide_eq_true hpos), if_pos hrate,
      Scalar.ExactQuotients.toWord_div left hpos hunits, Nat.mul_div_mul_right _ _ hunits]
  · rw [Nat.eq_zero_of_not_pos hrate, Nat.zero_mul]
    rfl

theorem sizeForTime?_of_costs (hprev : prev.Costs nanos bytes) (hpos : 1 ≤ prev.size) :
    cfg.sizeForTime? elapsed prev =
      if 0 < nanos then some (satOfNat ((cfg.timeBudget.satSub elapsed).nanos / nanos))
      else none := by
  have hunits : 0 < prev.size.toNat := UInt64.le_iff_toNat_le.mp hpos
  have hdivisor : max prev.size.toNat 1 = prev.size.toNat := Nat.max_eq_left hunits
  rw [← cap_eq (α := α) _ nanos hunits]
  simp only [Settings.sizeForTime?, Sample.nanosPerUnit, Sample.nanos, Sample.divisor, hdivisor,
    hprev.elapsed]

theorem sizeForMemory?_of_costs (hprev : prev.Costs nanos bytes) (hpos : 1 ≤ prev.size) :
    cfg.sizeForMemory? s prev =
      if 0 < bytes then some (satOfNat ((satSub cfg.memoryBudget s.measured).toNat / bytes))
      else none := by
  have hunits : 0 < prev.size.toNat := UInt64.le_iff_toNat_le.mp hpos
  have hdivisor : max prev.size.toNat 1 = prev.size.toNat := Nat.max_eq_left hunits
  rw [← cap_eq (α := α) _ bytes hunits]
  simp only [Settings.sizeForMemory?, Sample.bytesPerUnit, Sample.divisor, hdivisor,
    hprev.measured]

/-- A size below the cap at some rate fits into what is left. -/
theorem mul_le_of_cap {left rate : Nat}
    (h : ∀ c ∈ (if 0 < rate then some (satOfNat (left / rate)) else none : Option UInt64),
      size.toNat ≤ c.toNat) : rate * size.toNat ≤ left := by
  by_cases hrate : 0 < rate
  · have hcap := h (satOfNat (left / rate)) (if_pos hrate)
    have hle : size.toNat ≤ left / rate := by
      rw [toNat_satOfNat] at hcap
      exact Nat.le_trans hcap (Nat.min_le_left _ _)
    rw [Nat.mul_comm]
    exact (Nat.le_div_iff_mul_le hrate).mp hle
  · rw [Nat.eq_zero_of_not_pos hrate, Nat.zero_mul]
    exact Nat.zero_le _

/-- After a sample of a steady cost, a size above one that the loop decides
on fits both budgets. -/
theorem room_of_next_call (hlast : ∀ prev ∈ s.last?, prev.Costs nanos bytes ∧ 1 ≤ prev.size)
    (h : cfg.next s elapsed = .ok (.call size)) (hsize : 1 < size) :
    elapsed.nanos + nanos * size.toNat ≤ cfg.timeBudget.nanos ∧
      s.measured.toNat + bytes * size.toNat ≤ cfg.memoryBudget.toNat := by
  have hdecides := decides_next cfg s elapsed
  rw [h] at hdecides
  cases hdecides with
  | first => exact absurd hsize (by decide)
  | @further prev haffords hprev =>
      obtain ⟨hcosts, hpos⟩ := hlast prev hprev
      obtain ⟨hmemory, htime⟩ := nextSize_le_caps hsize
      rw [sizeForMemory?_of_costs hcosts hpos] at hmemory
      rw [sizeForTime?_of_costs hcosts hpos] at htime
      have hbytes := mul_le_of_cap hmemory
      have hnanos := mul_le_of_cap htime
      have hspent := Nat.not_le.mp haffords.time
      have hused := UInt64.lt_iff_toNat_lt.mp haffords.measured
      rw [toNat_satSub] at hbytes
      rw [Duration.nanos_satSub] at hnanos
      omega

end

/-! ## Steady calls and passes -/

section

variable {W σ α : Type} [Sink σ] {rig : Rig W σ} {cfg : Settings α}
variable {origin : Duration} {probeActive : Bool} {size : UInt64} {s : State W σ} {t : Taken W σ}
variable {nanos bytes : Nat}

/-- The bytes that a run sees for each unit. -/
def seen (probeActive : Bool) (bytes : Nat) : Nat := if probeActive then bytes else 0

theorem Call.Steady.costs {c : Call} (h : c.Steady probeActive nanos bytes) (l : Ledger) :
    (c.sampleFrom probeActive l).Costs nanos (seen probeActive bytes) := by
  have hended := h.ended
  have hafter := h.after
  refine ⟨?_, ?_⟩
  · show (c.ended.satSub c.started).nanos = _
    rw [Duration.nanos_satSub, hended, Nat.add_sub_cancel_left]
    rfl
  · cases probeActive with
    | false => exact (Nat.zero_mul _).symm
    | true =>
        show (satSub c.after c.before).toNat = bytes * c.size.toNat
        rw [toNat_satSub, hafter rfl, Nat.add_sub_cancel_left]

theorem costs_settle [Scalar α] (limit : α) {x y : Sample} (hx : x.Costs nanos bytes)
    (hy : y.Costs nanos bytes) (hsize : x.size = y.size) :
    (settle limit x y).Costs nanos bytes := by
  unfold settle
  split
  · refine ⟨?_, hy.measured⟩
    rw [Duration.nanos_shorter, hx.elapsed, hy.elapsed, hsize, Nat.min_self]
  · exact hy

variable [Scalar α] [Logarithm α]

/-- A pass of steady calls yields a sample of their cost. -/
theorem PassEnds.costs (h : PassEnds rig cfg origin probeActive size s t)
    (hsteady : ∀ c ∈ t.pass.calls, c.Steady probeActive nanos bytes) {x : Sample}
    (hx : t.sample? = some x) :
    x.Costs nanos (seen probeActive bytes) := by
  have hfirst : ∀ y, (attempt rig cfg probeActive size s).sample? = some y →
      (attempt rig cfg probeActive size s).call ∈ t.pass.calls →
      y.Costs nanos (seen probeActive bytes) := by
    intro y hy hcall
    rw [attempt_sampleFrom hy]
    exact (hsteady _ hcall).costs _
  cases h with
  | gaveUp => cases hx
  | kept hy =>
      cases hx
      exact hfirst _ hy (List.mem_singleton_self _)
  | noTime hy =>
      cases hx
      exact hfirst _ hy (List.mem_singleton_self _)
  | @repeated y limit hy =>
      have hcosts := hfirst _ hy (List.mem_cons_self ..)
      simp only [repeatSpike, Option.map_eq_some_iff] at hx
      obtain ⟨z, hz, rfl⟩ := hx
      refine costs_settle _ hcosts ?_ (attempt_sample_size hz).symm
      rw [attempt_sampleFrom hz]
      exact (hsteady _ (List.mem_cons_of_mem _ (List.mem_singleton_self _))).costs _

omit [Scalar α] [Logarithm α] in
theorem now_attempt_of_steady (hstill : rig.StillBetweenCalls)
    (h : (attempt rig cfg probeActive size s).call.Steady probeActive nanos bytes) :
    (rig.now (attempt rig cfg probeActive size s).state.world).1.nanos =
      (rig.now s.world).1.nanos + nanos * size.toNat := by
  have hended := h.ended
  rw [attempt_started hstill] at hended
  rw [now_attempt hstill]
  exact hended

omit [Scalar α] [Logarithm α] in
/-- What was found to fit once more does so, when the repetition takes as
long as the first call. -/
theorem satSub_le_of_fits (hstill : rig.StillBetweenCalls) {x : Sample}
    (hx : (attempt rig cfg probeActive size s).sample? = some x)
    (hfits : fits cfg origin (rig.now (attempt rig cfg probeActive size s).state.world).1 x = true)
    (hfirst : (attempt rig cfg probeActive size s).call.Steady probeActive nanos bytes)
    (hsecond : (attempt rig cfg probeActive x.size
      ((afterFirst rig cfg probeActive size s).rollback s)).call.Steady probeActive nanos bytes) :
    (rig.now (attempt rig cfg probeActive x.size
      ((afterFirst rig cfg probeActive size s).rollback s)).state.world).1.satSub origin ≤
        cfg.timeBudget := by
  have helapsed : x.elapsed.nanos = nanos * x.size.toNat := by
    rw [attempt_sampleFrom hx]
    exact (hfirst.costs s.ledger).elapsed
  have hagain := now_attempt_of_steady hstill hsecond
  rw [now_rollback hstill, ← now_attempt hstill] at hagain
  have hle : (((rig.now (attempt rig cfg probeActive size s).state.world).1.satSub
      origin).satAdd x.elapsed).nanos ≤ cfg.timeBudget.nanos := of_decide_eq_true hfits
  rw [Duration.nanos_satAdd, Duration.nanos_satSub, helapsed] at hle
  -- the sum that was tested may have stopped at the longest span; no clock reads more
  have hlongest := (rig.now (attempt rig cfg probeActive x.size
    ((afterFirst rig cfg probeActive size s).rollback s)).state.world).1.nanos_lt
  have hmax : 18446744073709551616 * nanosPerSecond = Duration.maxNanos + 1 := rfl
  rw [hmax] at hlongest
  rw [Duration.le_iff, Duration.nanos_satSub]
  omega

/-- A steady pass that has room in the time budget keeps it. -/
theorem PassEnds.satSub_le (h : PassEnds rig cfg origin probeActive size s t)
    (hstill : rig.StillBetweenCalls)
    (hsteady : ∀ c ∈ t.pass.calls, c.Steady probeActive nanos bytes)
    (hroom : ((rig.now s.world).1.satSub origin).nanos + nanos * size.toNat ≤
      cfg.timeBudget.nanos) :
    (rig.now t.state.world).1.satSub origin ≤ cfg.timeBudget := by
  have hfirst : (attempt rig cfg probeActive size s).call.Steady probeActive nanos bytes →
      (rig.now (attempt rig cfg probeActive size s).state.world).1.satSub origin ≤
        cfg.timeBudget := by
    intro hcall
    rw [Duration.nanos_satSub] at hroom
    rw [Duration.le_iff, Duration.nanos_satSub, now_attempt_of_steady hstill hcall]
    omega
  cases h with
  | gaveUp => exact hfirst (hsteady _ (List.mem_singleton_self _))
  | kept => exact hfirst (hsteady _ (List.mem_singleton_self _))
  | noTime =>
      show (rig.now (rig.now _).2).1.satSub origin ≤ cfg.timeBudget
      rw [hstill.now]
      exact hfirst (hsteady _ (List.mem_singleton_self _))
  | repeated hx _ hfits =>
      exact satSub_le_of_fits hstill hx hfits (hsteady _ (List.mem_cons_self ..))
        (hsteady _ (List.mem_cons_of_mem _ (List.mem_singleton_self _)))

/-- A pass without a sample had a call that gave up, or has left the sink
failed. -/
theorem PassEnds.aborted_or_failed (h : PassEnds rig cfg origin probeActive size s t)
    (hnone : t.sample? = none) :
    (∃ c ∈ t.pass.calls, c.reply.aborted = true) ∨ Sink.failed t.state.sink = true := by
  cases h with
  | gaveUp hfirst =>
      refine ((attempt_sample?_eq_none_iff ..).mp hfirst).imp_left fun haborted => ?_
      exact ⟨_, List.mem_singleton_self _, haborted⟩
  | kept => cases hnone
  | noTime => cases hnone
  | repeated =>
      have hsecond := (attempt_sample?_eq_none_iff ..).mp (Option.map_eq_none_iff.mp hnone)
      refine hsecond.imp_left fun haborted => ?_
      exact ⟨_, List.mem_cons_of_mem _ (List.mem_singleton_self _), haborted⟩

end

/-! ## Every head of the loop -/

section

variable {W σ α : Type} [Sink σ] [Scalar α] [Logarithm α] {rig : Rig W σ} {cfg : Settings α}
variable {sink : σ} {w : W} {s : State W σ} {nanos bytes : Nat}

theorem costs_of_visits (h : Visits rig cfg sink w s)
    (hsteady : ∀ c ∈ s.calls, c.Steady (startActive rig w) nanos bytes) :
    ∀ x ∈ s.series.samples, x.Costs nanos (seen (startActive rig w) bytes) := by
  induction h with
  | refl => exact fun x hx => absurd hx (Array.not_mem_empty x)
  | tail _ hturn ih =>
      cases hturn with
      | pass _ hsample =>
          rw [Taken.calls_settled, List.forall_mem_append] at hsteady
          intro x hx
          rcases Array.mem_push.mp hx with hx | rfl
          · exact ih hsteady.1 x hx
          · exact (passEnds_takePass ..).costs hsteady.2 hsample

/-- A series whose last size is one has only samples of that size. -/
theorem size_eq_one_of_last {budget : UInt64} {s : Series} (hfits : s.Fits budget)
    (hlast : ∀ size ∈ s.sizes.getLast?, size ≤ 1) : ∀ x ∈ s.samples, x.size = 1 := by
  have hsorted : s.sizes.Pairwise (· ≤ ·) :=
    List.isChain_iff_pairwise.mp (hfits.chain.imp fun _ _ h => h.1)
  have hle : ∀ size ∈ s.sizes, size ≤ 1 := by
    rcases List.eq_nil_or_concat s.sizes with hnil | ⟨sizes, last, hsizes⟩
    · intro size hsize
      rw [hnil] at hsize
      cases hsize
    · rw [List.concat_eq_append] at hsizes
      have hone : last ≤ 1 := hlast last (by rw [hsizes, List.getLast?_concat]; rfl)
      rw [hsizes, List.pairwise_append] at hsorted
      rw [hsizes]
      refine List.forall_mem_append.mpr ⟨fun size hsize => ?_, List.forall_mem_singleton.mpr hone⟩
      exact UInt64.le_trans (hsorted.2.2 size hsize last (List.mem_singleton_self _)) hone
  intro x hx
  have hmem := s.size_mem_sizes hx
  exact UInt64.le_antisymm (hle _ hmem) (hfits.pos _ hmem)

theorem measured_append_le {s : Series} {x : Sample} {budget : UInt64}
    (h : s.measured.toNat + x.measured.toNat ≤ budget.toNat) : (s.append x).measured ≤ budget := by
  show satAdd s.measured x.measured ≤ budget
  rw [UInt64.le_iff_toNat_le, toNat_satAdd]
  omega

variable [Scalar.ExactQuotients α]

/-- At a steady cost both budgets are kept at every head of the loop, unless
there are samples of size one only. -/
theorem within_or_ones_of_visits (hstill : rig.StillBetweenCalls) (h : Visits rig cfg sink w s)
    (hsteady : ∀ c ∈ s.calls, c.Steady (startActive rig w) nanos bytes) :
    (∀ x ∈ s.series.samples, x.size = 1) ∨
      headTime rig (startTime rig w) s ≤ cfg.timeBudget ∧
        s.series.measured ≤ cfg.memoryBudget := by
  have hfits := fits_of_visits h
  cases Relation.ReflTransGen.cases_tail h with
  | inl hstart =>
      rw [hstart]
      exact .inl fun x hx => absurd hx (Array.not_mem_empty x)
  | inr hturn =>
      obtain ⟨t, hvisits, hturn⟩ := hturn
      cases hturn with
      | @pass size x hstarts hsample =>
          rw [Taken.calls_settled, List.forall_mem_append] at hsteady
          have hsize : x.size = size := takePass_sample_size hsample
          by_cases hone : size ≤ 1
          · left
            refine size_eq_one_of_last hfits fun last hlast => ?_
            have hsizes : (((passFrom rig cfg (startTime rig w) (startActive rig w) size t).settled
                t x).series).sizes = t.series.sizes ++ [x.size] := Series.sizes_append ..
            rw [hsizes, List.getLast?_concat] at hlast
            rw [← Option.some.inj hlast, hsize]
            exact hone
          · right
            have hlast : ∀ prev ∈ t.series.last?,
                prev.Costs nanos (seen (startActive rig w) bytes) ∧ 1 ≤ prev.size := by
              intro prev hprev
              have hmem : prev ∈ t.series.samples := Array.mem_of_back? hprev
              exact ⟨costs_of_visits hvisits hsteady.1 prev hmem,
                (fits_of_visits hvisits).pos _ (t.series.size_mem_sizes hmem)⟩
            have hroom := room_of_next_call hlast hstarts.next (UInt64.not_le.mp hone)
            have hends : PassEnds rig cfg (startTime rig w) (startActive rig w) size (t.ticked rig)
                (passFrom rig cfg (startTime rig w) (startActive rig w) size t) :=
              passEnds_takePass ..
            have hcosts := hends.costs hsteady.2 hsample
            refine ⟨hends.satSub_le hstill hsteady.2 ?_, measured_append_le ?_⟩
            · rw [t.now_ticked hstill]
              exact hroom.1
            · rw [hcosts.measured, hsize]
              exact hroom.2

end

/-! ## Whole runs -/

section

variable {W σ α : Type} [Sink σ] [Scalar α] [Logarithm α]

/-- A run in which no call gives up and whose sink has not failed is not
aborted. -/
theorem wasAborted_eq_false {rig : Rig W σ} {cfg : Settings α} {sink : σ} {w : W} {r : Run W σ}
    (hr : run rig cfg sink w = .ok r) (hcalls : ∀ c ∈ r.calls, c.reply.aborted = false)
    (hsink : Sink.failed r.state.sink = false) : r.wasAborted = false := by
  obtain ⟨s, ending, final, -, hleaves, rfl⟩ := exists_visits_of_run hr
  cases hleaves with
  | failed hfailed => exact absurd hfailed (Bool.eq_false_iff.mp hsink)
  | stopped => rfl
  | @gaveUp size hstarts hsample =>
      have hall : ∀ c ∈ s.calls ++
          (passFrom rig cfg (startTime rig w) (startActive rig w) size s).pass.calls,
          c.reply.aborted = false := by
        rw [← s.calls_push]
        exact hcalls
      rcases (passEnds_takePass ..).aborted_or_failed hsample with ⟨c, hc, haborted⟩ | hfailed
      · rw [hall c (List.mem_append_right _ hc)] at haborted
        cases haborted
      · exact absurd hfailed (Bool.eq_false_iff.mp hsink)

variable [Scalar.ExactQuotients α] (rig : Rig W σ) (cfg : Settings α) (sink : σ) (w : W)

/-- **Steady costs.** Let the clock move in calls only. A run ends; and if
every call of it has taken the same time for each unit, and raised the
reading of an active probe by the same bytes for each, and neither a call nor
the sink has failed, then the run is complete and has kept within its time
and its memory, calls thrown away included, or it has retained samples of
size one only. -/
theorem steady_cost_within_budgets (hstill : rig.StillBetweenCalls) (nanos bytes : Nat) :
    ∃ r, run rig cfg sink w = .ok r ∧
      ((∀ c ∈ r.calls, c.Steady r.probeActive nanos bytes ∧ c.reply.aborted = false) →
        Sink.failed r.state.sink = false →
        r.wasAborted = false ∧
          ((∀ x ∈ r.state.series.samples, x.size = 1) ∨
            r.elapsed ≤ cfg.timeBudget ∧ r.state.series.measured ≤ cfg.memoryBudget)) := by
  obtain ⟨r, hr⟩ := exists_run_eq_ok rig cfg sink w
  refine ⟨r, hr, fun hcalls hsink => ?_⟩
  have hcompleted := wasAborted_eq_false hr (fun c hc => (hcalls c hc).2) hsink
  refine ⟨hcompleted, ?_⟩
  obtain ⟨s, ending, final, hvisits, hleaves, rfl⟩ := exists_visits_of_run hr
  cases hleaves with
  | failed => cases hcompleted
  | gaveUp => cases hcompleted
  | stopped =>
      have hwithin := within_or_ones_of_visits hstill hvisits fun c hc => (hcalls c hc).1
      rw [headTime, ← s.now_ticked hstill] at hwithin
      exact hwithin

end

/-! A run that repeats its fourth call, which is a spike at a scale of one,
and ends with nothing left of either budget. -/

section

open Scenario

attribute [local instance] binaryLogarithm

/-- Ten nanoseconds and three bytes for each unit. -/
def steadyScript : Script where
  otherwise := [.advance { linear := 10 }, .allocate { linear := 3 }]

def exactSettings : Settings Rat :=
  { spikeSettings with
    sampleBudget := 15, memoryBudget := 45, timeBudget := .ofNanos 230, noiseScale := 1 }

theorem steady_cost_of_steadyScript :
    (steadyScript.rig .simulated : Rig World Transcript).StillBetweenCalls ∧
      ∃ r : Run World Transcript,
        run (steadyScript.rig .simulated) exactSettings {} {} = .ok r ∧ r.probeActive = true ∧
        (∀ c ∈ r.calls, c.Steady r.probeActive 10 3 ∧ c.reply.aborted = false) ∧
        Sink.failed r.state.sink = false ∧ r.calls.map Call.size = [1, 2, 4, 8, 8] ∧
        r.wasAborted = false ∧ r.elapsed ≤ .ofNanos 230 ∧ r.state.series.measured ≤ 45 := by
  have hstill : (steadyScript.rig .simulated : Rig World Transcript).StillBetweenCalls :=
    (Script.movesInCalls (by decide) .simulated).still
  obtain ⟨r, hr, hwithin⟩ :=
    steady_cost_within_budgets (steadyScript.rig .simulated) exactSettings ({} : Transcript) {}
      hstill 10 3
  have hvalues : ∀ r ∈
      (run (steadyScript.rig .simulated) exactSettings ({} : Transcript) {}).toOption,
      r.probeActive = true ∧
        (∀ c ∈ r.calls, c.Steady r.probeActive 10 3 ∧ c.reply.aborted = false) ∧
        Sink.failed r.state.sink = false ∧ r.calls.map Call.size = [1, 2, 4, 8, 8] ∧
        ¬∀ x ∈ r.state.series.samples, x.size = 1 := by decide +kernel
  obtain ⟨hactive, hcalls, hsink, hsizes, hones⟩ := hvalues r (by rw [hr]; rfl)
  obtain ⟨hcompleted, hones' | ⟨helapsed, hmeasured⟩⟩ := hwithin hcalls hsink
  · exact absurd hones' hones
  · exact ⟨hstill, r, hr, hactive, hcalls, hsink, hsizes, hcompleted, helapsed, hmeasured⟩

end

end Loop

end CostAudit
