import CostAudit.Proofs.Loop.Turns

/-!
# A clock that moves in calls

Between the calls of a run the clock is read over and over: at the head of
the loop, before and after each call, and once more when a spike is found.
If nothing but a call of the workload moves the clock, all readings between
two calls agree, and the calls of a run stand one right after the other from
its start to its end (`backToBack_of_run`). The time of a run is then the
sum of the times of its calls, those thrown away included.
-/

namespace CostAudit.Loop

/-- The clock moves in calls of the workload only, never back, and reads a
word of nanoseconds. -/
structure Rig.MovesInCalls {W σ : Type} (rig : Rig W σ) : Prop where
  now : ∀ w, (rig.now (rig.now w).2).1 = (rig.now w).1
  active : ∀ w, (rig.now (rig.active w).2).1 = (rig.now w).1
  read : ∀ mode w, (rig.now (rig.read mode w).2).1 = (rig.now w).1
  call : ∀ it w, (rig.now w).1 ≤ (rig.now (rig.call it w).2).1
  word : ∀ w, (rig.now w).1.nanos < 2 ^ 64

/-- Nothing between two calls of the workload moves the clock. -/
structure Rig.StillBetweenCalls {W σ : Type} (rig : Rig W σ) : Prop where
  now : ∀ w, (rig.now (rig.now w).2).1 = (rig.now w).1
  active : ∀ w, (rig.now (rig.active w).2).1 = (rig.now w).1
  read : ∀ mode w, (rig.now (rig.read mode w).2).1 = (rig.now w).1

theorem Rig.MovesInCalls.still {W σ : Type} {rig : Rig W σ} (h : rig.MovesInCalls) :
    rig.StillBetweenCalls := ⟨h.now, h.active, h.read⟩

/-- Calls made one right after the other, from one reading of the clock to
another. -/
inductive BackToBack : Duration → List Call → Duration → Prop
  | nil {t : Duration} : BackToBack t [] t
  | cons {c : Call} {cs : List Call} {t u : Duration} (hstarted : c.started = t)
      (hc : c.started ≤ c.ended) (hcs : BackToBack c.ended cs u) : BackToBack t (c :: cs) u

namespace BackToBack

variable {t u v : Duration} {c : Call} {cs ds : List Call}

theorem append (hcs : BackToBack t cs u) (hds : BackToBack u ds v) :
    BackToBack t (cs ++ ds) v := by
  induction hcs with
  | nil => exact hds
  | cons hstarted hc _ ih => exact .cons hstarted hc (ih hds)

/-- The time from the first call to the end of the last is the sum of the
times of the calls. -/
theorem nanos_eq (h : BackToBack t cs u) :
    u.nanos = t.nanos + (cs.map (·.elapsed.nanos)).sum := by
  induction h with
  | nil => rfl
  | cons hstarted hc _ ih =>
      rw [Duration.le_iff] at hc
      rw [← hstarted]
      rw [List.map_cons, List.sum_cons, ih, Call.elapsed, Duration.nanos_satSub]
      omega

theorem started_of_mem (h : BackToBack t cs u) (hc : c ∈ cs) :
    t ≤ c.started ∧ c.started ≤ c.ended := by
  induction h with
  | nil => cases hc
  | cons hstarted hd _ ih =>
      rw [← hstarted]
      rcases List.mem_cons.mp hc with rfl | hc
      · exact ⟨Nat.le_refl _, hd⟩
      · exact ⟨Nat.le_trans hd (ih hc).1, (ih hc).2⟩

theorem ended_getLast (h : BackToBack t cs u) (hc : cs.getLast? = some c) : c.ended = u := by
  induction h with
  | nil => cases hc
  | cons _ _ hds ih =>
      cases hds with
      | nil => exact congrArg Call.ended (Option.some.inj hc).symm
      | cons => exact ih hc

end BackToBack

/-! ## One call and one pass -/

section

variable {W σ α : Type} [Sink σ] {rig : Rig W σ} (h : rig.StillBetweenCalls) (cfg : Settings α)
variable (probeActive : Bool) (size : UInt64) (s : State W σ)

include h

theorem attempt_started :
    (attempt rig cfg probeActive size s).call.started = (rig.now s.world).1 :=
  h.read cfg.mode s.world

theorem now_attempt :
    (rig.now (attempt rig cfg probeActive size s).state.world).1 =
      (attempt rig cfg probeActive size s).call.ended := by
  simp only [attempt, h.read, h.now]

/-- A repetition starts when the first call has ended. -/
theorem now_rollback :
    (rig.now ((afterFirst rig cfg probeActive size s).rollback s).world).1 =
      (attempt rig cfg probeActive size s).call.ended :=
  (h.now _).trans (now_attempt h ..)

end

section

variable {W σ α : Type} [Sink σ] {rig : Rig W σ} (h : rig.MovesInCalls) (cfg : Settings α)
variable (probeActive : Bool) (size : UInt64) (s : State W σ)

include h

theorem attempt_started_le_ended :
    (attempt rig cfg probeActive size s).call.started ≤
      (attempt rig cfg probeActive size s).call.ended := by
  have hcall := h.call ⟨size, s.ledger, s.retention, s.sink⟩
    (rig.now (rig.read cfg.mode s.world).2).2
  rw [h.now] at hcall
  exact hcall

/-- A call stands between the readings of the clock around it. -/
theorem backToBack_attempt :
    BackToBack (rig.now s.world).1 [(attempt rig cfg probeActive size s).call]
      (rig.now (attempt rig cfg probeActive size s).state.world).1 := by
  rw [now_attempt h.still]
  exact .cons (attempt_started h.still ..) (attempt_started_le_ended h ..) .nil

variable {cfg probeActive size s} [Scalar α] [Logarithm α] {origin : Duration} {t : Taken W σ}

/-- The calls of a pass stand between the readings around the pass. -/
theorem PassEnds.backToBack (hends : PassEnds rig cfg origin probeActive size s t) :
    BackToBack (rig.now s.world).1 t.pass.calls (rig.now t.state.world).1 := by
  have hfirst := backToBack_attempt h cfg probeActive size s
  cases hends with
  | gaveUp => exact hfirst
  | kept => exact hfirst
  | noTime =>
      rw [← h.now (attempt rig cfg probeActive size s).state.world] at hfirst
      exact hfirst
  | repeated =>
      rw [now_attempt h.still, ← now_rollback h.still] at hfirst
      exact hfirst.append (backToBack_attempt h ..)

end

/-! ## Whole runs -/

section

variable {W σ α : Type} [Sink σ] [Scalar α] [Logarithm α] {rig : Rig W σ} {cfg : Settings α}
variable {sink : σ} {w : W}

omit [Sink σ] in
theorem State.now_ticked (h : rig.StillBetweenCalls) (s : State W σ) :
    (rig.now (s.ticked rig).world).1 = (rig.now s.world).1 := h.now s.world

variable (cfg) in
theorem backToBack_passFrom (h : rig.MovesInCalls) (origin : Duration) (probeActive : Bool)
    (size : UInt64) (s : State W σ) :
    BackToBack (rig.now s.world).1 (passFrom rig cfg origin probeActive size s).pass.calls
      (rig.now (passFrom rig cfg origin probeActive size s).state.world).1 := by
  rw [← s.now_ticked h.still]
  exact PassEnds.backToBack h (passEnds_takePass ..)

theorem backToBack_of_visits (h : rig.MovesInCalls) {s : State W σ}
    (hvisits : Visits rig cfg sink w s) :
    BackToBack (startTime rig w) s.calls (rig.now s.world).1 := by
  refine hvisits.induction
    (motive := fun s => BackToBack (startTime rig w) s.calls (rig.now s.world).1) ?_ ?_
  · have hstart : (rig.now (startState rig sink w).world).1 = startTime rig w :=
      (h.active _).trans (h.now w)
    rw [hstart]
    exact .nil
  · intro t u hturn ih
    cases hturn with
    | pass =>
        rw [Taken.calls_settled]
        exact ih.append (backToBack_passFrom cfg h ..)

/-- The calls of a run fill the time from its start to its end. -/
theorem backToBack_of_run (h : rig.MovesInCalls) {r : Run W σ}
    (hr : run rig cfg sink w = .ok r) :
    ∃ stop : Duration, BackToBack r.origin r.calls stop ∧ r.elapsed = stop.satSub r.origin := by
  obtain ⟨s, ending, final, hvisits, hleaves, rfl⟩ := exists_visits_of_run hr
  refine ⟨(rig.now final.world).1, ?_, rfl⟩
  have hcalls := backToBack_of_visits h hvisits
  cases hleaves with
  | failed => exact hcalls
  | stopped =>
      rw [← s.now_ticked h.still] at hcalls
      exact hcalls
  | @gaveUp size =>
      have hall := hcalls.append
        (backToBack_passFrom cfg h (startTime rig w) (startActive rig w) size s)
      rw [← s.calls_push] at hall
      exact hall

end

end CostAudit.Loop
