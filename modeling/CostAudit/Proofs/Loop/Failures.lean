import CostAudit.Proofs.Loop.Turns

/-!
# Calls that fail

A call fails when the workload gives up or records a failure. A run with a
transcript that starts without failures ends at the first call that fails,
the first call of a pass or its repetition alike: the loop looks at the
reply and at the sink after every call, and nothing but a call records a
failure while the run goes on. So at every head of the loop the transcript
is still without failures and no call so far has failed (`State.Clean`),
and a run that was stopped early ends with the call that failed
(`clean_or_failed_of_run`).
-/

namespace CostAudit.Loop

/-- The workload gave up in the call or recorded a failure. -/
def Call.Fails (c : Call) : Prop := c.reply.aborted = true ∨ c.reply.failures ≠ []

section

variable {W α : Type} {rig : Rig W Transcript} {cfg : Settings α} {probeActive : Bool}
variable {size : UInt64} {s : State W Transcript}

/-! ## One call -/

theorem attempt_failures (hs : s.sink.failures = #[]) :
    (attempt rig cfg probeActive size s).state.sink.failures.toList =
      (attempt rig cfg probeActive size s).call.reply.failures := by
  rw [attempt_sink, Transcript.failures_tell, hs]
  rfl

theorem failed_iff (t : Transcript) : Sink.failed t = true ↔ t.failures.toList ≠ [] := by
  rcases t with ⟨⟨failures⟩, logs⟩
  cases failures <;> simp [Sink.failed, Transcript.failed]

/-- A call yields no sample exactly when it fails. -/
theorem attempt_sample?_eq_none (hs : s.sink.failures = #[]) :
    (attempt rig cfg probeActive size s).sample? = none ↔
      (attempt rig cfg probeActive size s).call.Fails := by
  rw [attempt_sample?_eq_none_iff, Call.Fails, ← attempt_failures hs, ← failed_iff]

/-- A call that yields a sample leaves the transcript without failures. -/
theorem clean_attempt (hs : s.sink.failures = #[]) {x : Sample}
    (hx : (attempt rig cfg probeActive size s).sample? = some x) :
    ¬(attempt rig cfg probeActive size s).call.Fails ∧
      (attempt rig cfg probeActive size s).state.sink.failures = #[] := by
  have hfails : ¬(attempt rig cfg probeActive size s).call.Fails := by
    rw [← attempt_sample?_eq_none hs, hx]
    exact Option.some_ne_none x
  refine ⟨hfails, Array.toList_inj.mp ?_⟩
  rw [attempt_failures hs]
  by_cases h : (attempt rig cfg probeActive size s).call.reply.failures = []
  · exact h
  · exact absurd (Or.inr h) hfails

end

/-! ## A pass -/

section

variable {W α : Type} {rig : Rig W Transcript} {cfg : Settings α} {probeActive : Bool}

/-- What a pass says about its calls: it yields no sample exactly when its
last call fails, it discards no call that fails, and with a sample it leaves
the transcript without failures. -/
structure Taken.Judged (t : Taken W Transcript) : Prop where
  last : t.sample? = none ↔ t.pass.last.Fails
  discarded : ∀ c ∈ t.pass.discarded, ¬c.Fails
  clean : ∀ x ∈ t.sample?, t.state.sink.failures = #[]

/-- The repetition of a spike is a call from a state whose transcript the
first call has left as it was. -/
theorem judged_repeatSpike [Scalar α] {first : Call} {x : Sample} {limit : α}
    {earlier s : State W Transcript} (hs : s.sink.failures = #[]) (hfirst : ¬first.Fails) :
    (repeatSpike rig cfg probeActive limit first x earlier s).Judged := by
  have hrolled : (s.rollback earlier).sink.failures = #[] := hs
  refine ⟨?_, ?_, ?_⟩
  · rw [repeatSpike, Option.map_eq_none_iff]
    exact attempt_sample?_eq_none hrolled
  · intro c hc
    obtain rfl : c = first := List.mem_singleton.mp hc
    exact hfirst
  · intro y hy
    obtain ⟨z, hz, -⟩ := Option.map_eq_some_iff.mp hy
    exact (clean_attempt hrolled hz).2

variable [Scalar α] [Logarithm α] {origin : Duration} {size : UInt64}
variable {s : State W Transcript} {t : Taken W Transcript}

theorem PassEnds.judged (h : PassEnds rig cfg origin probeActive size s t)
    (hs : s.sink.failures = #[]) : t.Judged := by
  cases h with
  | gaveUp hfirst =>
      have hfails := (attempt_sample?_eq_none hs).mp hfirst
      exact ⟨iff_of_true rfl hfails, fun _ hc => (nomatch hc), fun _ hx => (nomatch hx)⟩
  | kept hfirst =>
      obtain ⟨hfails, hclean⟩ := clean_attempt hs hfirst
      exact ⟨iff_of_false (Option.some_ne_none _) hfails, fun _ hc => (nomatch hc),
        fun _ _ => hclean⟩
  | noTime hfirst =>
      obtain ⟨hfails, hclean⟩ := clean_attempt hs hfirst
      exact ⟨iff_of_false (Option.some_ne_none _) hfails, fun _ hc => (nomatch hc),
        fun _ _ => hclean⟩
  | repeated hfirst =>
      obtain ⟨hfails, hclean⟩ := clean_attempt hs hfirst
      exact judged_repeatSpike hclean hfails

end

/-! ## A run -/

section

variable {W α : Type} [Scalar α] [Logarithm α] {rig : Rig W Transcript} {cfg : Settings α}
variable {sink : Transcript} {w : W}

/-- No failure has been recorded and no call has failed. -/
structure State.Clean (s : State W Transcript) : Prop where
  failures : s.sink.failures = #[]
  calls : ∀ c ∈ s.passes.toList.flatMap Pass.calls, ¬c.Fails

theorem calls_push (passes : Array Pass) (p : Pass) :
    (passes.push p).toList.flatMap Pass.calls =
      (passes.toList.flatMap Pass.calls ++ p.discarded) ++ [p.last] := by
  simp [Pass.calls_eq]

theorem clean_of_visits {s : State W Transcript} (hsink : sink.failures = #[])
    (h : Visits rig cfg sink w s) : s.Clean := by
  refine h.induction (motive := State.Clean) ⟨hsink, fun _ hc => (nomatch hc)⟩ ?_
  intro t u hturn hclean
  cases hturn with
  | @pass size x hstarts hsample =>
      have hjudged := (passEnds_takePass rig cfg (startTime rig w) (startActive rig w) size
        (t.ticked rig)).judged hclean.failures
      refine ⟨hjudged.clean _ hsample, fun c hc => ?_⟩
      rw [Taken.settled, calls_push, List.mem_append, List.mem_append, List.mem_singleton] at hc
      rcases hc with (hc | hc) | rfl
      · exact hclean.calls c hc
      · exact hjudged.discarded c hc
      · exact fun hfails => Option.some_ne_none _ (hsample.symm.trans (hjudged.last.mpr hfails))

/-- A run that starts without failures completes without any, or is stopped
by the first call that fails. -/
theorem clean_or_failed_of_run {r : Run W Transcript} (hsink : sink.failures = #[])
    (h : run rig cfg sink w = .ok r) :
    (r.wasAborted = false ∧ r.state.Clean) ∨
      (r.wasAborted = true ∧
        ∃ before last, r.calls = before ++ [last] ∧ last.Fails ∧ ∀ c ∈ before, ¬c.Fails) := by
  obtain ⟨s, ending, final, hvisits, hleaves, rfl⟩ := exists_visits_of_run h
  have hclean := clean_of_visits hsink hvisits
  cases hleaves with
  | failed hfailed =>
      rw [failed_iff, hclean.failures] at hfailed
      exact absurd rfl hfailed
  | stopped => exact Or.inl ⟨rfl, hclean.failures, hclean.calls⟩
  | @gaveUp size hstarts hsample =>
      have hjudged := (passEnds_takePass rig cfg (startTime rig w) (startActive rig w) size
        (s.ticked rig)).judged hclean.failures
      refine Or.inr ⟨rfl, _, _, calls_push _ _, hjudged.last.mp hsample, fun c hc => ?_⟩
      rcases List.mem_append.mp hc with hc | hc
      · exact hclean.calls c hc
      · exact hjudged.discarded c hc

end

end CostAudit.Loop
