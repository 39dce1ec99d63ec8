import CostAudit.Audit
import CostAudit.Proofs.Loop.Failures
import CostAudit.Proofs.Loop.Sizes

/-!
# Verdict, errors and result

A failure can come from the configuration, from the sink before the run,
from any call of the workload, and from the verification. The first three
leave nothing verified, and the verification speaks only when none of them
has (`Findings.Agrees`): the errors of a report are then the messages of its
result, since a completed run starts the verification with a transcript
without failures.
-/

namespace CostAudit

open Loop (Rig Run Settings)

/-! ## Transcripts -/

theorem failures_foldl_note {β : Type} (text : β → String) (xs : List β) (t : Transcript) :
    (xs.foldl (fun s x => Sink.note s (text x)) t).failures = t.failures := by
  induction xs generalizing t with
  | nil => rfl
  | cons x xs ih => exact ih (Sink.note t (text x))

theorem failures_foldl_fail (messages : List String) (t : Transcript) :
    (messages.foldl Sink.fail t).failures.toList = t.failures.toList ++ messages := by
  induction messages generalizing t with
  | nil => simp
  | cons m ms ih =>
      rw [List.foldl_cons, ih]
      simp [Sink.fail, Transcript.fail]

/-- A verification adds its messages to a transcript, and nothing else. -/
theorem failures_verify (c : Config) (t : Totals) (growth : Bool) (sink : Transcript) :
    (c.verify t growth sink).2.failures.toList =
      sink.failures.toList ++ (c.verify t growth sink).1.messages := by
  unfold Config.verify
  split
  · exact (List.append_nil _).symm
  · exact failures_foldl_fail _ _

/-- A line in the log does not make a failed sink good again. -/
def Sink.StaysFailed (σ : Type) [Sink σ] : Prop :=
  ∀ (s : σ) (line : String), Sink.failed s = true → Sink.failed (Sink.note s line) = true

theorem staysFailed_transcript : Sink.StaysFailed Transcript := fun _ _ h => h

/-! ## Audits -/

section

variable {W σ : Type} [Sink σ] (c : Config) (rig : Rig W σ) (sink : σ) (w : W)

/-- The sink that a run starts with, after the warnings. -/
def Config.warned : σ := (c.warnings (rig.active w).1).foldl (fun s x => Sink.note s x.text) sink

/-- An audit of a usable configuration concludes from a run. -/
theorem exists_audit_eq_conclude (hvalid : c.validate = .ok ()) :
    ∃ r, Loop.run rig (Settings.ofConfig c) (c.warned rig sink w) (rig.active w).2 = .ok r ∧
      c.audit rig sink w = .ok (c.conclude (rig.active w).1 r) := by
  obtain ⟨r, hr⟩ := Loop.exists_run_eq_ok rig (Settings.ofConfig c) (c.warned rig sink w)
    (rig.active w).2
  refine ⟨r, hr, ?_⟩
  have hrun : Loop.run rig (Settings.ofConfig c) ((c.warnings (rig.active w).1).foldl
    (fun s x => Sink.note s x.text) sink) (rig.active w).2 = .ok r := hr
  rw [Config.audit, hvalid]
  simp only [hrun, bind, Except.bind]
  rfl

/-- Every audit leaves findings. -/
theorem exists_audit_eq_ok : ∃ f, c.audit rig sink w = .ok f := by
  cases hvalid : c.validate with
  | error e => exact ⟨_, by rw [Config.audit, hvalid]⟩
  | ok =>
      obtain ⟨r, -, haudit⟩ := exists_audit_eq_conclude c rig sink w hvalid
      exact ⟨_, haudit⟩

variable {c}

theorem conclude_of_aborted {r : Run W σ} (h : r.wasAborted = true) (probeActive : Bool) :
    (c.conclude probeActive r).result? = none ∧ (c.conclude probeActive r).calls = r.calls := by
  unfold Config.conclude
  split
  · exact ⟨rfl, rfl⟩
  · rename_i hending
    rw [Run.wasAborted, hending] at h
    cases h

theorem warned_of_failed {sink : σ} (hsink : Sink.failed sink = true)
    (hnote : Sink.StaysFailed σ) :
    Sink.failed (c.warned rig sink w) = true := by
  unfold Config.warned
  induction c.warnings (rig.active w).1 generalizing sink with
  | nil => exact hsink
  | cons x xs ih => exact ih (hnote sink x.text hsink)

end

theorem conclude_of_completed {W : Type} {c : Config} {r : Run W Transcript}
    (h : r.wasAborted = false) (hclean : r.state.sink.failures = #[]) (probeActive : Bool) :
    ∃ v, (c.conclude probeActive r).result? = some v ∧
      (c.conclude probeActive r).sink.failures.toList = v.messages ∧
      (c.conclude probeActive r).calls = r.calls := by
  unfold Config.conclude
  split
  · rename_i hending
    rw [Run.wasAborted, hending] at h
    cases h
  · refine ⟨_, rfl, ?_, rfl⟩
    refine (failures_verify ..).trans ?_
    have hnote (line : String) :
        (Sink.note r.state.sink line).failures = r.state.sink.failures := rfl
    rw [hnote, hclean]
    rfl

/-! ## Reports -/

/-- The report on some findings says in its outcome, its result and its
errors the same about the audit. -/
structure Findings.Agrees {W : Type} (c : Config) (f : Findings W Transcript) : Prop where
  aborted : f.report.outcome = .aborted ↔
    (∃ e, c.validate = .error e) ∨ ∃ k ∈ f.calls, k.Fails
  /-- A configuration that is not usable is not tried. -/
  invalid : ∀ e, c.validate = .error e → f.calls = []
  /-- A call that fails is the last one. -/
  last : ∀ before k after, f.calls = before ++ k :: after → k.Fails → after = []
  unverified : f.report.outcome = .aborted → f.result? = none ∧ f.report.result = {}
  verified : f.report.outcome ≠ .aborted →
    f.result? = some f.report.result ∧
      (f.report.outcome = .pass ∧ f.report.errors = [] ∧ f.report.result.failures = [] ∨
        f.report.outcome = .fail ∧ f.report.errors = f.report.result.messages ∧
          f.report.result.failures ≠ [])

theorem report_of_none {W : Type} {f : Findings W Transcript} (hresult : f.result? = none) :
    f.report.outcome = .aborted ∧ f.report.result = {} := by
  rw [Findings.report, hresult]
  exact ⟨rfl, rfl⟩

/-- The findings on a configuration that is not usable. -/
theorem agrees_invalid {W : Type} {c : Config} {e : Config.Invalid} {f : Findings W Transcript}
    (hvalid : c.validate = .error e) (hresult : f.result? = none) (hcalls : f.calls = []) :
    f.Agrees c := by
  obtain ⟨houtcome, hreport⟩ := report_of_none hresult
  refine ⟨iff_of_true houtcome (Or.inl ⟨e, hvalid⟩), fun _ _ => hcalls, ?_,
    fun _ => ⟨hresult, hreport⟩, fun h => absurd houtcome h⟩
  intro before k after h
  rw [hcalls] at h
  simp at h

/-- The findings on a run that a call has stopped. -/
theorem agrees_failed {W : Type} {c : Config} {f : Findings W Transcript}
    {before : List Loop.Call} {last : Loop.Call}
    (hvalid : c.validate = .ok ()) (hresult : f.result? = none)
    (hcalls : f.calls = before ++ [last]) (hlast : last.Fails)
    (hbefore : ∀ k ∈ before, ¬k.Fails) : f.Agrees c := by
  obtain ⟨houtcome, hreport⟩ := report_of_none hresult
  refine ⟨iff_of_true houtcome (Or.inr ⟨last, by simp [hcalls], hlast⟩), ?_, ?_,
    fun _ => ⟨hresult, hreport⟩, fun h => absurd houtcome h⟩
  · intro e he
    rw [hvalid] at he
    cases he
  · intro before' k after h hk
    rw [hcalls] at h
    rcases List.eq_nil_or_concat after with rfl | ⟨init, z, rfl⟩
    · rfl
    · -- a call before the last one does not fail
      rw [List.concat_eq_append, ← List.cons_append, ← List.append_assoc] at h
      have hinit := List.append_inj_left' h rfl
      exact absurd hk (hbefore k (by simp [hinit]))

/-- The findings on a completed run. -/
theorem agrees_completed {W : Type} {c : Config} {f : Findings W Transcript} {v : Verification}
    (hvalid : c.validate = .ok ()) (hresult : f.result? = some v)
    (herrors : f.sink.failures.toList = v.messages) (hcalls : ∀ k ∈ f.calls, ¬k.Fails) :
    f.Agrees c := by
  have hreport : f.report.result = v := by
    rw [Findings.report, hresult]
    rfl
  have houtcome : f.report.outcome = if v.passed then .pass else .fail := by
    rw [Findings.report, hresult]
    rfl
  have hnot : f.report.outcome ≠ .aborted := by
    rw [houtcome]
    split <;> exact Outcome.noConfusion
  refine ⟨iff_of_false hnot ?_, ?_, fun _ k _ h hk => ?_, fun h => absurd h hnot, fun _ => ?_⟩
  · rintro (⟨e, he⟩ | ⟨k, hk, hfails⟩)
    · rw [hvalid] at he
      cases he
    · exact hcalls k hk hfails
  · intro e he
    rw [hvalid] at he
    cases he
  · exact absurd hk (hcalls k (by simp [h]))
  · refine ⟨by rw [hresult, hreport], ?_⟩
    have hmessages : f.report.errors = v.messages := herrors
    rw [houtcome, hreport, hmessages]
    by_cases h : v.failures = []
    · refine Or.inl ⟨?_, ?_, h⟩
      · simp [Verification.passed, h]
      · simp [Verification.messages, h]
    · refine Or.inr ⟨?_, rfl, h⟩
      simp [Verification.passed, h]

theorem exists_audit_agrees {W : Type} (c : Config) (rig : Rig W Transcript) (w : W) :
    ∃ f, c.audit rig {} w = .ok f ∧ f.Agrees c := by
  cases hvalid : c.validate with
  | error e =>
      refine ⟨_, by rw [Config.audit, hvalid], agrees_invalid hvalid rfl rfl⟩
  | ok =>
      obtain ⟨r, hrun, haudit⟩ := exists_audit_eq_conclude c rig {} w hvalid
      have hsink : (c.warned rig {} w).failures = #[] := failures_foldl_note _ _ _
      refine ⟨_, haudit, ?_⟩
      rcases Loop.clean_or_failed_of_run hsink hrun with
        ⟨hcompleted, hclean⟩ | ⟨haborted, before, last, hcalls, hlast, hbefore⟩
      · obtain ⟨v, hresult, herrors, hcalls⟩ :=
          conclude_of_completed hcompleted hclean.failures (rig.active w).1
        exact agrees_completed hvalid hresult herrors (hcalls ▸ hclean.calls)
      · obtain ⟨hresult, hconclude⟩ := conclude_of_aborted haborted (rig.active w).1
        exact agrees_failed hvalid hresult (hconclude.trans hcalls) hlast hbefore

theorem exists_audit_of_failed {W σ : Type} [Sink σ] (c : Config) (rig : Rig W σ) {sink : σ}
    (w : W) (hnote : Sink.StaysFailed σ) (hsink : Sink.failed sink = true) :
    ∃ f, c.audit rig sink w = .ok f ∧ f.calls = [] ∧ f.result? = none := by
  cases hvalid : c.validate with
  | error e =>
      exact ⟨_, by rw [Config.audit, hvalid], rfl, rfl⟩
  | ok =>
      obtain ⟨r, hrun, haudit⟩ := exists_audit_eq_conclude c rig sink w hvalid
      rw [Loop.run_of_failed (warned_of_failed rig w hsink hnote)] at hrun
      have haborted : r.wasAborted = true := by rw [← Except.ok.inj hrun]; rfl
      have hempty : r.calls = [] := by rw [← Except.ok.inj hrun]; rfl
      obtain ⟨hresult, hcalls⟩ := conclude_of_aborted haborted (rig.active w).1
      exact ⟨_, haudit, hcalls.trans hempty, hresult⟩

end CostAudit
