import CostAudit.Proofs.Json.Decoder
import CostAudit.Proofs.Json.RoundTrip
import CostAudit.Report.Codec

/-!
# Reports survive their JSON form

A report is read back from its JSON form, written either way. Only its time
may change: it is written as a word of nanoseconds, and what does not fit is
read as the greatest word (`Report.capped`). Each part has its own pair of
writer and reader, and the two lemmas about a part say that it is read back
and that its form can be written.
-/

namespace CostAudit

open Json (fields?_record proper_array_of_forall proper_object_of_forall proper_of_tokens_eq)

/-! ## Forms that can be written -/

namespace Json

theorem proper_text (s : String) : (Json.text s).Proper := proper_of_tokens_eq rfl trivial

theorem proper_natural (n : Nat) : (Json.natural n).Proper := proper_of_tokens_eq rfl trivial

theorem proper_word (w : UInt64) : (word w).Proper := proper_natural w.toNat

theorem proper_bool (b : Bool) : (Json.bool b).Proper := proper_of_tokens_eq rfl trivial

theorem proper_texts (ss : List String) : (texts ss).Proper :=
  proper_array_of_forall (List.forall_mem_map.mpr fun s _ => proper_text s)

theorem proper_record_zip {names : List String} {vs : List Json} (h : ∀ v ∈ vs, v.Proper) :
    (record (names.zip vs)).Proper := by
  refine proper_object_of_forall (List.forall_mem_map.mpr ?_)
  intro f hf
  exact h f.2 (List.of_mem_zip hf).2

end Json

/-! ## Violations -/

namespace Json

variable {first second : String} (h : first ≠ second) (name : String) (a b : UInt64)

theorem choice?_pair : (pair name first second a b).choice? =
    some (name, some (record [(first, word a), (second, word b)])) := rfl

include h in
theorem pair?_record : pair? first second (record [(first, word a), (second, word b)]) =
    some (a, b) := by
  have hnames : [first, second].Nodup := by simpa using h
  have hlength : [first, second].length = [word a, word b].length := rfl
  have hfields : fields? [first, second] (record [(first, word a), (second, word b)]) =
      some [word a, word b] := fields?_record hnames hlength
  simp only [pair?, hfields, Option.bind_eq_bind, Option.bind_some, word?_word]
  rfl

theorem proper_pair : (pair name first second a b).Proper := by
  have hwords : ∀ v ∈ [word a, word b], v.Proper :=
    List.forall_mem_cons.mpr ⟨proper_word a, List.forall_mem_singleton.mpr (proper_word b)⟩
  have hrecord : (record ([first, second].zip [word a, word b])).Proper := proper_record_zip hwords
  have hfield : ∀ v ∈ [record ([first, second].zip [word a, word b])], v.Proper :=
    List.forall_mem_singleton.mpr hrecord
  have hpair : (record ([name].zip [record ([first, second].zip [word a, word b])])).Proper :=
    proper_record_zip hfield
  exact hpair

end Json

namespace Violation

theorem ofJson?_toJson (x : Violation) : ofJson? x.toJson = some x := by
  have hmax : "mean" ≠ "max" := by decide
  have hmin : "mean" ≠ "min" := by decide
  have hdeclared : "measured" ≠ "declared" := by decide
  cases x with
  | measuredAboveMax mean max =>
      simp [toJson, ofJson?, Json.choice?_pair, Json.pair?_record hmax]
  | declaredAboveMax mean max =>
      simp [toJson, ofJson?, Json.choice?_pair, Json.pair?_record hmax]
  | measuredAboveDeclared measured declared =>
      simp [toJson, ofJson?, Json.choice?_pair, Json.pair?_record hdeclared]
  | stepsAboveMax mean max =>
      simp [toJson, ofJson?, Json.choice?_pair, Json.pair?_record hmax]
  | stepsBelowMin mean min =>
      simp [toJson, ofJson?, Json.choice?_pair, Json.pair?_record hmin]
  | undeclaredCpuGrowth => rfl

theorem proper_toJson (x : Violation) : x.toJson.Proper := by
  cases x with
  | undeclaredCpuGrowth => exact Json.proper_text _
  | _ => exact Json.proper_pair _ _ _

end Violation

/-! ## Verifications -/

namespace Verification

theorem ofJson?_toJson (v : Verification) : ofJson? v.toJson = some v := by
  have hnames : fieldNames.Nodup := by decide
  have hfailures := Json.list?_map Violation.ofJson?_toJson v.failures
  rw [ofJson?, toJson, fields?_record hnames rfl]
  simp only [Option.bind_eq_bind, Option.bind_some, Json.word?_word, Json.bool?_bool, hfailures]
  rfl

theorem proper_toJson (v : Verification) : v.toJson.Proper := by
  have hfailures : (Json.array (v.failures.map Violation.toJson)).Proper :=
    proper_array_of_forall (List.forall_mem_map.mpr fun x _ => x.proper_toJson)
  refine Json.proper_record_zip ?_
  simp [Json.proper_word, Json.proper_bool, hfailures]

end Verification

/-! ## Metadata -/

theorem ProbeMode.ofJson?_toJson (m : ProbeMode) : ofJson? m.toJson = some m := by
  cases m <;> rfl

theorem Outcome.ofJson?_toJson (o : Outcome) : ofJson? o.toJson = some o := by
  cases o <;> rfl

theorem Duration.ofWord_toWord (d : Duration) :
    ofWord d.toWord = ofNanos (min d.nanos 18446744073709551615) := by
  rw [ofWord, toWord, toNat_satOfNat]

/-- The time as far as a word of nanoseconds can hold it. -/
def Metadata.capped (m : Metadata) : Metadata :=
  { m with elapsed := .ofNanos (min m.elapsed.nanos 18446744073709551615) }

namespace Metadata

theorem ofJson?_toJson {m : Metadata} (h : m.samples < 18446744073709551616) :
    ofJson? m.toJson = some m.capped := by
  have hnames : fieldNames.Nodup := by decide
  rw [ofJson?, toJson, fields?_record hnames rfl]
  simp only [Option.bind_eq_bind, Option.bind_some, Json.word?_word, Json.bool?_bool,
    Json.below?_natural h, ProbeMode.ofJson?_toJson, Duration.ofWord_toWord]
  rfl

theorem proper_toJson (m : Metadata) : m.toJson.Proper := by
  have hmode : m.probeMode.toJson.Proper := Json.proper_text _
  refine Json.proper_record_zip ?_
  simp [Json.proper_natural, Json.proper_word, Json.proper_bool, hmode]

end Metadata

/-! ## Reports -/

namespace Report

/-- The report with its time as far as its JSON form can hold it. -/
def capped (r : Report) : Report := { r with metadata := r.metadata.capped }

theorem ofJson?_toJson {r : Report} (h : r.metadata.samples < 18446744073709551616) :
    ofJson? r.toJson = some r.capped := by
  have hnames : fieldNames.Nodup := by decide
  rw [ofJson?, toJson, fields?_record hnames rfl]
  simp only [Option.bind_eq_bind, Option.bind_some, Outcome.ofJson?_toJson,
    Verification.ofJson?_toJson, Metadata.ofJson?_toJson h, Json.list?_texts]
  rfl

theorem proper_toJson (r : Report) : r.toJson.Proper := by
  have houtcome : r.outcome.toJson.Proper := Json.proper_text _
  refine Json.proper_record_zip ?_
  simp [houtcome, r.result.proper_toJson, r.metadata.proper_toJson, Json.proper_texts]

/-- **Decoding undoes encoding.** Every report whose number of samples is a
word is read back from its compact and from its pretty JSON text, with its
time cut at the greatest word of nanoseconds. -/
theorem reads_back (r : Report) (h : r.metadata.samples < 18446744073709551616) :
    read? r.toJson.compact = some r.capped ∧ read? r.toJson.pretty = some r.capped := by
  have hproper := r.proper_toJson
  have hdecode := ofJson?_toJson h
  refine ⟨?_, ?_⟩
  · rw [read?, hproper.read?_compact, Option.bind_some, hdecode]
  · rw [read?, hproper.read?_pretty, Option.bind_some, hdecode]

/-- A report of every kind of violation, with texts that need escapes and a
time that does not fit into a word. -/
def crowded : Report where
  outcome := .fail
  result :=
    { meanMeasured := 18446744073709551615
      meanDeclared := 0
      meanSteps := 7
      growth := true
      failures :=
        [.measuredAboveMax 18446744073709551615 1, .declaredAboveMax 3 2,
          .measuredAboveDeclared 9 0, .stepsAboveMax 5 4, .stepsBelowMin 0 6,
          .undeclaredCpuGrowth] }
  metadata :=
    { samples := 18446744073709551615
      units := 255
      elapsed := .ofNanos 18446744073709551616
      probeMode := .approximate
      probeActive := true
      pinned := false }
  errors := ["", "\"quoted\" and \\", "line\nline\ttab\r", "\u0000\u001b\u007f"]
  logs := ["\u2028\uffff😀"]

theorem crowded_reads_back :
    crowded.metadata.samples < 18446744073709551616 ∧
      crowded.capped.metadata.elapsed.nanos = 18446744073709551615 ∧
      read? crowded.toJson.compact = some crowded.capped ∧
      read? crowded.toJson.pretty = some crowded.capped :=
  ⟨by decide, by decide, reads_back crowded (by decide)⟩

end Report

end CostAudit
