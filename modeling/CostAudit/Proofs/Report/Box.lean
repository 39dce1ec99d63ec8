import CostAudit.Proofs.Decimal.Width
import CostAudit.Proofs.Text.Style
import CostAudit.Proofs.Text.Words
import CostAudit.Report.Box

/-!
# The box of a report

Colours are decoration: line by line, a report with colours shows the report
without (`styled_lines`), if the recorded failures hold no escape character.
A row without colours has the width of the box if its content fits between
the sides (`length_row`). Only the counts and the longest word of a failure
may not (`length_of_mem_lines`): a span has few digits even after all the
roundings (`millis_add_one_le`), and a chunk wider than the wrapping width
is a single word.
-/

namespace CostAudit

open Text (Plain Style Styled esc joinLines paint plain_append plain_cons visible)

/-! ## Numbers are plain -/

namespace Decimal

theorem plain_of_isDigit {cs : List Char} (h : ∀ c ∈ cs, isDigit c = true) : Plain cs := by
  intro c hc
  have hdigit := h c hc
  constructor <;> rintro rfl <;> cases hdigit

theorem plain_digits (n : Nat) : Plain (digits n) := plain_of_isDigit (isDigit_of_mem_digits n)

theorem plain_fixed (places : Nat) (q : Rat) : Plain (fixed places q) := by
  rw [fixed]
  split
  · exact plain_digits _
  · have hzeros (n : Nat) : Plain (List.replicate n '0') := .replicate (by decide) n
    exact plain_append.mpr ⟨plain_digits _,
      plain_cons.mpr ⟨by decide, plain_append.mpr ⟨hzeros _, plain_digits _⟩⟩⟩

end Decimal

namespace Report

/-! ## Rules and rows -/

theorem plain_rule {left right : Char} (hleft : left ≠ esc ∧ left ≠ '\n')
    (hright : right ≠ esc ∧ right ≠ '\n') : Plain (rule left right) :=
  plain_append.mpr ⟨plain_cons.mpr ⟨hleft, .replicate (by decide) _⟩,
    plain_cons.mpr ⟨hright, List.forall_mem_nil _⟩⟩

theorem length_rule (left right : Char) : (rule left right).length = innerWidth + 2 := by
  simp [rule]

/-- The blanks of a row are counted by what its content shows, so the row
shows what a row of that shows. -/
theorem styled_row {content shown : List Char} (h : Styled content shown) :
    Styled (row content) (row shown) := by
  have hblanks := Plain.replicate (c := ' ') (by decide) (innerWidth - 2 - shown.length)
  have hend : Plain [' ', '\u2502'] := by decide
  rw [row, row, h.visible_eq, h.plain.styled.visible_eq]
  exact (Styled.append (.char (by decide) (by decide) (.char (by decide) (by decide) h))
    hblanks.styled).append hend.styled

/-- A row is as wide as the box, or as its content and the four characters
around it. -/
theorem length_row {content : List Char} (h : Plain content) :
    (row content).length = max content.length (innerWidth - 2) + 4 := by
  rw [row, h.styled.visible_eq]
  simp only [List.length_append, List.length_cons, List.length_replicate, List.length_nil]
  omega

theorem length_row_of_le {content : List Char} (h : Plain content)
    (hwidth : content.length ≤ innerWidth - 2) : (row content).length = innerWidth + 2 := by
  rw [length_row h, max_eq_right hwidth]
  rfl

/-! ## Contents with and without colours -/

theorem styled_badge (colours : Bool) (s : Style) {mark text : List Char} (hmark : Plain mark)
    (htext : Plain text) :
    Styled (paint colours s mark ++ ' ' :: paint colours s text) (mark ++ ' ' :: text) :=
  (hmark.styled_paint colours s).append
    (.char (by decide) (by decide) (htext.styled_paint colours s))

theorem styled_headline (colours : Bool) (o : Outcome) :
    Styled (headline colours o) (headline false o) := by
  cases o <;> exact styled_badge colours _ (by decide) (by decide)

theorem styled_runLines (colours : Bool) (m : Metadata) :
    List.Forall₂ Styled (runLines colours m) (runLines false m) := by
  have hsamples : Plain ("Samples: ".toList ++ Decimal.digits m.samples ++
      " (N total ".toList ++ Decimal.digits m.units.toNat ++ [')']) := by
    simp only [plain_append]
    exact ⟨⟨⟨⟨by decide, Decimal.plain_digits _⟩, by decide⟩, Decimal.plain_digits _⟩, by decide⟩
  have helapsed : Plain ("Elapsed: ".toList ++ Decimal.fixed 1 (millis m.elapsed) ++
      " ms".toList) := by
    simp only [plain_append]
    exact ⟨⟨by decide, Decimal.plain_fixed _ _⟩, by decide⟩
  have hprobe : Styled
      (if m.probeActive then m.probeMode.text.toList else paint colours .yellow "inactive".toList)
      (if m.probeActive then m.probeMode.text.toList
        else paint false .yellow "inactive".toList) := by
    split
    · have hmode : Plain m.probeMode.text.toList := by cases m.probeMode <;> decide
      exact hmode.styled
    · exact Plain.styled_paint (by decide) colours .yellow
  have hpinned : Plain ("Pinned: ".toList ++ (if m.pinned then "yes" else "no").toList) := by
    cases m.pinned <;> decide
  have hlabel : Plain "Memory probe: ".toList := by decide
  exact .cons hsamples.styled (.cons helapsed.styled (.cons (hlabel.styled.append hprobe)
    (.cons hpinned.styled .nil)))

theorem styled_meanLines (colours : Bool) (v : Verification) :
    List.Forall₂ Styled (meanLines colours v) (meanLines false v) := by
  have hbytes {label : List Char} (hlabel : Plain label) (n : Nat) :
      Plain (label ++ Decimal.digits n ++ " B".toList) := by
    simp only [plain_append]
    exact ⟨⟨hlabel, Decimal.plain_digits n⟩, by decide⟩
  have hsteps : Plain ("  Declared steps:  ".toList ++ Decimal.digits v.meanSteps.toNat) :=
    plain_append.mpr ⟨by decide, Decimal.plain_digits _⟩
  have hgrowth : Styled
      (if v.growth then paint colours .red "dangerous".toList
        else paint colours .green "ok".toList)
      (if v.growth then paint false .red "dangerous".toList
        else paint false .green "ok".toList) := by
    split <;> exact Plain.styled_paint (by decide) colours _
  have hlabel : Plain "CPU growth: ".toList := by decide
  exact .cons (Plain.styled_paint (by decide) colours .bold)
    (.cons (hbytes (by decide) _).styled (.cons (hbytes (by decide) _).styled
      (.cons hsteps.styled (.cons (hlabel.styled.append hgrowth) .nil))))

/-- Wrapping leaves no blank in a failure but spaces, so no newline. -/
theorem plain_of_mem_wrap {width : Nat} {cs chunk : List Char} (hesc : esc ∉ cs)
    (hchunk : chunk ∈ Text.wrap width cs) : Plain chunk := by
  intro c hc
  rcases Text.mem_wrap hchunk c hc with rfl | ⟨hblank, hc⟩
  · decide
  · refine ⟨ne_of_mem_of_not_mem hc hesc, ?_⟩
    rintro rfl
    cases hblank

theorem styled_failureLines (colours : Bool) {errors : List String}
    (hesc : ∀ e ∈ errors, esc ∉ e.toList) :
    List.Forall₂ Styled (failureLines colours errors) (failureLines false errors) := by
  refine .cons (Plain.styled_paint (by decide) colours .bold) ?_
  have hsame : List.Forall₂ (fun e e' : String => e = e' ∧ esc ∉ e.toList) errors errors :=
    List.forall₂_same.mpr fun e he => ⟨rfl, hesc e he⟩
  refine List.rel_flatMap hsame ?_
  rintro e _ ⟨rfl, hesc⟩
  rw [List.forall₂_map_left_iff, List.forall₂_map_right_iff, List.forall₂_same]
  intro chunk hchunk
  have hplain := plain_of_mem_wrap hesc hchunk
  exact .char (by decide) (by decide) (.char (by decide) (by decide)
    (hplain.styled_paint colours .red))

/-! ## Lines with and without colours -/

theorem styled_rows {contents shown : List (List Char)} (h : List.Forall₂ Styled contents shown) :
    List.Forall₂ Styled (contents.map row) (shown.map row) := by
  rw [List.forall₂_map_left_iff, List.forall₂_map_right_iff]
  exact h.imp fun _ _ => styled_row

/-- Line by line, a report with colours shows the report without. -/
theorem styled_lines (colours : Bool) {r : Report} (hesc : ∀ e ∈ r.errors, esc ∉ e.toList) :
    List.Forall₂ Styled (r.lines colours) (r.lines false) := by
  have hrule {left right : Char} (hleft : left ≠ esc ∧ left ≠ '\n')
      (hright : right ≠ esc ∧ right ≠ '\n') : Styled (rule left right) (rule left right) :=
    (plain_rule hleft hright).styled
  have htop : Styled topRule topRule := hrule (by decide) (by decide)
  have hmid : Styled midRule midRule := hrule (by decide) (by decide)
  have hbottom : Styled bottomRule bottomRule := hrule (by decide) (by decide)
  have hmeans : List.Forall₂ Styled
      (if r.outcome = .aborted then [] else midRule :: (meanLines colours r.result).map row)
      (if r.outcome = .aborted then [] else midRule :: (meanLines false r.result).map row) := by
    split
    · exact .nil
    · exact .cons hmid (styled_rows (styled_meanLines colours r.result))
  have hfailures : List.Forall₂ Styled
      (if r.errors.isEmpty then [] else midRule :: (failureLines colours r.errors).map row)
      (if r.errors.isEmpty then [] else midRule :: (failureLines false r.errors).map row) := by
    split
    · exact .nil
    · exact .cons hmid (styled_rows (styled_failureLines colours hesc))
  have hhead := styled_row (styled_headline colours r.outcome)
  have hrun := styled_rows (styled_runLines colours r.metadata)
  exact List.rel_append (List.rel_append (List.rel_append (List.rel_append
    (.cons htop (.cons hhead (.cons hmid .nil))) hrun) hmeans) hfailures) (.cons hbottom .nil)

/-! ## Widths -/

/-- Each rounding doubles a span at most, so it keeps few digits. -/
theorem millis_add_one_le (d : Duration) : millis d + 1 ≤ 10 ^ 24 := by
  have hsecs : (d.secs : Rat) ≤ 2 ^ 64 := mod_cast d.secs_lt.le
  have hnanos : (d.subsecNanos : Rat) / nanosPerSecond ≤ 1 :=
    div_le_one_of_le₀ (mod_cast d.subsecNanos_lt.le) (Nat.cast_nonneg _)
  have hwhole := Binary64.nearest_le (Nat.cast_nonneg d.secs)
  have hfraction := Binary64.nearest_le
    (div_nonneg (Nat.cast_nonneg d.subsecNanos) (Nat.cast_nonneg nanosPerSecond))
  have hsum := Binary64.nearest_le (add_nonneg (Binary64.nearest_nonneg d.secs)
    (Binary64.nearest_nonneg (d.subsecNanos / nanosPerSecond)))
  have hmillis := Binary64.nearest_le (mul_nonneg (Binary64.nearest_nonneg
    (Binary64.nearest d.secs + Binary64.nearest (d.subsecNanos / nanosPerSecond)))
    (show (0 : Rat) ≤ 1000 by norm_num))
  rw [millis]
  linarith

theorem length_headline_le (o : Outcome) : (headline false o).length ≤ innerWidth - 2 := by
  cases o <;> decide

theorem length_le_of_mem_runLines {m : Metadata}
    (hdigits : (Decimal.digits m.samples).length + (Decimal.digits m.units.toNat).length ≤ 38) :
    ∀ content ∈ runLines false m, content.length ≤ innerWidth - 2 := by
  have hinner : innerWidth = 60 := rfl
  have hsamples : "Samples: ".toList.length = 9 := rfl
  have htotal : " (N total ".toList.length = 10 := rfl
  have helapsed : "Elapsed: ".toList.length = 9 := rfl
  have hmillis : " ms".toList.length = 3 := rfl
  have hspan : (Decimal.fixed 1 (millis m.elapsed)).length ≤ 24 + 1 + 1 :=
    Decimal.length_fixed_le (by decide) (Binary64.nearest_nonneg _) (millis_add_one_le m.elapsed)
  refine List.forall_mem_cons.mpr ⟨?_, List.forall_mem_cons.mpr ⟨?_, List.forall_mem_cons.mpr
    ⟨?_, List.forall_mem_singleton.mpr ?_⟩⟩⟩
  · simp only [List.length_append, List.length_singleton]
    omega
  · simp only [List.length_append]
    omega
  · cases m.probeMode <;> cases m.probeActive <;> decide
  · cases m.pinned <;> decide

theorem length_le_of_mem_meanLines (v : Verification) :
    ∀ content ∈ meanLines false v, content.length ≤ innerWidth - 2 := by
  have hinner : innerWidth = 60 := rfl
  have hlabel : ∀ label ∈ ["  Measured allocs: ", "  Declared allocs: ", "  Declared steps:  "],
      label.toList.length = 19 := by decide
  have hbytes : " B".toList.length = 2 := rfl
  have hmeasured := Decimal.length_digits_word_le v.meanMeasured
  have hdeclared := Decimal.length_digits_word_le v.meanDeclared
  have hsteps := Decimal.length_digits_word_le v.meanSteps
  simp only [List.forall_mem_cons] at hlabel
  refine List.forall_mem_cons.mpr ⟨by decide, List.forall_mem_cons.mpr ⟨?_,
    List.forall_mem_cons.mpr ⟨?_, List.forall_mem_cons.mpr ⟨?_,
      List.forall_mem_singleton.mpr ?_⟩⟩⟩⟩
  · simp only [List.length_append]
    omega
  · simp only [List.length_append]
    omega
  · simp only [List.length_append]
    omega
  · cases v.growth <;> decide

theorem length_le_of_mem_failureLines {errors : List String}
    (hwords : ∀ e ∈ errors, ∀ w ∈ Text.words e.toList, w.length ≤ 56) :
    ∀ content ∈ failureLines false errors, content.length ≤ innerWidth - 2 := by
  intro content hcontent
  rcases List.mem_cons.mp hcontent with rfl | hcontent
  · decide
  · obtain ⟨e, he, hcontent⟩ := List.mem_flatMap.mp hcontent
    obtain ⟨chunk, hchunk, rfl⟩ := List.mem_map.mp hcontent
    exact Nat.add_le_add_right (Text.length_le_of_mem_wrap (by decide) (hwords e he) hchunk) 2

/-! ## The box -/

theorem length_of_mem_rows {contents : List (List Char)}
    (hplain : List.Forall₂ Styled contents contents)
    (hwidth : ∀ content ∈ contents, content.length ≤ innerWidth - 2) :
    ∀ line ∈ contents.map row, line.length = innerWidth + 2 := by
  intro line hline
  obtain ⟨content, hcontent, rfl⟩ := List.mem_map.mp hline
  have hstyled := List.forall₂_same.mp hplain content hcontent
  exact length_row_of_le hstyled.plain (hwidth content hcontent)

theorem length_of_mem_lines {r : Report} (hesc : ∀ e ∈ r.errors, esc ∉ e.toList)
    (hwords : ∀ e ∈ r.errors, ∀ w ∈ Text.words e.toList, w.length ≤ 56)
    (hdigits : (Decimal.digits r.metadata.samples).length +
      (Decimal.digits r.metadata.units.toNat).length ≤ 38) :
    ∀ line ∈ r.lines false, line.length = innerWidth + 2 := by
  have hhead : (row (headline false r.outcome)).length = innerWidth + 2 :=
    length_row_of_le (styled_headline false r.outcome).plain (length_headline_le r.outcome)
  have hrun := length_of_mem_rows (styled_runLines false r.metadata)
    (length_le_of_mem_runLines hdigits)
  have hmeans := length_of_mem_rows (styled_meanLines false r.result)
    (length_le_of_mem_meanLines r.result)
  have hfailures := length_of_mem_rows (styled_failureLines false hesc)
    (length_le_of_mem_failureLines hwords)
  intro line hline
  simp only [lines, List.mem_append, List.mem_cons, List.not_mem_nil, or_false] at hline
  rcases hline with ((((rfl | rfl | rfl) | hline) | hline) | hline) | rfl
  · exact length_rule _ _
  · exact hhead
  · exact length_rule _ _
  · exact hrun line hline
  · split at hline
    · cases hline
    · rcases List.mem_cons.mp hline with rfl | hline
      · exact length_rule _ _
      · exact hmeans line hline
  · split at hline
    · cases hline
    · rcases List.mem_cons.mp hline with rfl | hline
      · exact length_rule _ _
      · exact hfailures line hline
  · exact length_rule _ _

theorem toList_render (colours : Bool) (r : Report) :
    (r.render colours).toList = joinLines (r.lines colours) := String.toList_ofList

/-- **The box is rectangular.** Whatever the outcome, the failures and their
blanks, and with colours or without, every line of a report is as wide as
the box, if the words of the failures and the counts fit into it. -/
theorem render_rectangular (colours : Bool) {r : Report}
    (hesc : ∀ e ∈ r.errors, esc ∉ e.toList)
    (hwords : ∀ e ∈ r.errors, ∀ w ∈ Text.words e.toList, w.length ≤ 56)
    (hdigits : (Decimal.digits r.metadata.samples).length +
      (Decimal.digits r.metadata.units.toNat).length ≤ 38) :
    (r.render colours).toList.splitOn '\n' = r.lines colours ++ [[]] ∧
    (visible (r.render colours).toList).splitOn '\n' = (r.lines colours).map visible ++ [[]] ∧
    ∀ line ∈ r.lines colours, (visible line).length = 62 := by
  have hstyled := styled_lines colours hesc
  have hshown := Text.map_visible hstyled
  rw [toList_render, Text.visible_joinLines hstyled, hshown]
  refine ⟨Text.splitOn_joinLines (Text.newline_not_mem_of_styled hstyled),
    Text.splitOn_joinLines (Text.newline_not_mem_of_styled (styled_lines false hesc)), ?_⟩
  intro line hline
  refine length_of_mem_lines hesc hwords hdigits (visible line) ?_
  rw [← hshown]
  exact List.mem_map_of_mem hline

/-- A failed run whose counts have thirty-eight digits, with an empty failure
and one of three lines that ends in as long a word as the box takes. -/
def brimful : Report where
  outcome := .fail
  result := { meanMeasured := 18446744073709551615, growth := true }
  metadata :=
    { Metadata.empty .approximate with
      samples := 123456789012345678
      units := 18446744073709551615 }
  errors := [String.ofList ("one \t two\n\n".toList ++ List.replicate 56 'w'), ""]
  logs := []

theorem render_rectangular_of_brimful :
    (∀ e ∈ brimful.errors, esc ∉ e.toList) ∧
    (∀ e ∈ brimful.errors, ∀ w ∈ Text.words e.toList, w.length ≤ 56) ∧
    (Decimal.digits brimful.metadata.samples).length +
      (Decimal.digits brimful.metadata.units.toNat).length ≤ 38 ∧
    ∀ line ∈ brimful.lines true, (visible line).length = 62 := by
  have hesc : ∀ e ∈ brimful.errors, esc ∉ e.toList := by decide +kernel
  have hwords : ∀ e ∈ brimful.errors, ∀ w ∈ Text.words e.toList, w.length ≤ 56 := by
    decide +kernel
  have hdigits : (Decimal.digits brimful.metadata.samples).length +
      (Decimal.digits brimful.metadata.units.toNat).length ≤ 38 := by decide +kernel
  exact ⟨hesc, hwords, hdigits, (render_rectangular true hesc hwords hdigits).2.2⟩

/-- **Colours are decoration.** A terminal shows of a report with colours the
text of the report without, and of this all of it. -/
theorem visible_render {r : Report} (hesc : ∀ e ∈ r.errors, esc ∉ e.toList) :
    visible (r.render true).toList = (r.render false).toList ∧
    visible (r.render false).toList = (r.render false).toList := by
  simp only [toList_render]
  exact ⟨Text.visible_joinLines (styled_lines true hesc),
    Text.visible_joinLines (styled_lines false hesc)⟩

theorem visible_render_brimful :
    (∀ e ∈ brimful.errors, esc ∉ e.toList) ∧
    visible (brimful.render true).toList = (brimful.render false).toList := by
  have hesc : ∀ e ∈ brimful.errors, esc ∉ e.toList := by decide +kernel
  exact ⟨hesc, (visible_render hesc).1⟩

end Report

end CostAudit
