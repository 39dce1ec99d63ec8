import Mathlib.Data.List.Chain
import CostAudit.Proofs.Text.Words

/-!
# Wrapping is greedy

A chunk takes words as long as they fit: words that fit together go into one
chunk (`fillFrom_append`), and the first word of the next chunk would not have
fit (`isChain_fill`). A division of the words in which this is so is the
filled one (`eq_fill`).

No division has fewer chunks. Wherever one of its chunks ends, filling has
come at least as far with as many chunks, so it has a suffix left of what the
division has left (`length_fill_le`).

Lines are chunks written out, and a line gives its chunk back, so the same
holds of the lines of a wrapped text.
-/

namespace CostAudit.Text

/-! ## Chunks -/

section Chunks

variable {width : Nat} {a b chunk ws : List Word}

/-- Chunks of two words or more are within the width. -/
theorem Fits.append_le (h : Fits width (a ++ b)) (ha : a ≠ []) (hb : b ≠ []) :
    chunkWidth a + 1 + chunkWidth b ≤ width := by
  rcases h with h | ⟨w, h⟩
  · rw [chunkWidth, unwords_append ha hb, List.length_append, List.length_cons] at h
    simp only [chunkWidth]
    omega
  · rcases List.append_eq_singleton_iff.mp h with ⟨ha', -⟩ | ⟨-, hb'⟩
    · exact absurd ha' ha
    · exact absurd hb' hb

theorem Fits.left (h : Fits width (a ++ b)) : Fits width a := by
  rcases List.eq_nil_or_concat b with rfl | ⟨_, _, rfl⟩
  · rwa [List.append_nil] at h
  rcases List.eq_nil_or_concat a with rfl | ⟨_, _, rfl⟩
  · exact .inl (Nat.zero_le _)
  · left
    have hle := h.append_le (by simp) (by simp)
    omega

theorem Fits.right (h : Fits width (a ++ b)) : Fits width b := by
  rcases List.eq_nil_or_concat a with rfl | ⟨_, _, rfl⟩
  · exact h
  rcases List.eq_nil_or_concat b with rfl | ⟨_, _, rfl⟩
  · exact .inl (Nat.zero_le _)
  · left
    have hle := h.append_le (by simp) (by simp)
    omega

/-- Words that fit behind a chunk are taken into it. -/
theorem fillFrom_append (hchunk : chunk ≠ []) (h : Fits width (chunk ++ ws)) (rest : List Word) :
    fillFrom width chunk (ws ++ rest) = fillFrom width (chunk ++ ws) rest := by
  induction ws generalizing chunk with
  | nil => rw [List.nil_append, List.append_nil]
  | cons w ws ih =>
      rw [List.append_cons] at h
      have hle := h.left.append_le hchunk (List.cons_ne_nil w [])
      have hroom : ¬width < chunkWidth chunk + 1 + w.length := Nat.not_lt_of_le hle
      rw [List.cons_append, fillFrom, if_neg hroom, ih (by simp) h, ← List.append_cons]

theorem fill_append (ha : a ≠ []) (h : Fits width a) (rest : List Word) :
    fill width (a ++ rest) = fillFrom width a rest := by
  cases a with
  | nil => exact absurd rfl ha
  | cons w ws => exact fillFrom_append (List.cons_ne_nil w []) h rest

/-- A chunk takes some of the words, and filling starts again with the others. -/
theorem exists_fillFrom_eq (width : Nat) (chunk ws : List Word) :
    ∃ taken left, ws = taken ++ left ∧
      fillFrom width chunk ws = (chunk ++ taken) :: fill width left := by
  induction ws generalizing chunk with
  | nil => exact ⟨[], [], rfl, by rw [List.append_nil]; rfl⟩
  | cons w ws ih =>
      rw [fillFrom]
      split
      · exact ⟨[], w :: ws, rfl, by rw [List.append_nil]; rfl⟩
      · obtain ⟨taken, left, rfl, hfill⟩ := ih (chunk ++ [w])
        exact ⟨w :: taken, left, rfl, by rw [hfill, List.append_cons chunk w taken]⟩

/-- Whether the first word of the next chunk does not fit into this one. -/
def Full (width : Nat) (chunk next : List Word) : Prop :=
  ∃ w ws, next = w :: ws ∧ width < chunkWidth chunk + 1 + w.length

theorem isChain_fillFrom (width : Nat) (chunk ws : List Word) :
    (fillFrom width chunk ws).IsChain (Full width) := by
  induction ws generalizing chunk with
  | nil => exact .singleton chunk
  | cons w ws ih =>
      rw [fillFrom]
      split
      · rename_i hfull
        have hrest := ih [w]
        obtain ⟨taken, left, -, hfill⟩ := exists_fillFrom_eq width [w] ws
        rw [hfill] at hrest ⊢
        exact List.isChain_cons_cons.mpr ⟨⟨w, taken, rfl, hfull⟩, hrest⟩
      · exact ih _

theorem isChain_fill (width : Nat) (ws : List Word) : (fill width ws).IsChain (Full width) := by
  cases ws with
  | nil => exact .nil
  | cons w ws => exact isChain_fillFrom width [w] ws

/-- A division in which every chunk is full is the filled one. -/
theorem eq_fill {chunks : List (List Word)} (hne : ∀ chunk ∈ chunks, chunk ≠ [])
    (hfits : ∀ chunk ∈ chunks, Fits width chunk) (hfull : chunks.IsChain (Full width)) :
    chunks = fill width chunks.flatten := by
  induction chunks with
  | nil => rfl
  | cons chunk rest ih =>
      rw [List.forall_mem_cons] at hne hfits
      rw [List.flatten_cons, fill_append hne.1 hfits.1]
      cases rest with
      | nil => rfl
      | cons next rest =>
          obtain ⟨⟨w, ws, rfl, hlong⟩, hchain⟩ := List.isChain_cons_cons.mp hfull
          have hrest := ih hne.2 hfits.2 hchain
          rw [List.flatten_cons, List.cons_append, fillFrom, if_pos hlong]
          exact congrArg (chunk :: ·) hrest

/-- Filling what a division still has to hold, or less, takes no more chunks
than the division has. -/
theorem length_fill_le {chunks : List (List Word)} (hfits : ∀ chunk ∈ chunks, Fits width chunk)
    (hws : ws <:+ chunks.flatten) : (fill width ws).length ≤ chunks.length := by
  induction chunks generalizing ws with
  | nil =>
      rw [List.eq_nil_of_suffix_nil hws]
      exact Nat.le_refl 0
  | cons chunk rest ih =>
      rw [List.forall_mem_cons] at hfits
      obtain ⟨front, hfront⟩ := hws
      rw [List.flatten_cons] at hfront
      rcases List.append_eq_append_iff.mp hfront with ⟨a, rfl, rfl⟩ | ⟨b, rfl, hrest⟩
      · rcases List.eq_nil_or_concat a with rfl | ⟨_, _, rfl⟩
        · exact Nat.le_succ_of_le (ih hfits.2 (List.suffix_refl _))
        · -- The rest of the chunk fits, so filling takes it and perhaps more.
          rw [fill_append (by simp) hfits.1.right]
          obtain ⟨taken, left, hleft, hfill⟩ := exists_fillFrom_eq width _ rest.flatten
          rw [hfill, List.length_cons, List.length_cons]
          exact Nat.succ_le_succ (ih hfits.2 ⟨taken, hleft.symm⟩)
      · exact Nat.le_succ_of_le (ih hfits.2 ⟨b, hrest.symm⟩)

end Chunks

/-! ## Lines -/

/-- Lines with the words of a text, of which each takes as many words as fit. -/
structure Wraps (width : Nat) (cs : List Char) (lines : List (List Char)) : Prop where
  words_eq : lines.flatMap words = words cs
  ne_nil : ∀ line ∈ lines, line ≠ []
  /-- One space stands between two words, and none at either end. -/
  spaced : ∀ line ∈ lines, line = [' '].intercalate (words line)
  narrow : ∀ line ∈ lines, width < line.length → ∃ w, words line = [w]
  /-- The first word of a line would not have fit into the line before it. -/
  full : lines.IsChain fun line next =>
    ∃ w ws, words next = w :: ws ∧ width < line.length + 1 + w.length

section Lines

variable {width : Nat} {cs : List Char} {lines : List (List Char)}

theorem words_unwords_of_mem_fill {chunk : List Word} (hchunk : chunk ∈ fill width (words cs)) :
    words (unwords chunk) = chunk := by
  refine words_unwords fun w hw => ?_
  have hmem : w ∈ words cs := by
    rw [← flatten_fill width (words cs)]
    exact List.mem_flatten.mpr ⟨chunk, hchunk, hw⟩
  exact ⟨ne_nil_of_mem_words hmem, fun c hc => (mem_words hmem c hc).1⟩

theorem wraps_wrap (width : Nat) (cs : List Char) : Wraps width cs (wrap width cs) := by
  refine ⟨?_, ?_, ?_, ?_, ?_⟩
  · have hsame : (fill width (words cs)).map (words ∘ unwords) = fill width (words cs) :=
      (List.map_congr_left fun _ => words_unwords_of_mem_fill).trans (List.map_id _)
    rw [wrap, List.flatMap_map]
    exact (congrArg List.flatten hsame).trans (flatten_fill width (words cs))
  · intro line hline hempty
    obtain ⟨chunk, hchunk, rfl⟩ := List.mem_map.mp hline
    have hwords := words_unwords_of_mem_fill hchunk
    rw [hempty, words_nil] at hwords
    exact ne_nil_of_mem_fill hchunk hwords.symm
  · intro line hline
    obtain ⟨chunk, hchunk, rfl⟩ := List.mem_map.mp hline
    rw [words_unwords_of_mem_fill hchunk, unwords_eq_intercalate]
  · intro line hline hwide
    obtain ⟨chunk, hchunk, rfl⟩ := List.mem_map.mp hline
    rw [words_unwords_of_mem_fill hchunk]
    exact (fits_of_mem_fill hchunk).resolve_left (Nat.not_le_of_lt hwide)
  · refine (List.isChain_map unwords).mpr ((isChain_fill width (words cs)).imp_of_mem_imp ?_)
    rintro chunk next - hnext ⟨w, ws, rfl, hlong⟩
    exact ⟨w, ws, words_unwords_of_mem_fill hnext, hlong⟩

theorem Wraps.eq_wrap (h : Wraps width cs lines) : lines = wrap width cs := by
  have hlines : (lines.map words).map unwords = lines := by
    rw [List.map_map]
    refine (List.map_congr_left fun line hline => ?_).trans (List.map_id lines)
    rw [Function.comp_apply, unwords_eq_intercalate, ← h.spaced line hline, id_eq]
  have hwidth : ∀ line ∈ lines, chunkWidth (words line) = line.length := by
    intro line hline
    rw [chunkWidth, unwords_eq_intercalate, ← h.spaced line hline]
  have hfill : lines.map words = fill width (lines.map words).flatten := by
    refine eq_fill ?_ ?_ ((List.isChain_map words).mpr ?_)
    · intro chunk hchunk hempty
      obtain ⟨line, hline, rfl⟩ := List.mem_map.mp hchunk
      refine h.ne_nil line hline ?_
      rw [h.spaced line hline, hempty]
      rfl
    · intro chunk hchunk
      obtain ⟨line, hline, rfl⟩ := List.mem_map.mp hchunk
      rw [Fits, hwidth line hline]
      exact (Nat.lt_or_ge width line.length).symm.imp_right (h.narrow line hline)
    · refine h.full.imp_of_mem_imp ?_
      rintro line next hline - ⟨w, ws, hnext, hlong⟩
      exact ⟨w, ws, hnext, by rwa [hwidth line hline]⟩
  have hflatten : (lines.map words).flatten = words cs := h.words_eq
  rw [wrap, ← hflatten, ← hfill, hlines]

theorem length_wrap_le {chunks : List (List Word)} (hwords : chunks.flatten = words cs)
    (hnarrow : ∀ chunk ∈ chunks, width < ([' '].intercalate chunk).length → ∃ w, chunk = [w]) :
    (wrap width cs).length ≤ chunks.length := by
  have hfits : ∀ chunk ∈ chunks, Fits width chunk := by
    intro chunk hchunk
    rw [Fits, chunkWidth, unwords_eq_intercalate]
    exact (Nat.lt_or_ge width _).symm.imp_right (hnarrow chunk hchunk)
  rw [wrap, List.length_map, ← hwords]
  exact length_fill_le hfits (List.suffix_refl _)

/-- **Wrapping a text.** The words of a text are the pieces between its blanks
that are not empty. The wrapped text is the only list of lines with these
words in their order and one space between two of a line, in which a line
wider than the width is a single word and the first word of a line would not
have fit into the line before it. No division of the words in which only
single words are wider than the width has fewer chunks. -/
theorem wrap_greedy_and_shortest (width : Nat) (cs : List Char) :
    (∀ text, words text = (text.splitOnP isBlank).filter (· ≠ [])) ∧
    (∀ lines, Wraps width cs lines ↔ lines = wrap width cs) ∧
    ∀ chunks : List (List Word), chunks.flatten = words cs →
      (∀ chunk ∈ chunks, width < ([' '].intercalate chunk).length → ∃ w, chunk = [w]) →
        (wrap width cs).length ≤ chunks.length := by
  refine ⟨words_eq_splitOnP, fun lines => ⟨Wraps.eq_wrap, ?_⟩, fun chunks => length_wrap_le⟩
  rintro rfl
  exact wraps_wrap width cs

/-- Blanks of three kinds, a word too wide for its line, and a division that
leaves room in its first chunk. -/
theorem wrap_of_wide_word :
    let text := " aa bb\tcc\u3000longword d".toList
    let chunks := [["aa".toList], ["bb".toList, "cc".toList], ["longword".toList], ["d".toList]]
    Wraps 5 text ["aa bb".toList, "cc".toList, "longword".toList, "d".toList] ∧
      chunks.flatten = words text ∧
      (∀ chunk ∈ chunks, 5 < ([' '].intercalate chunk).length → ∃ w, chunk = [w]) ∧
      (wrap 5 text).length ≤ chunks.length := by
  intro text chunks
  obtain ⟨-, honly, hshortest⟩ := wrap_greedy_and_shortest 5 text
  have hwords : words text =
      ["aa".toList, "bb".toList, "cc".toList, "longword".toList, "d".toList] := by
    rw [words_eq_splitOnP]
    decide
  have hchunks : chunks.flatten = words text := hwords.symm
  have hnarrow : ∀ chunk ∈ chunks, 5 < ([' '].intercalate chunk).length → ∃ w, chunk = [w] := by
    intro chunk hchunk hwide
    simp only [chunks, List.mem_cons, List.not_mem_nil, or_false] at hchunk
    rcases hchunk with rfl | rfl | rfl | rfl
    · exact ⟨_, rfl⟩
    · exact absurd hwide (by decide)
    · exact ⟨_, rfl⟩
    · exact ⟨_, rfl⟩
  refine ⟨(honly _).mpr ?_, hchunks, hnarrow, hshortest chunks hchunks hnarrow⟩
  rw [wrap, hwords]
  decide

end Lines

end CostAudit.Text
