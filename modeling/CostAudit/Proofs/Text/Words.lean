import Mathlib.Data.List.TakeWhile
import CostAudit.Text.Words

/-!
# Words and chunks

The words of a text are the pieces between its blanks that are not empty
(`words_eq_splitOnP`), so they have no blanks in them and no characters that
the text does not have (`mem_words`). Wrapping sets them one space apart and
drops none (`flatten_fill`), and words set one space apart are the words of
what comes out (`words_unwords`). A chunk is wider than the width only when it
is a single word (`fits_of_mem_fill`). So the lines of a wrapped text have
characters of the text and spaces, and no other blanks (`mem_wrap`), and
they are no wider than the longest word and the width
(`length_le_of_mem_wrap`).
-/

namespace CostAudit.Text

/-! ## Words -/

theorem words_nil : words [] = [] := by
  rw [words.eq_def]

theorem words_cons_of_blank {c : Char} (hc : isBlank c = true) (cs : List Char) :
    words (c :: cs) = words cs := by
  rw [words.eq_def]
  exact if_pos hc

theorem words_cons_of_letter {c : Char} (hc : isBlank c = false) (cs : List Char) :
    words (c :: cs) =
      (c :: cs.takeWhile (!isBlank ·)) :: words (cs.dropWhile (!isBlank ·)) := by
  rw [words.eq_def]
  exact if_neg (ne_true_of_eq_false hc)

theorem mem_words {cs : List Char} {w : Word} (hw : w ∈ words cs) :
    ∀ c ∈ w, isBlank c = false ∧ c ∈ cs := by
  induction cs using words.induct with
  | case1 =>
      rw [words_nil] at hw
      cases hw
  | case2 c cs hblank ih =>
      rw [words_cons_of_blank hblank] at hw
      intro d hd
      obtain ⟨hd, hmem⟩ := ih hw d hd
      exact ⟨hd, List.mem_cons_of_mem _ hmem⟩
  | case3 c cs hblank ih =>
      have hletter := eq_false_of_ne_true hblank
      rw [words_cons_of_letter hletter] at hw
      rcases List.mem_cons.mp hw with rfl | hw
      · intro d hd
        rcases List.mem_cons.mp hd with rfl | hd
        · exact ⟨hletter, List.mem_cons_self ..⟩
        · have htaken := List.all_eq_true.mp List.all_takeWhile d hd
          exact ⟨by simpa using htaken, List.mem_cons_of_mem _ (List.takeWhile_subset _ hd)⟩
      · intro d hd
        obtain ⟨hd, hmem⟩ := ih hw d hd
        exact ⟨hd, List.mem_cons_of_mem _ (List.dropWhile_subset _ hmem)⟩

/-- The words of a text are the pieces between its blanks that are not
empty. -/
theorem words_eq_splitOnP (cs : List Char) :
    words cs = (cs.splitOnP isBlank).filter (· ≠ []) := by
  induction cs using words.induct with
  | case1 => simp [words_nil]
  | case2 c cs hblank ih =>
      rw [words_cons_of_blank hblank, ih, List.splitOnP_cons_eq_if_modifyHead, if_pos hblank]
      rfl
  | case3 c cs hblank ih =>
      have hletter := eq_false_of_ne_true hblank
      have hword : ∀ d ∈ c :: cs.takeWhile (!isBlank ·), isBlank d = false := by
        rintro d (_ | ⟨_, hd⟩)
        · exact hletter
        · simpa using List.mem_takeWhile_imp hd
      have hcs : c :: cs = (c :: cs.takeWhile (!isBlank ·)) ++ cs.dropWhile (!isBlank ·) := by
        rw [List.cons_append, List.takeWhile_append_dropWhile]
      have hnext := List.head?_dropWhile_not (!isBlank ·) cs
      rw [words_cons_of_letter hletter, ih]
      conv => rhs; rw [hcs]
      -- The word ends with the text, or at a blank that opens the next piece.
      rcases hdrop : cs.dropWhile (!isBlank ·) with _ | ⟨b, rest⟩
      · rw [List.append_nil, List.splitOnP_eq_singleton hword]
        simp
      · have hb : isBlank b = true := by simpa [hdrop] using hnext
        rw [List.splitOnP_append_cons _ _ hb, List.splitOnP_eq_singleton hword,
          List.splitOnP_cons_eq_if_modifyHead, if_pos hb]
        simp

theorem words_append_cons {c : Char} (hc : isBlank c = true) (xs ys : List Char) :
    words (xs ++ c :: ys) = words xs ++ words ys := by
  simp only [words_eq_splitOnP, List.splitOnP_append_cons xs ys hc, List.filter_append]

theorem words_of_letters {w : Word} (hne : w ≠ []) (hletters : ∀ c ∈ w, isBlank c = false) :
    words w = [w] := by
  rw [words_eq_splitOnP, List.splitOnP_eq_singleton hletters]
  simp [hne]

theorem ne_nil_of_mem_words {cs : List Char} {w : Word} (hw : w ∈ words cs) : w ≠ [] := by
  rw [words_eq_splitOnP, List.mem_filter] at hw
  simpa using hw.2

/-! ## Words set one space apart -/

theorem unwords_cons {w : Word} {ws : List Word} (hws : ws ≠ []) :
    unwords (w :: ws) = w ++ ' ' :: unwords ws := by
  cases ws with
  | nil => exact absurd rfl hws
  | cons => rfl

theorem unwords_append {a b : List Word} (ha : a ≠ []) (hb : b ≠ []) :
    unwords (a ++ b) = unwords a ++ ' ' :: unwords b := by
  induction a with
  | nil => exact absurd rfl ha
  | cons w ws ih =>
      rcases List.eq_nil_or_concat ws with rfl | ⟨_, _, rfl⟩
      · exact unwords_cons hb
      · rw [List.cons_append, unwords_cons (by simp), ih (by simp), unwords_cons (by simp),
          List.append_assoc, List.cons_append]

theorem unwords_eq_intercalate (ws : List Word) : unwords ws = [' '].intercalate ws := by
  induction ws with
  | nil => rfl
  | cons w ws ih =>
      cases ws with
      | nil => simp [unwords]
      | cons v ws =>
          rw [unwords_cons (List.cons_ne_nil _ _), ih, List.intercalate_cons_cons]
          simp

/-- A line of words has these words. -/
theorem words_unwords {ws : List Word}
    (hws : ∀ w ∈ ws, w ≠ [] ∧ ∀ c ∈ w, isBlank c = false) : words (unwords ws) = ws := by
  induction ws with
  | nil => exact words_nil
  | cons w ws ih =>
      rw [List.forall_mem_cons] at hws
      obtain ⟨⟨hne, hletters⟩, hrest⟩ := hws
      cases ws with
      | nil => exact words_of_letters hne hletters
      | cons v ws =>
          have hspace : isBlank ' ' = true := rfl
          rw [unwords_cons (List.cons_ne_nil _ _), words_append_cons hspace,
            words_of_letters hne hletters, ih hrest, List.singleton_append]

theorem mem_unwords {ws : List Word} {c : Char} (hc : c ∈ unwords ws) :
    c = ' ' ∨ ∃ w ∈ ws, c ∈ w := by
  induction ws with
  | nil => cases hc
  | cons w ws ih =>
      cases ws with
      | nil => exact .inr ⟨w, List.mem_cons_self .., hc⟩
      | cons v ws =>
          rw [unwords_cons (List.cons_ne_nil _ _), List.mem_append, List.mem_cons] at hc
          rcases hc with hc | hc | hc
          · exact .inr ⟨w, List.mem_cons_self .., hc⟩
          · exact .inl hc
          · rcases ih hc with hc | ⟨u, hu, hc⟩
            · exact .inl hc
            · exact .inr ⟨u, List.mem_cons_of_mem _ hu, hc⟩

/-! ## Filling -/

theorem flatten_fillFrom (width : Nat) (chunk ws : List Word) :
    (fillFrom width chunk ws).flatten = chunk ++ ws := by
  induction ws generalizing chunk with
  | nil => simp [fillFrom]
  | cons w ws ih =>
      rw [fillFrom]
      split
      · rw [List.flatten_cons, ih, List.singleton_append]
      · rw [ih, List.append_assoc, List.singleton_append]

/-- Filling divides the words and drops none. -/
theorem flatten_fill (width : Nat) (ws : List Word) : (fill width ws).flatten = ws := by
  cases ws with
  | nil => rfl
  | cons w ws => exact flatten_fillFrom width [w] ws

/-- A chunk within the width, unless it is one long word. -/
def Fits (width : Nat) (chunk : List Word) : Prop :=
  chunkWidth chunk ≤ width ∨ ∃ w, chunk = [w]

section Chunks

variable {width : Nat} {chunk ws : List Word} {P : List Word → Prop}

/-- What holds of single words and is kept when a chunk takes a word that it
has room for holds of all chunks. -/
theorem forall_mem_fillFrom (hsingle : ∀ w, P [w])
    (htake : ∀ chunk w, P chunk → chunkWidth chunk + 1 + w.length ≤ width → P (chunk ++ [w]))
    (hchunk : P chunk) : ∀ c ∈ fillFrom width chunk ws, P c := by
  induction ws generalizing chunk with
  | nil =>
      intro c hc
      rwa [List.mem_singleton.mp hc]
  | cons w ws ih =>
      intro c hc
      rw [fillFrom] at hc
      split at hc
      · rcases List.mem_cons.mp hc with rfl | hc
        · exact hchunk
        · exact ih (hsingle w) c hc
      · rename_i hroom
        exact ih (htake chunk w hchunk (Nat.le_of_not_lt hroom)) c hc

theorem forall_mem_fill (hsingle : ∀ w, P [w])
    (htake : ∀ chunk w, P chunk → chunkWidth chunk + 1 + w.length ≤ width → P (chunk ++ [w])) :
    ∀ c ∈ fill width ws, P c := by
  cases ws with
  | nil =>
      intro c hc
      cases hc
  | cons w ws => exact forall_mem_fillFrom hsingle htake (hsingle w)

theorem fits_of_mem_fill (hchunk : chunk ∈ fill width ws) : Fits width chunk := by
  refine forall_mem_fill (fun w => .inr ⟨w, rfl⟩) ?_ chunk hchunk
  intro chunk w _ hroom
  rcases List.eq_nil_or_concat chunk with rfl | ⟨_, _, rfl⟩
  · exact .inr ⟨w, rfl⟩
  · left
    have hw : unwords [w] = w := rfl
    rw [chunkWidth] at hroom ⊢
    rw [unwords_append (by simp) (List.cons_ne_nil w []), List.length_append, List.length_cons, hw]
    omega

theorem ne_nil_of_mem_fill (hchunk : chunk ∈ fill width ws) : chunk ≠ [] :=
  forall_mem_fill (P := (· ≠ [])) (fun w => List.cons_ne_nil w [])
    (fun _ w _ _ => List.append_ne_nil_of_right_ne_nil _ (List.cons_ne_nil w [])) chunk hchunk

end Chunks

/-! ## Lines of a wrapped text -/

section Wrap

variable {width : Nat} {cs line : List Char}

theorem exists_chunk_of_mem_wrap (hline : line ∈ wrap width cs) :
    ∃ chunk, Fits width chunk ∧ (∀ w ∈ chunk, w ∈ words cs) ∧ line = unwords chunk := by
  obtain ⟨chunk, hchunk, rfl⟩ := List.mem_map.mp hline
  refine ⟨chunk, fits_of_mem_fill hchunk, fun w hw => ?_, rfl⟩
  rw [← flatten_fill width (words cs)]
  exact List.mem_flatten.mpr ⟨chunk, hchunk, hw⟩

theorem mem_wrap (hline : line ∈ wrap width cs) :
    ∀ c ∈ line, c = ' ' ∨ (isBlank c = false ∧ c ∈ cs) := by
  obtain ⟨chunk, -, hwords, rfl⟩ := exists_chunk_of_mem_wrap hline
  intro c hc
  rcases mem_unwords hc with hc | ⟨w, hw, hc⟩
  · exact .inl hc
  · exact .inr (mem_words (hwords w hw) c hc)

theorem length_le_of_mem_wrap {limit : Nat} (hwidth : width ≤ limit)
    (hwords : ∀ w ∈ words cs, w.length ≤ limit) (hline : line ∈ wrap width cs) :
    line.length ≤ limit := by
  obtain ⟨chunk, hfits, hchunk, rfl⟩ := exists_chunk_of_mem_wrap hline
  rcases hfits with hfits | ⟨w, rfl⟩
  · exact Nat.le_trans hfits hwidth
  · exact hwords w (hchunk w (List.mem_singleton_self w))

end Wrap

end CostAudit.Text
