import Mathlib.Data.List.Forall2
import CostAudit.Text.Style

/-!
# What a styled line shows

A styled line is a row of characters that show and of escape sequences
between them; neither has a newline in it (`Styled`). A terminal shows the
characters and no more, and is outside of any sequence when the line ends,
so what follows the line is shown as if the line had not been there
(`Styled.visible_append`). Painting a plain text styles it, with colours or
without (`Plain.styled_paint`).
-/

namespace CostAudit.Text

/-- A piece of a line without escape sequences. -/
def Plain (cs : List Char) : Prop := ∀ c ∈ cs, c ≠ esc ∧ c ≠ '\n'

instance (cs : List Char) : Decidable (Plain cs) := List.decidableBAll _ cs

/-- A line with escape sequences, and what it shows. -/
inductive Styled : List Char → List Char → Prop
  | nil : Styled [] []
  | char {c : Char} {line shown : List Char} (hesc : c ≠ esc) (hline : c ≠ '\n') :
    Styled line shown → Styled (c :: line) (c :: shown)
  | sequence {code line shown : List Char} (hcode : ∀ c ∈ code, c ≠ 'm' ∧ c ≠ '\n') :
    Styled line shown → Styled (esc :: code ++ 'm' :: line) shown

/-! ## Plain lines -/

theorem plain_append {xs ys : List Char} : Plain (xs ++ ys) ↔ Plain xs ∧ Plain ys :=
  List.forall_mem_append

theorem plain_cons {c : Char} {cs : List Char} :
    Plain (c :: cs) ↔ (c ≠ esc ∧ c ≠ '\n') ∧ Plain cs :=
  List.forall_mem_cons

theorem Plain.replicate {c : Char} (hc : c ≠ esc ∧ c ≠ '\n') (n : Nat) :
    Plain (List.replicate n c) := by
  intro d hd
  rwa [List.eq_of_mem_replicate hd]

theorem Plain.styled {cs : List Char} (h : Plain cs) : Styled cs cs := by
  induction cs with
  | nil => exact .nil
  | cons c cs ih =>
      obtain ⟨⟨hesc, hline⟩, hcs⟩ := plain_cons.mp h
      exact .char hesc hline (ih hcs)

theorem Plain.afterResets {cs : List Char} (h : Plain cs) (start : List Char) :
    afterResets start cs = cs := by
  induction cs with
  | nil => rfl
  | cons c cs ih =>
      obtain ⟨⟨hesc, -⟩, hcs⟩ := plain_cons.mp h
      rw [Text.afterResets, ih hcs]
      rintro _ rfl
      exact fun _ => hesc rfl

/-! ## Styled lines -/

namespace Styled

variable {line shown : List Char}

theorem plain (h : Styled line shown) : Plain shown := by
  induction h with
  | nil => simp [Plain]
  | char hesc hline _ ih => exact plain_cons.mpr ⟨⟨hesc, hline⟩, ih⟩
  | sequence _ _ ih => exact ih

theorem append {line' shown' : List Char} (h : Styled line shown) (h' : Styled line' shown') :
    Styled (line ++ line') (shown ++ shown') := by
  induction h with
  | nil => exact h'
  | char hesc hline _ ih => exact .char hesc hline ih
  | sequence hcode _ ih =>
      rw [List.append_assoc, List.cons_append]
      exact .sequence hcode ih

theorem newline_not_mem (h : Styled line shown) : '\n' ∉ line := by
  induction h with
  | nil => exact List.not_mem_nil
  | char _ hline _ ih => exact List.not_mem_cons_of_ne_of_not_mem hline.symm ih
  | sequence hcode _ ih =>
      intro hmem
      rcases List.mem_append.mp hmem with hmem | hmem
      · rcases List.mem_cons.mp hmem with hesc | hmem
        · cases hesc
        · exact (hcode _ hmem).2 rfl
      · rcases List.mem_cons.mp hmem with hmark | hmem
        · cases hmark
        · exact ih hmem

end Styled

/-- A sequence shows nothing, and what follows it is outside. -/
theorem visibleFrom_sequence {code : List Char} (hcode : ∀ c ∈ code, c ≠ 'm') (rest : List Char) :
    visibleFrom true (code ++ 'm' :: rest) = visible rest := by
  induction code with
  | nil => rfl
  | cons c code ih =>
      obtain ⟨hc, hcode⟩ := List.forall_mem_cons.mp hcode
      have hinside : (c != 'm') = true := bne_iff_ne.mpr hc
      rw [List.cons_append, visibleFrom, if_pos rfl, hinside, ih hcode]

theorem visible_cons {c : Char} (hc : c ≠ esc) (rest : List Char) :
    visible (c :: rest) = c :: visible rest := by
  rw [visible, visibleFrom, if_neg Bool.false_ne_true, if_neg hc]
  rfl

namespace Styled

variable {line shown : List Char}

/-- A styled line is shown, and then what follows it. -/
theorem visible_append (h : Styled line shown) (rest : List Char) :
    visible (line ++ rest) = shown ++ visible rest := by
  induction h with
  | nil => rfl
  | char hesc _ _ ih => rw [List.cons_append, visible_cons hesc, ih, List.cons_append]
  | sequence hcode _ ih =>
      rw [List.append_assoc, List.cons_append, List.cons_append, visible, visibleFrom,
        if_neg Bool.false_ne_true, if_pos rfl, visibleFrom_sequence fun c hc => (hcode c hc).1, ih]

theorem visible_eq (h : Styled line shown) : visible line = shown := by
  have hrest := h.visible_append []
  rwa [List.append_nil, show visible [] = [] from rfl, List.append_nil] at hrest

end Styled

/-! ## Painting -/

theorem styled_start (s : Style) : Styled s.start [] := by
  have hcode : ∀ c ∈ '[' :: s.codes, c ≠ 'm' ∧ c ≠ '\n' := by
    cases s <;> simp [Style.codes]
  exact .sequence hcode .nil

theorem styled_reset : Styled reset [] := by
  have hcode : ∀ c ∈ ['[', '0'], c ≠ 'm' ∧ c ≠ '\n' := by simp
  exact .sequence hcode .nil

theorem Plain.styled_paint {cs : List Char} (h : Plain cs) (colours : Bool) (s : Style) :
    Styled (paint colours s cs) cs := by
  cases colours with
  | false => exact h.styled
  | true =>
      rw [paint, if_pos rfl, h.afterResets]
      have hpainted := ((styled_start s).append h.styled).append styled_reset
      rwa [List.nil_append, List.append_nil] at hpainted

/-! ## Texts of lines -/

/-- Some lines, each ended by a newline. -/
def joinLines (lines : List (List Char)) : List Char := lines.flatMap (· ++ ['\n'])

theorem joinLines_cons (line : List Char) (lines : List (List Char)) :
    joinLines (line :: lines) = line ++ '\n' :: joinLines lines := by
  rw [joinLines, List.flatMap_cons, List.append_assoc, List.singleton_append]
  rfl

/-- Split at its newlines, a text of lines is these lines, and nothing stands
after the last newline. -/
theorem splitOn_joinLines {lines : List (List Char)} (h : ∀ line ∈ lines, '\n' ∉ line) :
    (joinLines lines).splitOn '\n' = lines ++ [[]] := by
  induction lines with
  | nil => rfl
  | cons line lines ih =>
      obtain ⟨hline, hlines⟩ := List.forall_mem_cons.mp h
      have hletters : ∀ c ∈ line, (c == '\n') = false :=
        fun c hc => beq_eq_false_iff_ne.mpr (ne_of_mem_of_not_mem hc hline)
      rw [joinLines_cons, List.splitOn_eq_splitOnP,
        List.splitOnP_append_cons_of_forall_mem hletters _ (beq_self_eq_true _),
        ← List.splitOn_eq_splitOnP, ih hlines, List.cons_append]

section Shown

variable {lines shown : List (List Char)}

theorem newline_not_mem_of_styled (h : List.Forall₂ Styled lines shown) :
    ∀ line ∈ lines, '\n' ∉ line := by
  induction h with
  | nil => exact List.forall_mem_nil _
  | cons hline _ ih => exact List.forall_mem_cons.mpr ⟨hline.newline_not_mem, ih⟩

theorem map_visible (h : List.Forall₂ Styled lines shown) : lines.map visible = shown := by
  induction h with
  | nil => rfl
  | cons hline _ ih => rw [List.map_cons, hline.visible_eq, ih]

/-- A terminal shows of a text of lines what it shows of each line. -/
theorem visible_joinLines (h : List.Forall₂ Styled lines shown) :
    visible (joinLines lines) = joinLines shown := by
  induction h with
  | nil => rfl
  | cons hline _ ih =>
      rw [joinLines_cons, joinLines_cons, hline.visible_append, visible_cons (by decide), ih]

end Shown

end CostAudit.Text
