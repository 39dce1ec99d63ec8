import Mathlib.Data.List.TakeWhile
import CostAudit.Text.Words

/-!
# What trimming leaves of a text

A text has one part that neither begins nor ends with a blank and has only
blanks before and after it (`isTrimmed_iff`), and `trim` finds it. Blanks
inside that part stay. Of a text of blanks nothing is left.
-/

namespace CostAudit.Text

/-- The part of a text between the blanks around it. -/
structure IsTrimmed (cs core : List Char) : Prop where
  around : ∃ front back, cs = front ++ (core ++ back) ∧
    (∀ c ∈ front, isBlank c = true) ∧ ∀ c ∈ back, isBlank c = true
  first : ∀ c ∈ core.head?, isBlank c = false
  last : ∀ c ∈ core.getLast?, isBlank c = false

variable {cs core front back : List Char}

theorem exists_eq_append_dropWhile (cs : List Char) :
    ∃ front, cs = front ++ cs.dropWhile isBlank ∧ ∀ c ∈ front, isBlank c = true :=
  ⟨cs.takeWhile isBlank, List.takeWhile_append_dropWhile.symm, fun _ => List.mem_takeWhile_imp⟩

theorem isBlank_of_mem_head?_dropWhile {c : Char} (hc : c ∈ (cs.dropWhile isBlank).head?) :
    isBlank c = false := by
  have hfirst := List.head?_dropWhile_not isBlank cs
  rw [Option.mem_def.mp hc] at hfirst
  exact hfirst

theorem dropWhile_append_of_blanks (hfront : ∀ c ∈ front, isBlank c = true)
    (hfirst : ∀ c ∈ core.head?, isBlank c = false) :
    (front ++ core).dropWhile isBlank = core := by
  rw [List.dropWhile_append_of_pos hfront]
  cases core with
  | nil => rfl
  | cons c cs => exact List.dropWhile_cons_of_neg (ne_true_of_eq_false (hfirst c rfl))

theorem trim_append (hfront : ∀ c ∈ front, isBlank c = true)
    (hfirst : ∀ c ∈ core.head?, isBlank c = false) (hlast : ∀ c ∈ core.getLast?, isBlank c = false)
    (hback : ∀ c ∈ back, isBlank c = true) : trim (front ++ (core ++ back)) = core := by
  rcases List.eq_nil_or_concat core with rfl | ⟨_, _, rfl⟩
  · -- A text of blanks is dropped at once, so its front cannot be told from its back.
    have hblank : ∀ c ∈ front ++ back, isBlank c = true := by
      intro c hc
      rcases List.mem_append.mp hc with hc | hc
      · exact hfront c hc
      · exact hback c hc
    have hdropped : (front ++ back ++ []).dropWhile isBlank = [] :=
      dropWhile_append_of_blanks hblank (by simp)
    rw [List.append_nil] at hdropped
    rw [trim, List.nil_append, hdropped]
    rfl
  · rw [trim, dropWhile_append_of_blanks hfront (by simpa using hfirst), List.reverse_append,
      dropWhile_append_of_blanks (by simpa using hback) (by simpa using hlast),
      List.reverse_reverse]

theorem isTrimmed_trim (cs : List Char) : IsTrimmed cs (trim cs) := by
  obtain ⟨front, hfront, hblanks⟩ := exists_eq_append_dropWhile cs
  obtain ⟨back, hback, hblanks'⟩ := exists_eq_append_dropWhile (cs.dropWhile isBlank).reverse
  have hrest : cs.dropWhile isBlank = trim cs ++ back.reverse := by
    rw [trim, ← List.reverse_append, ← hback, List.reverse_reverse]
  refine ⟨⟨front, back.reverse, hrest ▸ hfront, hblanks, by simpa using hblanks'⟩, ?_, ?_⟩
  · intro c hc
    have hfirst : c ∈ (cs.dropWhile isBlank).head? := by
      rw [hrest, List.head?_append, Option.mem_def.mp hc]
      rfl
    exact isBlank_of_mem_head?_dropWhile hfirst
  · intro c hc
    rw [trim, List.getLast?_reverse] at hc
    exact isBlank_of_mem_head?_dropWhile hc

/-- A text has one trimmed part. -/
theorem isTrimmed_iff : IsTrimmed cs core ↔ core = trim cs := by
  constructor
  · rintro ⟨⟨front, back, rfl, hfront, hback⟩, hfirst, hlast⟩
    exact (trim_append hfront hfirst hlast hback).symm
  · rintro rfl
    exact isTrimmed_trim cs

end CostAudit.Text
