import CostAudit.Json.Token
import Mathlib.Tactic.SplitIfs

/-!
# Scanning what was spelled

A text spells a row of tokens when it is their writings with blanks before,
between and behind them (`Spells`). One thing keeps this from being plain
concatenation: a token without quotes that is longer than one character ends
where its characters do, so that something else must follow it (`Apart`).

The scanner finds the tokens of every text that spells some
(`scan_of_spells`). It is one fold over the characters, and `Scan.complete`
is that fold from any state. The proof goes token by token: a mark, a string
with its escapes, and a bare token each take the scan from one gap to the
next.
-/

namespace CostAudit.Json

/-! ## Bare tokens -/

theorem isBare_of_isDigit {c : Char} (h : Decimal.isDigit c = true) : isBare c = true := by
  simp only [Decimal.isDigit, Bool.and_eq_true, decide_eq_true_eq] at h
  have hdigit : c.isDigit = true := by
    simp only [Char.isDigit, Bool.and_eq_true, decide_eq_true_eq, ge_iff_le, UInt32.le_iff_toNat_le]
    exact h
  simp only [isBare, Char.isAlphanum, hdigit, Bool.or_true, Bool.true_or]

theorem isBare_of_isDigits {cs : List Char} (h : isDigits cs = true) :
    ∀ c ∈ cs, isBare c = true := by
  intro c hc
  simp only [isDigits, Bool.and_eq_true, List.all_eq_true] at h
  exact isBare_of_isDigit (h.2 c hc)

theorem isBare_of_isPlainDigits {cs : List Char} (h : isPlainDigits cs = true) :
    ∀ c ∈ cs, isBare c = true := by
  intro c hc
  unfold isPlainDigits at h
  split at h
  · cases h
  · rw [List.mem_singleton.mp hc]
    rfl
  · cases h
  · exact isBare_of_isDigit (List.all_eq_true.mp h c hc)

theorem isBare_of_isExponent {cs : List Char} (h : isExponent cs = true) :
    ∀ c ∈ cs, isBare c = true := by
  cases cs with
  | nil => simp
  | cons e ds =>
      simp only [isExponent, Bool.and_eq_true, Bool.or_eq_true, beq_iff_eq] at h
      obtain ⟨he, hds⟩ := h
      have hletter : isBare e = true := by
        rcases he with rfl | rfl <;> rfl
      refine List.forall_mem_cons.mpr ⟨hletter, ?_⟩
      split at hds
      · exact List.forall_mem_cons.mpr ⟨rfl, isBare_of_isDigits hds⟩
      · exact List.forall_mem_cons.mpr ⟨rfl, isBare_of_isDigits hds⟩
      · exact isBare_of_isDigits hds

theorem isBare_of_isNumberTail {cs : List Char} (h : isNumberTail cs = true) :
    ∀ c ∈ cs, isBare c = true := by
  unfold isNumberTail at h
  split at h
  · rename_i ds
    simp only [Bool.and_eq_true] at h
    have hall := List.forall_mem_append.mpr
      ⟨isBare_of_isDigits h.1, isBare_of_isExponent h.2⟩
    rw [List.takeWhile_append_dropWhile] at hall
    exact List.forall_mem_cons.mpr ⟨rfl, hall⟩
  · exact isBare_of_isExponent h

theorem isBare_of_isNumber {cs : List Char} (h : isNumber cs = true) :
    ∀ c ∈ cs, isBare c = true := by
  have hunsigned : ∀ ds : List Char, isPlainDigits (ds.takeWhile Decimal.isDigit) = true →
      isNumberTail (ds.dropWhile Decimal.isDigit) = true → ∀ c ∈ ds, isBare c = true := by
    intro ds hwhole htail
    have hall := List.forall_mem_append.mpr
      ⟨isBare_of_isPlainDigits hwhole, isBare_of_isNumberTail htail⟩
    rwa [List.takeWhile_append_dropWhile] at hall
  simp only [isNumber, Bool.and_eq_true] at h
  split at h
  · exact List.forall_mem_cons.mpr ⟨rfl, hunsigned _ h.1 h.2⟩
  · exact hunsigned _ h.1 h.2

/-- What is read as a bare token has no other characters in it. -/
theorem isBare_of_ofBare {cs : List Char} {t : Token} (h : Token.ofBare cs = some t) :
    ∀ c ∈ cs, isBare c = true := by
  unfold Token.ofBare at h
  split at h
  · rename_i hcs
    rw [hcs]
    exact List.all_eq_true.mp rfl
  split at h
  · rename_i hcs
    rw [hcs]
    exact List.all_eq_true.mp rfl
  split at h
  · rename_i hcs
    rw [hcs]
    exact List.all_eq_true.mp rfl
  split at h
  · rename_i hplain
    exact isBare_of_isPlainDigits hplain
  split at h
  · rename_i hnumber
    exact isBare_of_isNumber hnumber
  · cases h

/-! ### The writing of a natural number -/

theorem head?_digits_ne_zero {n : Nat} (h : 0 < n) : ∀ c ∈ (Decimal.digits n).head?, c ≠ '0' := by
  induction n using Nat.strongRecOn with
  | _ n ih =>
    unfold Decimal.digits
    split
    · rename_i hsmall
      intro c hc hzero
      have hvalue := Decimal.toNat_digitChar hsmall
      rw [Option.some.inj hc, hzero] at hvalue
      have : '0'.toNat = 48 := rfl
      omega
    · rename_i hlarge
      intro c hc
      rw [List.head?_append, Option.or_of_isSome (List.isSome_head?.mpr (Decimal.digits_ne_nil _))] at hc
      exact ih (n / 10) (by omega) (by omega) c hc

theorem isPlainDigits_digits (n : Nat) : isPlainDigits (Decimal.digits n) = true := by
  rcases Nat.eq_zero_or_pos n with rfl | hpos
  · simp [Decimal.digits, Decimal.digitChar, isPlainDigits]
  · have hhead := head?_digits_ne_zero hpos
    unfold isPlainDigits
    split
    · rename_i hnil
      exact absurd hnil (Decimal.digits_ne_nil n)
    · rfl
    · rename_i hzero
      rw [hzero] at hhead
      exact absurd rfl (hhead '0' rfl)
    · exact List.all_eq_true.mpr (Decimal.isDigit_of_mem_digits n)

theorem ofBare_digits (n : Nat) : Token.ofBare (Decimal.digits n) = some (.natural n) := by
  have hdigits := Decimal.isDigit_of_mem_digits n
  have hword : ∀ c cs, Decimal.isDigit c = false → Decimal.digits n ≠ c :: cs := by
    intro c cs hc heq
    rw [heq] at hdigits
    rw [hdigits c (List.mem_cons_self ..)] at hc
    cases hc
  unfold Token.ofBare
  rw [if_neg (hword _ _ rfl), if_neg (hword _ _ rfl), if_neg (hword _ _ rfl),
    if_pos (isPlainDigits_digits n), Decimal.value_digits]

/-! ## Texts that spell tokens -/

/-- A token without quotes that is longer than one character. It goes on
for as long as its characters do. -/
def Token.runsOn : Token → Bool
  | null => true
  | bool _ => true
  | natural _ => true
  | number _ => true
  | _ => false

/-- A number with a spelling of its own is read from that spelling. -/
def Token.Proper : Token → Prop
  | number spelling => ofBare spelling = some (number spelling)
  | _ => True

theorem Token.Proper.ofBare_chars {t : Token} (h : t.Proper) (hruns : t.runsOn = true) :
    ofBare t.chars = some t := by
  cases t with
  | null => rfl
  | bool b => cases b <;> rfl
  | natural n => exact ofBare_digits n
  | number => exact h
  | _ => cases hruns

/-- A bare token that ends here would not go on with the text. -/
def Apart (cs : List Char) : Prop := ∀ c ∈ cs.head?, isBare c = false

theorem apart_nil : Apart [] := fun c hc => by cases hc

theorem apart_cons {c : Char} {cs : List Char} (h : isBare c = false) : Apart (c :: cs) :=
  fun d hd => by rwa [← Option.some.inj hd]

/-- The text is the writing of the tokens, with blanks at will. -/
inductive Spells : List Token → List Char → Prop
  | nil : Spells [] []
  | blank {ts : List Token} {c : Char} {cs : List Char} (hc : isBlank c = true)
      (h : Spells ts cs) : Spells ts (c :: cs)
  | token {t : Token} {ts : List Token} {cs : List Char} (ht : t.Proper)
      (hcs : t.runsOn = true → Apart cs) (h : Spells ts cs) :
      Spells (t :: ts) (t.chars ++ cs)

/-! ## The scan from any state -/

/-- The tokens found by a scan that goes on from some state to the end of
the text. -/
def Scan.complete (s : List Token × Scan) (cs : List Char) : Option (List Token) :=
  (cs.foldlM Scan.step s).bind Scan.finish

namespace Scan

variable {before : List Token} {s next : List Token × Scan} {c : Char} {cs : List Char}

theorem complete_cons (h : step s c = some next) : complete s (c :: cs) = complete next cs := by
  rw [complete, List.foldlM_cons, h]
  rfl

/-! ### Strings -/

theorem complete_escape (read : List Piece) {e : Char} (h : unescape? e = some c) :
    complete (before, .string read) ('\\' :: e :: cs) =
      complete (before, .string (.char c :: read)) cs := by
  have hu : e ≠ 'u' := by
    rintro rfl
    cases h
  have hslash : step (before, .string read) '\\' = some (before, .escape read) := rfl
  rw [complete_cons hslash]
  refine complete_cons ?_
  simp only [step, if_neg hu, h, Option.map_some]

theorem hexValue?_hexChar : ∀ d < 16, hexValue? (hexChar d) = some d := by decide

theorem complete_code (read : List Piece) (h : c.toNat < 0x20) :
    complete (before, .string read)
        ('\\' :: 'u' :: '0' :: '0' :: hexChar (c.toNat / 16) :: hexChar (c.toNat % 16) :: cs) =
      complete (before, .string (.char c :: read)) cs := by
  have hhigh := hexValue?_hexChar (c.toNat / 16) (by omega)
  have hlow := hexValue?_hexChar (c.toNat % 16) (by omega)
  have hcode : 16 * (c.toNat / 16) + c.toNat % 16 = c.toNat := Nat.div_add_mod _ _
  have hpiece : Piece.ofCode c.toNat = .char c := by
    rw [Piece.ofCode, if_neg (by simp; omega), Char.ofNat_toNat]
  have hstart : complete (before, .string read) ('\\' :: 'u' :: '0' :: '0' ::
      hexChar (c.toNat / 16) :: hexChar (c.toNat % 16) :: cs) =
      complete (before, .code read 2 0)
        (hexChar (c.toNat / 16) :: hexChar (c.toNat % 16) :: cs) := rfl
  have hfirst : step (before, .code read 2 0) (hexChar (c.toNat / 16)) =
      some (before, .code read 1 (c.toNat / 16)) := by
    simp [step, hhigh]
  rw [hstart, complete_cons hfirst]
  refine complete_cons ?_
  simp only [step, hlow, Option.map_some, hcode, hpiece]
  rfl

theorem complete_escaped (c : Char) (read : List Piece) :
    complete (before, .string read) (escaped c ++ cs) =
      complete (before, .string (.char c :: read)) cs := by
  unfold escaped
  split_ifs with hquote hslash hback hfeed hline hreturn htab hcontrol
  · subst hquote
    exact complete_escape read rfl
  · subst hslash
    exact complete_escape read rfl
  · subst hback
    exact complete_escape read rfl
  · subst hfeed
    exact complete_escape read rfl
  · subst hline
    exact complete_escape read rfl
  · subst hreturn
    exact complete_escape read rfl
  · subst htab
    exact complete_escape read rfl
  · exact complete_code read hcontrol
  · refine complete_cons ?_
    simp only [step, if_neg hquote, if_neg hslash, if_neg hcontrol]

theorem complete_string (read : List Piece) (text : List Char) :
    complete (before, .string read) (text.flatMap escaped ++ '"' :: cs) =
      complete (Token.ofPieces (read.reverse ++ text.map .char) :: before, .gap) cs := by
  induction text generalizing read with
  | nil =>
      refine complete_cons ?_
      simp [step]
  | cons c text ih =>
      rw [List.flatMap_cons, List.append_assoc, complete_escaped, ih]
      simp

theorem joinPieces_map_char (text : List Char) : joinPieces (text.map .char) = some text := by
  induction text with
  | nil => rfl
  | cons c text ih => rw [List.map_cons, joinPieces, ih, Option.map_some]

theorem ofPieces_map_char (s : String) : Token.ofPieces (s.toList.map .char) = .text s := by
  simp only [Token.ofPieces, joinPieces_map_char, String.ofList_toList]

/-! ### Bare tokens -/

theorem complete_bare (read text : List Char) (h : ∀ c ∈ text, isBare c = true) :
    complete (before, .bare read) (text ++ cs) =
      complete (before, .bare (text.reverse ++ read)) cs := by
  induction text generalizing read with
  | nil => rfl
  | cons c text ih =>
      have hstep : step (before, .bare read) c = some (before, .bare (c :: read)) :=
        if_pos (h c (List.mem_cons_self ..))
      rw [List.cons_append, complete_cons hstep, ih _ fun d hd => h d (List.mem_cons_of_mem _ hd)]
      simp

/-- A bare token ends where something else follows. -/
theorem complete_bare_apart {read : List Char} {t : Token}
    (ht : Token.ofBare read.reverse = some t) (hcs : Apart cs) :
    complete (before, .bare read) cs = complete (t :: before, .gap) cs := by
  cases cs with
  | nil => simp [complete, finish, ht]
  | cons c cs =>
      have hstep : step (before, .bare read) c = step (t :: before, .gap) c := by
        simp only [step, hcs c rfl, Bool.false_eq_true, if_false, ht, Option.bind_some]
      rw [complete, complete, List.foldlM_cons, List.foldlM_cons, hstep]

theorem step_gap_bare (h : isBare c = true) : step (before, .gap) c = some (before, .bare [c]) := by
  have hblank : isBlank c = false := by
    cases hc : isBlank c with
    | false => rfl
    | true =>
        simp only [isBlank, Bool.or_eq_true, decide_eq_true_eq] at hc
        rcases hc with ((rfl | rfl) | rfl) | rfl <;> cases h
  have hquote : c ≠ '"' := by
    rintro rfl
    cases h
  simp only [step, fromGap, hblank, Bool.false_eq_true, if_false, if_neg hquote, h, if_true]

/-- A token that runs on is read to its end, if something else follows. -/
theorem complete_runsOn {text : List Char} {t : Token} (ht : Token.ofBare text = some t)
    (hcs : Apart cs) :
    complete (before, .gap) (text ++ cs) = complete (t :: before, .gap) cs := by
  have hbare := isBare_of_ofBare ht
  cases text with
  | nil => cases ht
  | cons c text =>
      have hfirst : step (before, .gap) c = some (before, .bare [c]) :=
        step_gap_bare (hbare c (List.mem_cons_self ..))
      rw [List.cons_append, complete_cons hfirst,
        complete_bare _ _ fun d hd => hbare d (List.mem_cons_of_mem _ hd)]
      refine complete_bare_apart ?_ hcs
      rw [List.reverse_append, List.reverse_reverse]
      exact ht

theorem complete_token {t : Token} (ht : t.Proper) (hcs : t.runsOn = true → Apart cs) :
    complete (before, .gap) (t.chars ++ cs) = complete (t :: before, .gap) cs := by
  cases hruns : t.runsOn with
  | true => exact complete_runsOn (ht.ofBare_chars hruns) (hcs hruns)
  | false =>
      cases t with
      | text s =>
          have hopen : step (before, .gap) '"' = some (before, .string []) := rfl
          rw [Token.chars, List.cons_append, List.cons_append, complete_cons hopen,
            List.append_assoc, List.singleton_append, complete_string, List.reverse_nil,
            List.nil_append, ofPieces_map_char]
      | garbled => rfl
      | openArray => rfl
      | closeArray => rfl
      | openObject => rfl
      | closeObject => rfl
      | comma => rfl
      | colon => rfl
      | _ => cases hruns

end Scan

/-- The scanner finds the tokens of a text that spells them. -/
theorem scan_of_spells {ts : List Token} {cs : List Char} (h : Spells ts cs) :
    Token.scan cs = some ts := by
  have hcomplete : ∀ before, Scan.complete (before, .gap) cs = some (before.reverse ++ ts) := by
    induction h with
    | nil =>
        intro before
        rw [List.append_nil]
        rfl
    | blank hc _ ih =>
        intro before
        have hstep : Scan.step (before, .gap) _ = some (before, .gap) := if_pos hc
        rw [Scan.complete_cons hstep]
        exact ih before
    | @token t ts cs ht hcs _ ih =>
        intro before
        rw [Scan.complete_token ht hcs, ih, List.reverse_cons, List.append_assoc,
          List.singleton_append]
  exact hcomplete []

end CostAudit.Json
