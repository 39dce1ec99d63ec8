import CostAudit.Flag
import CostAudit.Proofs.Text.Trim

/-!
# Sets of flags from lists of names

A name denotes a flag when its trimmed part is the name of the flag up to the
case of ASCII letters. No text denotes two flags, since the four names stay
apart in lower case.

A set all of whose bits have names is known by the flags it has
(`eq_of_has`). The set read from a list has the flags that the texts of the
list denote (`ofNames_eq_ok_iff`), so neither their order nor their number
matters, and two lists in a row denote the union. A list is rejected for its
first text that denotes no flag (`ofNames_eq_error_iff`).
-/

namespace CostAudit

namespace Flag

/-- Whether a text is the name of a flag, but for the blanks around it and
the case of ASCII letters. -/
def DenotedBy (f : Flag) (text : String) : Prop :=
  ∃ core, Text.IsTrimmed text.toList core ∧
    core.map Char.toLower = f.name.toList.map Char.toLower

/-- Whether a text is the name of one of the flags. -/
def IsKnown (text : String) : Prop := ∃ f : Flag, f.DenotedBy text

variable {f g : Flag} {text : String}

theorem foldCase_eq_toLower (c : Char) : foldCase c = c.toLower := by
  by_cases hupper : c.val ≥ 'A'.val ∧ c.val ≤ 'Z'.val
  · have hlower : c.toLower.val = c.val + 32 :=
      congrArg Char.val (show c.toLower = _ from dif_pos hupper)
    have hrange : 65 ≤ c.toNat ∧ c.toNat ≤ 90 := hupper
    have hvalid : (c.toNat + 32).isValidChar := .inl (by omega)
    have hsmall : c.toNat + 32 < 4294967296 := by omega
    rw [foldCase, if_pos (by simpa using hrange), Char.ofNat, dif_pos hvalid]
    refine Char.ext (UInt32.toNat_inj.mp ?_)
    rw [hlower, UInt32.toNat_add]
    exact (Nat.mod_eq_of_lt hsmall).symm
  · have hlower : c.toLower = c := dif_neg hupper
    have hrange : ¬(65 ≤ c.toNat ∧ c.toNat ≤ 90) := hupper
    rw [foldCase, if_neg (by simpa using hrange), hlower]

theorem denotes_iff : denotes text f = true ↔ f.DenotedBy text := by
  have hfold : foldCase = Char.toLower := funext foldCase_eq_toLower
  simp only [denotes, decide_eq_true_eq, hfold, DenotedBy, Text.isTrimmed_iff, exists_eq_left]

theorem DenotedBy.unique (hf : f.DenotedBy text) (hg : g.DenotedBy text) : f = g := by
  have hnames (f g : Flag) :
      f.name.toList.map foldCase = g.name.toList.map foldCase → f = g := by
    cases f <;> cases g <;> decide
  have hf := denotes_iff.mpr hf
  have hg := denotes_iff.mpr hg
  simp only [denotes, decide_eq_true_eq] at hf hg
  exact hnames f g (hf.symm.trans hg)

theorem ofName_of_denotedBy (h : f.DenotedBy text) : ofName text = .ok f := by
  rw [ofName]
  split
  · rename_i g hfind
    have hg : g.DenotedBy text := denotes_iff.mp (List.find?_some hfind)
    rw [h.unique hg]
  · rename_i hfind
    exact absurd (denotes_iff.mpr h) (List.find?_eq_none.mp hfind f (mem_all f))

theorem ofName_of_not_isKnown (h : ¬IsKnown text) : ofName text = .error ⟨text⟩ := by
  have hfind : all.find? (denotes text) = none :=
    List.find?_eq_none.mpr fun f _ hf => h ⟨f, denotes_iff.mp hf⟩
  rw [ofName, hfind]

end Flag

namespace FlagSet

open CostAudit.Flag (DenotedBy IsKnown)

/-! ## The flags of a set -/

section Has

variable {s t : FlagSet} {f g : Flag}

theorem or_and (a b c : UInt8) : (a ||| b) &&& c = (a &&& c) ||| (b &&& c) :=
  UInt8.eq_of_toBitVec_eq BitVec.and_or_distrib_right

/-- A flag is a single bit, so a byte has all of it or nothing. -/
theorem and_bit (a : UInt8) (f : Flag) : a &&& f.bit = 0 ∨ a &&& f.bit = f.bit := by
  have hpow : ∃ i, f.bit.toBitVec = BitVec.twoPow 8 i := by
    cases f with
    | memSafe => exact ⟨0, rfl⟩
    | cpuSafe => exact ⟨1, rfl⟩
    | timeSafe => exact ⟨2, rfl⟩
    | ioSafe => exact ⟨3, rfl⟩
  obtain ⟨i, hi⟩ := hpow
  have hand := BitVec.and_twoPow a.toBitVec i
  rw [← hi] at hand
  split at hand
  · exact .inr (UInt8.eq_of_toBitVec_eq hand)
  · exact .inl (UInt8.eq_of_toBitVec_eq hand)

theorem has_iff : s.has f = true ↔ s.bits &&& f.bit ≠ 0 := by
  rw [has, bne_iff_ne]

theorem has_empty : ¬(empty.has f = true) := by
  cases f <;> decide

theorem has_union : (s.union t).has f = true ↔ s.has f = true ∨ t.has f = true := by
  simp only [has_iff, union, or_and, ne_eq, UInt8.or_eq_zero_iff]
  exact not_and_or

theorem has_insert : (s.insert f).has g = true ↔ s.has g = true ∨ f = g := by
  have hsingle : (singleton f).has g = true ↔ f = g := by
    cases f <;> cases g <;> decide
  rw [← hsingle]
  exact has_union

/-- Whether every bit of a set belongs to a flag. -/
def Named (s : FlagSet) : Prop := s.bits &&& all.bits = s.bits

theorem Named.union (hs : s.Named) (ht : t.Named) : (s.union t).Named := by
  simp only [Named, FlagSet.union, or_and]
  rw [hs, ht]

theorem Named.insert (hs : s.Named) : (s.insert f).Named := by
  have hf : (singleton f).Named := by
    cases f <;> rfl
  exact hs.union hf

theorem Named.bits_eq (hs : s.Named) : s.bits = (s.bits &&& Flag.memSafe.bit) |||
    (s.bits &&& Flag.cpuSafe.bit) ||| (s.bits &&& Flag.timeSafe.bit) |||
    (s.bits &&& Flag.ioSafe.bit) := by
  have hall : all.bits = Flag.memSafe.bit ||| Flag.cpuSafe.bit ||| Flag.timeSafe.bit |||
      Flag.ioSafe.bit := rfl
  calc s.bits = all.bits &&& s.bits := by rw [UInt8.and_comm, hs]
    _ = _ := by
      rw [hall, or_and, or_and, or_and]
      simp only [UInt8.and_comm s.bits]

theorem eq_of_has (hs : s.Named) (ht : t.Named) (h : ∀ f, s.has f = true ↔ t.has f = true) :
    s = t := by
  have hbit (f : Flag) : s.bits &&& f.bit = t.bits &&& f.bit := by
    have hf := h f
    simp only [has_iff] at hf
    rcases and_bit s.bits f with hsf | hsf <;> rcases and_bit t.bits f with htf | htf
    · rw [hsf, htf]
    · rw [hsf, not_ne_iff.mp (mt hf.mpr (not_ne_iff.mpr hsf))]
    · rw [htf, not_ne_iff.mp (mt hf.mp (not_ne_iff.mpr htf))]
    · rw [hsf, htf]
  obtain ⟨a⟩ := s
  obtain ⟨b⟩ := t
  rw [FlagSet.mk.injEq]
  exact hs.bits_eq.trans (by rw [hbit, hbit, hbit, hbit]; exact ht.bits_eq.symm)

/-- A set of just the flags with a property. -/
structure Holds (s : FlagSet) (p : Flag → Prop) : Prop where
  named : s.Named
  has_iff : ∀ f, s.has f = true ↔ p f

variable {p q : Flag → Prop}

theorem Holds.unique (hs : s.Holds p) (ht : t.Holds q) (h : ∀ f, p f ↔ q f) : s = t :=
  eq_of_has hs.named ht.named fun f => (hs.has_iff f).trans ((h f).trans (ht.has_iff f).symm)

theorem holds_empty : empty.Holds fun _ => False :=
  ⟨rfl, fun _ => iff_of_false has_empty not_false⟩

theorem Holds.insert (hs : s.Holds p) : (s.insert f).Holds fun g => p g ∨ f = g :=
  ⟨hs.named.insert, fun g => by rw [has_insert, hs.has_iff]⟩

theorem Holds.union (hs : s.Holds p) (ht : t.Holds q) : (s.union t).Holds fun f => p f ∨ q f :=
  ⟨hs.named.union ht.named, fun f => by rw [has_union, hs.has_iff, ht.has_iff]⟩

end Has

/-! ## Lists of names -/

/-- A set with the flags added that a list of names denotes. -/
def addNames (s : FlagSet) (names : List String) : Except UnknownName FlagSet :=
  names.foldlM (fun s name => (Flag.ofName name).map s.insert) s

section Names

variable {s t : FlagSet} {f : Flag} {p : Flag → Prop} {text : String}
  {names before after : List String}

theorem addNames_cons_of_denotedBy (h : f.DenotedBy text) :
    s.addNames (text :: names) = (s.insert f).addNames names := by
  rw [addNames, List.foldlM_cons, Flag.ofName_of_denotedBy h]
  rfl

theorem addNames_cons_of_not_isKnown (h : ¬IsKnown text) :
    s.addNames (text :: names) = .error ⟨text⟩ := by
  rw [addNames, List.foldlM_cons, Flag.ofName_of_not_isKnown h]
  rfl

theorem exists_addNames_eq_ok (hs : s.Holds p) (hknown : ∀ text ∈ names, IsKnown text) :
    ∃ t, s.addNames names = .ok t ∧ t.Holds fun f => p f ∨ ∃ text ∈ names, f.DenotedBy text := by
  induction names generalizing s p with
  | nil => exact ⟨s, rfl, hs.named, fun f => by simp [hs.has_iff]⟩
  | cons text names ih =>
    rw [List.forall_mem_cons] at hknown
    obtain ⟨⟨g, hg⟩, hrest⟩ := hknown
    obtain ⟨t, hread, ht⟩ := ih (hs.insert (f := g)) hrest
    refine ⟨t, by rw [addNames_cons_of_denotedBy hg, hread], ht.named, fun f => ?_⟩
    have hfirst : g = f ↔ f.DenotedBy text := by
      constructor
      · rintro rfl
        exact hg
      · exact hg.unique
    simp only [ht.has_iff, hfirst, or_assoc, List.mem_cons, or_and_right, exists_or,
      exists_eq_left]

theorem addNames_eq_error (hbefore : ∀ text ∈ before, IsKnown text) (h : ¬IsKnown text) :
    s.addNames (before ++ text :: after) = .error ⟨text⟩ := by
  induction before generalizing s with
  | nil => exact addNames_cons_of_not_isKnown h
  | cons first before ih =>
    rw [List.forall_mem_cons] at hbefore
    obtain ⟨⟨f, hf⟩, hrest⟩ := hbefore
    rw [List.cons_append, addNames_cons_of_denotedBy hf]
    exact ih hrest

/-- A list of known names, or its first name that is not known. -/
theorem isKnown_or_exists_first (names : List String) :
    (∀ text ∈ names, IsKnown text) ∨ ∃ before text after, names = before ++ text :: after ∧
      (∀ text ∈ before, IsKnown text) ∧ ¬IsKnown text := by
  induction names with
  | nil => exact .inl (by simp)
  | cons text names ih =>
    by_cases htext : IsKnown text
    · rcases ih with hall | ⟨before, other, after, rfl, hbefore, hother⟩
      · exact .inl (List.forall_mem_cons.mpr ⟨htext, hall⟩)
      · exact .inr ⟨text :: before, other, after, rfl,
          List.forall_mem_cons.mpr ⟨htext, hbefore⟩, hother⟩
    · exact .inr ⟨[], text, names, rfl, by simp, htext⟩

theorem exists_ofNames_eq_ok (hknown : ∀ text ∈ names, IsKnown text) :
    ∃ t, ofNames names = .ok t ∧ t.Holds fun f => ∃ text ∈ names, f.DenotedBy text := by
  obtain ⟨t, hread, ht⟩ := exists_addNames_eq_ok holds_empty hknown
  exact ⟨t, hread, ht.named, fun f => by rw [ht.has_iff, false_or]⟩

theorem ofNames_eq_ok_iff : ofNames names = .ok s ↔ (∀ text ∈ names, IsKnown text) ∧
    s.Holds fun f => ∃ text ∈ names, f.DenotedBy text := by
  constructor
  · intro hs
    rcases isKnown_or_exists_first names with hknown | ⟨before, text, after, rfl, hbefore, htext⟩
    · obtain ⟨t, ht, hholds⟩ := exists_ofNames_eq_ok hknown
      obtain rfl : t = s := Except.ok.inj (ht.symm.trans hs)
      exact ⟨hknown, hholds⟩
    · have herror : ofNames (before ++ text :: after) = .error ⟨text⟩ :=
        addNames_eq_error hbefore htext
      rw [herror] at hs
      cases hs
  · rintro ⟨hknown, hs⟩
    obtain ⟨t, ht, hholds⟩ := exists_ofNames_eq_ok hknown
    rw [ht, hholds.unique hs fun _ => Iff.rfl]

theorem ofNames_eq_error_iff {e : UnknownName} : ofNames names = .error e ↔
    ∃ before after, names = before ++ e.name :: after ∧ (∀ text ∈ before, IsKnown text) ∧
      ¬IsKnown e.name := by
  constructor
  · intro he
    rcases isKnown_or_exists_first names with hknown | ⟨before, text, after, rfl, hbefore, htext⟩
    · obtain ⟨t, ht, -⟩ := exists_ofNames_eq_ok hknown
      rw [ht] at he
      cases he
    · have herror : ofNames (before ++ text :: after) = .error ⟨text⟩ :=
        addNames_eq_error hbefore htext
      obtain rfl : ⟨text⟩ = e := Except.error.inj (herror.symm.trans he)
      exact ⟨before, after, rfl, hbefore, htext⟩
  · rintro ⟨before, after, rfl, hbefore, htext⟩
    exact addNames_eq_error hbefore htext

end Names

/-- **Reading a list of names.** A list is accepted when all its texts denote
flags, and the set has the flags that they denote; texts in another order or
repeated denote the same set, and two lists in a row denote the union. A list
that is not accepted is rejected for its first text that denotes no flag, as
it was given. -/
theorem ofNames_reads_denoted (names : List String) :
    ((∃ s, ofNames names = .ok s) ↔ ∀ text ∈ names, IsKnown text) ∧
    (∀ s, ofNames names = .ok s →
      (s.Holds fun f => ∃ text ∈ names, f.DenotedBy text) ∧
      (∀ others, (∀ text, text ∈ others ↔ text ∈ names) → ofNames others = .ok s) ∧
      ∀ others t, ofNames others = .ok t → ofNames (names ++ others) = .ok (s.union t)) ∧
    ∀ e, ofNames names = .error e ↔ ∃ before after, names = before ++ e.name :: after ∧
      (∀ text ∈ before, IsKnown text) ∧ ¬IsKnown e.name := by
  refine ⟨⟨?_, fun hknown => ?_⟩, fun s hs => ?_, fun e => ofNames_eq_error_iff⟩
  · rintro ⟨s, hs⟩
    exact (ofNames_eq_ok_iff.mp hs).1
  · obtain ⟨s, hs, -⟩ := exists_ofNames_eq_ok hknown
    exact ⟨s, hs⟩
  · obtain ⟨hknown, hholds⟩ := ofNames_eq_ok_iff.mp hs
    refine ⟨hholds, fun others hsame => ?_, fun others t ht => ?_⟩
    · refine ofNames_eq_ok_iff.mpr ⟨fun text htext => hknown text ((hsame text).mp htext),
        hholds.named, fun f => ?_⟩
      simp only [hholds.has_iff, hsame]
    · obtain ⟨hknown', hholds'⟩ := ofNames_eq_ok_iff.mp ht
      refine ofNames_eq_ok_iff.mpr ⟨List.forall_mem_append.mpr ⟨hknown, hknown'⟩, ?_⟩
      have hunion := hholds.union hholds'
      refine ⟨hunion.named, fun f => ?_⟩
      simp only [hunion.has_iff, List.mem_append, or_and_right, exists_or]

/-- Two names between blanks of several kinds, turned around and repeated, and
a third one after them. -/
theorem ofNames_of_repeated :
    let names := ["\u00a0memSAFE\t", "IOSafe"]
    let repeated := ["IOSafe", "\u00a0memSAFE\t", "IOSafe"]
    ofNames names = .ok ⟨9⟩ ∧ (∀ text, text ∈ repeated ↔ text ∈ names) ∧
      ofNames repeated = .ok ⟨9⟩ ∧ ofNames ["cpusafe"] = .ok ⟨2⟩ ∧
      ofNames (names ++ ["cpusafe"]) = .ok ⟨11⟩ := by
  intro names repeated
  have hnames : ofNames names = .ok ⟨9⟩ := by decide
  have hthird : ofNames ["cpusafe"] = .ok ⟨2⟩ := by decide
  have hsame : ∀ text, text ∈ repeated ↔ text ∈ names := by
    intro text
    simp only [repeated, names, List.mem_cons, List.not_mem_nil, or_false]
    exact ⟨fun h => h.elim .inr id, .inr⟩
  obtain ⟨-, hrepeated, hunion⟩ := (ofNames_reads_denoted names).2.1 _ hnames
  exact ⟨hnames, hsame, hrepeated repeated hsame, hthird, hunion _ _ hthird⟩

/-- The long s is no ASCII letter, and blanks inside a name stay. -/
example : ofNames ["MemSafe", "Mem\u017fafe", "IO Safe"] = .error ⟨"Mem\u017fafe"⟩ := by decide

end FlagSet

end CostAudit
