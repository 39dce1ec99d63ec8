import CostAudit.Json.Reader
import CostAudit.Json.Writer
import CostAudit.Proofs.Json.Scan

/-!
# What is written is read back

A value has a row of tokens (`Json.tokens`). Both writers write that row and
differ in their blanks only (`spells_compactChars`, `spells_prettyChars`),
and the tokens put together again are the value (`ofTokens?_tokens`). So the
value is read from either text, as long as its numbers are spelled as numbers
(`Json.Proper`).

Every induction runs over a value together with its lists of items and
fields, like the writers do. For the reader the tokens of a value stand in
front of others: they leave the builder as if the value had been delivered
at once, whatever is open around it.
-/

namespace CostAudit.Json

/-! ## The tokens of a value -/

def keyToken : Option String → Token
  | some k => .text k
  | none => .garbled

mutual

def tokens : Json → List Token
  | .null => [.null]
  | .bool b => [.bool b]
  | .natural n => [.natural n]
  | .number spelling => [.number spelling]
  | .text s => [.text s]
  | .garbled => [.garbled]
  | .array items => .openArray :: itemTokens items ++ [.closeArray]
  | .object fields => .openObject :: fieldTokens fields ++ [.closeObject]

def itemTokens : List Json → List Token
  | [] => []
  | [v] => tokens v
  | v :: w :: vs => tokens v ++ .comma :: itemTokens (w :: vs)

def fieldTokens : List (Option String × Json) → List Token
  | [] => []
  | [(k, v)] => keyToken k :: .colon :: tokens v
  | (k, v) :: f :: fs => keyToken k :: .colon :: tokens v ++ .comma :: fieldTokens (f :: fs)

end

/-- Every number in the value is spelled as one. -/
def Proper (v : Json) : Prop := ∀ t ∈ v.tokens, t.Proper

section

variable {t : Token} {v w : Json} {vs : List Json} {k : Option String}
variable {f : Option String × Json} {fs : List (Option String × Json)}

theorem proper_keyToken (k : Option String) : (keyToken k).Proper := by
  cases k <;> trivial

theorem proper_of_tokens_eq (h : v.tokens = [t]) (ht : t.Proper) : v.Proper := by
  rw [Proper, h]
  exact List.forall_mem_singleton.mpr ht

theorem proper_itemTokens_cons : (∀ t ∈ itemTokens (v :: w :: vs), t.Proper) ↔
    v.Proper ∧ ∀ t ∈ itemTokens (w :: vs), t.Proper := by
  rw [itemTokens, List.forall_mem_append, List.forall_mem_cons]
  exact and_congr_right fun _ => and_iff_right trivial

theorem proper_fieldTokens_singleton : (∀ t ∈ fieldTokens [(k, v)], t.Proper) ↔ v.Proper := by
  rw [fieldTokens, List.forall_mem_cons, List.forall_mem_cons]
  exact (and_iff_right (proper_keyToken k)).trans (and_iff_right trivial)

theorem proper_fieldTokens_cons : (∀ t ∈ fieldTokens ((k, v) :: f :: fs), t.Proper) ↔
    v.Proper ∧ ∀ t ∈ fieldTokens (f :: fs), t.Proper := by
  rw [fieldTokens, List.forall_mem_append, ← fieldTokens, proper_fieldTokens_singleton,
    List.forall_mem_cons]
  exact and_congr_right fun _ => and_iff_right trivial

theorem proper_array : (Json.array vs).Proper ↔ ∀ t ∈ itemTokens vs, t.Proper := by
  rw [Proper, tokens, List.forall_mem_append, List.forall_mem_cons, List.forall_mem_singleton]
  exact (and_iff_left trivial).trans (and_iff_right trivial)

theorem proper_object : (Json.object fs).Proper ↔ ∀ t ∈ fieldTokens fs, t.Proper := by
  rw [Proper, tokens, List.forall_mem_append, List.forall_mem_cons, List.forall_mem_singleton]
  exact (and_iff_left trivial).trans (and_iff_right trivial)

theorem proper_array_of_forall (h : ∀ v ∈ vs, v.Proper) : (Json.array vs).Proper := by
  rw [proper_array]
  induction vs with
  | nil => exact List.forall_mem_nil _
  | cons v vs ih =>
      obtain ⟨hv, hvs⟩ := List.forall_mem_cons.mp h
      cases vs with
      | nil => exact hv
      | cons w vs => exact proper_itemTokens_cons.mpr ⟨hv, ih hvs⟩

theorem proper_object_of_forall (h : ∀ f ∈ fs, f.2.Proper) : (Json.object fs).Proper := by
  rw [proper_object]
  induction fs with
  | nil => exact List.forall_mem_nil _
  | cons f fs ih =>
      obtain ⟨hf, hfs⟩ := List.forall_mem_cons.mp h
      cases fs with
      | nil => exact proper_fieldTokens_singleton.mpr hf
      | cons g fs => exact proper_fieldTokens_cons.mpr ⟨hf, ih hfs⟩

end

/-! ## Reading -/

namespace Build

theorem foldlM_cons {b next : Build} {t : Token} {ts : List Token} (h : b.step t = some next) :
    (t :: ts).foldlM step b = ts.foldlM step next := by
  rw [List.foldlM_cons, h]
  rfl

variable (stack : List Frame) (mayClose : Bool) (ts : List Token)

theorem step_key (fields : List (Key × Json)) (k : Key) :
    step (.key stack fields mayClose) (keyToken k) = some (.colon stack fields k) := by
  cases k <;> cases mayClose <;> rfl

theorem step_openArray :
    step (.value stack mayClose) .openArray = some (.value (.array [] :: stack) true) := by
  unfold step
  rfl

theorem step_openObject :
    step (.value stack mayClose) .openObject = some (.key stack [] true) := by
  unfold step
  rfl

mutual

/-- In front of other tokens the tokens of a value deliver the value. -/
theorem foldlM_tokens (v : Json) (stack : List Frame) (mayClose : Bool) (ts : List Token) :
    (v.tokens ++ ts).foldlM step (.value stack mayClose) = ts.foldlM step (deliver v stack) := by
  cases v with
  | array items =>
      rw [tokens, List.cons_append, List.cons_append, foldlM_cons (step_openArray ..),
        List.append_assoc, List.singleton_append]
      exact foldlM_itemTokens items [] stack true ts fun _ => rfl
  | object fields =>
      rw [tokens, List.cons_append, List.cons_append, foldlM_cons (step_openObject ..),
        List.append_assoc, List.singleton_append]
      exact foldlM_fieldTokens fields [] stack true ts fun _ => rfl
  | _ =>
      refine foldlM_cons ?_
      unfold step
      rfl

theorem foldlM_itemTokens (vs read : List Json) (stack : List Frame) (mayClose : Bool)
    (ts : List Token) (h : vs = [] → mayClose = true) :
    (itemTokens vs ++ .closeArray :: ts).foldlM step (.value (.array read :: stack) mayClose) =
      ts.foldlM step (deliver (.array (read.reverse ++ vs)) stack) := by
  match vs with
  | [] =>
      rw [h rfl, List.append_nil]
      exact foldlM_cons rfl
  | [v] =>
      rw [itemTokens, foldlM_tokens v, ← List.reverse_cons]
      exact foldlM_cons rfl
  | v :: w :: vs =>
      have hcomma : step (deliver v (.array read :: stack)) .comma =
          some (.value (.array (v :: read) :: stack) false) := rfl
      have hnext : w :: vs = [] → false = true := fun hnil => by cases hnil
      rw [itemTokens, List.append_assoc, foldlM_tokens v, List.cons_append, foldlM_cons hcomma,
        foldlM_itemTokens (w :: vs) _ _ _ _ hnext, List.reverse_cons, List.append_assoc,
        List.singleton_append]

theorem foldlM_fieldTokens (fs read : List (Key × Json)) (stack : List Frame) (mayClose : Bool)
    (ts : List Token) (h : fs = [] → mayClose = true) :
    (fieldTokens fs ++ .closeObject :: ts).foldlM step (.key stack read mayClose) =
      ts.foldlM step (deliver (.object (read.reverse ++ fs)) stack) := by
  match fs with
  | [] =>
      rw [h rfl, List.append_nil]
      exact foldlM_cons rfl
  | [(k, v)] =>
      have hcolon : step (.colon stack read k) .colon =
          some (.value (.member read k :: stack) false) := rfl
      rw [fieldTokens, List.cons_append, List.cons_append, foldlM_cons (step_key ..),
        foldlM_cons hcolon, foldlM_tokens v, ← List.reverse_cons]
      exact foldlM_cons rfl
  | (k, v) :: f :: fs =>
      have hcolon : step (.colon stack read k) .colon =
          some (.value (.member read k :: stack) false) := rfl
      have hcomma : step (deliver v (.member read k :: stack)) .comma =
          some (.key stack ((k, v) :: read) false) := rfl
      have hnext : f :: fs = [] → false = true := fun hnil => by cases hnil
      rw [fieldTokens, List.append_assoc, List.cons_append, List.cons_append,
        foldlM_cons (step_key ..), foldlM_cons hcolon, foldlM_tokens v, List.cons_append,
        foldlM_cons hcomma, foldlM_fieldTokens (f :: fs) _ _ _ _ hnext, List.reverse_cons,
        List.append_assoc, List.singleton_append]

end

end Build

theorem ofTokens?_tokens (v : Json) : ofTokens? v.tokens = some v := by
  have hbuild := Build.foldlM_tokens v [] false []
  rw [List.append_nil] at hbuild
  rw [ofTokens?, hbuild]
  rfl

/-! ## Writing -/

theorem Spells.mark {t : Token} {ts : List Token} {cs : List Char} (h : Spells ts cs)
    (hruns : t.runsOn = false) : Spells (t :: ts) (t.chars ++ cs) := by
  refine .token ?_ ?_ h
  · cases t with
    | number => cases hruns
    | _ => trivial
  · rw [hruns]
    intro hfalse
    cases hfalse

theorem Spells.key {k : Option String} {ts : List Token} {cs : List Char} (h : Spells ts cs) :
    Spells (keyToken k :: ts) (keyChars k ++ cs) := by
  cases k with
  | none => exact .mark (t := .garbled) h rfl
  | some s => exact .mark (t := .text s) h rfl

/-- A value that is one token is spelled by it. -/
theorem Proper.spells {v : Json} (hv : v.Proper) {t : Token} {ts : List Token} {cs : List Char}
    (ht : v.tokens = [t]) (hcs : Apart cs) (h : Spells ts cs) :
    Spells (v.tokens ++ ts) (t.chars ++ cs) := by
  rw [Proper, ht] at hv
  rw [ht]
  exact .token (hv t (List.mem_singleton_self t)) (fun _ => hcs) h

/-! ### Without blanks -/

mutual

theorem spells_compactChars (v : Json) (hv : v.Proper) {ts : List Token} {cs : List Char}
    (hcs : Apart cs) (h : Spells ts cs) : Spells (v.tokens ++ ts) (v.compactChars ++ cs) := by
  cases v with
  | array items =>
      have hclose := h.mark (t := .closeArray) rfl
      have hitems := spells_compactItems items (proper_array.mp hv) (apart_cons rfl) hclose
      simp only [tokens, compactChars, List.cons_append, List.append_assoc]
      exact hitems.mark (t := .openArray) rfl
  | object fields =>
      have hclose := h.mark (t := .closeObject) rfl
      have hfields := spells_compactFields fields (proper_object.mp hv) (apart_cons rfl) hclose
      simp only [tokens, compactChars, List.cons_append, List.append_assoc]
      exact hfields.mark (t := .openObject) rfl
  | _ => exact hv.spells rfl hcs h

theorem spells_compactItems (vs : List Json) (hvs : ∀ t ∈ itemTokens vs, t.Proper)
    {ts : List Token} {cs : List Char} (hcs : Apart cs) (h : Spells ts cs) :
    Spells (itemTokens vs ++ ts) (compactItems vs ++ cs) := by
  match vs with
  | [] => exact h
  | [v] => exact spells_compactChars v hvs hcs h
  | v :: w :: vs =>
      obtain ⟨hv, hrest⟩ := proper_itemTokens_cons.mp hvs
      have hnext := (spells_compactItems (w :: vs) hrest hcs h).mark (t := .comma) rfl
      rw [itemTokens, compactItems, List.append_assoc, List.append_assoc]
      exact spells_compactChars v hv (apart_cons rfl) hnext

theorem spells_compactFields (fs : List (Option String × Json))
    (hfs : ∀ t ∈ fieldTokens fs, t.Proper) {ts : List Token} {cs : List Char} (hcs : Apart cs)
    (h : Spells ts cs) : Spells (fieldTokens fs ++ ts) (compactFields fs ++ cs) := by
  match fs with
  | [] => exact h
  | [(k, v)] =>
      have hvalue := spells_compactChars v (proper_fieldTokens_singleton.mp hfs) hcs h
      rw [fieldTokens, compactFields, List.append_assoc]
      exact (hvalue.mark (t := .colon) rfl).key
  | (k, v) :: f :: fs =>
      obtain ⟨hv, hrest⟩ := proper_fieldTokens_cons.mp hfs
      have hnext := (spells_compactFields (f :: fs) hrest hcs h).mark (t := .comma) rfl
      have hvalue := spells_compactChars v hv (apart_cons rfl) hnext
      simp only [fieldTokens, compactFields, List.append_assoc, List.cons_append]
      exact (hvalue.mark (t := .colon) rfl).key

end

/-! ### On lines -/

theorem Spells.newline {ts : List Token} {cs : List Char} (h : Spells ts cs) (level : Nat) :
    Spells ts (newline level ++ cs) := by
  have hindent : ∀ n, Spells ts (List.replicate n ' ' ++ cs) := by
    intro n
    induction n with
    | zero => exact h
    | succ n ih => exact ih.blank rfl
  exact (hindent _).blank rfl

theorem apart_newline (level : Nat) (cs : List Char) : Apart (newline level ++ cs) :=
  apart_cons rfl

mutual

theorem spells_prettyChars (v : Json) (hv : v.Proper) (level : Nat) {ts : List Token}
    {cs : List Char} (hcs : Apart cs) (h : Spells ts cs) :
    Spells (v.tokens ++ ts) (v.prettyChars level ++ cs) := by
  cases v with
  | array items =>
      have hclose := h.mark (t := .closeArray) rfl
      cases items with
      | nil => exact hclose.mark (t := .openArray) rfl
      | cons v vs =>
          have hitems := spells_prettyItems (v :: vs) (proper_array.mp hv) (level + 1)
            (apart_newline level _) (hclose.newline level)
          simp only [tokens, prettyChars, List.cons_append, List.append_assoc]
          exact hitems.mark (t := .openArray) rfl
  | object fields =>
      have hclose := h.mark (t := .closeObject) rfl
      cases fields with
      | nil => exact hclose.mark (t := .openObject) rfl
      | cons f fs =>
          have hfields := spells_prettyFields (f :: fs) (proper_object.mp hv) (level + 1)
            (apart_newline level _) (hclose.newline level)
          simp only [tokens, prettyChars, List.cons_append, List.append_assoc]
          exact hfields.mark (t := .openObject) rfl
  | _ => exact hv.spells rfl hcs h

theorem spells_prettyItems (vs : List Json) (hvs : ∀ t ∈ itemTokens vs, t.Proper) (level : Nat)
    {ts : List Token} {cs : List Char} (hcs : Apart cs) (h : Spells ts cs) :
    Spells (itemTokens vs ++ ts) (prettyItems level vs ++ cs) := by
  match vs with
  | [] => exact h
  | [v] =>
      rw [itemTokens, prettyItems, List.append_assoc]
      exact (spells_prettyChars v hvs level hcs h).newline level
  | v :: w :: vs =>
      obtain ⟨hv, hrest⟩ := proper_itemTokens_cons.mp hvs
      have hnext := (spells_prettyItems (w :: vs) hrest level hcs h).mark (t := .comma) rfl
      have hvalue := spells_prettyChars v hv level (apart_cons rfl) hnext
      rw [itemTokens, prettyItems, List.append_assoc, List.append_assoc, List.append_assoc]
      exact hvalue.newline level

theorem spells_prettyFields (fs : List (Option String × Json))
    (hfs : ∀ t ∈ fieldTokens fs, t.Proper) (level : Nat) {ts : List Token} {cs : List Char}
    (hcs : Apart cs) (h : Spells ts cs) :
    Spells (fieldTokens fs ++ ts) (prettyFields level fs ++ cs) := by
  match fs with
  | [] => exact h
  | [(k, v)] =>
      have hvalue := spells_prettyChars v (proper_fieldTokens_singleton.mp hfs) level hcs h
      have hspaced : Spells (v.tokens ++ ts) (' ' :: (v.prettyChars level ++ cs)) :=
        hvalue.blank rfl
      rw [fieldTokens, prettyFields, List.append_assoc, List.append_assoc]
      exact ((hspaced.mark (t := .colon) rfl).key).newline level
  | (k, v) :: f :: fs =>
      obtain ⟨hv, hrest⟩ := proper_fieldTokens_cons.mp hfs
      have hnext := (spells_prettyFields (f :: fs) hrest level hcs h).mark (t := .comma) rfl
      have hvalue := spells_prettyChars v hv level (apart_cons rfl) hnext
      have hspaced := hvalue.blank (c := ' ') rfl
      simp only [fieldTokens, prettyFields, List.append_assoc, List.cons_append]
      exact ((hspaced.mark (t := .colon) rfl).key).newline level

end

/-! ## Both together -/

theorem read?_of_spells {v : Json} {cs : List Char} (h : Spells v.tokens cs) :
    read? (String.ofList cs) = some v := by
  rw [read?, String.toList_ofList, scan_of_spells h, Option.bind_some, ofTokens?_tokens]

theorem Proper.read?_compact {v : Json} (hv : v.Proper) : read? v.compact = some v := by
  have hspells := spells_compactChars v hv apart_nil .nil
  rw [List.append_nil, List.append_nil] at hspells
  exact read?_of_spells hspells

theorem Proper.read?_pretty {v : Json} (hv : v.Proper) : read? v.pretty = some v := by
  have hspells := spells_prettyChars v hv 0 apart_nil .nil
  rw [List.append_nil, List.append_nil] at hspells
  exact read?_of_spells hspells

end CostAudit.Json
