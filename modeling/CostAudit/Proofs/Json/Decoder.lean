import CostAudit.Json
import Mathlib.Data.List.Forall2

/-!
# Parts of a record

What stands in a record under a name is found under it, if no name is given
to two fields; so all fields are found, in the order of the names
(`fields?_record`). The items of an array are read one by one (`list?_map`).
-/

namespace CostAudit.Json

/-! ## Single values -/

theorem below?_natural {bound n : Nat} (h : n < bound) :
    below? bound (.natural n) = some n := if_pos h

@[simp]
theorem word?_word (w : UInt64) : (word w).word? = some w := by
  rw [word?, word, below?_natural w.toNat_lt, Option.map_some]
  exact congrArg some w.ofNat_toNat

@[simp]
theorem bool?_bool (b : Bool) : (Json.bool b).bool? = some b := rfl

@[simp]
theorem text?_text (s : String) : (Json.text s).text? = some s := rfl

/-! ## Lists -/

theorem mapM_eq_some_of_forall₂ {α β : Type} {f : α → Option β} {xs : List α} {ys : List β}
    (h : List.Forall₂ (fun x y => f x = some y) xs ys) : xs.mapM f = some ys := by
  induction h with
  | nil => rfl
  | cons hx _ ih =>
      rw [List.mapM_cons, hx, ih]
      rfl

theorem list?_map {α : Type} {item? : Json → Option α} {write : α → Json}
    (h : ∀ x, item? (write x) = some x) (xs : List α) :
    (Json.array (xs.map write)).list? item? = some xs := by
  refine mapM_eq_some_of_forall₂ ?_
  rw [List.forall₂_map_left_iff, List.forall₂_same]
  exact fun x _ => h x

@[simp]
theorem list?_texts (ss : List String) : (texts ss).list? text? = some ss :=
  list?_map text?_text ss

/-! ## Records -/

section

variable {fields : List (String × Json)} {name : String} {v : Json}

theorem filter_key_eq_nil (h : name ∉ fields.map Prod.fst) :
    (fields.map fun (k, v) => (some k, v)).filter (fun f => f.1 == some name) = [] := by
  rw [List.filter_eq_nil_iff, List.forall_mem_map]
  intro f hf heq
  have hname : f.1 = name := by simpa using heq
  exact h (hname ▸ List.mem_map_of_mem hf)

/-- A value of a record is found by its name. -/
theorem field?_of_mem (hkeys : (fields.map Prod.fst).Nodup) (h : (name, v) ∈ fields) :
    field? (fields.map fun (k, v) => (some k, v)) name = some v := by
  have hfilter : (fields.map fun (k, v) => (some k, v)).filter (fun f => f.1 == some name) =
      [(some name, v)] := by
    induction fields with
    | nil => cases h
    | cons f fields ih =>
        rw [List.map_cons, List.nodup_cons] at hkeys
        rcases List.mem_cons.mp h with rfl | hrest
        · rw [List.map_cons, List.filter_cons_of_pos (by simp), filter_key_eq_nil hkeys.1]
        · have hne : f.1 ≠ name := by
            rintro rfl
            exact hkeys.1 (List.mem_map.mpr ⟨_, hrest, rfl⟩)
          rw [List.map_cons, List.filter_cons_of_neg (by simpa using hne), ih hkeys.2 hrest]
  rw [field?, hfilter]

end

/-- The fields of a record are its values, in the order of the names. -/
theorem fields?_record {names : List String} {vs : List Json} (hnames : names.Nodup)
    (hlength : names.length = vs.length) :
    fields? names (.record (names.zip vs)) = some vs := by
  have hkeys : ((names.zip vs).map Prod.fst).Nodup := by
    rwa [List.map_fst_zip (Nat.le_of_eq hlength)]
  have hnamed : ((names.zip vs).map fun (k, v) => (some k, v)).any (·.1.isNone) = false := by
    simp
  rw [record, fields?, hnamed]
  refine mapM_eq_some_of_forall₂ ?_
  rw [List.forall₂_iff_zip]
  exact ⟨hlength, fun h => field?_of_mem hkeys h⟩

end CostAudit.Json
