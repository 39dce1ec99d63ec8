import CostAudit.Proofs.Workload

/-!
# Room of the list of kept values

The list behind the kept values has room for none at first, then for four,
and doubles when it is full. What keeping values costs depends on the room
the list has when they arrive, and that is decided by every value ever
kept, those of discarded calls included: releasing and rolling back leave
the room as it is.

`enlargements` lists the growths that some number of values causes, as a
function of the length and the room alone, and `Retention.keepAll` is read
through it: the room afterwards (`capacity_keepAll`) and the overhead
(`overhead_keepAll`), which takes a growth at the whole new block.
-/

namespace CostAudit

/-- A growth of the list: its room before and after. -/
structure Enlargement where
  old : Nat
  new : Nat
  deriving DecidableEq

namespace Retention

/-- The growths of a list of some length and room while a number of values
are put into it, in order. -/
def enlargements (length room : Nat) : Nat → List Enlargement
  | 0 => []
  | count + 1 =>
    if length < room then enlargements (length + 1) room count
    else ⟨room, grownCapacity room⟩ :: enlargements (length + 1) (grownCapacity room) count

/-- The room of a list after some growths. -/
def roomAfter (room : Nat) : List Enlargement → Nat
  | [] => room
  | e :: es => roomAfter e.new es

/-- The places of the blocks that some growths allocate. -/
def newPlaces (es : List Enlargement) : Nat := (es.map Enlargement.new).sum

/-- The places of the blocks that some growths replace. -/
def oldPlaces (es : List Enlargement) : Nat := (es.map Enlargement.old).sum

theorem newPlaces_append (xs ys : List Enlargement) :
    newPlaces (xs ++ ys) = newPlaces xs + newPlaces ys := by
  simp [newPlaces]

theorem oldPlaces_append (xs ys : List Enlargement) :
    oldPlaces (xs ++ ys) = oldPlaces xs + oldPlaces ys := by
  simp [oldPlaces]

/-- The growths for the first of some values come before those for the
rest. -/
theorem enlargements_succ (length room count : Nat) :
    enlargements length room (count + 1) =
      enlargements length room 1 ++
        enlargements (length + 1) (roomAfter room (enlargements length room 1)) count := by
  simp only [enlargements]
  split <;> rfl

/-- Every growth replaces the block of the growth before it, so the new
blocks are the replaced ones and the room that was gained. -/
theorem newPlaces_enlargements (count length room : Nat) :
    room + newPlaces (enlargements length room count) =
      roomAfter room (enlargements length room count) +
        oldPlaces (enlargements length room count) := by
  induction count generalizing length room with
  | zero => rfl
  | succ n ih =>
      unfold enlargements
      split
      · exact ih (length + 1) room
      · have h := ih (length + 1) (grownCapacity room)
        simp only [newPlaces, oldPlaces, roomAfter, List.map_cons, List.sum_cons] at h ⊢
        omega

theorem le_grownCapacity (room : Nat) : room ≤ grownCapacity room := by
  unfold grownCapacity
  omega

theorem le_roomAfter_enlargements (count length room : Nat) :
    room ≤ roomAfter room (enlargements length room count) := by
  induction count generalizing length room with
  | zero => exact Nat.le_refl _
  | succ n ih =>
      unfold enlargements
      split
      · exact ih (length + 1) room
      · exact Nat.le_trans (le_grownCapacity room) (ih (length + 1) (grownCapacity room))

/-! ## Keeping values -/

/-- The bytes of some values together. -/
def bytes (sizes : List UInt64) : Nat := (sizes.map UInt64.toNat).sum

@[simp] theorem bytes_nil : bytes [] = 0 := rfl

@[simp] theorem bytes_cons (size : UInt64) (sizes : List UInt64) :
    bytes (size :: sizes) = size.toNat + bytes sizes := rfl

theorem keep_of_lt {r : Retention} (h : r.length < r.capacity) (size : UInt64) :
    r.keep size =
      { r with sizes := r.sizes.push size, overhead := satAdd r.overhead size } :=
  if_pos h

theorem keep_of_not_lt {r : Retention} (h : ¬r.length < r.capacity) (size : UInt64) :
    r.keep size =
      { sizes := r.sizes.push size
        capacity := grownCapacity r.capacity
        overhead := satAdd (satAdd r.overhead size)
          (satOfNat (grownCapacity r.capacity * slotBytes)) } :=
  if_neg h

theorem length_keep (r : Retention) (size : UInt64) :
    (r.keep size).length = r.length + 1 := by
  by_cases h : r.length < r.capacity
  · rw [keep_of_lt h]
    exact Array.size_push _
  · rw [keep_of_not_lt h]
    exact Array.size_push _

theorem keepAll_cons (r : Retention) (size : UInt64) (sizes : List UInt64) :
    r.keepAll (size :: sizes) = (r.keep size).keepAll sizes := rfl

theorem sizes_keepAll (sizes : List UInt64) (r : Retention) :
    (r.keepAll sizes).sizes.toList = r.sizes.toList ++ sizes := by
  induction sizes generalizing r with
  | nil => exact (List.append_nil _).symm
  | cons x xs ih =>
      have hkeep : (r.keep x).sizes = r.sizes.push x := by
        by_cases h : r.length < r.capacity
        · rw [keep_of_lt h]
        · rw [keep_of_not_lt h]
      rw [keepAll_cons, ih, hkeep, Array.toList_push, List.append_assoc]
      rfl

/-- The room after keeping values is the room after their growths. -/
theorem capacity_keepAll (sizes : List UInt64) (r : Retention) :
    (r.keepAll sizes).capacity =
      roomAfter r.capacity (enlargements r.length r.capacity sizes.length) := by
  induction sizes generalizing r with
  | nil => rfl
  | cons x xs ih =>
      rw [keepAll_cons, ih, length_keep, List.length_cons, enlargements]
      split
      · rename_i h
        rw [keep_of_lt h]
      · rename_i h
        rw [keep_of_not_lt h]
        rfl

/-- Keeping values charges their bytes and the whole new block of every
growth. -/
theorem overhead_keepAll (sizes : List UInt64) (r : Retention) :
    (r.keepAll sizes).overhead.toNat =
      min (r.overhead.toNat + (bytes sizes +
        slotBytes * newPlaces (enlargements r.length r.capacity sizes.length))) (2 ^ 64 - 1) := by
  induction sizes generalizing r with
  | nil =>
      have h := r.overhead.toNat_lt
      simp only [keepAll, List.foldl_nil, bytes_nil, List.length_nil, enlargements, newPlaces,
        List.map_nil, List.sum_nil]
      omega
  | cons x xs ih =>
      rw [keepAll_cons, ih, length_keep, List.length_cons, enlargements, bytes_cons]
      split
      · rename_i h
        rw [keep_of_lt h]
        simp only [toNat_satAdd]
        omega
      · rename_i h
        rw [keep_of_not_lt h]
        simp only [toNat_satAdd, toNat_satOfNat, newPlaces, List.map_cons, List.sum_cons,
          slotBytes]
        omega

end Retention

end CostAudit
