import Mathlib

/-!
# Slices over a backing array

A slice is a length over an array that other slices may share.  Filtering in
place cuts the slice to length zero and appends what is kept, so the loop
overwrites the array that it is reading.
-/

universe u

structure SharedSlice (Item : Type u) where
  backing : List Item
  length : Nat
  fits : length ≤ backing.length

namespace SharedSlice

variable {Item : Type u}

def empty : SharedSlice Item :=
  { backing := [], length := 0, fits := le_refl 0 }

def toList (slice : SharedSlice Item) : List Item :=
  slice.backing.take slice.length

/-- There is room behind the slice, or the items move to a larger array. -/
def append (slice : SharedSlice Item) (item : Item) : SharedSlice Item :=
  if room : slice.length < slice.backing.length then
    { backing := slice.backing.set slice.length item
      length := slice.length + 1
      fits := by simpa using room }
  else
    { backing := slice.backing ++ [item]
      length := slice.length + 1
      fits := by simpa using slice.fits }

/-- `slice[:0]`. -/
def cut (slice : SharedSlice Item) : SharedSlice Item :=
  { slice with length := 0, fits := Nat.zero_le _ }

/-- The loop reads the item at `index` from the array into which it appends. -/
def filterLoop (keep : Item → Bool) : (rounds index : Nat) → SharedSlice Item → SharedSlice Item
  | 0, _, out => out
  | rounds + 1, index, out =>
      match out.backing[index]? with
      | none => out
      | some item => filterLoop keep rounds (index + 1) (if keep item then out.append item else out)

def filterInPlace (keep : Item → Bool) (slice : SharedSlice Item) : SharedSlice Item :=
  filterLoop keep slice.length 0 slice.cut

@[simp]
theorem toList_empty : (empty : SharedSlice Item).toList = [] := rfl

theorem append_of_room {slice : SharedSlice Item} (item : Item)
    (room : slice.length < slice.backing.length) :
    (slice.append item).backing = slice.backing.set slice.length item ∧
      (slice.append item).length = slice.length + 1 := by
  simp [append, room]

@[simp]
theorem toList_append (slice : SharedSlice Item) (item : Item) :
    (slice.append item).toList = slice.toList ++ [item] := by
  by_cases room : slice.length < slice.backing.length
  · obtain ⟨backing, length⟩ := append_of_room item room
    simp only [toList, backing, length]
    rw [List.take_add_one, List.take_set_of_le (le_refl _),
      List.getElem?_set_self room]
    rfl
  · have full : slice.backing.length = slice.length := le_antisymm (not_lt.mp room) slice.fits
    rw [append, dif_neg room, toList, toList, List.take_of_length_le full.le,
      List.take_of_length_le (by simp [full])]

/-- What lies at and behind the index has not been written yet. -/
theorem toList_filterLoop (keep : Item → Bool) (rounds index : Nat) (out : SharedSlice Item)
    (behind : out.length ≤ index) (inside : index + rounds ≤ out.backing.length) :
    (filterLoop keep rounds index out).toList =
      out.toList ++ ((out.backing.drop index).take rounds).filter keep := by
  induction rounds generalizing index out with
  | zero => simp [filterLoop]
  | succ rounds inductionHypothesis =>
      have present : index < out.backing.length := by omega
      have room : out.length < out.backing.length := by omega
      rw [filterLoop, List.getElem?_eq_getElem present, List.drop_eq_getElem_cons present,
        List.take_succ_cons]
      simp only
      by_cases kept : keep out.backing[index] = true
      · obtain ⟨backing, length⟩ := append_of_room out.backing[index] room
        rw [if_pos kept, inductionHypothesis _ _ (by omega) (by rw [backing]; simp; omega),
          toList_append, backing, List.drop_set_of_lt (by omega), List.filter_cons_of_pos kept,
          List.append_assoc, List.singleton_append]
      · rw [if_neg kept, inductionHypothesis _ _ (by omega) (by omega),
          List.filter_cons_of_neg kept]

@[simp]
theorem toList_filterInPlace (keep : Item → Bool) (slice : SharedSlice Item) :
    (slice.filterInPlace keep).toList = slice.toList.filter keep := by
  rw [filterInPlace, toList_filterLoop keep slice.length 0 slice.cut (le_refl 0)
    (by simpa [cut] using slice.fits)]
  rfl

end SharedSlice
