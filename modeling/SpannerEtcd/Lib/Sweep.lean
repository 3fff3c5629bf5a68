import Mathlib

/-!
# Removal in batches

Items that are due are removed in batches of a bounded size, chosen freely,
until a batch is short.  Whether an item is due may depend on the other items.
If removing items that are due changes nothing for those that stay, then what
remains in the end does not depend on the choices.
-/

namespace Sweep

universe u v

variable {Item : Type u} {Id : Type v}

/-- A choice of items that are due, as many as fit into a batch. -/
def IsBatch (identify : Item → Id) (due : List Item → Item → Bool) (size : Nat)
    (items : List Item) (ids : List Id) : Prop :=
  ids.Nodup ∧ (∀ id ∈ ids, id ∈ (items.filter (due items)).map identify) ∧
    ids.length = min size ((items.filter (due items)).map identify).length

/-- What is left of `items` when only items that were due have been removed. -/
structure Remains (due : List Item → Item → Bool) (items rest : List Item) : Prop where
  sublist : rest.Sublist items
  kept : ∀ item ∈ items, due items item = false → item ∈ rest

/-- Removing what is due does not make anything else due, or no longer due. -/
def Stable (due : List Item → Item → Bool) (items : List Item) : Prop :=
  ∀ rest, Remains due items rest → ∀ item ∈ rest, due rest item = due items item

variable {identify : Item → Id} {due : List Item → Item → Bool} {size : Nat}
  {items rest : List Item} {ids : List Id}

theorem Remains.refl (due : List Item → Item → Bool) (items : List Item) :
    Remains due items items :=
  ⟨List.Sublist.refl items, fun _ membership _ => membership⟩

theorem Remains.filter_eq (remains : Remains due items rest)
    (distinct : (items.map identify).Nodup) :
    rest.filter (fun item => !due items item) = items.filter fun item => !due items item := by
  have smaller := remains.sublist.filter fun item => !due items item
  apply smaller.eq_of_length_le
  have distinctItems : (items.filter fun item => !due items item).Nodup :=
    distinct.of_map.filter _
  apply (List.subperm_of_subset distinctItems _).length_le
  intro item found
  obtain ⟨membership, notDue⟩ := List.mem_filter.mp found
  exact List.mem_filter.mpr ⟨remains.kept item membership (by simpa using notDue), notDue⟩

namespace IsBatch

variable (batch : IsBatch identify due size items ids)

include batch

/-- An item that a batch names is due. -/
theorem due_of_mem (distinct : (items.map identify).Nodup) {item : Item}
    (membership : item ∈ items) (chosen : identify item ∈ ids) : due items item = true := by
  obtain ⟨other, inFilter, same⟩ := List.mem_map.mp (batch.2.1 _ chosen)
  obtain ⟨inItems, isDue⟩ := List.mem_filter.mp inFilter
  rwa [← List.inj_on_of_nodup_map distinct inItems membership same]

/-- A batch that is not full names everything that is due. -/
theorem mem_of_due (short : ids.length < size) {item : Item} (membership : item ∈ items)
    (isDue : due items item = true) : identify item ∈ ids := by
  have all : ids.length = ((items.filter (due items)).map identify).length := by
    have number := batch.2.2
    omega
  have same : ids.Perm ((items.filter (due items)).map identify) :=
    (List.subperm_of_subset batch.1 batch.2.1).perm_of_length_le all.ge
  exact same.mem_iff.mpr (List.mem_map_of_mem (List.mem_filter.mpr ⟨membership, isDue⟩))

end IsBatch

section Remove

variable [DecidableEq Id]

/-- The items whose identifier is not listed. -/
def remove (identify : Item → Id) (ids : List Id) (items : List Item) : List Item :=
  items.filter fun item => decide (identify item ∉ ids)

theorem mem_remove {item : Item} :
    item ∈ remove identify ids items ↔ item ∈ items ∧ identify item ∉ ids := by
  simp [remove]

/-- Removing a batch takes as many items as the batch names. -/
theorem IsBatch.length_remove (batch : IsBatch identify due size items ids)
    (distinct : (items.map identify).Nodup) :
    (remove identify ids items).length + ids.length = items.length := by
  have taken : ((items.map identify).filter fun id => decide (id ∈ ids)).Perm ids := by
    apply (List.perm_ext_iff_of_nodup (distinct.filter _) batch.1).mpr
    intro id
    rw [List.mem_filter, decide_eq_true_eq]
    refine ⟨fun found => found.2, fun chosen => ⟨?_, chosen⟩⟩
    obtain ⟨item, inFilter, rfl⟩ := List.mem_map.mp (batch.2.1 id chosen)
    exact List.mem_map_of_mem (List.mem_filter.mp inFilter).1
  have number := taken.length_eq
  rw [List.filter_map, List.length_map] at number
  have split := List.length_eq_length_filter_add (l := items) fun item =>
    decide (identify item ∈ ids)
  simp only [remove, ← number, decide_not]
  simp only [Function.comp_def] at split ⊢
  omega

/-- What remains after a batch still remains of the items at the start. -/
theorem Remains.remove (remains : Remains due items rest) (stable : Stable due items)
    (distinct : (items.map identify).Nodup) (batch : IsBatch identify due size rest ids) :
    Remains due items (Sweep.remove identify ids rest) := by
  refine ⟨List.filter_sublist.trans remains.sublist, ?_⟩
  intro item membership notDue
  have inRest := remains.kept item membership notDue
  refine mem_remove.mpr ⟨inRest, fun chosen => ?_⟩
  have isDue := batch.due_of_mem (distinct.sublist (remains.sublist.map identify)) inRest chosen
  rw [stable rest remains item inRest, notDue] at isDue
  cases isDue

/-- A short batch leaves what was not due at the start. -/
theorem Remains.remove_short (remains : Remains due items rest) (stable : Stable due items)
    (distinct : (items.map identify).Nodup) (batch : IsBatch identify due size rest ids)
    (short : ids.length < size) :
    Sweep.remove identify ids rest = items.filter fun item => !due items item := by
  have restDistinct := distinct.sublist (remains.sublist.map identify)
  rw [← remains.filter_eq distinct]
  apply List.filter_congr
  intro item inRest
  rw [← stable rest remains item inRest]
  cases isDue : due rest item with
  | true => simp [batch.mem_of_due short inRest isDue]
  | false =>
      have outside : identify item ∉ ids := fun chosen => by
        rw [batch.due_of_mem restDistinct inRest chosen] at isDue
        cases isDue
      simp [outside]

end Remove

end Sweep
