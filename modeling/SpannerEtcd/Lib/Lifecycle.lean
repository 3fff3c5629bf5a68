import Mathlib

/-!
# Lifecycles in a log

The items of a log belong to keys.  Some items open the key that they belong
to, some close it, and some carry data.  The items of one key are orderly if
the key is opened once and first, closed at most once, and carries nothing
after it was closed.
-/

namespace Lifecycle

universe u v

structure Marks (Item : Type u) (Key : Type v) where
  key : Item → Key
  opens : Item → Bool
  closes : Item → Bool
  carries : Item → Bool

variable {Item : Type u} {Key : Type v} (marks : Marks Item Key)

/-- The items of one key, in the order of the log. -/
def own [DecidableEq Key] (log : List Item) (key : Key) : List Item :=
  log.filter fun item => marks.key item = key

/-- Nothing is asked of the items of a key that was never opened. -/
structure Orderly (items : List Item) : Prop where
  openedOnce : items.countP marks.opens ≤ 1
  openedFirst : (∃ item ∈ items, marks.opens item = true) →
    ∃ first, items.head? = some first ∧ marks.opens first = true
  closedOnce : (∃ item ∈ items, marks.opens item = true) → items.countP marks.closes ≤ 1
  silent : (∃ item ∈ items, marks.opens item = true) →
    items.Pairwise fun earlier later => marks.closes earlier = true → marks.carries later = false

/-- A key that has been opened, and possibly closed. -/
structure Opened (items : List Item) : Prop where
  opening : ∃ first rest, items = first :: rest ∧ marks.opens first = true ∧
    ∀ item ∈ rest, marks.opens item = false
  closedOnce : items.countP marks.closes ≤ 1
  silent : items.Pairwise fun earlier later =>
    marks.closes earlier = true → marks.carries later = false

/-- A key that is open. -/
structure Open (items : List Item) : Prop extends Opened marks items where
  unclosed : ∀ item ∈ items, marks.closes item = false

variable {marks}

theorem Orderly.nil : Orderly marks [] where
  openedOnce := Nat.zero_le 1
  openedFirst := by simp
  closedOnce := by simp
  silent := by simp

theorem Opened.orderly {items : List Item} (opened : Opened marks items) : Orderly marks items where
  openedOnce := by
    obtain ⟨first, rest, rfl, opens, others⟩ := opened.opening
    have none : rest.countP marks.opens = 0 := List.countP_eq_zero.mpr (by simpa using others)
    simp [opens, none]
  openedFirst _ := by
    obtain ⟨first, rest, rfl, opens, others⟩ := opened.opening
    exact ⟨first, rfl, opens⟩
  closedOnce _ := opened.closedOnce
  silent _ := opened.silent

/-- A first item opens the key. -/
theorem Open.start {item : Item} (opens : marks.opens item = true)
    (unclosed : marks.closes item = false) : Open marks [item] where
  opening := ⟨item, [], rfl, opens, by simp⟩
  closedOnce := List.countP_le_length
  silent := List.pairwise_singleton _ _
  unclosed := by simpa using unclosed

/-- While the key is open any item may follow that does not open it again. -/
theorem Open.append {items : List Item} (isOpen : Open marks items) {item : Item}
    (opens : marks.opens item = false) : Opened marks (items ++ [item]) where
  opening := by
    obtain ⟨first, rest, rfl, firstOpens, others⟩ := isOpen.opening
    refine ⟨first, rest ++ [item], rfl, firstOpens, ?_⟩
    exact List.forall_mem_append.mpr ⟨others, List.forall_mem_singleton.mpr opens⟩
  closedOnce := by
    have none : items.countP marks.closes = 0 :=
      List.countP_eq_zero.mpr (by simpa using isOpen.unclosed)
    rw [List.countP_append, none, Nat.zero_add]
    exact List.countP_le_length
  silent := by
    refine List.pairwise_append.mpr ⟨isOpen.silent, List.pairwise_singleton _ _, ?_⟩
    intro earlier membership later _ closes
    rw [isOpen.unclosed earlier membership] at closes
    cases closes

/-- It stays open if the item does not close it. -/
theorem Open.extend {items : List Item} (isOpen : Open marks items) {item : Item}
    (opens : marks.opens item = false) (closes : marks.closes item = false) :
    Open marks (items ++ [item]) where
  toOpened := isOpen.append opens
  unclosed :=
    List.forall_mem_append.mpr ⟨isOpen.unclosed, List.forall_mem_singleton.mpr closes⟩

section

variable [DecidableEq Key] {log : List Item} {key : Key}

theorem own_eq_nil (foreign : ∀ item ∈ log, marks.key item ≠ key) :
    own marks log key = [] := by
  simpa [own, List.filter_eq_nil_iff] using foreign

theorem own_append_own {items : List Item} (same : ∀ item ∈ items, marks.key item = key) :
    own marks (log ++ items) key = own marks log key ++ items := by
  have all : items.filter (fun item => marks.key item = key) = items := by
    simpa [List.filter_eq_self] using same
  rw [own, List.filter_append, all, own]

theorem own_append_foreign {items : List Item} (foreign : ∀ item ∈ items, marks.key item ≠ key) :
    own marks (log ++ items) key = own marks log key := by
  have none : items.filter (fun item => marks.key item = key) = [] := own_eq_nil foreign
  rw [own, List.filter_append, none, List.append_nil, own]

end

end Lifecycle
