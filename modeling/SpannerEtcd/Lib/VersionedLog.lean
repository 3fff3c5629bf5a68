import Mathlib

/-!
# Versioned logs

A versioned log holds rows with a key and a revision.  A reader of a key sees
the newest row among the revisions visible to it; the current value and every
historical value are instances of this one read, for different sets of
visible revisions.

The central fact is `newest_eq_of_retained`: physical deletion is invisible
to a reader whenever every deleted row that it could see is superseded by a
row that it can see as well.
-/

namespace VersionedLog

universe u v w

variable {Row : Type u} {Key : Type v} {Rev : Type w}
  [DecidableEq Key] [LinearOrder Rev]
  (key : Row → Key) (rev : Row → Rev)

/-- The newest row of a key among the visible revisions. -/
def newest (visible : Rev → Bool) (rows : List Row) (k : Key) : Option Row :=
  (rows.filter fun row => decide (key row = k) && visible (rev row)).argmax rev

def Distinct (rows : List Row) : Prop :=
  ∀ first ∈ rows, ∀ second ∈ rows,
    key first = key second → rev first = rev second → first = second

/-- What a reader needs to know about the newest visible row. -/
def IsNewest (visible : Rev → Bool) (rows : List Row) (row : Row) : Prop :=
  row ∈ rows ∧ visible (rev row) = true ∧
    ∀ other ∈ rows, key other = key row → visible (rev other) = true →
      rev other ≤ rev row

variable {key rev} {visible : Rev → Bool} {rows : List Row} {k : Key} {row : Row}

omit [DecidableEq Key] [LinearOrder Rev] in
theorem Distinct.mono {larger : List Row} (distinct : Distinct key rev larger)
    (included : ∀ row ∈ rows, row ∈ larger) : Distinct key rev rows :=
  fun first firstMembership second secondMembership =>
    distinct first (included first firstMembership) second (included second secondMembership)

theorem newest_eq_none_iff :
    newest key rev visible rows k = none ↔
      ∀ row ∈ rows, key row = k → visible (rev row) = false := by
  simp only [newest, List.argmax_eq_none, List.filter_eq_nil_iff, Bool.and_eq_true,
    decide_eq_true_eq, not_and, Bool.not_eq_true]

theorem isNewest_of_newest (found : newest key rev visible rows k = some row) :
    key row = k ∧ IsNewest key rev visible rows row := by
  have membership := List.argmax_mem found
  have largest := fun other => List.le_of_mem_argmax (a := other) (m := row) (f := rev)
    (l := rows.filter fun row => decide (key row = k) && visible (rev row))
  simp only [List.mem_filter, Bool.and_eq_true, decide_eq_true_eq] at membership largest
  refine ⟨membership.2.1, membership.1, membership.2.2, ?_⟩
  intro other otherMembership sameKey otherVisible
  exact largest other ⟨otherMembership, sameKey.trans membership.2.1, otherVisible⟩ found

theorem newest_mem (found : newest key rev visible rows k = some row) : row ∈ rows :=
  (isNewest_of_newest found).2.1

theorem newest_key (found : newest key rev visible rows k = some row) : key row = k :=
  (isNewest_of_newest found).1

theorem newest_visible (found : newest key rev visible rows k = some row) :
    visible (rev row) = true :=
  (isNewest_of_newest found).2.2.1

theorem newest_le (found : newest key rev visible rows k = some row)
    {other : Row} (membership : other ∈ rows) (sameKey : key other = k)
    (otherVisible : visible (rev other) = true) : rev other ≤ rev row := by
  obtain ⟨rowKey, newestRow⟩ := isNewest_of_newest found
  exact newestRow.2.2 other membership (sameKey.trans rowKey.symm) otherVisible

/-- Only what the reader sees of the key's own rows matters. -/
theorem newest_congr {other : Rev → Bool}
    (agree : ∀ row ∈ rows, key row = k → visible (rev row) = other (rev row)) :
    newest key rev visible rows k = newest key rev other rows k := by
  unfold newest
  congr 1
  apply List.filter_congr
  intro row membership
  by_cases sameKey : key row = k
  · simp [sameKey, agree row membership sameKey]
  · simp [sameKey]

/-- In a log without repetitions the newest visible row is characterised by
being maximal. -/
theorem newest_eq_some_iff (distinct : Distinct key rev rows) :
    newest key rev visible rows k = some row ↔
      key row = k ∧ IsNewest key rev visible rows row := by
  constructor
  · exact isNewest_of_newest
  · rintro ⟨rfl, membership, rowVisible, largest⟩
    cases found : newest key rev visible rows (key row) with
    | none =>
        have hidden := newest_eq_none_iff.mp found row membership rfl
        simp [rowVisible] at hidden
    | some other =>
        have above := newest_le found membership rfl rowVisible
        have below := largest other (newest_mem found) (newest_key found)
          (newest_visible found)
        rw [distinct other (newest_mem found) row membership (newest_key found)
          (le_antisymm below above)]

/-- Physical deletion is invisible to a reader when every row it could see
and no longer finds was superseded by another row it could see. -/
theorem newest_eq_of_retained {stored history : List Row}
    (distinct : Distinct key rev history)
    (included : ∀ row ∈ stored, visible (rev row) = true → row ∈ history)
    (retained : ∀ row ∈ history, key row = k → visible (rev row) = true → row ∉ stored →
      ∃ newer ∈ history, key newer = k ∧ visible (rev newer) = true ∧ rev row < rev newer) :
    newest key rev visible stored k = newest key rev visible history k := by
  cases found : newest key rev visible history k with
  | none =>
      apply newest_eq_none_iff.mpr
      intro row membership sameKey
      by_contra notHidden
      have shown : visible (rev row) = true := by simpa using notHidden
      have hidden := newest_eq_none_iff.mp found row (included row membership shown) sameKey
      simp [shown] at hidden
  | some best =>
      have bestStored : best ∈ stored := by
        by_contra missing
        rcases retained best (newest_mem found) (newest_key found) (newest_visible found)
          missing with ⟨newer, newerMembership, newerKey, newerVisible, above⟩
        exact absurd (newest_le found newerMembership newerKey newerVisible) (not_le.mpr above)
      cases storedFound : newest key rev visible stored k with
      | none =>
          have hidden := newest_eq_none_iff.mp storedFound best bestStored (newest_key found)
          simp [newest_visible found] at hidden
      | some other =>
          have otherMembership := included other (newest_mem storedFound)
            (newest_visible storedFound)
          have above := newest_le storedFound bestStored (newest_key found)
            (newest_visible found)
          have below := newest_le found otherMembership (newest_key storedFound)
            (newest_visible storedFound)
          rw [distinct other otherMembership best (newest_mem found)
            ((newest_key storedFound).trans (newest_key found).symm) (le_antisymm below above)]

theorem newest_append_of_hidden {added : List Row}
    (hidden : ∀ row ∈ added, key row = k → visible (rev row) = false) :
    newest key rev visible (rows ++ added) k = newest key rev visible rows k := by
  have nothing : (added.filter fun row => decide (key row = k) && visible (rev row)) = [] := by
    simp only [List.filter_eq_nil_iff, Bool.and_eq_true, decide_eq_true_eq, not_and]
    intro row membership sameKey
    simp [hidden row membership sameKey]
  simp [newest, nothing]

theorem newest_append_of_lt {added : List Row}
    (distinct : Distinct key rev (rows ++ added))
    (membership : row ∈ added) (rowVisible : visible (rev row) = true)
    (newer : ∀ old ∈ rows, key old = key row → rev old ≤ rev row)
    (largest : ∀ other ∈ added, key other = key row → rev other ≤ rev row) :
    newest key rev visible (rows ++ added) (key row) = some row := by
  apply (newest_eq_some_iff distinct).mpr
  refine ⟨rfl, List.mem_append_right rows membership, rowVisible, ?_⟩
  intro other otherMembership sameKey _
  rcases List.mem_append.mp otherMembership with old | new
  · exact newer other old sameKey
  · exact largest other new sameKey

/-- The newest row of a longer log is new, or it was the newest before. -/
theorem newest_append_cases {added : List Row} (distinct : Distinct key rev (rows ++ added))
    (found : newest key rev visible (rows ++ added) k = some row) :
    row ∈ added ∨ newest key rev visible rows k = some row := by
  rcases List.mem_append.mp (newest_mem found) with old | new
  · right
    apply (newest_eq_some_iff (distinct.mono fun _ => List.mem_append_left added)).mpr
    refine ⟨newest_key found, old, newest_visible found, ?_⟩
    intro other membership sameKey otherVisible
    exact newest_le found (List.mem_append_left added membership)
      (sameKey.trans (newest_key found)) otherVisible
  · exact .inl new

end VersionedLog
