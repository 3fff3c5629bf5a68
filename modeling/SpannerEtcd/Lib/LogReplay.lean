import SpannerEtcd.Lib.VersionedLog

/-!
# Views kept by applying rows

A view shows an entry, or none, for every key, and applying a row sets the
entry of its key.  It is settled up to a revision if it shows the newest row of
every key whose newest row is not above it.  Of the other keys nothing is said:
they may show an older row or nothing.

A page of rows in the order of their revisions settles the view up to a higher
revision as soon as it holds the newest rows in between.  Rows that are
superseded may be missing from it, and rows that were applied before may be in
it again.
-/

namespace LogReplay

open VersionedLog

universe u v w x

variable {Row : Type u} {Key : Type v} {Rev : Type w} {Entry : Type x}
  [DecidableEq Key] [LinearOrder Rev]

def apply (key : Row → Key) (entry : Row → Option Entry) (view : Key → Option Entry) (row : Row) :
    Key → Option Entry :=
  Function.update view (key row) (entry row)

structure Settled (key : Row → Key) (rev : Row → Rev) (entry : Row → Option Entry)
    (wanted : Key → Prop) (history : List Row) (cursor : Rev) (view : Key → Option Entry) :
    Prop where
  shown : ∀ k row, wanted k → newest key rev (fun _ => true) history k = some row →
    rev row ≤ cursor → view k = entry row
  absent : ∀ k, wanted k → newest key rev (fun _ => true) history k = none → view k = none

variable {key : Row → Key} {rev : Row → Rev} {entry : Row → Option Entry}

section Apply

variable {rows : List Row} {view : Key → Option Entry}

omit [LinearOrder Rev] in
theorem foldl_apply_of_other {k : Key} (other : ∀ row ∈ rows, key row ≠ k) :
    rows.foldl (apply key entry) view k = view k := by
  induction rows generalizing view with
  | nil => rfl
  | cons row rest inductionHypothesis =>
      rw [List.foldl_cons, inductionHypothesis fun row member => other row (.tail _ member)]
      exact Function.update_of_ne (other row (.head _)).symm ..

/-- Rows in order leave the entry of the last one for the key. -/
theorem foldl_apply_of_highest {row : Row} (distinct : Distinct key rev rows)
    (ordered : rows.Pairwise fun first second => rev first ≤ rev second) (membership : row ∈ rows)
    (highest : ∀ other ∈ rows, key other = key row → rev other ≤ rev row) :
    rows.foldl (apply key entry) view (key row) = entry row := by
  induction rows generalizing view with
  | nil => cases membership
  | cons first rest inductionHypothesis =>
      obtain ⟨before, restOrdered⟩ := List.pairwise_cons.mp ordered
      rw [List.foldl_cons]
      by_cases again : ∃ other ∈ rest, key other = key row
      · -- a row that comes later for the same key is not lower, so it is the row itself
        obtain ⟨other, otherMembership, sameKey⟩ := again
        have inRest : row ∈ rest := by
          rcases List.mem_cons.mp membership with rfl | later
          · have same := distinct row (.head _) other (.tail _ otherMembership) sameKey.symm
              (le_antisymm (before other otherMembership)
                (highest other (.tail _ otherMembership) sameKey))
            rwa [same]
          · exact later
        apply inductionHypothesis (distinct.mono fun _ => List.mem_cons_of_mem _) restOrdered inRest
        exact fun other member => highest other (.tail _ member)
      · have last : row = first := by
          rcases List.mem_cons.mp membership with same | later
          · exact same
          · exact absurd ⟨row, later, rfl⟩ again
        subst last
        rw [foldl_apply_of_other fun other member same => again ⟨other, member, same⟩]
        exact Function.update_self ..

end Apply

section Settled

variable {wanted : Key → Prop} {history : List Row} {cursor : Rev} {view : Key → Option Entry}

/-- Rows above the cursor change nothing. -/
theorem Settled.append {added : List Row}
    (settled : Settled key rev entry wanted history cursor view)
    (distinct : Distinct key rev (history ++ added)) (above : ∀ row ∈ added, cursor < rev row) :
    Settled key rev entry wanted (history ++ added) cursor view where
  shown := by
    intro k row isWanted found below
    rcases newest_append_cases distinct found with new | old
    · exact absurd below (not_le.mpr (above row new))
    · exact settled.shown k row isWanted old below
  absent := by
    intro k isWanted missing
    apply settled.absent k isWanted
    apply newest_eq_none_iff.mpr
    exact fun row member => newest_eq_none_iff.mp missing row (List.mem_append_left added member)

theorem Settled.page {page : List Row} {next : Rev}
    (settled : Settled key rev entry wanted history cursor view)
    (distinct : Distinct key rev history) (included : ∀ row ∈ page, row ∈ history)
    (above : ∀ row ∈ page, cursor < rev row)
    (ordered : page.Pairwise fun first second => rev first ≤ rev second)
    (complete : ∀ k row, wanted k → newest key rev (fun _ => true) history k = some row →
      cursor < rev row → rev row ≤ next → row ∈ page) :
    Settled key rev entry wanted history next (page.foldl (apply key entry) view) where
  shown := by
    intro k row isWanted found below
    obtain rfl : key row = k := newest_key found
    by_cases old : rev row ≤ cursor
    · rw [foldl_apply_of_other, settled.shown _ row isWanted found old]
      intro other member sameKey
      have lower := newest_le found (included other member) sameKey rfl
      exact absurd (lower.trans old) (not_le.mpr (above other member))
    · apply foldl_apply_of_highest (distinct.mono included) ordered
        (complete _ row isWanted found (not_le.mp old) below)
      exact fun other member sameKey => newest_le found (included other member) sameKey rfl
  absent := by
    intro k isWanted missing
    rw [foldl_apply_of_other, settled.absent k isWanted missing]
    intro row member sameKey
    have hidden := newest_eq_none_iff.mp missing row (included row member) sameKey
    simp at hidden

/-- A view that is settled beyond the last row shows every key as it is. -/
theorem Settled.exact (settled : Settled key rev entry wanted history cursor view)
    (last : ∀ row ∈ history, rev row ≤ cursor) {k : Key} (isWanted : wanted k) :
    view k = (newest key rev (fun _ => true) history k).bind entry := by
  cases found : newest key rev (fun _ => true) history k with
  | none => exact settled.absent k isWanted found
  | some row => exact settled.shown k row isWanted found (last row (newest_mem found))

end Settled

end LogReplay
