import Mathlib

/-!
# Prefixes as intervals of the lexicographic order

The words with a given prefix form an interval.  Its lower end is the prefix;
its upper end is found by dropping the trailing greatest letters and taking
the successor of the letter before them.  A prefix of greatest letters only
has no upper end.
-/

namespace PrefixRange

universe u

variable {Letter : Type u} [LinearOrder Letter]

theorem cons_le_cons_iff {first second : Letter} {left right : List Letter} :
    first :: left ≤ second :: right ↔ first < second ∨ first = second ∧ left ≤ right := by
  rw [← not_lt, List.cons_lt_cons_iff, ← not_lt, not_or, not_and, not_lt]
  constructor
  · rintro ⟨notAbove, rest⟩
    rcases notAbove.lt_or_eq with below | same
    · exact .inl below
    · exact .inr ⟨same, rest same.symm⟩
  · rintro (below | ⟨same, rest⟩)
    · exact ⟨below.le, fun same => absurd below (same ▸ lt_irrefl _)⟩
    · exact ⟨same.le, fun _ => rest⟩

theorem nil_le (word : List Letter) : [] ≤ word := by
  rw [← not_lt]
  exact List.not_lt_nil word

theorem not_cons_le_nil {letter : Letter} {word : List Letter} : ¬letter :: word ≤ [] :=
  not_le.mpr (List.nil_lt_cons letter word)

/-- The next word after another one is that word and the least letter. -/
theorem concat_bot_le_iff [OrderBot Letter] {word other : List Letter} :
    word ++ [⊥] ≤ other ↔ word < other := by
  induction word generalizing other with
  | nil =>
      cases other with
      | nil => simp [not_cons_le_nil]
      | cons letter rest =>
          refine iff_of_true (cons_le_cons_iff.mpr ?_) (List.nil_lt_cons letter rest)
          have lowest : ⊥ ≤ letter := bot_le
          rcases lowest.lt_or_eq with above | least
          · exact .inl above
          · exact .inr ⟨least, nil_le rest⟩
  | cons first word inductionHypothesis =>
      cases other with
      | nil => exact iff_of_false not_cons_le_nil (List.not_lt_nil _)
      | cons letter rest =>
          rw [List.cons_append, cons_le_cons_iff, List.cons_lt_cons_iff, inductionHypothesis]

theorem le_of_isPrefix {pre word : List Letter} (begins : pre <+: word) : pre ≤ word := by
  induction pre generalizing word with
  | nil => exact nil_le word
  | cons letter rest inductionHypothesis =>
      obtain ⟨tail, rfl⟩ := begins
      exact cons_le_cons_iff.mpr (.inr ⟨rfl, inductionHypothesis ⟨tail, rfl⟩⟩)

/-- Intervals with the same start and the same members have the same end. -/
theorem stop_unique {start stop other : List Letter} (nonempty : start < stop)
    (same : ∀ word, start ≤ word ∧ word < stop ↔ start ≤ word ∧ word < other) :
    stop = other := by
  have otherNonempty : start < other := ((same start).mp ⟨le_rfl, nonempty⟩).2
  apply le_antisymm
  · by_contra above
    exact lt_irrefl other ((same other).mp ⟨otherNonempty.le, not_le.mp above⟩).2
  · by_contra above
    exact lt_irrefl stop ((same stop).mpr ⟨nonempty.le, not_le.mp above⟩).2

section Top

variable [OrderTop Letter]

theorem replicate_top_isPrefix_iff (count : Nat) {word : List Letter} :
    List.replicate count ⊤ <+: word ↔ List.replicate count ⊤ ≤ word := by
  refine ⟨le_of_isPrefix, ?_⟩
  induction count generalizing word with
  | zero => simp
  | succ count inductionHypothesis =>
      intro below
      cases word with
      | nil => exact absurd below not_cons_le_nil
      | cons letter rest =>
          rcases cons_le_cons_iff.mp below with above | ⟨same, restBelow⟩
          · exact absurd above not_top_lt
          · exact List.cons_prefix_cons.mpr ⟨same, inductionHypothesis restBelow⟩

theorem le_replicate_top (word : List Letter) {count : Nat} (enough : word.length ≤ count) :
    word ≤ List.replicate count ⊤ := by
  induction word generalizing count with
  | nil => exact nil_le _
  | cons letter rest inductionHypothesis =>
      obtain ⟨smaller, rfl⟩ := Nat.exists_eq_add_of_lt (Nat.lt_of_lt_of_le (Nat.succ_pos _) enough)
      rw [Nat.zero_add, List.replicate_succ]
      rcases (le_top : letter ≤ ⊤).lt_or_eq with below | same
      · exact cons_le_cons_iff.mpr (.inl below)
      · refine cons_le_cons_iff.mpr (.inr ⟨same, inductionHypothesis ?_⟩)
        simpa using enough

/-- The words that begin with `pre`, then `letter`, then greatest letters lie
between that prefix and the one with the next letter in its place. -/
theorem isPrefix_iff_between {letter next : Letter} (covers : letter ⋖ next) (pre : List Letter)
    (count : Nat) {word : List Letter} :
    pre ++ letter :: List.replicate count ⊤ <+: word ↔
      pre ++ letter :: List.replicate count ⊤ ≤ word ∧ word < pre ++ [next] := by
  induction pre generalizing word with
  | nil =>
      cases word with
      | nil => simp [not_cons_le_nil]
      | cons first rest =>
          simp only [List.nil_append, List.cons_prefix_cons, cons_le_cons_iff,
            List.cons_lt_cons_iff, replicate_top_isPrefix_iff, List.not_lt_nil, and_false, or_false]
          constructor
          · rintro ⟨rfl, begins⟩
            exact ⟨.inr ⟨rfl, begins⟩, covers.lt⟩
          · rintro ⟨above | ⟨same, begins⟩, below⟩
            · exact absurd below (covers.2 above)
            · exact ⟨same, begins⟩
  | cons first rest inductionHypothesis =>
      cases word with
      | nil => simp [not_cons_le_nil]
      | cons other tail =>
          simp only [List.cons_append, List.cons_prefix_cons, cons_le_cons_iff,
            List.cons_lt_cons_iff, inductionHypothesis]
          constructor
          · rintro ⟨rfl, above, below⟩
            exact ⟨.inr ⟨rfl, above⟩, .inr ⟨rfl, below⟩⟩
          · rintro ⟨lower | ⟨rfl, above⟩, upper | ⟨same, below⟩⟩
            · exact absurd (lower.trans upper) (lt_irrefl _)
            · exact absurd lower (same ▸ lt_irrefl _)
            · exact absurd upper (lt_irrefl _)
            · exact ⟨rfl, above, below⟩

/-- A word consists of greatest letters, or they follow another letter. -/
theorem exists_trailing_top (word : List Letter) :
    (∃ count, word = List.replicate count ⊤) ∨
      ∃ pre letter count, letter ≠ ⊤ ∧ word = pre ++ letter :: List.replicate count ⊤ := by
  induction word with
  | nil => exact .inl ⟨0, rfl⟩
  | cons first rest inductionHypothesis =>
      rcases inductionHypothesis with ⟨count, rfl⟩ | ⟨pre, letter, count, smaller, rfl⟩
      · by_cases greatest : first = ⊤
        · exact .inl ⟨count + 1, by rw [greatest, List.replicate_succ]⟩
        · exact .inr ⟨[], first, count, greatest, rfl⟩
      · exact .inr ⟨first :: pre, letter, count, smaller, rfl⟩

theorem unbounded_of_replicate_top (count : Nat) (stop : List Letter) :
    ∃ word, List.replicate count ⊤ <+: word ∧ stop ≤ word := by
  refine ⟨List.replicate (count + stop.length) ⊤, ?_, le_replicate_top stop (by omega)⟩
  rw [List.replicate_add]
  exact List.prefix_append _ _

/-- The words with prefix `pre` are those from `pre` up to `stop` in exactly
the cases described at the head of this file. -/
theorem isPrefix_iff_range_iff (hasNext : ∀ letter : Letter, letter ≠ ⊤ → ∃ next, letter ⋖ next)
    {pre stop : List Letter} :
    (∀ word, pre <+: word ↔ pre ≤ word ∧ word < stop) ↔
      ∃ front letter next count, letter ⋖ next ∧
        pre = front ++ letter :: List.replicate count ⊤ ∧ stop = front ++ [next] := by
  constructor
  · intro range
    rcases exists_trailing_top pre with ⟨count, rfl⟩ | ⟨front, letter, count, smaller, rfl⟩
    · obtain ⟨word, begins, above⟩ := unbounded_of_replicate_top count stop
      exact absurd ((range word).mp begins).2 (not_lt.mpr above)
    · obtain ⟨next, covers⟩ := hasNext letter smaller
      refine ⟨front, letter, next, count, covers, rfl, ?_⟩
      refine stop_unique ((range _).mp List.prefix_rfl).2 fun word => ?_
      rw [← range, isPrefix_iff_between covers]
  · rintro ⟨front, letter, next, count, covers, rfl, rfl⟩ word
    exact isPrefix_iff_between covers front count

end Top

end PrefixRange
