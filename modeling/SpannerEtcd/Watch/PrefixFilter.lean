import SpannerEtcd.Store.Like
import SpannerEtcd.Watch.RangeFilter

/-!
# The prefix filters

`List`, `Count` and `After` hand a prefix to `LIKE`, and `dispatchEvents`
compares it with the key.  `LIKE` reads three bytes of the prefix in a way of
its own: `%`, `_` and the backslash.  On every other prefix the two filters
are the literal comparison, so that a watch is replayed what it would have
been sent live; one of the three bytes anywhere in the prefix is enough for
some key to be filtered differently.
-/

namespace SpannerEtcd

/-- The filters of a prefix: each accepts the keys that begin with it, and the
query of a replay returns the rows that a dispatch accepts. -/
structure FiltersAgree (pre : Bytes) : Prop where
  sql : ∀ key, like (likePrefix pre) key = true ↔ pre <+: key
  dispatch : ∀ afterRev key, Subscription.accepts ⟨pre, afterRev⟩ key = true ↔ pre <+: key
  replay : ∀ (rows : List Row) (afterRev : Int) (row : Row),
    row ∈ afterRows rows pre (revToTS afterRev) ↔
      row ∈ rows ∧ Subscription.accepts ⟨pre, afterRev⟩ row.key = true ∧ revToTS afterRev < row.rev

/-! ## Short matches -/

/-- The text does not begin in the middle of a character. -/
def StartsChar (text : Bytes) : Prop := ∀ byte ∈ text.head?, isContinuation byte = false

@[simp]
theorem startsChar_cons (byte : Byte) (text : Bytes) :
    StartsChar (byte :: text) ↔ isContinuation byte = false := by
  simp [StartsChar]

theorem dropChar_startsChar {text rest : Bytes} (dropped : dropChar text = some rest) :
    StartsChar rest := by
  cases text with
  | nil => simp [dropChar] at dropped
  | cons byte tail =>
      simp only [dropChar, Option.ite_none_left_eq_some, Option.some.injEq] at dropped
      obtain ⟨_, rfl⟩ := dropped
      intro first found
      have stopped := List.head?_dropWhile_not isContinuation tail
      rw [Option.mem_def.mp found] at stopped
      exact stopped

/-- `x` is a character of its own. -/
theorem dropChar_x {rest : Bytes} (starts : StartsChar rest) :
    dropChar (120 :: rest) = some rest := by
  have alone : isContinuation 120 = false := by decide
  simp only [dropChar, alone, Bool.false_eq_true, if_false, Option.some.injEq]
  cases rest with
  | nil => rfl
  | cons byte tail => exact List.dropWhile_cons_of_neg (by simpa using starts)

theorem startsChar_x (text : Bytes) : StartsChar (120 :: text) :=
  (startsChar_cons _ _).mpr (by decide)

/-- What a prefix pattern accepts at all, it accepts in a text no longer than
the prefix. -/
theorem exists_short_match (pre text : Bytes) (accepted : like (likePrefix pre) text = true) :
    ∃ short, like (likePrefix pre) short = true ∧ short.length ≤ pre.length ∧
      (StartsChar text → StartsChar short) := by
  -- an escape takes two bytes of the pattern, so the induction is on the length
  induction size : pre.length using Nat.strong_induction_on generalizing pre text with
  | _ size inductionHypothesis =>
    cases pre with
    | nil => exact ⟨[], like_likePrefix_nil [], by simp, by simp [StartsChar]⟩
    | cons byte pre =>
      simp only [List.length_cons] at size
      simp only [likePrefix, List.cons_append] at accepted ⊢
      by_cases percent : byte = 37
      · subst percent
        obtain ⟨rest, _, accepted⟩ := like_percent.mp accepted
        obtain ⟨short, matched, length, _⟩ :=
          inductionHypothesis pre.length (by omega) pre rest accepted rfl
        refine ⟨120 :: short, like_percent.mpr ⟨short, List.suffix_cons _ _, matched⟩, ?_, ?_⟩
        · simpa using by omega
        · exact fun _ => startsChar_x short
      by_cases underscore : byte = 95
      · subst underscore
        obtain ⟨rest, dropped, accepted⟩ := like_underscore.mp accepted
        obtain ⟨short, matched, length, starts⟩ :=
          inductionHypothesis pre.length (by omega) pre rest accepted rfl
        have whole := dropChar_x (starts (dropChar_startsChar dropped))
        refine ⟨120 :: short, like_underscore.mpr ⟨short, whole, matched⟩, ?_, ?_⟩
        · simpa using by omega
        · exact fun _ => startsChar_x short
      by_cases backslash : byte = 92
      · subst backslash
        cases pre with
        | nil =>
            -- the escape takes the final `%` of the pattern
            obtain ⟨rest, rfl, accepted⟩ := like_escape.mp accepted
            have empty : rest = [] := by simpa [like] using accepted
            exact ⟨37 :: rest, like_escape.mpr ⟨rest, rfl, accepted⟩, by simp_all, id⟩
        | cons literal pre =>
            obtain ⟨rest, rfl, inner⟩ := like_escape.mp accepted
            simp only [List.length_cons] at size
            obtain ⟨short, matched, length, _⟩ :=
              inductionHypothesis pre.length (by omega) pre rest inner rfl
            refine ⟨literal :: short, like_escape.mpr ⟨short, rfl, matched⟩, ?_, by simp⟩
            simpa using by omega
      · have ordinary := And.intro percent (And.intro underscore backslash)
        obtain ⟨rest, rfl, inner⟩ := (like_literal ordinary).mp accepted
        obtain ⟨short, matched, length, _⟩ :=
          inductionHypothesis pre.length (by omega) pre rest inner rfl
        refine ⟨byte :: short, (like_literal ordinary).mpr ⟨short, rfl, matched⟩, ?_, by simp⟩
        simpa using by omega

/-! ## A byte that `LIKE` interprets -/

theorem exists_first_interpreted (pre : Bytes) (interpreted : ¬Literal pre) :
    ∃ front byte rest, pre = front ++ byte :: rest ∧ Literal front ∧
      (byte = 37 ∨ byte = 95 ∨ byte = 92) := by
  induction pre with
  | nil => simp [Literal] at interpreted
  | cons byte pre inductionHypothesis =>
      by_cases ordinary : byte ≠ 37 ∧ byte ≠ 95 ∧ byte ≠ 92
      · have later : ¬Literal pre := fun literal =>
          interpreted (List.forall_mem_cons.mpr ⟨ordinary, literal⟩)
        obtain ⟨front, first, rest, split, literal, special⟩ := inductionHypothesis later
        exact ⟨byte :: front, first, rest, by rw [split, List.cons_append],
          List.forall_mem_cons.mpr ⟨ordinary, literal⟩, special⟩
      · exact ⟨[], byte, pre, rfl, by simp [Literal], by tauto⟩

/-- With an interpreted byte in front, a pattern that accepts its own prefix
accepts a text that does not begin with it. -/
theorem exists_match_not_isPrefix {byte : Byte} {pre : Bytes}
    (interpreted : byte = 37 ∨ byte = 95 ∨ byte = 92)
    (own : like (likePrefix (byte :: pre)) (byte :: pre) = true) :
    ∃ text, like (likePrefix (byte :: pre)) text = true ∧ ¬(byte :: pre) <+: text := by
  simp only [likePrefix, List.cons_append] at own ⊢
  obtain rfl | rfl | rfl := interpreted
  · obtain ⟨rest, _, accepted⟩ := like_percent.mp own
    obtain ⟨short, matched, length, _⟩ := exists_short_match pre rest accepted
    refine ⟨short, like_percent.mpr ⟨short, List.suffix_rfl, matched⟩, fun begins => ?_⟩
    have longer := begins.length_le
    simp only [List.length_cons] at longer
    omega
  · obtain ⟨rest, dropped, accepted⟩ := like_underscore.mp own
    have whole := dropChar_x (dropChar_startsChar dropped)
    refine ⟨120 :: rest, like_underscore.mpr ⟨rest, whole, accepted⟩, fun begins => ?_⟩
    exact absurd (List.cons_prefix_cons.mp begins).1 (by decide)
  · cases pre with
    | nil => exact absurd own (by decide)
    | cons literal pre =>
        obtain ⟨rest, _, accepted⟩ := like_escape.mp own
        obtain ⟨short, matched, length, _⟩ := exists_short_match pre rest accepted
        refine ⟨literal :: short, like_escape.mpr ⟨short, rfl, matched⟩, fun begins => ?_⟩
        have longer := begins.length_le
        simp only [List.length_cons] at longer
        omega

theorem literal_of_filtersAgree {pre : Bytes} (agree : FiltersAgree pre) : Literal pre := by
  by_contra interpreted
  obtain ⟨front, byte, rest, rfl, literal, special⟩ := exists_first_interpreted pre interpreted
  have inner : ∀ text, like (likePrefix (byte :: rest)) text = true ↔ (byte :: rest) <+: text := by
    intro text
    have whole := agree.sql (front ++ text)
    simp only [likePrefix, List.append_assoc, like_append literal] at whole
    rw [List.prefix_append_right_inj] at whole
    rw [← whole]
    simp [likePrefix]
  obtain ⟨text, accepted, other⟩ :=
    exists_match_not_isPrefix special ((inner _).mpr List.prefix_rfl)
  exact other ((inner text).mp accepted)

theorem Literal.trimPercent {pre : Bytes} (literal : Literal pre) : trimPercent pre = pre := by
  unfold SpannerEtcd.trimPercent
  split
  next last => exact absurd rfl (literal 37 (List.mem_of_getLast? last)).1
  next => rfl

/-- The SQL filter, the literal comparison and the filter of a dispatch are
the same exactly for the prefixes without `%`, `_` and backslash. -/
theorem filters_agree_iff_literal (pre : Bytes) : FiltersAgree pre ↔ Literal pre := by
  constructor
  · exact literal_of_filtersAgree
  · intro literal
    have sql := like_likePrefix_of_literal literal
    have dispatch : ∀ afterRev key,
        Subscription.accepts ⟨pre, afterRev⟩ key = true ↔ pre <+: key := by
      intro afterRev key
      rw [accepts_iff_isPrefix, literal.trimPercent]
    refine ⟨sql, dispatch, fun rows afterRev row => ?_⟩
    simp [afterRows, sql, dispatch]

/-- The replay of a watch on `a_b` returns a row on `axb`, which a dispatch
does not accept.  With `a%` both filters accept `ab`, and with a backslash in
the prefix the query misses the very key that a dispatch accepts. -/
theorem interpreted_prefixes_disagree :
    (like (likePrefix (ascii "a_b")) (ascii "axb") = true ∧
      Subscription.accepts ⟨ascii "a_b", 5⟩ (ascii "axb") = false) ∧
    (like (likePrefix (ascii "a%")) (ascii "ab") = true ∧
      Subscription.accepts ⟨ascii "a%", 5⟩ (ascii "ab") = true ∧ ¬ascii "a%" <+: ascii "ab") ∧
    (like (likePrefix (ascii "a\\b")) (ascii "a\\b") = false ∧
      Subscription.accepts ⟨ascii "a\\b", 5⟩ (ascii "a\\b") = true) := by
  decide

end SpannerEtcd
