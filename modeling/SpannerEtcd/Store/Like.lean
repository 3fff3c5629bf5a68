import SpannerEtcd.Store.Read

/-!
# What a `LIKE` pattern accepts

`LIKE` reads three bytes of a pattern in a way of its own: `%`, `_` and the
backslash.  A prefix without them is compared literally.
-/

namespace SpannerEtcd

/-- The prefix has none of the bytes that `LIKE` interprets. -/
def Literal (pre : Bytes) : Prop := ∀ byte ∈ pre, byte ≠ 37 ∧ byte ≠ 95 ∧ byte ≠ 92

instance (pre : Bytes) : Decidable (Literal pre) := by
  unfold Literal
  infer_instance

/-! ## What a pattern accepts -/

theorem like_percent {pattern text : Bytes} :
    like (37 :: pattern) text = true ↔ ∃ rest, rest <:+ text ∧ like pattern rest = true := by
  simp [like, List.any_eq_true]

theorem like_underscore {pattern text : Bytes} :
    like (95 :: pattern) text = true ↔
      ∃ rest, dropChar text = some rest ∧ like pattern rest = true := by
  cases dropped : dropChar text <;> simp [like, dropped]

theorem like_escape {literal : Byte} {pattern text : Bytes} :
    like (92 :: literal :: pattern) text = true ↔
      ∃ rest, text = literal :: rest ∧ like pattern rest = true := by
  cases text <;> simp [like]

theorem like_literal {literal : Byte} {pattern text : Bytes}
    (ordinary : literal ≠ 37 ∧ literal ≠ 95 ∧ literal ≠ 92) :
    like (literal :: pattern) text = true ↔
      ∃ rest, text = literal :: rest ∧ like pattern rest = true := by
  cases text <;> simp [like, ordinary]

/-- A literal beginning of a pattern is read off the text. -/
theorem like_append {front : Bytes} (literal : Literal front) (pattern text : Bytes) :
    like (front ++ pattern) text = true ↔
      ∃ rest, text = front ++ rest ∧ like pattern rest = true := by
  induction front generalizing text with
  | nil => simp
  | cons byte front inductionHypothesis =>
      obtain ⟨ordinary, tail⟩ := List.forall_mem_cons.mp literal
      simp only [List.cons_append, like_literal ordinary, inductionHypothesis tail]
      constructor
      · intro ⟨_, begins, rest, same, accepted⟩
        exact ⟨rest, by rw [begins, same], accepted⟩
      · intro ⟨rest, begins, accepted⟩
        exact ⟨_, begins, rest, rfl, accepted⟩

theorem like_likePrefix_of_literal {pre : Bytes} (literal : Literal pre) (key : Bytes) :
    like (likePrefix pre) key = true ↔ pre <+: key := by
  rw [likePrefix, like_append literal]
  constructor
  · intro accepted
    obtain ⟨rest, begins, _⟩ := accepted
    exact ⟨rest, begins.symm⟩
  · intro isPrefix
    obtain ⟨rest, begins⟩ := isPrefix
    exact ⟨rest, begins.symm, like_likePrefix_nil rest⟩

end SpannerEtcd
