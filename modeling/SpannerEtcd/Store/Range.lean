import SpannerEtcd.Store.Read

/-!
# What range reads return

The join of `List` and `Count` selects exactly the rows that a point read of
their key would find.  Two tables with the same point reads therefore have
the same range reads.
-/

namespace SpannerEtcd

open VersionedLog

/-- The revision a key is joined with is that of its newest row. -/
theorem max_rev_eq_some_iff {rows : List Row} (distinct : Distinct Row.key Row.rev rows)
    {row : Row} {cap : Int} (membership : row ∈ rows) :
    ((rows.filter fun other => decide (other.key = row.key) &&
        decide (other.rev ≤ cap)).map Row.rev).max? = some row.rev ↔
      latestRowAt rows row.key cap = some row := by
  rw [List.max?_eq_some_iff, latestRowAt, newest_eq_some_iff distinct]
  simp only [List.mem_map, List.mem_filter, Bool.and_eq_true, decide_eq_true_eq, IsNewest,
    true_and, forall_exists_index, and_imp]
  constructor
  · rintro ⟨⟨other, ⟨_, _, capped⟩, sameRev⟩, largest⟩
    refine ⟨membership, sameRev ▸ capped, ?_⟩
    intro another anotherMembership anotherKey anotherCapped
    exact largest another.rev another anotherMembership anotherKey anotherCapped rfl
  · rintro ⟨_, capped, largest⟩
    refine ⟨⟨row, ⟨membership, rfl, capped⟩, rfl⟩, ?_⟩
    rintro rev another anotherMembership anotherKey anotherCapped rfl
    exact largest another anotherMembership anotherKey anotherCapped

theorem mem_joinedRows_iff {rows : List Row} (distinct : Distinct Row.key Row.rev rows)
    {pre startKey : Bytes} {cap : Int} {row : Row} :
    row ∈ joinedRows rows pre startKey cap ↔
      inRange pre startKey row.key = true ∧ latestRowAt rows row.key cap = some row ∧
        row.deleted = false := by
  simp only [joinedRows, List.mem_filter, Bool.and_eq_true, decide_eq_true_eq,
    Bool.not_eq_true']
  constructor
  · rintro ⟨membership, ⟨matching, joined⟩, live⟩
    exact ⟨matching, (max_rev_eq_some_iff distinct membership).mp joined, live⟩
  · rintro ⟨matching, found, live⟩
    have membership : row ∈ rows := newest_mem found
    exact ⟨membership, ⟨matching, (max_rev_eq_some_iff distinct membership).mpr found⟩, live⟩

theorem joinedRows_nodup {rows : List Row} (nodup : rows.Nodup) (pre startKey : Bytes)
    (cap : Int) : (joinedRows rows pre startKey cap).Nodup :=
  nodup.filter _

theorem mem_listRows_iff {rows : List Row} (distinct : Distinct Row.key Row.rev rows)
    {pre startKey : Bytes} {cap : Int} {row : Row} :
    row ∈ listRows rows pre startKey cap ↔
      inRange pre startKey row.key = true ∧ latestRowAt rows row.key cap = some row ∧
        row.deleted = false := by
  rw [listRows, List.mem_insertionSort, mem_joinedRows_iff distinct]

theorem listRows_pairwise {rows : List Row} (distinct : Distinct Row.key Row.rev rows)
    (nodup : rows.Nodup) (pre startKey : Bytes) (cap : Int) :
    (listRows rows pre startKey cap).Pairwise fun first second => first.key < second.key := by
  have ordered : (listRows rows pre startKey cap).Pairwise
      fun first second => first.key ≤ second.key :=
    List.pairwise_insertionSort _ _
  have unrepeated : (listRows rows pre startKey cap).Nodup :=
    (List.perm_insertionSort _ _).nodup_iff.mpr (joinedRows_nodup nodup pre startKey cap)
  refine (ordered.and unrepeated).imp_of_mem ?_
  rintro first second firstMembership secondMembership ⟨below, different⟩
  refine lt_of_le_of_ne below fun sameKey => different ?_
  have firstFound := ((mem_listRows_iff distinct).mp firstMembership).2.1
  have secondFound := ((mem_listRows_iff distinct).mp secondMembership).2.1
  rw [sameKey, secondFound, Option.some.injEq] at firstFound
  exact firstFound.symm

/-- Tables that agree on all point reads agree on range reads. -/
theorem joinedRows_perm {left right : List Row}
    (leftDistinct : Distinct Row.key Row.rev left)
    (rightDistinct : Distinct Row.key Row.rev right)
    (leftNodup : left.Nodup) (rightNodup : right.Nodup)
    {pre startKey : Bytes} {cap : Int}
    (agree : ∀ key, inRange pre startKey key = true →
      latestRowAt left key cap = latestRowAt right key cap) :
    (joinedRows left pre startKey cap).Perm (joinedRows right pre startKey cap) := by
  apply (List.perm_ext_iff_of_nodup (joinedRows_nodup leftNodup pre startKey cap)
    (joinedRows_nodup rightNodup pre startKey cap)).mpr
  intro row
  rw [mem_joinedRows_iff leftDistinct, mem_joinedRows_iff rightDistinct]
  constructor
  · rintro ⟨matching, found, live⟩
    exact ⟨matching, (agree row.key matching) ▸ found, live⟩
  · rintro ⟨matching, found, live⟩
    exact ⟨matching, (agree row.key matching).trans found, live⟩

theorem eq_of_perm_of_ascending {left right : List Row}
    (same : left.Perm right)
    (leftAscending : left.Pairwise fun first second => first.key < second.key)
    (rightAscending : right.Pairwise fun first second => first.key < second.key) :
    left = right :=
  List.Perm.eq_of_pairwise
    (fun _ _ _ _ below above => absurd (below.trans above) (lt_irrefl _))
    leftAscending rightAscending same

theorem listRows_congr {left right : List Row}
    (leftDistinct : Distinct Row.key Row.rev left)
    (rightDistinct : Distinct Row.key Row.rev right)
    (leftNodup : left.Nodup) (rightNodup : right.Nodup)
    {pre startKey : Bytes} {cap : Int}
    (agree : ∀ key, inRange pre startKey key = true →
      latestRowAt left key cap = latestRowAt right key cap) :
    listRows left pre startKey cap = listRows right pre startKey cap := by
  refine eq_of_perm_of_ascending ?_ (listRows_pairwise leftDistinct leftNodup pre startKey cap)
    (listRows_pairwise rightDistinct rightNodup pre startKey cap)
  exact (List.perm_insertionSort _ _).trans
    ((joinedRows_perm leftDistinct rightDistinct leftNodup rightNodup agree).trans
      (List.perm_insertionSort _ _).symm)

end SpannerEtcd
