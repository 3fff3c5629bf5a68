import SpannerEtcd.Store.Invariant

/-!
# Lifetimes in the history of a key

The rows of a key, in revision order, split into lifetimes: a lifetime starts
with a created row, every further row of it repeats the create revision and
points back to the row before, and it may end with one tombstone.
-/

namespace SpannerEtcd

open VersionedLog

/-- No row of the same key is older. -/
def OpensKey (rows : List Row) (row : Row) : Prop :=
  ∀ other ∈ rows, other.key = row.key → row.rev ≤ other.rev

/-- `row` comes directly after `before` among the rows of its key. -/
structure DirectlyAfter (rows : List Row) (before row : Row) : Prop where
  membership : before ∈ rows
  sameKey : before.key = row.key
  earlier : before.rev < row.rev
  adjacent : ∀ other ∈ rows, other.key = row.key → other.rev < row.rev → other.rev ≤ before.rev

theorem predecessor_eq_none_iff {rows : List Row} {row : Row} :
    predecessor rows row = none ↔ OpensKey rows row := by
  simp only [predecessor, newest_eq_none_iff, OpensKey, decide_eq_false_iff_not, not_lt]

theorem predecessor_eq_some_iff {rows : List Row} (distinct : Distinct Row.key Row.rev rows)
    {before row : Row} :
    predecessor rows row = some before ↔ DirectlyAfter rows before row := by
  rw [predecessor, newest_eq_some_iff distinct]
  simp only [IsNewest, decide_eq_true_eq]
  constructor
  · rintro ⟨sameKey, membership, earlier, largest⟩
    exact ⟨membership, sameKey, earlier, fun other otherMembership otherKey =>
      largest other otherMembership (otherKey.trans sameKey.symm)⟩
  · rintro ⟨membership, sameKey, earlier, adjacent⟩
    exact ⟨sameKey, membership, earlier, fun other otherMembership otherKey =>
      adjacent other otherMembership (otherKey.trans sameKey)⟩

/-- A lifetime is not younger than its rows. -/
theorem World.Inv.createRevision_le {world : World} (inv : world.Inv) {row : Row}
    (membership : row ∈ world.history) {ts : Int} (stored : row.createRevision = some ts) :
    ts ≤ row.rev := by
  -- Down the chain of predecessors, which lose revision with every link.
  generalize measured : row.rev.toNat = bound
  induction bound using Nat.strong_induction_on generalizing row with
  | h bound inductionHypothesis =>
      have begun : Begins row → ts ≤ row.rev := fun begins => by
        rw [begins.createRevision, Option.some.injEq] at stored
        exact le_of_eq stored.symm
      rcases inv.linked row membership with ⟨_, begins⟩ | ⟨_, _, _, begins⟩ |
        ⟨before, found, _, continues, _⟩
      · exact begun begins
      · exact begun begins
      · have after := (predecessor_eq_some_iff inv.distinctRows).mp found
        have positive := (inv.exact before after.membership).1
        have earlier := after.earlier
        have below := inductionHypothesis before.rev.toNat (by omega) after.membership
          (continues.createRevision ▸ stored) rfl
        exact below.trans (le_of_lt earlier)

/-- In every reachable history no two rows share key and revision, and the
rows of each key form lifetimes. -/
theorem history_lifetimes {world : World} (reachable : Reachable world) :
    (world.history.Pairwise fun first second =>
      ¬(first.key = second.key ∧ first.rev = second.rev)) ∧
    ∀ row ∈ world.history,
      ((OpensKey world.history row ∨ ∃ before,
        DirectlyAfter world.history before row ∧ before.deleted = true) → Begins row) ∧
      (∀ before, DirectlyAfter world.history before row → before.deleted = false →
        Continues before row) ∧
      (row.deleted = true → row.value = none ∧ row.leaseId = 0 ∧
        ∃ before, DirectlyAfter world.history before row ∧ before.deleted = false) := by
  have inv := reachable.inv
  refine ⟨inv.distinct, ?_⟩
  intro row membership
  simp only [← predecessor_eq_none_iff, ← predecessor_eq_some_iff inv.distinctRows]
  rcases inv.linked row membership with ⟨alone, begins⟩ | ⟨before, found, gone, begins⟩ |
    ⟨before, found, live, continues, tombstone⟩
  · refine ⟨fun _ => begins, ?_, ?_⟩
    · intro before found
      simp [alone] at found
    · intro deleted
      simp [begins.deleted] at deleted
  · refine ⟨fun _ => begins, ?_, ?_⟩
    · intro other otherFound live
      rw [found, Option.some.injEq] at otherFound
      subst other
      simp [gone] at live
    · intro deleted
      simp [begins.deleted] at deleted
  · refine ⟨?_, ?_, ?_⟩
    · rintro (alone | ⟨other, otherFound, gone⟩)
      · simp [found] at alone
      · rw [found, Option.some.injEq] at otherFound
        subst other
        simp [live] at gone
    · intro other otherFound _
      rw [found, Option.some.injEq] at otherFound
      exact otherFound ▸ continues
    · intro deleted
      obtain ⟨value, lease⟩ := tombstone deleted
      exact ⟨value, lease, before, found, live⟩

/-- A key is created, updated and deleted. -/
def lifetimeRun : List Action :=
  [.write (.create (ascii "k") (some (ascii "v")) 7) 5,
    .write (.update (ascii "k") (some (ascii "w")) 5 0) 6,
    .write (.delete (ascii "k") 0) 7]

def lifetimeWorld : World := (Runs.run World.step World.init lifetimeRun).getD World.init

theorem lifetimeWorld_lifetimes :
    lifetimeWorld.history.length = 3 ∧
    ∀ row ∈ lifetimeWorld.history, row.deleted = true → row.value = none ∧ row.leaseId = 0 ∧
      ∃ before, DirectlyAfter lifetimeWorld.history before row ∧ before.deleted = false :=
  ⟨rfl, fun row membership =>
    ((history_lifetimes ⟨lifetimeRun, rfl⟩).2 row membership).2.2⟩

/-- A world in which only the creation of `lifetimeRun` has happened. -/
def createdWorld : World :=
  (Runs.run World.step World.init (lifetimeRun.take 1)).getD World.init

theorem createdWorld_reachable : Reachable createdWorld := ⟨lifetimeRun.take 1, rfl⟩

end SpannerEtcd
