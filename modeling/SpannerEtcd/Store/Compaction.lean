import SpannerEtcd.Store.Invariant

/-!
# Compaction and the newest rows

Compactors delete rows by ids that they scanned in an older snapshot, while
other compactors delete the very rows that made them eligible.  What is
stable under all of this is that some newer row of the key was written; the
newest row of a key is therefore never deleted.
-/

namespace SpannerEtcd

open VersionedLog

theorem World.Inv.effects {world next : World} (inv : world.Inv)
    (reached : Relation.ReflTransGen Effect world next) : next.Inv := by
  induction reached with
  | refl => exact inv
  | tail _ effect inductionHypothesis => exact inductionHypothesis.effect effect

theorem World.Inv.newest_stored {world : World} (inv : world.Inv) {key : Bytes} {row : Row}
    (found : latestRow world.history key = some row) : row ∈ world.db.kv :=
  newest_mem ((inv.latestRow_eq key).trans found)

theorem World.Inv.currentRevision_le_clock {world : World} (inv : world.Inv) :
    currentRevision world.db ≤ world.db.clock :=
  currentRevision_le inv.storedExact inv.started
    fun row membership => inv.bounded row (inv.mem_history membership)

theorem World.Inv.le_currentRevision {world : World} (inv : world.Inv) {row : Row}
    (membership : row ∈ world.history) : row.rev ≤ currentRevision world.db := by
  cases found : latestRow world.history row.key with
  | none =>
      have hidden := newest_eq_none_iff.mp found row membership rfl
      simp at hidden
  | some best =>
      have below : row.rev ≤ best.rev := newest_le found membership rfl rfl
      exact below.trans (SpannerEtcd.le_currentRevision inv.storedExact (inv.newest_stored found))

/-- The current revision is read off the table as it would be read off the
whole history. -/
theorem World.Inv.max_rev_eq {world : World} (inv : world.Inv) :
    (world.db.kv.map Row.rev).max? = (world.history.map Row.rev).max? := by
  cases largest : (world.history.map Row.rev).max? with
  | none =>
      have empty : world.history = [] := by
        simpa using List.max?_eq_none_iff.mp largest
      have noRows : world.db.kv = [] := List.sublist_nil.mp (empty ▸ inv.stored)
      simp [noRows]
  | some ts =>
      obtain ⟨tsMembership, upper⟩ := List.max?_eq_some_iff.mp largest
      obtain ⟨row, membership, rfl⟩ := List.mem_map.mp tsMembership
      have newestOfKey : latestRow world.history row.key = some row := by
        apply (newest_eq_some_iff inv.distinctRows).mpr
        refine ⟨rfl, membership, rfl, ?_⟩
        intro other otherMembership _ _
        exact upper other.rev (List.mem_map_of_mem otherMembership)
      apply List.max?_eq_some_iff.mpr
      refine ⟨List.mem_map_of_mem (inv.newest_stored newestOfKey), ?_⟩
      intro rev revMembership
      obtain ⟨other, otherMembership, rfl⟩ := List.mem_map.mp revMembership
      exact upper other.rev (List.mem_map_of_mem (inv.mem_history otherMembership))

/-- The current revision does not move back, whatever is deleted. -/
theorem World.Inv.currentRevision_mono {world next : World} (inv : world.Inv)
    (nextInv : next.Inv) (extended : Extends world next) :
    currentRevision world.db ≤ currentRevision next.db := by
  refine currentRevision_le inv.storedExact (one_le_currentRevision next.db) ?_
  intro row membership
  exact nextInv.le_currentRevision (extended.mem_history (inv.mem_history membership))

theorem World.Inv.currentRevision_lt {world : World} (inv : world.Inv) :
    currentRevision world.db < 2 ^ 63 := by
  refine Int.lt_of_le_sub_one (currentRevision_le inv.storedExact (by decide) ?_)
  exact fun row membership => Int.le_sub_one_of_lt (inv.storedExact row membership).2

/-- A row that leaves the table was deleted with a scanned batch. -/
theorem step_deletes {world next : World} {action : Action}
    (stepped : world.step action = some next) {row : Row} (before : row ∈ world.db.kv)
    (missing : row ∉ next.db.kv) :
    ∃ compactor, action = .deleteBatch compactor ∧
      row.id ∈ (world.compactors compactor).batch := by
  cases World.step_move stepped with
  | write op ts later =>
      rcases op.apply_cases world.db ts with same | ⟨inserts, _, committed⟩
      · exact absurd (by simpa [same] using before) missing
      · exact absurd (by simp [committed, DB.commit, before]) missing
  | seed => exact absurd (by simpa [seedCompactRev_kv] using before) missing
  | compactor compactor move =>
      generalize standing : world.compactors compactor = state at move
      simp only [World.setCompactor_db] at missing
      cases move with
      | @delete targetRev ids =>
          refine ⟨compactor, rfl, ?_⟩
          simpa [standing, Compactor.batch, deleteIds, before] using missing
      | record range => exact absurd (by simpa [recordCompactRev_kv] using before) missing
      | autoRecord => exact absurd (by simpa [recordCompactRev_kv] using before) missing
      | _ => exact absurd before missing

/-- The rows of a deleted batch are gone. -/
theorem step_deleteBatch_missing {world next : World} {compactor : Nat}
    (stepped : world.step (.deleteBatch compactor) = some next) {row : Row}
    (inBatch : row.id ∈ (world.compactors compactor).batch) : row ∉ next.db.kv := by
  cases World.step_move stepped with
  | compactor other move =>
      generalize standing : world.compactors other = state at move
      cases move with
      | delete =>
          rw [standing] at inBatch
          intro found
          have outside := List.of_mem_filter found
          simp only [decide_eq_true_eq] at outside
          exact outside inBatch

theorem latestRowAt_extends {first second : World} (inv : first.Inv)
    (extended : Extends first second) {revision : Int}
    (current : revision ≤ currentRevision first.db) (key : Bytes) :
    latestRowAt second.history key revision = latestRowAt first.history key revision := by
  obtain ⟨added, grown, newer⟩ := extended.history
  have bound := inv.currentRevision_le_clock
  rw [grown]
  apply newest_append_of_hidden
  intro row membership _
  have := newer row membership
  simp only [decide_eq_false_iff_not]
  omega

/-- For any interleaving of writes and compactors, the newest row of every
key ever written stays in the table, and a step that inserts nothing leaves
`getLatestTxn`, `keyExistsTxn` and `currentRevision` as they were. -/
theorem newest_rows_survive {world : World}
    (reached : Relation.ReflTransGen Effect World.init world) :
    (∀ key row, latestRow world.history key = some row → row ∈ world.db.kv) ∧
    ∀ next, Effect world next → next.history = world.history →
      (∀ key, getLatestTxn next.db.kv key = getLatestTxn world.db.kv key) ∧
      (∀ key, keyExistsTxn next.db.kv key = keyExistsTxn world.db.kv key) ∧
      currentRevision next.db = currentRevision world.db := by
  have inv := World.init_inv.effects reached
  refine ⟨fun key row => inv.newest_stored, ?_⟩
  intro next effect sameHistory
  have nextInv := inv.effect effect
  have sameEntry : ∀ key, getLatestTxn next.db.kv key = getLatestTxn world.db.kv key :=
    congrFun (inv.getLatestTxn_of_history nextInv sameHistory)
  refine ⟨sameEntry, ?_, ?_⟩
  · intro key
    rw [keyExistsTxn_eq_isSome, keyExistsTxn_eq_isSome, sameEntry]
  · unfold currentRevision
    rw [nextInv.max_rev_eq, inv.max_rev_eq, sameHistory]

/-- A key is written twice and its first row is compacted away. -/
def compactedRun : List Action :=
  [.write (.create (ascii "k") (some (ascii "v")) 0) 5,
    .write (.update (ascii "k") (some (ascii "w")) 5 0) 6,
    .compact 0 6, .effective 0 true, .scan 0 [0], .deleteBatch 0]

def compactedWorld : World := (Runs.run World.step World.init compactedRun).getD World.init

theorem compactedWorld_newest_stored :
    compactedWorld.history.length = 2 ∧ compactedWorld.db.kv.length = 1 ∧
    ∀ key row, latestRow compactedWorld.history key = some row → row ∈ compactedWorld.db.kv :=
  ⟨rfl, rfl, (newest_rows_survive (effects_of_reaches ⟨compactedRun, rfl⟩)).1⟩

end SpannerEtcd
