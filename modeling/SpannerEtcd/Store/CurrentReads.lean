import SpannerEtcd.Store.Compaction
import SpannerEtcd.Store.Range

/-!
# Current reads under concurrency

`Get` and `List` at revision 0 read the current revision first and the rows
later, capped at that revision.  The cap hides every write in between, but it
does not bring back a row that was newest when the cap was read and that a
compactor has deleted since, because a newer row was written in between.
-/

namespace SpannerEtcd

open VersionedLog

structure IsListing (rows : List Row) (pre startKey : Bytes) (kvs : List KV) : Prop where
  ascending : kvs.Pairwise fun first second => first.key < second.key
  mem_iff : ∀ kv, kv ∈ kvs ↔
    inRange pre startKey kv.key = true ∧ getLatestTxn rows kv.key = some kv

/-- A current `Get` whose first read sees `start` and whose row query sees
`finish` returns the live entry of some instant of the call. -/
structure GetLinearizable (start finish : World) (actions : List Action) (key : Bytes) :
    Prop where
  instant : ∃ instant ∈ Runs.visited World.step start actions,
    (get start.db start.db finish.db key 0).2 = .ok (getLatestTxn instant.db.kv key)
  live : (∀ instant ∈ Runs.visited World.step start actions,
      keyExistsTxn instant.db.kv key = true) →
    (get start.db start.db finish.db key 0).2 ≠ .ok none

/-- A current `List`, with the read of the compact revision in between,
returns the live entries of some single instant of the call. -/
structure ListLinearizable (start middle finish : World) (actions : List Action)
    (pre startKey : Bytes) (limit : Int) : Prop where
  instant : ∃ instant ∈ Runs.visited World.step start actions, ∃ kvs,
    IsListing instant.db.kv pre startKey kvs ∧
    (list start.db middle.db finish.db pre startKey limit 0).2.2 = .ok (limitClause limit kvs)
  live : limit ≤ 0 → ∀ key, inRange pre startKey key = true →
    (∀ instant ∈ Runs.visited World.step start actions,
      keyExistsTxn instant.db.kv key = true) →
    ∃ kvs, (list start.db middle.db finish.db pre startKey limit 0).2.2 = .ok kvs ∧
      ∃ kv ∈ kvs, kv.key = key

/-- The action deletes no row of a queried key that was the newest of its key
when the call began. -/
def KeepsNewest (start : World) (queried : Bytes → Bool) (world : World) : Action → Prop
  | .deleteBatch compactor =>
      ∀ row ∈ world.db.kv, row.id ∈ (world.compactors compactor).batch →
        queried row.key = true → latestRow start.db.kv row.key ≠ some row
  | _ => True

instance (start : World) (queried : Bytes → Bool) (world : World) (action : Action) :
    Decidable (KeepsNewest start queried world action) :=
  match action with
  | .deleteBatch _ => inferInstanceAs (Decidable (∀ row ∈ world.db.kv, _))
  | .write _ _ | .seed | .compact _ _ | .effective _ _ | .autoTick _ _ | .autoExisting _ _
  | .autoRecord _ | .scan _ _ | .giveUp _ => .isTrue trivial

/-! ## The rows a capped query needs -/

theorem newest_kept {start finish : World} {queried : Bytes → Bool} {actions : List Action}
    (guarded : Runs.Guarded World.step (KeepsNewest start queried) start actions)
    (ran : Runs.run World.step start actions = some finish) {row : Row}
    (newestRow : latestRow start.db.kv row.key = some row) (asked : queried row.key = true) :
    row ∈ finish.db.kv := by
  have preserved : ∀ world action next, KeepsNewest start queried world action →
      world.step action = some next → row ∈ world.db.kv → row ∈ next.db.kv := by
    intro world action next condition stepped membership
    by_contra missing
    obtain ⟨compactor, rfl, inBatch⟩ := step_deletes stepped membership missing
    exact condition row membership inBatch asked newestRow
  exact Runs.run_invariant_of_guarded preserved guarded ran (newest_mem newestRow)

theorem latestRowAt_current {start finish : World} (inv : start.Inv) (finishInv : finish.Inv)
    (extended : Extends start finish) {key : Bytes}
    (kept : ∀ row, latestRow start.db.kv key = some row → row ∈ finish.db.kv) :
    latestRowAt finish.db.kv key (currentRevision start.db) = latestRow start.db.kv key := by
  obtain ⟨added, grown, newer⟩ := extended.history
  have retained : latestRowAt finish.db.kv key (currentRevision start.db) =
      latestRowAt start.history key (currentRevision start.db) := by
    apply newest_eq_of_retained inv.distinctRows
    · intro row membership visible
      have inHistory := finishInv.mem_history membership
      rw [grown, List.mem_append] at inHistory
      refine inHistory.resolve_right fun inAdded => ?_
      have bound := inv.currentRevision_le_clock
      have above := newer row inAdded
      simp only [decide_eq_true_eq] at visible
      omega
    · intro row membership sameKey _ missing
      cases found : latestRow start.history key with
      | none =>
          have hidden := newest_eq_none_iff.mp found row membership sameKey
          simp at hidden
      | some best =>
          have bestMembership : best ∈ start.history := newest_mem found
          have bestKey : best.key = key := newest_key found
          have below : row.rev ≤ best.rev := newest_le found membership sameKey rfl
          refine ⟨best, bestMembership, bestKey, ?_, lt_of_le_of_ne below ?_⟩
          · simpa using inv.le_currentRevision bestMembership
          · intro sameRev
            have same := inv.distinctRows row membership best bestMembership
              (sameKey.trans bestKey.symm) sameRev
            exact missing (same ▸ kept best ((inv.latestRow_eq key).trans found))
  rw [retained, inv.latestRow_eq]
  apply newest_congr
  intro row membership _
  simpa using inv.le_currentRevision membership

theorem isListing_of_listRows {start finish : World} (finishInv : finish.Inv)
    {pre startKey : Bytes} {cap : Int}
    (agree : ∀ key, inRange pre startKey key = true →
      latestRowAt finish.db.kv key cap = latestRow start.db.kv key) :
    IsListing start.db.kv pre startKey
      ((listRows finish.db.kv pre startKey cap).map scanKV) := by
  constructor
  · rw [List.pairwise_map]
    exact listRows_pairwise finishInv.storedDistinct finishInv.storedNodup pre startKey cap
  · intro kv
    simp only [List.mem_map, mem_listRows_iff finishInv.storedDistinct]
    constructor
    · rintro ⟨row, ⟨matching, found, live⟩, rfl⟩
      refine ⟨matching, liveKV_eq_some_iff.mpr ⟨row, ?_, live, rfl⟩⟩
      exact (agree row.key matching).symm.trans found
    · rintro ⟨matching, present⟩
      obtain ⟨row, found, live, rfl⟩ := liveKV_eq_some_iff.mp present
      exact ⟨row, ⟨matching, (agree row.key matching).trans found, live⟩, rfl⟩

theorem latestRowAt_queried {start finish : World} (reachable : Reachable start)
    {queried : Bytes → Bool} {actions : List Action}
    (guarded : Runs.Guarded World.step (KeepsNewest start queried) start actions)
    (ran : Runs.run World.step start actions = some finish) {key : Bytes}
    (asked : queried key = true) :
    latestRowAt finish.db.kv key (currentRevision start.db) = latestRow start.db.kv key := by
  have inv := reachable.inv
  have extended := extends_of_effects (effects_of_reaches ⟨_, ran⟩)
  apply latestRowAt_current inv (inv.reaches ⟨_, ran⟩) extended
  intro row newestRow
  have rowKey : row.key = key := newest_key newestRow
  exact newest_kept guarded ran (rowKey ▸ newestRow) (rowKey ▸ asked)

theorem getLinearizable_of_keepsNewest {start finish : World} (reachable : Reachable start)
    {actions : List Action} (ran : Runs.run World.step start actions = some finish) {key : Bytes}
    (guarded : Runs.Guarded World.step (KeepsNewest start fun other => decide (other = key)) start
      actions) :
    GetLinearizable start finish actions key := by
  have begun : start ∈ Runs.visited World.step start actions := Runs.start_mem_visited start actions
  have found : (get start.db start.db finish.db key 0).2 =
      .ok (getLatestTxn start.db.kv key) := by
    rw [get_current, latestRowAt_queried reachable guarded ran (by simp), getLatestTxn]
  refine ⟨⟨start, begun, found⟩, ?_⟩
  intro alive absent
  have present := alive start begun
  rw [found, Except.ok.injEq] at absent
  simp [keyExistsTxn_eq_isSome, absent] at present

theorem listLinearizable_of_keepsNewest {start finish : World} (reachable : Reachable start)
    (middle : World) {actions : List Action}
    (ran : Runs.run World.step start actions = some finish) {pre startKey : Bytes} (limit : Int)
    (guarded : Runs.Guarded World.step (KeepsNewest start (inRange pre startKey)) start actions) :
    ListLinearizable start middle finish actions pre startKey limit := by
  have begun : start ∈ Runs.visited World.step start actions := Runs.start_mem_visited start actions
  have listing : IsListing start.db.kv pre startKey _ :=
    isListing_of_listRows (reachable.inv.reaches ⟨_, ran⟩)
      fun _ matching => latestRowAt_queried reachable guarded ran matching
  have found := list_current start.db middle.db finish.db pre startKey limit
  rw [← limitClause_map] at found
  refine ⟨⟨start, begun, _, listing, found⟩, ?_⟩
  intro unlimited key matching alive
  refine ⟨_, found, ?_⟩
  have present := alive start begun
  rw [keyExistsTxn_eq_isSome, Option.isSome_iff_exists] at present
  obtain ⟨kv, present⟩ := present
  have sameKey : kv.key = key := getLatestTxn_key present
  refine ⟨kv, ?_, sameKey⟩
  rw [limitClause_of_nonpos unlimited]
  exact (listing.mem_iff kv).mpr ⟨sameKey ▸ matching, sameKey ▸ present⟩

/-- When no batch deleted during the call takes a queried row that was the
newest of its key at the read of the current revision, current reads are
linearizable, at that read. -/
theorem current_reads_linearizable {start middle finish : World} (reachable : Reachable start)
    (before after : List Action)
    (reached : Runs.run World.step start before = some middle)
    (continued : Runs.run World.step middle after = some finish) :
    (∀ key,
      Runs.Guarded World.step (KeepsNewest start fun other => decide (other = key)) start
        (before ++ after) →
      GetLinearizable start finish (before ++ after) key) ∧
    ∀ pre startKey limit,
      Runs.Guarded World.step (KeepsNewest start (inRange pre startKey)) start
        (before ++ after) →
      ListLinearizable start middle finish (before ++ after) pre startKey limit := by
  have ran : Runs.run World.step start (before ++ after) = some finish :=
    Runs.run_append_eq_some.mpr ⟨middle, reached, continued⟩
  constructor
  · intro key guarded
    exact getLinearizable_of_keepsNewest reachable ran guarded
  · intro pre startKey limit guarded
    exact listLinearizable_of_keepsNewest reachable middle ran limit guarded

def createRun : List Action :=
  [.write (.create (ascii "k") (some (ascii "v")) 0) 5]

def updateRun : List Action :=
  [.write (.update (ascii "k") (some (ascii "w")) 5 0) 20]

/-- Compaction up to revision 20 deletes the first row. -/
def compactRun : List Action :=
  [.compact 0 20, .effective 0 true, .scan 0 [0], .deleteBatch 0]

/-- Compaction alone, after the update, disturbs neither call. -/
theorem compactRun_reads_linearizable :
    ∃ start finish, Runs.run World.step World.init (createRun ++ updateRun) = some start ∧
      Runs.run World.step start compactRun = some finish ∧
      GetLinearizable start finish compactRun (ascii "k") ∧
      ListLinearizable start start finish compactRun [] [] 0 :=
  ⟨_, _, rfl, rfl,
    (current_reads_linearizable ⟨createRun ++ updateRun, rfl⟩ [] compactRun rfl rfl).1
      (ascii "k") (by decide),
    (current_reads_linearizable ⟨createRun ++ updateRun, rfl⟩ [] compactRun rfl rfl).2
      [] [] 0 (by decide)⟩

/-- A key that is live throughout the call is reported missing: it is updated
and compacted between the two reads. -/
theorem get_misses_live_key :
    ∃ start finish, Runs.run World.step World.init createRun = some start ∧
      Runs.run World.step start (updateRun ++ compactRun) = some finish ∧
      (∀ instant ∈ Runs.visited World.step start (updateRun ++ compactRun),
        keyExistsTxn instant.db.kv (ascii "k") = true) ∧
      (get start.db start.db finish.db (ascii "k") 0).2 = .ok none ∧
      ¬GetLinearizable start finish (updateRun ++ compactRun) (ascii "k") := by
  refine ⟨_, _, rfl, rfl, by decide, rfl, ?_⟩
  intro linearizable
  exact linearizable.live (by decide) rfl

end SpannerEtcd
