import SpannerEtcd.Store.EventReads
import SpannerEtcd.Watch.SubscriberOrder

/-!
# The pages of a replay

A subscription with a start revision replays the log in pages of
`pollBatchSize` events; each query goes on above the revision of the last event
of the page before.  A transaction commits all its keys at one revision, so a
page can end between two rows that the next query does not tell apart.
-/

namespace SpannerEtcd

/-- One round of the replay loop: what it sends, and the revision above which
the next one goes on. -/
def replayRound (replayRev : Int) (answer : Except StoreErr (List Event)) :
    List (List Event) × Option Int :=
  match afterPage replayRev answer with
  | .sending replayRev events =>
      match afterSend replayRev events with
      | .paging next _ => ([events], some next)
      | _ => ([events], none)
  | _ => ([], none)

/-- The pages that a subscription replays while nothing commits; `order` is the
order in which Spanner returns the rows of each query. -/
def replay (db : DB) (order : Int → List Row) (fuel : Nat) (afterRev : Int) :
    Option (List (List Event)) :=
  if afterRev = 0 then some []
  else if compactRevision db > 1 ∧ afterRev ≤ compactRevision db then some []
  else
    Paging.collect (fun replayRev =>
      replayRound replayRev (after db db (order replayRev) replayRev pollBatchSize).2) fuel
      (afterRev - 1)

/-- The replay ends, and its pages hold the event of each committed row that
matches exactly once. -/
def ReplaysOnce (world : World) (pre : Bytes) (start : Int) (order : Int → List Row) : Prop :=
  ∃ enough pages, (∀ fuel ≥ enough, replay world.db order fuel start = some pages) ∧
    ∀ row ∈ world.history, like (likePrefix pre) row.key = true → start ≤ row.rev →
      pages.flatten.count (rowEvent row) = 1

/-- The revisions of the committed rows that a replay must send. -/
def World.replayRevs (world : World) (pre : Bytes) (start : Int) : List Int :=
  (world.history.filter fun row =>
    like (likePrefix pre) row.key && decide (start ≤ row.rev)).map Row.rev

/-! ## The loop as a reader of pages -/

section Loop

variable {world : World} {pre : Bytes} {order : Int → List Row}

/-- The rows of the table that match a prefix. -/
def matchingRows (db : DB) (pre : Bytes) : List Row :=
  db.kv.filter fun row => like (likePrefix pre) row.key

theorem isQuery_order (inv : world.Inv)
    (ordered : ∀ replayRev,
      IsRevOrder (afterRows world.db.kv pre (revToTS replayRev)) (order replayRev)) :
    Paging.IsQuery Row.rev (matchingRows world.db pre) order where
  ordered := fun replayRev => (ordered replayRev).2
  perm := by
    intro replayRev
    refine (ordered replayRev).1.trans (.of_eq ?_)
    rw [matchingRows, afterRows, List.filter_filter]
    apply List.filter_congr
    intro row membership
    -- stored revisions lie above the epoch, where `revToTS` changes nothing
    have afterEpoch := (inv.storedExact row membership).1
    have late : revToTS replayRev < row.rev ↔ replayRev < row.rev := by
      unfold revToTS
      split <;> omega
    rw [Bool.and_comm, decide_eq_decide.mpr late]

theorem mem_matchingRows {db : DB} {row : Row} :
    row ∈ matchingRows db pre ↔ row ∈ db.kv ∧ like (likePrefix pre) row.key = true :=
  List.mem_filter

theorem after_page {db : DB} (rows : List Row) {replayRev : Int}
    (accepted : compactRevision db ≤ 1 ∨ compactRevision db ≤ replayRev) :
    (after db db rows replayRev pollBatchSize).2 =
      .ok ((rows.take pollBatchSize.toNat).map rowEvent) := by
  have notRefused : ¬(replayRev > 0 ∧ replayRev < compactRevision db) := by omega
  simp only [after, notRefused, if_false, limitClause_pollBatchSize]

theorem replayRound_short (replayRev : Int) {events : List Event}
    (short : (events.length : Int) < pollBatchSize) :
    (replayRound replayRev (.ok events)).1.flatten = events ∧
      (replayRound replayRev (.ok events)).2 = none := by
  cases events with
  | nil => exact ⟨rfl, rfl⟩
  | cons event events =>
      have live : afterSend replayRev (event :: events) = .live := if_pos short
      simp [replayRound, afterPage, live]

theorem replayRound_full (replayRev : Int) {events : List Event} {last : Event}
    (full : ¬(events.length : Int) < pollBatchSize) (found : events.getLast? = some last) :
    replayRound replayRev (.ok events) = ([events], some last.kv.rev) := by
  have nonempty : events.isEmpty = false := by
    cases events with
    | nil => cases found
    | cons event events => rfl
  simp [replayRound, afterPage, afterSend, nonempty, full, found]

/-- A round of the replay reads one page of the rows that match. -/
theorem replayRound_agrees (inv : world.Inv)
    (isQuery : Paging.IsQuery Row.rev (matchingRows world.db pre) order) {replayRev : Int}
    (accepted : compactRevision world.db ≤ 1 ∨ compactRevision world.db ≤ replayRev) :
    (replayRound replayRev
        (after world.db world.db (order replayRev) replayRev pollBatchSize).2).1.flatten =
      (Paging.readPage Row.rev pollBatchSize.toNat order replayRev).1.map rowEvent ∧
    (replayRound replayRev
        (after world.db world.db (order replayRev) replayRev pollBatchSize).2).2 =
      (Paging.readPage Row.rev pollBatchSize.toNat order replayRev).2 := by
  rw [after_page _ accepted]
  by_cases full : pollBatchSize.toNat ≤ (order replayRev).length
  · obtain ⟨last, found, read⟩ : ∃ last, _ ∧
        Paging.readPage Row.rev pollBatchSize.toNat order replayRev = _ :=
      Paging.readPage_full (by decide) full
    have queried := List.mem_of_mem_take (List.mem_of_getLast? found)
    have stored := (mem_matchingRows.mp (isQuery.mem_iff.mp queried).1).1
    have wholePage : ¬((((order replayRev).take pollBatchSize.toNat).map rowEvent).length : Int) <
        pollBatchSize := by
      rw [List.length_map, List.length_take_of_le full]
      decide
    have lastEvent : (((order replayRev).take pollBatchSize.toNat).map rowEvent).getLast? =
        some (rowEvent last) := by
      rw [List.getLast?_map, found, Option.map_some]
    rw [read, replayRound_full replayRev wholePage lastEvent]
    have lastRev : (rowEvent last).kv.rev = last.rev :=
      tsToRev_of_exact (inv.storedExact last stored)
    exact ⟨List.flatten_singleton, congrArg some lastRev⟩
  · rw [Nat.not_le] at full
    rw [Paging.readPage_short full, List.take_of_length_le full.le]
    apply replayRound_short
    rw [List.length_map]
    exact Int.lt_toNat.mp full

/-- What is replayed is what the general reader reads of the rows that match. -/
theorem replay_flatten (inv : world.Inv)
    (isQuery : Paging.IsQuery Row.rev (matchingRows world.db pre) order) {start : Int}
    (positive : 1 ≤ start)
    (above : ¬(1 < compactRevision world.db ∧ start ≤ compactRevision world.db)) (fuel : Nat) :
    (replay world.db order fuel start).map List.flatten =
      (Paging.readAll Row.rev pollBatchSize.toNat order fuel (start - 1)).map
        (List.map rowEvent) := by
  have replays : start ≠ 0 := by omega
  rw [replay, if_neg replays, if_neg above]
  apply Paging.collect_flatten_eq (fun _ accepted => replayRound_agrees inv isQuery accepted)
  · intro replayRev next accepted goesOn
    obtain ⟨last, queried, rfl⟩ := Paging.readPage_next goesOn
    obtain ⟨membership, later⟩ := isQuery.mem_iff.mp queried
    have afterEpoch := (inv.storedExact last (mem_matchingRows.mp membership).1).1
    omega
  · show compactRevision world.db ≤ 1 ∨ compactRevision world.db ≤ start - 1
    omega

end Loop

/-! ## Every matching row once -/

section Once

variable {world : World} {pre : Bytes} {start : Int} {order : Int → List Row}

theorem replay_mono {db : DB} {fuel : Nat} {pages : List (List Event)}
    (finished : replay db order fuel start = some pages) {more : Nat} (enough : fuel ≤ more) :
    replay db order more start = some pages := by
  obtain ⟨extra, rfl⟩ := Nat.exists_eq_add_of_le enough
  unfold replay at finished ⊢
  split at finished
  · rename_i live
    rwa [if_pos live]
  · rename_i replays
    rw [if_neg replays]
    split at finished
    · rename_i compacted
      rwa [if_pos compacted]
    · rename_i accepted
      rw [if_neg accepted]
      exact Paging.collect_mono finished extra

/-- Above the horizon the table holds every committed row. -/
theorem Reachable.mem_matchingRows_iff (reachable : Reachable world)
    (above : ¬(1 < compactRevision world.db ∧ start ≤ compactRevision world.db)) {row : Row}
    (late : start ≤ row.rev) :
    row ∈ matchingRows world.db pre ↔
      row ∈ world.history ∧ like (likePrefix pre) row.key = true := by
  rw [mem_matchingRows]
  apply and_congr_left
  intro _
  constructor
  · exact reachable.inv.mem_history
  · intro committed
    have afterEpoch := (reachable.inv.exact row committed).1
    exact reachable.consistent.mem_kv committed (by omega)

theorem Reachable.replayRevs_perm (reachable : Reachable world)
    (above : ¬(1 < compactRevision world.db ∧ start ≤ compactRevision world.db))
    (isQuery : Paging.IsQuery Row.rev (matchingRows world.db pre) order) :
    ((order (start - 1)).map Row.rev).Perm (world.replayRevs pre start) := by
  apply List.Perm.map
  have distinct : (order (start - 1)).Nodup :=
    (isQuery.perm (start - 1)).nodup_iff.mpr ((reachable.inv.storedNodup.filter _).filter _)
  apply (List.perm_ext_iff_of_nodup distinct ((reachable.inv.ids.of_map Row.id).filter _)).mpr
  intro row
  rw [isQuery.mem_iff, List.mem_filter, Bool.and_eq_true, decide_eq_true_iff, ← and_assoc,
    Int.sub_one_lt_iff]
  exact and_congr_left fun late => reachable.mem_matchingRows_iff above late

/-- With enough fuel the replay ends, having sent without repetition what the
general reader reads. -/
theorem exists_replay (inv : world.Inv) (positive : 1 ≤ start)
    (above : ¬(1 < compactRevision world.db ∧ start ≤ compactRevision world.db))
    (isQuery : Paging.IsQuery Row.rev (matchingRows world.db pre) order) :
    ∃ enough pages, ∃ taken : List Row,
      (∀ fuel ≥ enough, replay world.db order fuel start = some pages) ∧
      pages.flatten = taken.map rowEvent ∧ taken.Nodup ∧
      (∀ row ∈ taken, row ∈ matchingRows world.db pre) ∧
      ((∀ row ∈ matchingRows world.db pre, start - 1 < row.rev → row ∈ taken) ↔
        Paging.Aligned pollBatchSize.toNat ((order (start - 1)).map Row.rev)) := by
  have full : 0 < pollBatchSize.toNat := by decide
  have distinct : (matchingRows world.db pre).Nodup := inv.storedNodup.filter _
  obtain ⟨taken, finished⟩ := isQuery.exists_readAll full (Nat.lt_succ_self _)
  have flattened := replay_flatten inv isQuery positive above (order (start - 1)).length.succ
  rw [finished, Option.map_some] at flattened
  obtain ⟨pages, replayed, sent⟩ := Option.map_eq_some_iff.mp flattened
  refine ⟨_, pages, taken, fun fuel enough => replay_mono replayed enough, sent, ?_, ?_, ?_⟩
  · exact isQuery.readAll_nodup full distinct finished
  · exact fun row membership => (isQuery.readAll_above full finished row membership).1
  · exact isQuery.readAll_complete_iff full distinct finished

theorem replaysOnce_iff_aligned (reachable : Reachable world) (positive : 1 ≤ start)
    (above : ¬(1 < compactRevision world.db ∧ start ≤ compactRevision world.db))
    (isQuery : Paging.IsQuery Row.rev (matchingRows world.db pre) order) :
    ReplaysOnce world pre start order ↔
      Paging.Aligned pollBatchSize.toNat ((order (start - 1)).map Row.rev) := by
  obtain ⟨enough, pages, taken, replayed, sent, distinct, matching, complete⟩ :=
    exists_replay reachable.inv positive above isQuery
  have committed : ∀ row ∈ taken, row ∈ world.history := fun row membership =>
    reachable.inv.mem_history (mem_matchingRows.mp (matching row membership)).1
  have distinctEvents : pages.flatten.Nodup := by
    rw [sent]
    apply List.Nodup.map_on _ distinct
    exact fun first firstTaken second secondTaken same =>
      reachable.inv.rowEvent_injective (committed first firstTaken) (committed second secondTaken)
        same
  have once : ∀ row ∈ world.history,
      (pages.flatten.count (rowEvent row) = 1 ↔ row ∈ taken) := by
    intro row membership
    rw [← reachable.inv.rowEvent_mem_iff committed membership, ← sent]
    constructor
    · exact fun one => List.count_pos_iff.mp (by omega)
    · exact List.count_eq_one_of_mem distinctEvents
  rw [← complete]
  constructor
  · intro property
    obtain ⟨otherEnough, otherPages, otherReplayed, all⟩ := property
    have same : otherPages = pages := by
      have first := otherReplayed (otherEnough + enough) (Nat.le_add_right _ _)
      rw [replayed _ (Nat.le_add_left _ _)] at first
      exact (Option.some.inj first).symm
    subst same
    intro row membership later
    have late : start ≤ row.rev := by omega
    obtain ⟨inHistory, selected⟩ := (reachable.mem_matchingRows_iff above late).mp membership
    exact (once row inHistory).mp (all row inHistory selected late)
  · intro all
    refine ⟨enough, pages, replayed, ?_⟩
    intro row inHistory selected late
    apply (once row inHistory).mpr
    have stored := (reachable.mem_matchingRows_iff above late).mpr ⟨inHistory, selected⟩
    exact all row stored (by omega)

/-- A replay sends every matching row exactly once if and only if no page ends
between two matching rows of one revision. -/
theorem replay_exactly_once_iff (reachable : Reachable world) (positive : 1 ≤ start)
    (above : ¬(1 < compactRevision world.db ∧ start ≤ compactRevision world.db))
    (ordered : ∀ replayRev,
      IsRevOrder (afterRows world.db.kv pre (revToTS replayRev)) (order replayRev)) :
    ReplaysOnce world pre start order ↔
      Paging.Aligned pollBatchSize.toNat (world.replayRevs pre start) := by
  have isQuery := isQuery_order reachable.inv ordered
  rw [replaysOnce_iff_aligned reachable positive above isQuery]
  exact Paging.Aligned.perm (reachable.replayRevs_perm above isQuery)

end Once

/-! ## A transaction across the end of a page -/

/-- Rows stored in the order of their revisions are queried in that order. -/
theorem isRevOrder_afterRows {rows : List Row}
    (sorted : rows.Pairwise fun first second => first.rev ≤ second.rev) (pre : Bytes)
    (afterTS : Int) : IsRevOrder (afterRows rows pre afterTS) (afterRows rows pre afterTS) :=
  ⟨.refl _, sorted.sublist List.filter_sublist⟩

section Burst

variable (keys : List Bytes) (ts : CommitTs)

theorem burst_ordered (afterTS : Int) :
    IsRevOrder (afterRows (burstWorld keys ts).db.kv [] afterTS)
      (afterRows (burstWorld keys ts).db.kv [] afterTS) :=
  isRevOrder_afterRows (putAllRows_order keys ts).2 [] afterTS

theorem putAllRows_length : (putAllRows keys ts).length = keys.length := by
  have sameKeys := congrArg List.length (committedRows_keys ts.ns 0 (putAllInserts keys))
  simpa [putAllRows, putAllInserts] using sameKeys

theorem putAllRows_revs :
    (putAllRows keys ts).map Row.rev = List.replicate keys.length ts.ns := by
  rw [List.eq_replicate_iff, List.length_map, putAllRows_length]
  exact ⟨rfl, List.forall_mem_map.mpr fun _ membership => putAllRows_rev keys ts membership⟩

/-- All rows of a burst have one revision, so a page that does not hold them
all ends between two of them. -/
theorem burst_not_aligned {size : Nat} (positive : 0 < size) (many : size < keys.length) :
    ¬Paging.Aligned size ((putAllRows keys ts).map Row.rev) := by
  intro aligned
  have fits := aligned ts.ns 1
  simp only [putAllRows_revs, List.countP_replicate, lt_irrefl, le_refl, decide_true,
    decide_false, if_true, Bool.false_eq_true, if_false] at fits
  omega

theorem burst_uncompacted : compactRevision (burstWorld keys ts).db = 1 := rfl

theorem burst_reachable (distinct : keys.Nodup) :
    Runs.run World.step World.init [.write (putAll keys) ts] = some (burstWorld keys ts) :=
  Runs.run_cons_eq_some.mpr ⟨_, burst_written keys ts distinct, rfl⟩

theorem burst_replay_loses (distinct : keys.Nodup) (many : pollBatchSize.toNat < keys.length) :
    ¬ReplaysOnce (burstWorld keys ts) [] 1 fun replayRev =>
      afterRows (burstWorld keys ts).db.kv [] (revToTS replayRev) := by
  have reachable : Reachable (burstWorld keys ts) := ⟨_, burst_reachable keys ts distinct⟩
  have isQuery : Paging.IsQuery Row.rev (matchingRows (burstWorld keys ts).db []) fun replayRev =>
      afterRows (burstWorld keys ts).db.kv [] (revToTS replayRev) :=
    isQuery_order reachable.inv fun replayRev => burst_ordered keys ts (revToTS replayRev)
  have above : ¬(1 < compactRevision (burstWorld keys ts).db ∧
      1 ≤ compactRevision (burstWorld keys ts).db) := by
    rw [burst_uncompacted]
    decide
  rw [replaysOnce_iff_aligned reachable (le_refl 1) above isQuery]
  have firstQuery := (putAllRows_order keys ts).1.map Row.rev
  exact (Paging.Aligned.perm firstQuery).not.mp (burst_not_aligned keys ts (by decide) many)

/-- A burst, and one more key. -/
def nextKeyWorld (key : Bytes) (later : CommitTs) : World :=
  { burstWorld keys ts with
    db := (burstWorld keys ts).db.commit later [createInsert key none 0]
    history := putAllRows keys ts ++ committedRows later.ns (burstWorld keys ts).db.nextId
      [createInsert key none 0] }

section NextKey

variable {keys ts} {key : Bytes} {later : CommitTs}

theorem nextKey_reachable (distinct : keys.Nodup) (fresh : key ∉ keys) (after : ts.ns < later.ns) :
    Runs.run World.step World.init [.write (putAll keys) ts, .write (.create key none 0) later] =
      some (nextKeyWorld keys ts key later) := by
  have absent : getLatestTxn (burstWorld keys ts).db.kv key = none := by
    have unwritten : latestRow (burstWorld keys ts).db.kv key = none := by
      apply VersionedLog.newest_eq_none_iff.mpr
      intro row membership named
      have inKeys := List.mem_map_of_mem (f := Row.key) membership
      have burst : (burstWorld keys ts).db.kv.map Row.key = keys := by
        rw [burstWorld, DB.commit, List.map_append, committedRows_keys, putAllInserts, List.map_map]
        exact List.map_id keys
      rw [burst, named] at inKeys
      exact absurd inKeys fresh
    rw [getLatestTxn, unwritten]
    rfl
  have applied : (WriteOp.create key none 0).apply (burstWorld keys ts).db later =
      (burstWorld keys ts).db.commit later [createInsert key none 0] := by
    simp only [WriteOp.apply, create_of_absent later none 0 absent]
  have stepped : (burstWorld keys ts).step (.write (.create key none 0) later) =
      some (nextKeyWorld keys ts key later) := by
    have inTime : (burstWorld keys ts).db.clock < later.ns := after
    simp only [World.step, inTime, if_true, applied, DB.commit, List.drop_left]
    rfl
  exact Runs.run_cons_eq_some.mpr ⟨_, burst_written keys ts distinct,
    Runs.run_cons_eq_some.mpr ⟨_, stepped, rfl⟩⟩

theorem nextKey_uncompacted : compactRevision (nextKeyWorld keys ts key later).db = 1 := rfl

theorem nextKey_ordered (after : ts.ns < later.ns) (afterTS : Int) :
    IsRevOrder (afterRows (nextKeyWorld keys ts key later).db.kv [] afterTS)
      (afterRows (nextKeyWorld keys ts key later).db.kv [] afterTS) := by
  apply isRevOrder_afterRows
  apply List.pairwise_append.mpr
  refine ⟨(putAllRows_order keys ts).2, List.pairwise_singleton _ _, ?_⟩
  intro row membership next last
  rw [putAllRows_rev keys ts membership, committedRows_rev last]
  exact after.le

theorem nextKey_replayRevs :
    (nextKeyWorld keys ts key later).replayRevs [] 1 =
      List.replicate keys.length ts.ns ++ [later.ns] := by
  have all : (nextKeyWorld keys ts key later).replayRevs [] 1 =
      (nextKeyWorld keys ts key later).history.map Row.rev := by
    rw [World.replayRevs, List.filter_eq_self.mpr]
    intro row membership
    have late : 1 ≤ row.rev := by
      rcases List.mem_append.mp membership with burst | last
      · rw [putAllRows_rev keys ts burst]
        exact ts.afterEpoch.le
      · rw [committedRows_rev last]
        exact later.afterEpoch.le
    simp [late]
  rw [all, nextKeyWorld, List.map_append, putAllRows_revs]
  rfl

/-- The burst fills the first page, which so ends between two revisions. -/
theorem nextKey_aligned (after : ts.ns < later.ns) (many : 1 < keys.length) :
    Paging.Aligned keys.length ((nextKeyWorld keys ts key later).replayRevs [] 1) := by
  have aligned : Paging.Aligned (List.replicate keys.length ts.ns).length
      (List.replicate keys.length ts.ns ++ [later.ns]) := by
    have highest : ∀ value ∈ List.replicate keys.length ts.ns, value ≤ ts.ns :=
      fun value membership => (List.eq_of_mem_replicate membership).le
    have ends : ∀ next ∈ [later.ns], ts.ns < next := by simpa using after
    apply (Paging.aligned_append_iff highest ends).mpr
    apply Paging.aligned_of_length_lt
    simpa using many
  rw [nextKey_replayRevs]
  rwa [List.length_replicate] at aligned

end NextKey

end Burst

/-- The first 500 keys of the burst. -/
def pageKeys : List Bytes := burstKeys.take pollBatchSize.toNat

theorem pageKeys_length : pageKeys.length = pollBatchSize.toNat := by
  have enough : pollBatchSize.toNat ≤ burstKeys.length := by
    rw [burstKeys, List.length_map, List.length_range]
    decide
  exact List.length_take_of_le enough

theorem pageKeys_fresh : pageKeys.Nodup ∧ List.replicate 501 0 ∉ pageKeys := by
  have distinct := burstKeys_nodup
  rw [← List.take_append_drop pollBatchSize.toNat burstKeys] at distinct
  exact ⟨distinct.of_append_left,
    fun taken => List.disjoint_of_nodup_append distinct taken burstKeys_beyond⟩

/-- A transaction over 500 keys commits at revision 5 and another key at 6.
The first page ends between the two, and the second one holds the last key. -/
theorem fullPage_replays :
    (nextKeyWorld pageKeys 5 (List.replicate 501 0) 6).replayRevs [] 1 =
        List.replicate pollBatchSize.toNat 5 ++ [6] ∧
      ReplaysOnce (nextKeyWorld pageKeys 5 (List.replicate 501 0) 6) [] 1 fun replayRev =>
        afterRows (nextKeyWorld pageKeys 5 (List.replicate 501 0) 6).db.kv []
          (revToTS replayRev) := by
  have after : (5 : CommitTs).ns < (6 : CommitTs).ns := by decide
  have reachable : Reachable (nextKeyWorld pageKeys 5 (List.replicate 501 0) 6) :=
    ⟨_, nextKey_reachable pageKeys_fresh.1 pageKeys_fresh.2 after⟩
  have above : ¬(1 < compactRevision (nextKeyWorld pageKeys 5 (List.replicate 501 0) 6).db ∧
      1 ≤ compactRevision (nextKeyWorld pageKeys 5 (List.replicate 501 0) 6).db) := by
    rw [nextKey_uncompacted]
    decide
  have many : 1 < pageKeys.length := by
    rw [pageKeys_length]
    decide
  refine ⟨?_, ?_⟩
  · rw [nextKey_replayRevs, pageKeys_length]
    rfl
  · apply (replay_exactly_once_iff reachable le_rfl above ?_).mpr
    · rw [← pageKeys_length]
      exact nextKey_aligned after many
    · exact fun replayRev => nextKey_ordered after (revToTS replayRev)

/-- A transaction over 501 keys commits at revision 5.  The first page takes
500 of its rows, and the second query asks for revisions above 5. -/
theorem replay_splits_revision :
    Runs.run World.step World.init [.write (putAll burstKeys) 5] =
        some (burstWorld burstKeys 5) ∧
      (∀ replayRev, IsRevOrder (afterRows (burstWorld burstKeys 5).db.kv [] (revToTS replayRev))
        (afterRows (burstWorld burstKeys 5).db.kv [] (revToTS replayRev))) ∧
      compactRevision (burstWorld burstKeys 5).db = 1 ∧
      ¬ReplaysOnce (burstWorld burstKeys 5) [] 1 fun replayRev =>
        afterRows (burstWorld burstKeys 5).db.kv [] (revToTS replayRev) := by
  refine ⟨burst_reachable burstKeys 5 burstKeys_nodup,
    fun replayRev => burst_ordered burstKeys 5 (revToTS replayRev),
    burst_uncompacted burstKeys 5, ?_⟩
  apply burst_replay_loses burstKeys 5 burstKeys_nodup
  rw [burstKeys, List.length_map, List.length_range]
  decide

end SpannerEtcd
