import SpannerEtcd.Lib.Paging
import SpannerEtcd.Store.Compaction

/-!
# The poll loop

One round of the poll loop reads the current revision, then fetches at most
`pollBatchSize` events above its cursor, hands them to the subscribers and
moves the cursor to the revision that it read first.  Commits go on all the
time, also between the two reads.
-/

namespace SpannerEtcd

def pollBatchSize : Int := 500

theorem limitClause_pollBatchSize (order : List Row) :
    limitClause pollBatchSize order = order.take pollBatchSize.toNat :=
  limitClause_of_pos (by decide)

/-- The events a round dispatches and the cursor it returns. -/
def doPoll (revDb compactDb : DB) (order : List Row) (lastRev : Int) : List Event × Int :=
  match after revDb compactDb order lastRev pollBatchSize with
  | (curRev, .error .compacted) => ([], curRev)
  | (_, .error _) => ([], lastRev)
  | (curRev, .ok events) => (events, curRev)

inductive PollPhase where
  | resting
  /-- `After` has read the current revision off this snapshot. -/
  | revisionRead (revDb : DB)

/-- A chain of rounds with everything that it has dispatched. -/
structure PollSystem where
  world : World
  lastRev : Int
  phase : PollPhase
  dispatched : List Event

def PollSystem.init (lastRev : Int) : PollSystem :=
  { world := .init, lastRev := lastRev, phase := .resting, dispatched := [] }

inductive PollAction where
  | write (op : WriteOp) (ts : CommitTs)
  | readRevision
  /-- The event query, with the order in which Spanner returns its rows. -/
  | query (order : List Row)

def PollSystem.step (system : PollSystem) : PollAction → Option PollSystem
  | .write op ts =>
      (system.world.step (.write op ts)).map fun next => { system with world := next }
  | .readRevision =>
      match system.phase with
      | .resting => some { system with phase := .revisionRead system.world.db }
      | .revisionRead _ => none
  | .query order =>
      match system.phase with
      | .resting => none
      | .revisionRead revDb =>
          if IsRevOrder (afterRows system.world.db.kv [] (revToTS system.lastRev)) order then
            let (events, curRev) := doPoll revDb system.world.db order system.lastRev
            some { system with
              lastRev := curRev
              phase := .resting
              dispatched := system.dispatched ++ events }
          else none

inductive PollMove (system : PollSystem) : PollAction → PollSystem → Prop where
  | write {op : WriteOp} {ts : CommitTs} {world : World}
      (moved : system.world.step (.write op ts) = some world) :
      PollMove system (.write op ts) { system with world := world }
  | readRevision (resting : system.phase = .resting) :
      PollMove system .readRevision { system with phase := .revisionRead system.world.db }
  | query {revDb : DB} {order : List Row} (reading : system.phase = .revisionRead revDb)
      (ordered : IsRevOrder (afterRows system.world.db.kv [] (revToTS system.lastRev)) order) :
      PollMove system (.query order)
        { system with
          lastRev := (doPoll revDb system.world.db order system.lastRev).2
          phase := .resting
          dispatched :=
            system.dispatched ++ (doPoll revDb system.world.db order system.lastRev).1 }

theorem PollSystem.step_move {system next : PollSystem} {action : PollAction}
    (stepped : system.step action = some next) : PollMove system action next := by
  cases action with
  | write op ts =>
      obtain ⟨world, moved, rfl⟩ := Option.map_eq_some_iff.mp stepped
      exact .write moved
  | readRevision =>
      simp only [PollSystem.step] at stepped
      split at stepped
      next resting =>
        obtain rfl := Option.some.inj stepped
        exact .readRevision resting
      next => cases stepped
  | query order =>
      simp only [PollSystem.step] at stepped
      split at stepped
      next => cases stepped
      next revDb reading =>
        simp only [Option.ite_none_right_eq_some, Option.some.injEq] at stepped
        obtain ⟨ordered, rfl⟩ := stepped
        exact .query reading ordered

/-- The rows that a round must dispatch: above its cursor, and at or below
the revision that it has read. -/
def PollSystem.due (system : PollSystem) : List Row :=
  match system.phase with
  | .resting => []
  | .revisionRead revDb =>
      (afterRows system.world.db.kv [] (revToTS system.lastRev)).filter fun row =>
        decide (row.rev ≤ currentRevision revDb)

/-- At the event query the rows that are due fit into one batch. -/
def FitsBatch (system : PollSystem) : PollAction → Prop
  | .query _ => system.due.length ≤ pollBatchSize.toNat
  | _ => True

instance (system : PollSystem) (action : PollAction) : Decidable (FitsBatch system action) :=
  match action with
  | .query _ => inferInstanceAs (Decidable (system.due.length ≤ _))
  | .write _ _ | .readRevision => .isTrue trivial

/-! ## What every step keeps -/

structure PollSystem.Inv (start : Int) (system : PollSystem) : Prop where
  world : system.world.Inv
  undeleted : system.world.db.kv = system.world.history
  uncompacted : system.world.db.kvRev = none
  cursor : system.lastRev = start ∨ system.lastRev ≤ system.world.db.clock
  reading : ∀ revDb, system.phase = .revisionRead revDb →
    currentRevision revDb ≤ system.world.db.clock
  covered : ∀ row ∈ system.world.history, start < row.rev → row.rev ≤ system.lastRev →
    rowEvent row ∈ system.dispatched

theorem PollSystem.init_inv (start : Int) : (PollSystem.init start).Inv start where
  world := World.init_inv
  undeleted := rfl
  uncompacted := rfl
  cursor := .inl rfl
  reading := by simp [PollSystem.init]
  covered := by simp [PollSystem.init, World.init]

/-- Without compaction a round returns the revision it read, and dispatches
the first rows of its query. -/
theorem doPoll_uncompacted (revDb : DB) {compactDb : DB} (uncompacted : compactDb.kvRev = none)
    (order : List Row) (lastRev : Int) :
    doPoll revDb compactDb order lastRev =
      ((order.take pollBatchSize.toNat).map rowEvent, currentRevision revDb) := by
  have accepted : ¬(lastRev > 0 ∧ lastRev < compactRevision compactDb) := by
    simp only [compactRevision, uncompacted]
    omega
  simp only [doPoll, after, accepted, if_false, limitClause_pollBatchSize]

theorem PollSystem.Inv.write {start : Int} {system : PollSystem} (inv : system.Inv start)
    {op : WriteOp} {ts : CommitTs} {next : World}
    (stepped : system.world.step (.write op ts) = some next) :
    PollSystem.Inv start { system with world := next } := by
  have nextInv := World.Inv.step stepped inv.world
  have extended := (World.step_effect stepped).extends
  have clock := extended.clock
  obtain ⟨added, grown, newer⟩ := extended.history
  have stored : next.db.kv = next.history ∧ next.db.kvRev = none := by
    simp only [World.step, Option.ite_none_right_eq_some, Option.some.injEq] at stepped
    obtain ⟨_, rfl⟩ := stepped
    rcases op.apply_cases system.world.db ts with same | ⟨inserts, _, committed⟩
    · simp [same, inv.undeleted, inv.uncompacted]
    · simp [committed, DB.commit, inv.undeleted, inv.uncompacted]
  refine ⟨nextInv, stored.1, stored.2, inv.cursor.imp_right fun below => below.trans clock,
    fun revDb reading => (inv.reading revDb reading).trans clock, ?_⟩
  intro row membership above below
  rw [grown] at membership
  rcases List.mem_append.mp membership with old | new
  · exact inv.covered row old above below
  · have fresh := newer row new
    simp only at below
    rcases inv.cursor with unmoved | moved <;> omega

/-- A round whose rows fit into one batch covers everything up to the
revision that it returns. -/
theorem PollSystem.Inv.query {start : Int} {system : PollSystem} (inv : system.Inv start)
    {revDb : DB} (reading : system.phase = .revisionRead revDb) {order : List Row}
    (ordered : IsRevOrder (afterRows system.world.db.kv [] (revToTS system.lastRev)) order)
    (fits : system.due.length ≤ pollBatchSize.toNat) :
    PollSystem.Inv start { system with
      lastRev := currentRevision revDb
      phase := .resting
      dispatched :=
        system.dispatched ++ (order.take pollBatchSize.toNat).map rowEvent } := by
  refine ⟨inv.world, inv.undeleted, inv.uncompacted, .inr (inv.reading revDb reading),
    by simp, ?_⟩
  intro row membership above below
  rw [List.mem_append]
  by_cases old : row.rev ≤ system.lastRev
  · exact .inl (inv.covered row membership above old)
  · right
    apply List.mem_map_of_mem
    have selected : row ∈ afterRows system.world.db.kv [] (revToTS system.lastRev) := by
      have positive := (inv.world.exact row membership).1
      simp only [afterRows, List.mem_filter, like_likePrefix_nil, Bool.true_and,
        decide_eq_true_eq, inv.undeleted]
      refine ⟨membership, ?_⟩
      unfold revToTS
      split <;> omega
    refine Paging.mem_take_of_count_le ordered.2 ?_ (ordered.1.mem_iff.mpr selected) below
    rw [(ordered.1.filter _).length_eq]
    simpa only [PollSystem.due, reading] using fits

theorem PollSystem.Inv.step {start : Int} {system next : PollSystem} {action : PollAction}
    (fits : FitsBatch system action) (stepped : system.step action = some next)
    (inv : system.Inv start) : next.Inv start := by
  cases PollSystem.step_move stepped with
  | write moved => exact inv.write moved
  | readRevision resting =>
      refine { inv with reading := ?_ }
      intro revDb reading
      cases reading
      exact inv.world.currentRevision_le_clock
  | @query revDb order reading ordered =>
      rw [doPoll_uncompacted revDb inv.uncompacted]
      exact inv.query reading ordered fits

/-- In every run in which each round has room for the rows it must cover, all
committed rows above the start of the chain and up to the revision that it
returned have been dispatched. -/
theorem polls_lose_no_event (start : Int) (actions : List PollAction) {system : PollSystem}
    (guarded : Runs.Guarded PollSystem.step FitsBatch (PollSystem.init start) actions)
    (ran : Runs.run PollSystem.step (PollSystem.init start) actions = some system) :
    ∀ row ∈ system.world.history, start < row.rev → row.rev ≤ system.lastRev →
      rowEvent row ∈ system.dispatched := by
  have preserved : ∀ state action next, FitsBatch state action →
      state.step action = some next → state.Inv start → next.Inv start :=
    fun _ _ _ fits stepped => PollSystem.Inv.step fits stepped
  exact (Runs.run_invariant_of_guarded preserved guarded ran (PollSystem.init_inv start)).covered

/-- Two keys are written and polled in two rounds. -/
def pollRun : List PollAction :=
  [.write (.create (ascii "a") none 0) 5,
    .readRevision,
    .write (.create (ascii "b") none 0) 6,
    .query [((createInsert (ascii "a") none 0).toRow 0 5),
      ((createInsert (ascii "b") none 0).toRow 1 6)],
    .readRevision,
    .query [((createInsert (ascii "b") none 0).toRow 1 6)]]

theorem pollRun_covers :
    ∃ system, Runs.run PollSystem.step (PollSystem.init 1) pollRun = some system ∧
      system.lastRev = 6 ∧ system.world.history.length = 2 ∧
      ∀ row ∈ system.world.history, 1 < row.rev → row.rev ≤ system.lastRev →
        rowEvent row ∈ system.dispatched :=
  ⟨_, rfl, rfl, rfl, polls_lose_no_event 1 pollRun (by decide) rfl⟩

/-! ## A burst larger than a batch -/

section Burst

variable (keys : List Bytes) (ts : CommitTs)

def putAll : WriteOp := .atomicTxn [] (keys.map fun key => ⟨.put, key, none, 0⟩) []

def putAllInserts : List KvInsert := keys.map fun key => createInsert key none 0

def putAllRows : List Row := committedRows ts.ns 0 (putAllInserts keys)

def burstRun : List PollAction :=
  [.write (putAll keys) ts, .readRevision, .query (putAllRows keys ts)]

theorem putAll_apply (distinct : keys.Nodup) :
    (putAll keys).apply DB.empty ts = DB.empty.commit ts (putAllInserts keys) := by
  have mutated : mutatedKeys (keys.map fun key => ⟨.put, key, none, 0⟩) = keys := by
    simp [mutatedKeys, List.filter_map, Function.comp_def, TxnOpType.mutates]
  have known : (keys.map fun key => (⟨.put, key, none, 0⟩ : TxnOp)).findSome? unknownType =
      none := by
    simp [unknownType, List.findSome?_eq_none_iff]
  have checked : branchCheck (chosenOps DB.empty.kv [] (keys.map fun key =>
      ⟨.put, key, none, 0⟩) []) = .ok () :=
    (branchCheck_ok_iff _).mpr ⟨mutated.symm ▸ distinct, known⟩
  have inserts : (keys.map fun key => (⟨.put, key, none, 0⟩ : TxnOp)).filterMap
      (txnInsert DB.empty.kv) = putAllInserts keys := by
    have eachCreates : (txnInsert DB.empty.kv ∘ fun key => ⟨.put, key, none, 0⟩) =
        some ∘ fun key => createInsert key none 0 := rfl
    rw [List.filterMap_map, eachCreates, List.filterMap_eq_map, putAllInserts]
  rw [← inserts]
  simp only [putAll, WriteOp.apply, atomicTxn_of_ok ts rfl checked]
  rfl

theorem putAllRows_rev {row : Row} (membership : row ∈ putAllRows keys ts) : row.rev = ts.ns :=
  committedRows_rev membership

theorem putAll_currentRevision (nonempty : keys ≠ []) :
    currentRevision (DB.empty.commit ts (putAllInserts keys)) = ts.ns := by
  have exact : ∀ row ∈ (DB.empty.commit ts (putAllInserts keys)).kv, Exact row.rev := by
    intro row membership
    rw [putAllRows_rev keys ts membership]
    exact ts.exact
  apply le_antisymm
  · apply currentRevision_le exact (le_of_lt ts.afterEpoch)
    intro row membership
    rw [putAllRows_rev keys ts membership]
  · obtain ⟨key, rest, rfl⟩ := List.exists_cons_of_ne_nil nonempty
    exact le_currentRevision exact List.mem_cons_self

theorem putAllRows_order :
    IsRevOrder (afterRows (DB.empty.commit ts (putAllInserts keys)).kv [] (revToTS 1))
      (putAllRows keys ts) := by
  have selected : afterRows (DB.empty.commit ts (putAllInserts keys)).kv [] (revToTS 1) =
      putAllRows keys ts := by
    apply List.filter_eq_self.mpr
    intro row membership
    simp [putAllRows_rev keys ts membership, revToTS, ts.afterEpoch]
  rw [selected]
  refine ⟨.refl _, List.pairwise_iff_forall_sublist.mpr ?_⟩
  intro first second inside
  rw [putAllRows_rev keys ts (inside.subset (by simp)),
    putAllRows_rev keys ts (inside.subset (by simp))]

def burstWorld : World :=
  { db := DB.empty.commit ts (putAllInserts keys)
    history := putAllRows keys ts
    compactors := fun _ => .idle }

theorem burst_written (distinct : keys.Nodup) :
    World.init.step (.write (putAll keys) ts) = some (burstWorld keys ts) := by
  have later : World.init.db.clock < ts.ns := ts.afterEpoch
  have applied : (putAll keys).apply World.init.db ts = DB.empty.commit ts (putAllInserts keys) :=
    putAll_apply keys ts distinct
  simp only [World.step, later, if_true, Option.some.injEq]
  rw [applied]
  rfl

theorem burstRun_eq (distinct : keys.Nodup) (nonempty : keys ≠ []) :
    Runs.run PollSystem.step (PollSystem.init 1) (burstRun keys ts) =
      some
        { world := burstWorld keys ts
          lastRev := ts.ns
          phase := .resting
          dispatched := ((putAllRows keys ts).take pollBatchSize.toNat).map rowEvent } := by
  have polled : doPoll (burstWorld keys ts).db (burstWorld keys ts).db (putAllRows keys ts) 1 =
      (((putAllRows keys ts).take pollBatchSize.toNat).map rowEvent, ts.ns) := by
    rw [doPoll_uncompacted _ rfl, burstWorld, putAll_currentRevision keys ts nonempty]
  have committed : (PollSystem.init 1).step (.write (putAll keys) ts) =
      some { PollSystem.init 1 with world := burstWorld keys ts } := by
    simp only [PollSystem.step, PollSystem.init, burst_written keys ts distinct, Option.map_some]
  have queried : PollSystem.step
      { PollSystem.init 1 with
        world := burstWorld keys ts
        phase := .revisionRead (burstWorld keys ts).db } (.query (putAllRows keys ts)) =
      some
        { world := burstWorld keys ts
          lastRev := ts.ns
          phase := .resting
          dispatched := ((putAllRows keys ts).take pollBatchSize.toNat).map rowEvent } := by
    have ordered : IsRevOrder (afterRows (burstWorld keys ts).db.kv [] (revToTS 1))
        (putAllRows keys ts) := putAllRows_order keys ts
    simp only [PollSystem.step, PollSystem.init, ordered, if_true, polled, List.nil_append]
  exact Runs.run_cons_eq_some.mpr ⟨_, committed, Runs.run_cons_eq_some.mpr ⟨_, rfl,
    Runs.run_cons_eq_some.mpr ⟨_, queried, rfl⟩⟩⟩

theorem burst_missed (distinct : keys.Nodup) {key : Bytes}
    (beyond : key ∈ keys.drop pollBatchSize.toNat) :
    ∃ row ∈ putAllRows keys ts,
      rowEvent row ∉ ((putAllRows keys ts).take pollBatchSize.toNat).map rowEvent := by
  have inKeys : createInsert key none 0 ∈ putAllInserts keys :=
    List.mem_map_of_mem (List.mem_of_mem_drop beyond)
  obtain ⟨id, membership⟩ : ∃ id, (createInsert key none 0).toRow id ts.ns ∈
      putAllRows keys ts := exists_committedRow inKeys
  refine ⟨_, membership, ?_⟩
  intro dispatched
  obtain ⟨other, taken, sameEvent⟩ := List.mem_map.mp dispatched
  have sameKey : other.key = key := congrArg (fun event => event.kv.key) sameEvent
  have otherTaken : key ∈ keys.take pollBatchSize.toNat := by
    have inTaken := List.mem_map_of_mem (f := Row.key) taken
    rw [List.map_take, putAllRows, committedRows_keys, putAllInserts, List.map_map] at inTaken
    simpa [Function.comp_def, createInsert, sameKey] using inTaken
  rw [← List.take_append_drop pollBatchSize.toNat keys] at distinct
  exact List.disjoint_of_nodup_append distinct otherTaken beyond

/-- A burst with more keys than fit into a batch loses an event. -/
theorem burst_loses (distinct : keys.Nodup) {key : Bytes}
    (beyond : key ∈ keys.drop pollBatchSize.toNat) :
    ∃ system,
      Runs.run PollSystem.step (PollSystem.init 1) (burstRun keys ts) = some system ∧
      ∃ row ∈ system.world.history, 1 < row.rev ∧ row.rev ≤ system.lastRev ∧
        rowEvent row ∉ system.dispatched := by
  have nonempty : keys ≠ [] := List.ne_nil_of_mem (List.mem_of_mem_drop beyond)
  obtain ⟨row, membership, missed⟩ := burst_missed keys ts distinct beyond
  have rowRev := putAllRows_rev keys ts membership
  exact ⟨_, burstRun_eq keys ts distinct nonempty, row, membership, rowRev ▸ ts.afterEpoch,
    le_of_eq rowRev, missed⟩

end Burst

def burstKeys : List Bytes := (List.range 501).map fun n => List.replicate (n + 1) 0

theorem burstKeys_nodup : burstKeys.Nodup := by
  apply List.Nodup.map ?_ List.nodup_range
  intro first second same
  simpa using congrArg List.length same

theorem burstKeys_beyond : List.replicate 501 0 ∈ burstKeys.drop pollBatchSize.toNat := by
  have split : burstKeys =
      ((List.range 500).map fun n => List.replicate (n + 1) 0) ++ [List.replicate 501 0] := by
    rw [burstKeys, List.range_succ, List.map_append, List.map_singleton]
  have size : pollBatchSize.toNat =
      ((List.range 500).map fun n => List.replicate (n + 1) (0 : Byte)).length := by
    rw [List.length_map, List.length_range]
    rfl
  rw [split, size, List.drop_left]
  exact List.mem_singleton_self _

/-- A transaction over 501 keys commits at revision 5; the round after it
returns 5 and has dispatched only 500 of the rows. -/
theorem burst_loses_event :
    ∃ system,
      Runs.run PollSystem.step (PollSystem.init 1)
        (burstRun burstKeys ⟨5, by decide, by decide⟩) = some system ∧
      ∃ row ∈ system.world.history, 1 < row.rev ∧ row.rev ≤ system.lastRev ∧
        rowEvent row ∉ system.dispatched :=
  burst_loses burstKeys _ burstKeys_nodup burstKeys_beyond

end SpannerEtcd
