import SpannerEtcd.Watch.SubscriberOrder

/-!
# No event is polled twice

The cursor of the poll loop is the revision read before the event query.  A
row that commits between the two reads is dispatched, although it is above
the next cursor, and so dispatched once more.  Where nothing commits between
the two reads of a round, no row is dispatched twice.
-/

namespace SpannerEtcd

/-- The snapshot off which the round in progress has read its revision. -/
def PollPhase.snapshot? : PollPhase → Option DB
  | .resting => none
  | .revisionRead revDb => some revDb

/-- At the event query nothing above the cursor has committed since the
revision was read. -/
def NothingBetween (system : PollSystem) : PollAction → Prop
  | .query _ => ∀ revDb ∈ system.phase.snapshot?, ∀ row ∈ system.world.db.kv,
      revToTS system.lastRev < row.rev → row.rev ≤ currentRevision revDb
  | .write _ _ | .readRevision => True

instance (system : PollSystem) (action : PollAction) : Decidable (NothingBetween system action) :=
  match action with
  | .query _ => inferInstanceAs (Decidable (∀ revDb ∈ _, ∀ row ∈ _, _ → _))
  | .write _ _ | .readRevision => .isTrue trivial

namespace PollSystem

/-- Everything that has been dispatched is at or below the cursor, and at or
below a revision that the round in progress has read. -/
structure Once (system : PollSystem) : Prop where
  world : system.world.Inv
  uncompacted : system.world.db.kvRev = none
  committed : ∀ event ∈ system.dispatched, ∃ row ∈ system.world.db.kv, row.rev = event.kv.rev
  sound : Follows 1 [] system.dispatched
  passed : ∀ event ∈ system.dispatched, event.kv.rev ≤ system.lastRev
  read : ∀ revDb, system.phase = .revisionRead revDb →
    ∀ event ∈ system.dispatched, event.kv.rev ≤ currentRevision revDb

theorem init_once (start : Int) : (PollSystem.init start).Once where
  world := World.init_inv
  uncompacted := rfl
  committed := by simp [PollSystem.init]
  sound := Follows.nil 1 []
  passed := by simp [PollSystem.init]
  read := by simp [PollSystem.init]

variable {system : PollSystem}

theorem Once.write (once : system.Once) {op : WriteOp} {ts : CommitTs} {next : World}
    (stepped : system.world.step (.write op ts) = some next) :
    Once { system with world := next } := by
  have kept : next.db.kvRev = none ∧ ∀ row ∈ system.world.db.kv, row ∈ next.db.kv := by
    simp only [World.step, Option.ite_none_right_eq_some, Option.some.injEq] at stepped
    obtain ⟨_, rfl⟩ := stepped
    rcases op.apply_cases system.world.db ts with same | ⟨inserts, _, committed⟩
    · simp [same, once.uncompacted]
    · simp +contextual [committed, DB.commit, once.uncompacted]
  refine { once with
    world := World.Inv.step stepped once.world
    uncompacted := kept.1
    committed := fun event membership => ?_ }
  obtain ⟨row, stored, same⟩ := once.committed event membership
  exact ⟨row, kept.2 row stored, same⟩

theorem Once.readRevision (once : system.Once) :
    Once { system with phase := .revisionRead system.world.db } := by
  refine { once with read := fun revDb reading event membership => ?_ }
  cases reading
  obtain ⟨row, stored, same⟩ := once.committed event membership
  rw [← same]
  exact le_currentRevision once.world.storedExact stored

/-- A round whose query finds nothing above the revision read before it goes
on behind everything that was dispatched, up to its new cursor. -/
theorem Once.query (once : system.Once) {revDb : DB} (reading : system.phase = .revisionRead revDb)
    {order : List Row}
    (ordered : IsRevOrder (afterRows system.world.db.kv [] (revToTS system.lastRev)) order)
    (between : ∀ row ∈ system.world.db.kv, revToTS system.lastRev < row.rev →
      row.rev ≤ currentRevision revDb) :
    Once { system with
      lastRev := currentRevision revDb
      phase := .resting
      dispatched := system.dispatched ++ (order.take pollBatchSize.toNat).map rowEvent } := by
  obtain ⟨rows, sorted, nodup⟩ := SubscribeSystem.order_rows once.world ordered
  have stored : ∀ row ∈ order, row ∈ system.world.db.kv ∧ revToTS system.lastRev < row.rev := by
    intro row membership
    have selected := List.mem_filter.mp (ordered.1.mem_iff.mp membership)
    simp only [Bool.and_eq_true, decide_eq_true_eq] at selected
    exact ⟨selected.1, selected.2.2⟩
  have source : ∀ event ∈ (order.take pollBatchSize.toNat).map rowEvent,
      ∃ row ∈ order, row.rev = event.kv.rev := by
    intro event membership
    obtain ⟨row, taken, rfl⟩ := List.mem_map.mp membership
    have inOrder := List.mem_of_mem_take taken
    exact ⟨row, inOrder, (tsToRev_of_exact (once.world.exact row (rows row inOrder).1)).symm⟩
  have follows : Follows 1 system.dispatched ((order.take pollBatchSize.toNat).map rowEvent) := by
    refine follows_of_rows once.world (SubscribeSystem.page_stamps order pollBatchSize)
      (fun row membership => (rows row membership).1) sorted nodup ?_
    intro _ _ row inOrder _
    have positive := (once.world.exact row (rows row inOrder).1).1
    refine ⟨by omega, fun earlier dispatched => ?_⟩
    have below := once.passed earlier dispatched
    have above := (rows row inOrder).2
    omega
  have passed : ∀ event ∈ system.dispatched ++ (order.take pollBatchSize.toNat).map rowEvent,
      event.kv.rev ≤ currentRevision revDb := by
    intro event membership
    obtain earlier | new := List.mem_append.mp membership
    · exact once.read revDb reading event earlier
    · obtain ⟨row, inOrder, same⟩ := source event new
      rw [← same]
      exact between row (stored row inOrder).1 (stored row inOrder).2
  refine ⟨once.world, once.uncompacted, ?_, once.sound.append follows, passed, by simp⟩
  intro event membership
  obtain earlier | new := List.mem_append.mp membership
  · exact once.committed event earlier
  · obtain ⟨row, inOrder, same⟩ := source event new
    exact ⟨row, (stored row inOrder).1, same⟩

theorem Once.step {next : PollSystem} {action : PollAction} (between : NothingBetween system action)
    (stepped : system.step action = some next) (once : system.Once) : next.Once := by
  cases step_move stepped with
  | write moved => exact once.write moved
  | readRevision => exact once.readRevision
  | @query revDb order reading ordered =>
      rw [doPoll_uncompacted revDb once.uncompacted]
      refine once.query reading ordered fun row stored above => ?_
      exact between revDb (by simp [reading, PollPhase.snapshot?]) row stored above

end PollSystem

/-- In every chain of rounds, from any cursor, in which nothing commits
between the two reads of a round, no row is dispatched twice and the
revisions never decrease. -/
theorem polls_dispatch_once (start : Int) (actions : List PollAction) {system : PollSystem}
    (guarded : Runs.Guarded PollSystem.step NothingBetween (PollSystem.init start) actions)
    (ran : Runs.run PollSystem.step (PollSystem.init start) actions = some system) :
    (system.dispatched.map stamp).Nodup ∧
      (system.dispatched.map stamp).Pairwise fun first second => first.2 ≤ second.2 := by
  have preserved : ∀ state action next, NothingBetween state action →
      state.step action = some next → state.Once → next.Once :=
    fun _ _ _ between stepped once => once.step between stepped
  have once := Runs.run_invariant_of_guarded preserved guarded ran (PollSystem.init_once start)
  exact ((ascending_iff _).mp once.sound.ascending).symm

/-- Two keys, each written and polled in a round of its own. -/
def quietPollRun : List PollAction :=
  [.write (.create (ascii "a") none 0) 5,
    .readRevision,
    .query [(createInsert (ascii "a") none 0).toRow 0 5],
    .write (.create (ascii "b") none 0) 6,
    .readRevision,
    .query [(createInsert (ascii "b") none 0).toRow 1 6]]

theorem quietPollRun_dispatches_once :
    ∃ system, Runs.run PollSystem.step (PollSystem.init 1) quietPollRun = some system ∧
      system.dispatched.map stamp = [(ascii "a", 5), (ascii "b", 6)] ∧
      (system.dispatched.map stamp).Nodup ∧
      (system.dispatched.map stamp).Pairwise fun first second => first.2 ≤ second.2 :=
  ⟨_, rfl, rfl, polls_dispatch_once 1 quietPollRun (by decide) rfl⟩

/-- In the run `pollRun`, the key `b` commits between the two reads of the
first round, and both rounds dispatch its row. -/
theorem pollRun_dispatches_twice :
    ∃ system, Runs.run PollSystem.step (PollSystem.init 1) pollRun = some system ∧
      system.dispatched.map stamp = [(ascii "a", 5), (ascii "b", 6), (ascii "b", 6)] ∧
      ¬(system.dispatched.map stamp).Nodup :=
  ⟨_, rfl, rfl, by decide⟩

end SpannerEtcd
