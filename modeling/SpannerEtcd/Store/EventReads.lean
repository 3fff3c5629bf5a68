import SpannerEtcd.Store.Retention

/-!
# Event reads and the compaction check

`After` reads the current revision, then the compact revision, then the rows.
Whatever was deleted before the second read is below the horizon that it
finds.  Rows deleted between the second read and the third are missing
without notice, and only those.
-/

namespace SpannerEtcd

/-! ## Rows that survive a run -/

/-- The action deletes no wanted row. -/
def Keeps (wanted : Row → Prop) (world : World) : Action → Prop
  | .deleteBatch compactor =>
      ∀ row ∈ world.db.kv, row.id ∈ (world.compactors compactor).batch → ¬wanted row
  | _ => True

instance (wanted : Row → Prop) [DecidablePred wanted] (world : World) (action : Action) :
    Decidable (Keeps wanted world action) :=
  match action with
  | .deleteBatch _ => inferInstanceAs (Decidable (∀ row ∈ world.db.kv, _))
  | .write _ _ | .seed | .compact _ _ | .effective _ _ | .autoTick _ _ | .autoExisting _ _
  | .autoRecord _ | .scan _ _ | .giveUp _ => .isTrue trivial

/-- Row ids are not reused, so a deleted row does not come back. -/
theorem World.Inv.still_missing {world next : World} (inv : world.Inv) {action : Action}
    (stepped : world.step action = some next) {row : Row} (membership : row ∈ world.history)
    (missing : row ∉ world.db.kv) : row ∉ next.db.kv := by
  cases World.step_effect stepped with
  | commit ts inserts later writeSet db history compactors =>
      rw [db]
      intro found
      rcases List.mem_append.mp found with old | new
      · exact missing old
      · obtain ⟨insert, _, offset, _, rfl⟩ := mem_committedRows new
        have below := inv.numbered _ membership
        simp [KvInsert.toRow] at below
  | control kv nextId clock history batches => rwa [kv]
  | deletion compactor targetRev ids scanned db history batches =>
      rw [db]
      exact fun found => missing (List.mem_of_mem_filter found)

theorem World.Inv.missing_finally {world finish : World} (inv : world.Inv)
    (reached : Runs.Reaches World.step world finish) {row : Row}
    (membership : row ∈ world.history) (missing : row ∉ world.db.kv) :
    row ∉ finish.db.kv := by
  have all : finish.Inv ∧ row ∈ finish.history ∧ row ∉ finish.db.kv := by
    apply Runs.Reaches.invariant _ reached ⟨inv, membership, missing⟩
    rintro state action next stepped ⟨stateInv, old, gone⟩
    exact ⟨stateInv.step stepped, (World.step_effect stepped).extends.mem_history old,
      stateInv.still_missing stepped old gone⟩
  exact all.2.2

/-- Rows that a step adds are newer than its clock. -/
theorem World.Inv.mem_kv_of_old {world next : World} (inv : world.Inv) {action : Action}
    (stepped : world.step action = some next) {row : Row} (membership : row ∈ next.db.kv)
    (old : row.rev ≤ world.db.clock) : row ∈ world.db.kv := by
  have inHistory : row ∈ world.history :=
    (World.step_effect stepped).extends.mem_of_old ((inv.step stepped).mem_history membership) old
  by_contra missing
  exact inv.still_missing stepped inHistory missing membership

/-- A run keeps the wanted rows it starts with exactly if none of its steps
deletes one. -/
theorem guarded_keeps_iff {wanted : Row → Prop} {world finish : World} {actions : List Action}
    (inv : world.Inv) (old : ∀ row, wanted row → row.rev ≤ world.db.clock)
    (ran : Runs.run World.step world actions = some finish) :
    Runs.Guarded World.step (Keeps wanted) world actions ↔
      ∀ row ∈ world.db.kv, wanted row → row ∈ finish.db.kv := by
  induction actions generalizing world with
  | nil =>
      simp only [Runs.run_nil, Option.some.injEq] at ran
      subst ran
      exact ⟨fun _ row membership _ => membership, fun _ => trivial⟩
  | cons action rest inductionHypothesis =>
      obtain ⟨next, stepped, finished⟩ := Runs.run_cons_eq_some.mp ran
      have nextInv := inv.step stepped
      have extended := (World.step_effect stepped).extends
      have nextOld : ∀ row, wanted row → row.rev ≤ next.db.clock :=
        fun row wish => (old row wish).trans extended.clock
      rw [Runs.guarded_cons stepped, inductionHypothesis nextInv nextOld finished]
      constructor
      · rintro ⟨keeps, kept⟩ row membership wish
        refine kept row ?_ wish
        by_contra missing
        obtain ⟨compactor, rfl, inBatch⟩ := step_deletes stepped membership missing
        exact keeps row membership inBatch wish
      · intro kept
        refine ⟨?_, fun row membership wish =>
          kept row (inv.mem_kv_of_old stepped membership (old row wish)) wish⟩
        cases action with
        | deleteBatch compactor =>
            intro row membership inBatch wish
            have inHistory := extended.mem_history (inv.mem_history membership)
            have missing := step_deleteBatch_missing stepped inBatch
            exact nextInv.missing_finally ⟨rest, finished⟩ inHistory missing
              (kept row membership wish)
        | _ => trivial

/-! ## `After` -/

/-- The rows that a call must return, up to the revision that it reports. -/
def Due (pre : Bytes) (afterRev currentRev : Int) (row : Row) : Prop :=
  like (likePrefix pre) row.key = true ∧ afterRev < row.rev ∧ row.rev ≤ currentRev

instance (pre : Bytes) (afterRev currentRev : Int) :
    DecidablePred (Due pre afterRev currentRev) :=
  fun _ => inferInstanceAs (Decidable (_ ∧ _ ∧ _))

/-- A call without limit that reads the current revision in `start` and the
compact revision in `middle`, and gets the rows of its query in `order`,
either fails or returns every committed row that is due. -/
def Gapless (start middle finish : World) (pre : Bytes) (afterRev : Int) (order : List Row) :
    Prop :=
  (after start.db middle.db order afterRev 0).2 = .error .compacted ∨
    ∃ events, (after start.db middle.db order afterRev 0).2 = .ok events ∧
      ∀ row ∈ finish.history,
        Due pre afterRev (after start.db middle.db order afterRev 0).1 row →
          rowEvent row ∈ events

/-- The event of a row tells its key and its revision, and thereby the row. -/
theorem World.Inv.rowEvent_injective {world : World} (inv : world.Inv) {first second : Row}
    (firstMembership : first ∈ world.history) (secondMembership : second ∈ world.history)
    (same : rowEvent first = rowEvent second) : first = second := by
  have sameKey : first.key = second.key := congrArg (fun event => event.kv.key) same
  have sameRev : tsToRev first.rev = tsToRev second.rev :=
    congrArg (fun event => event.kv.rev) same
  rw [tsToRev_of_exact (inv.exact first firstMembership),
    tsToRev_of_exact (inv.exact second secondMembership)] at sameRev
  exact inv.distinctRows first firstMembership second secondMembership sameKey sameRev

theorem World.Inv.rowEvent_mem_iff {world : World} (inv : world.Inv) {rows : List Row}
    (stored : ∀ row ∈ rows, row ∈ world.history) {row : Row} (membership : row ∈ world.history) :
    rowEvent row ∈ rows.map rowEvent ↔ row ∈ rows := by
  constructor
  · intro dispatched
    obtain ⟨other, found, same⟩ := List.mem_map.mp dispatched
    rwa [← inv.rowEvent_injective (stored other found) membership same]
  · exact List.mem_map_of_mem

theorem mem_afterRows {rows : List Row} {pre : Bytes} {afterRev : Int} (positive : 0 < afterRev)
    {row : Row} :
    row ∈ afterRows rows pre (revToTS afterRev) ↔
      row ∈ rows ∧ like (likePrefix pre) row.key = true ∧ afterRev < row.rev := by
  simp only [afterRows, List.mem_filter, Bool.and_eq_true, decide_eq_true_eq,
    revToTS_of_one_le (Int.add_one_le_iff.mpr positive)]

theorem after_unlimited {revDb compactDb : DB} {order : List Row} {afterRev : Int}
    (accepted : ¬afterRev < compactRevision compactDb) :
    after revDb compactDb order afterRev 0 =
      (currentRevision revDb, .ok (order.map rowEvent)) := by
  have notRefused : ¬(afterRev > 0 ∧ afterRev < compactRevision compactDb) :=
    fun refused => accepted refused.2
  simp only [after, notRefused, if_false]
  rfl

/-- What is due was committed before the call began, and is still in the
table when the compaction check has passed. -/
theorem World.Consistent.due_stored {start middle finish : World} (consistent : middle.Consistent)
    (inv : start.Inv) (before : Extends start middle) (after : Extends middle finish)
    {pre : Bytes} {afterRev : Int} (accepted : ¬afterRev < compactRevision middle.db) {row : Row}
    (membership : row ∈ finish.history)
    (due : Due pre afterRev (currentRevision start.db) row) : row ∈ middle.db.kv := by
  have old : row.rev ≤ middle.db.clock :=
    due.2.2.trans (inv.currentRevision_le_clock.trans before.clock)
  exact consistent.mem_kv (after.mem_of_old membership old)
    ((not_lt.mp accepted).trans_lt due.2.1)

/-- `After` returns no gapped history exactly if it is refused, or no batch
that is deleted between its compaction check and its query takes a row that
is due. -/
theorem after_gapless_iff {start middle finish : World} (reachable : Reachable start)
    (before after : List Action)
    (reached : Runs.run World.step start before = some middle)
    (continued : Runs.run World.step middle after = some finish)
    {pre : Bytes} {afterRev : Int} (positive : 0 < afterRev) {order : List Row}
    (ordered : IsRevOrder (afterRows finish.db.kv pre (revToTS afterRev)) order) :
    Gapless start middle finish pre afterRev order ↔
      afterRev < compactRevision middle.db ∨
        Runs.Guarded World.step (Keeps (Due pre afterRev (currentRevision start.db))) middle
          after := by
  by_cases refused : afterRev < compactRevision middle.db
  · have failed : Gapless start middle finish pre afterRev order :=
      .inl (by simp [SpannerEtcd.after, positive, refused])
    exact iff_of_true failed (.inl refused)
  have consistent : middle.Consistent := reachable.consistent.reaches ⟨before, reached⟩
  have finishInv : finish.Inv := consistent.inv.reaches ⟨after, continued⟩
  have extendsStart := extends_of_reaches ⟨before, reached⟩
  have extendsMiddle := extends_of_reaches ⟨after, continued⟩
  have old : ∀ row, Due pre afterRev (currentRevision start.db) row →
      row.rev ≤ middle.db.clock := fun row due =>
    due.2.2.trans (reachable.inv.currentRevision_le_clock.trans extendsStart.clock)
  have returned : ∀ row ∈ finish.history, Due pre afterRev (currentRevision start.db) row →
      (rowEvent row ∈ order.map rowEvent ↔ row ∈ finish.db.kv) := by
    intro row membership due
    have queried : ∀ other ∈ order, other ∈ finish.history := fun other found =>
      finishInv.mem_history (List.mem_of_mem_filter (ordered.1.mem_iff.mp found))
    rw [finishInv.rowEvent_mem_iff queried membership, ordered.1.mem_iff, mem_afterRows positive]
    exact ⟨fun found => found.1, fun found => ⟨found, due.1, due.2.1⟩⟩
  rw [guarded_keeps_iff consistent.inv old continued]
  simp only [Gapless, after_unlimited refused, refused, false_or, reduceCtorEq, Except.ok.injEq,
    exists_eq_left']
  constructor
  · intro gapless row membership due
    have inHistory := extendsMiddle.mem_history (consistent.inv.mem_history membership)
    exact (returned row inHistory due).mp (gapless row inHistory due)
  · intro kept row membership due
    have stored := consistent.due_stored reachable.inv extendsStart extendsMiddle refused
      membership due
    exact (returned row membership due).mpr (kept row stored due)

/-- A compaction that runs to its end, with the ids that its scan returns. -/
def compactWhole (targetRev : Int) (ids : List Nat) : List Action :=
  [.compact 0 targetRev, .effective 0 true, .scan 0 ids, .deleteBatch 0]

def compactedWhole (targetRev : Int) (ids : List Nat) : World :=
  (Runs.run World.step threeRevisionsWorld (compactWhole targetRev ids)).getD World.init

/-- A compaction of what the caller has seen leaves no gap. -/
theorem compactedSeen_gapless :
    (compactedWhole 5 [0]).db.kv.map Row.rev = [6, 7] ∧
    Gapless threeRevisionsWorld threeRevisionsWorld (compactedWhole 5 [0]) (ascii "k") 5
      (compactedWhole 5 [0]).db.kv := by
  refine ⟨rfl, (after_gapless_iff ⟨threeRevisions, rfl⟩ [] (compactWhole 5 [0]) rfl rfl
    (by decide) ?_).mpr (.inr ?_)⟩
  · decide
  · decide

/-- A whole compaction fits between the check and the query: revision 6 is
due, was committed before the call, and is not returned. -/
theorem compactedUnseen_gapped :
    Runs.run World.step World.init threeRevisions = some threeRevisionsWorld ∧
    Runs.run World.step threeRevisionsWorld (compactWhole 7 [0, 1]) =
      some (compactedWhole 7 [0, 1]) ∧
    IsRevOrder (afterRows (compactedWhole 7 [0, 1]).db.kv (ascii "k") (revToTS 5))
      (compactedWhole 7 [0, 1]).db.kv ∧
    (∃ event, after threeRevisionsWorld.db threeRevisionsWorld.db
      (compactedWhole 7 [0, 1]).db.kv 5 0 = (7, .ok [event]) ∧ event.kv.rev = 7) ∧
    ¬Gapless threeRevisionsWorld threeRevisionsWorld (compactedWhole 7 [0, 1]) (ascii "k") 5
      (compactedWhole 7 [0, 1]).db.kv := by
  refine ⟨rfl, rfl, by decide, ⟨_, rfl, rfl⟩, ?_⟩
  rintro (refused | ⟨events, answered, complete⟩)
  · cases refused
  · cases answered
    revert complete
    decide

end SpannerEtcd
