import SpannerEtcd.Server.Response
import SpannerEtcd.Store.EventReads
import SpannerEtcd.Store.History

/-!
# The previous entry of a watch event

A row of the log carries the value and the revision of the entry that it
replaces, and `toWatchEvent` rebuilds that entry from the two columns.  The
columns always agree with the history; but an empty value is stored as NULL,
and an event whose previous value is NULL is delivered without `PrevKv`.
-/

namespace SpannerEtcd

open VersionedLog

/-- `mvccpb.Event`. -/
structure WatchEvent where
  type : EventType
  kv : KeyValue
  prevKv : Option KeyValue
  deriving DecidableEq, Repr

def toWatchEvent (event : Event) : WatchEvent :=
  { type := event.type
    kv := toProtoKV event.kv
    prevKv :=
      match event.kv.oldValue with
      | none => none
      | some oldValue =>
          if event.kv.prevRevision > 0 then
            some
              { key := event.kv.key
                value := some oldValue
                modRevision := event.kv.prevRevision
                createRevision := event.kv.createRevision
                version := 0
                lease := 0 }
          else none }

/-- The entry of the event's key immediately before its write. -/
def entryBefore (history : List Row) (event : Event) : Option KV :=
  liveKV (newest Row.key Row.rev (fun rev => decide (rev < event.kv.rev)) history event.kv.key)

/-- The entry that a `PrevKv` describes.  A nil value and an empty one are the
same message. -/
structure Describes (prev : KeyValue) (entry : KV) : Prop where
  key : prev.key = entry.key
  value : prev.value.getD [] = entry.value.getD []
  modRevision : prev.modRevision = entry.rev
  createRevision : prev.createRevision = entry.createRevision

/-- The event carries a `PrevKv` exactly if its key was live before, and then
the entry that it replaces. -/
def ShowsPrevious (history : List Row) (event : Event) : Prop :=
  match entryBefore history event with
  | none => (toWatchEvent event).prevKv = none
  | some entry => ∃ prev, (toWatchEvent event).prevKv = some prev ∧ Describes prev entry

/-! ## The two columns -/

theorem toWatchEvent_prevKv_none {event : Event} (null : event.kv.oldValue = none) :
    (toWatchEvent event).prevKv = none := by
  simp only [toWatchEvent, null]

section
variable {world : World} (inv : world.Inv) {row : Row} (membership : row ∈ world.history)
include inv membership

theorem entryBefore_rowEvent :
    entryBefore world.history (rowEvent row) = liveKV (predecessor world.history row) := by
  have exact : (rowEvent row).kv.rev = row.rev := tsToRev_of_exact (inv.exact row membership)
  rw [entryBefore, exact]
  rfl

/-- A row that creates its key has no previous value. -/
theorem rowEvent_oldValue_of_new (new : entryBefore world.history (rowEvent row) = none) :
    (rowEvent row).kv.oldValue = none := by
  rw [entryBefore_rowEvent inv membership] at new
  cases inv.linked row membership with
  | first alone begins => exact begins.oldValue
  | again before found gone begins => exact begins.oldValue
  | next before found live continues tombstone =>
      simp [found, liveKV, scanKV, live] at new

/-- A row that follows a live one repeats what it replaces. -/
theorem rowEvent_columns {entry : KV}
    (replaced : entryBefore world.history (rowEvent row) = some entry) :
    (rowEvent row).kv.key = entry.key ∧ (rowEvent row).kv.oldValue = entry.value ∧
      (rowEvent row).kv.prevRevision = entry.rev ∧
      (rowEvent row).kv.createRevision = entry.createRevision ∧ 0 < entry.rev := by
  rw [entryBefore_rowEvent inv membership] at replaced
  cases inv.linked row membership with
  | first alone begins => simp [alone] at replaced
  | again before found gone begins => simp [found, liveKV, scanKV, gone] at replaced
  | next before found live continues tombstone =>
      have after := (predecessor_eq_some_iff inv.distinctRows).mp found
      have exact := inv.exact before after.membership
      simp only [found, liveKV, scanKV, live, Bool.false_eq_true, if_false,
        Option.some.injEq] at replaced
      subst replaced
      refine ⟨after.sameKey.symm, continues.oldValue, ?_, ?_, ?_⟩
      · simp only [rowEvent, scanKV, continues.prevRevision, nullTimeToRev]
      · simp only [rowEvent, scanKV, continues.createRevision]
      · have positive := exact.1
        simp only [tsToRev_of_exact exact]
        omega

theorem showsPrevious_rowEvent_iff :
    ShowsPrevious world.history (rowEvent row) ↔
      ∀ entry ∈ entryBefore world.history (rowEvent row), entry.value ≠ none := by
  unfold ShowsPrevious
  cases replaced : entryBefore world.history (rowEvent row) with
  | none => simp [toWatchEvent_prevKv_none (rowEvent_oldValue_of_new inv membership replaced)]
  | some entry =>
      obtain ⟨sameKey, oldValue, prevRevision, createRevision, positive⟩ :=
        rowEvent_columns inv membership replaced
      simp only [Option.mem_some_iff, forall_eq']
      cases stored : entry.value with
      | none =>
          have missing := toWatchEvent_prevKv_none (oldValue.trans stored)
          simp [missing]
      | some value =>
          have shown : (toWatchEvent (rowEvent row)).prevKv =
              some ⟨entry.key, some value, entry.rev, entry.createRevision, 0, 0⟩ := by
            simp only [toWatchEvent, oldValue.trans stored, sameKey, prevRevision, createRevision,
              gt_iff_lt, positive, if_true]
          simp only [shown, Option.some.injEq, exists_eq_left', ne_eq, reduceCtorEq,
            not_false_eq_true, iff_true]
          exact ⟨rfl, by simp [stored], rfl, rfl⟩

end

/-! ## Events of the log -/

/-- An event that `After` returns shows what its write replaced exactly if
that is not an entry whose value is NULL. -/
theorem watch_events_show_previous_iff {world : World} (reachable : Reachable world)
    {revDb compactDb : DB} {pre : Bytes} {afterRev limit : Int} {order : List Row}
    (ordered : IsRevOrder (afterRows world.db.kv pre (revToTS afterRev)) order)
    {events : List Event} (returned : (after revDb compactDb order afterRev limit).2 = .ok events) :
    ∀ event ∈ events, ShowsPrevious world.history event ↔
      ∀ entry ∈ entryBefore world.history event, entry.value ≠ none := by
  intro event membership
  have inv := reachable.inv
  unfold after at returned
  split at returned
  · cases returned
  · cases returned
    obtain ⟨row, taken, rfl⟩ := List.mem_map.mp membership
    have inOrder : row ∈ order := (limitClause_sublist limit order).subset taken
    have stored := List.mem_of_mem_filter (ordered.1.mem_iff.mp inOrder)
    exact showsPrevious_rowEvent_iff inv (inv.mem_history stored)

theorem lifetimeWorld_shows_previous :
    ∃ events,
      (after lifetimeWorld.db lifetimeWorld.db lifetimeWorld.history 1 0).2 = .ok events ∧
      events.map (fun event => (event.kv.rev, (toWatchEvent event).prevKv.map (·.value))) =
        [(5, none), (6, some (some (ascii "v"))), (7, some (some (ascii "w")))] ∧
      ∀ event ∈ events, ShowsPrevious lifetimeWorld.history event := by
  have reachable : Reachable lifetimeWorld := ⟨lifetimeRun, rfl⟩
  have ordered : IsRevOrder (afterRows lifetimeWorld.db.kv [] (revToTS 1))
      lifetimeWorld.history := by
    decide
  have returned : (after lifetimeWorld.db lifetimeWorld.db lifetimeWorld.history 1 0).2 =
      .ok (lifetimeWorld.history.map rowEvent) := rfl
  have replaced : ∀ event ∈ lifetimeWorld.history.map rowEvent,
      ∀ entry ∈ entryBefore lifetimeWorld.history event, entry.value ≠ none := by
    decide
  exact ⟨_, returned, rfl, fun event membership =>
    (watch_events_show_previous_iff reachable ordered returned event membership).mpr
      (replaced event membership)⟩

/-- A key is created with an empty value and then updated. -/
def emptyValueRun : List Action :=
  [.write (.create (ascii "k") none 0) 5, .write (.update (ascii "k") (some (ascii "w")) 5 0) 6]

/-- The event of the update has no `PrevKv`, although the key was live. -/
theorem empty_previous_value_missing :
    ∃ world, Runs.run World.step World.init emptyValueRun = some world ∧
      ∃ events, (after world.db world.db world.history 1 0).2 = .ok events ∧
        IsRevOrder (afterRows world.db.kv [] (revToTS 1)) world.history ∧
        ∃ event ∈ events, (entryBefore world.history event).isSome = true ∧
          (toWatchEvent event).prevKv = none :=
  ⟨_, rfl, _, rfl, by decide, _, List.mem_cons_of_mem _ List.mem_cons_self, by decide, by decide⟩

end SpannerEtcd
