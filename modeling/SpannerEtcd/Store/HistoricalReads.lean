import SpannerEtcd.Store.Compaction
import SpannerEtcd.Store.Horizon
import SpannerEtcd.Store.Range

/-!
# Historical reads and compaction

A read at a revision above the stored horizon is answered, so deleting a row
that such a read still finds changes history.  `scanCompactBatch` asks for a
newer row of the key at any revision, not for one that every answered read
can see as well; the difference is the condition under which historical reads
are immutable.
-/

namespace SpannerEtcd

open VersionedLog

/-- Some newer row of the key is visible to every read that is not refused. -/
def SupersededAtHorizon (world : World) (row : Row) : Prop :=
  ∃ newer ∈ world.history, newer.key = row.key ∧ row.rev < newer.rev ∧
    newer.rev ≤ compactRevision world.db + 1

instance (world : World) (row : Row) : Decidable (SupersededAtHorizon world row) :=
  inferInstanceAs (Decidable (∃ newer ∈ world.history, _))

/-- Every row that the action deletes is superseded at the stored horizon. -/
def DeletesAtHorizon (world : World) : Action → Prop
  | .deleteBatch compactor =>
      ∀ row ∈ world.db.kv, row.id ∈ (world.compactors compactor).batch →
        SupersededAtHorizon world row
  | _ => True

instance (world : World) (action : Action) : Decidable (DeletesAtHorizon world action) :=
  match action with
  | .deleteBatch _ => inferInstanceAs (Decidable (∀ row ∈ world.db.kv, _))
  | .write _ _ | .seed | .compact _ _ | .effective _ _ | .autoTick _ _ | .autoExisting _ _
  | .autoRecord _ | .scan _ _ | .giveUp _ => .isTrue trivial

/-- A later read at the revision is refused or returns what the earlier one
returned. -/
structure ReadsStable (first second : World) (revision : Int) : Prop where
  get : ∀ key kv, (get first.db first.db first.db key revision).2 = .ok kv →
    (get second.db second.db second.db key revision).2 ≠ .error .compacted →
    (get second.db second.db second.db key revision).2 = .ok kv
  list : ∀ pre startKey limit kvs,
    (list first.db first.db first.db pre startKey limit revision).2.2 = .ok kvs →
    (list second.db second.db second.db pre startKey limit revision).2.2 ≠ .error .compacted →
    (list second.db second.db second.db pre startKey limit revision).2.2 = .ok kvs
  count : ∀ pre startKey n,
    (count first.db first.db first.db pre startKey revision).2 = .ok n →
    (count second.db second.db second.db pre startKey revision).2 ≠ .error .compacted →
    (count second.db second.db second.db pre startKey revision).2 = .ok n

/-! ## What the condition preserves -/

/-- The table misses only rows that no answered read can need. -/
structure World.Readable (world : World) : Prop where
  inv : world.Inv
  horizon : world.HorizonInv
  retained : ∀ row ∈ world.history, row ∉ world.db.kv → SupersededAtHorizon world row

theorem World.init_readable : World.init.Readable :=
  ⟨World.init_inv, World.init_horizonInv, by simp [World.init]⟩

theorem SupersededAtHorizon.mono {world next : World} {row : Row}
    (superseded : SupersededAtHorizon world row) (extended : Extends world next)
    (above : compactRevision world.db ≤ compactRevision next.db) :
    SupersededAtHorizon next row := by
  obtain ⟨newer, membership, sameKey, later, below⟩ := superseded
  obtain ⟨added, grown, _⟩ := extended.history
  exact ⟨newer, grown ▸ List.mem_append_left added membership, sameKey, later, by omega⟩

theorem World.Readable.step {world next : World} {action : Action}
    (readable : world.Readable) (condition : DeletesAtHorizon world action)
    (stepped : world.step action = some next) : next.Readable := by
  have effect := World.step_effect stepped
  refine ⟨World.Inv.step stepped readable.inv, readable.horizon.step stepped, ?_⟩
  intro row membership missing
  have old : row ∈ world.history := by
    by_contra new
    exact missing (effect.mem_kv_of_new membership new)
  have superseded : SupersededAtHorizon world row := by
    by_cases before : row ∈ world.db.kv
    · obtain ⟨compactor, rfl, inBatch⟩ := step_deletes stepped before missing
      exact condition row before inBatch
    · exact readable.retained row old before
  exact superseded.mono effect.extends (World.step_compactRevision_le readable.horizon stepped)

/-! ## Reads that are not refused -/

/-- A read that is not refused finds in the table what it would find in the
whole history. -/
theorem World.Readable.latestRowAt_eq {world : World} (readable : world.Readable)
    {revision : Int} (positive : 0 < revision) (answered : refusedAt world.db revision = false)
    (key : Bytes) :
    latestRowAt world.db.kv key revision = latestRowAt world.history key revision := by
  apply newest_eq_of_retained readable.inv.distinctRows
  · exact fun row membership _ => readable.inv.mem_history membership
  · intro row membership sameKey visible missing
    obtain ⟨newer, newerMembership, newerKey, later, below⟩ :=
      readable.retained row membership missing
    refine ⟨newer, newerMembership, newerKey.trans sameKey, ?_, later⟩
    have positiveRev := (readable.inv.exact row membership).1
    simp only [refusedAt, Bool.and_eq_false_iff, decide_eq_false_iff_not] at answered
    simp only [decide_eq_true_eq]
    omega

theorem latestRowAt_stable {first second : World} (before : first.Readable)
    (after : second.Readable) (extended : Extends first second) {revision : Int}
    (positive : 0 < revision) (current : revision ≤ currentRevision first.db)
    (answered : refusedAt first.db revision = false)
    (answeredLater : refusedAt second.db revision = false) (key : Bytes) :
    latestRowAt second.db.kv key revision = latestRowAt first.db.kv key revision := by
  rw [after.latestRowAt_eq positive answeredLater, before.latestRowAt_eq positive answered,
    latestRowAt_extends before.inv extended current]

theorem stable_of_answered {Answer : Type} {first second : DB} {revision : Int}
    {before after : Answer}
    (same : refusedAt first revision = false → refusedAt second revision = false →
      after = before) {answer : Answer}
    (answered : (if refusedAt first revision then Except.error StoreErr.compacted
      else .ok before) = .ok answer)
    (accepted : (if refusedAt second revision then Except.error StoreErr.compacted
      else .ok after) ≠ .error .compacted) :
    (if refusedAt second revision then Except.error StoreErr.compacted else .ok after) =
      .ok answer := by
  cases refused : refusedAt first revision with
  | true => simp [refused] at answered
  | false =>
      cases refusedLater : refusedAt second revision with
      | true => simp [refusedLater] at accepted
      | false =>
          simp only [refused, Bool.false_eq_true, if_false, Except.ok.injEq] at answered
          simp [same refused refusedLater, answered]

/-- In every run that deletes only rows superseded at the stored horizon,
historical reads are immutable. -/
theorem historical_reads_immutable (earlier later : List Action) {first second : World}
    (guarded : Runs.Guarded World.step DeletesAtHorizon World.init (earlier ++ later))
    (reached : Runs.run World.step World.init earlier = some first)
    (continued : Runs.run World.step first later = some second)
    {revision : Int} (positive : 0 < revision)
    (current : revision ≤ currentRevision first.db) :
    ReadsStable first second revision := by
  have preserved : ∀ world action next, DeletesAtHorizon world action →
      world.step action = some next → world.Readable → next.Readable :=
    fun world action next condition stepped readable => readable.step condition stepped
  obtain ⟨guardedBefore, guardedAfter⟩ := guarded.append reached
  have before : first.Readable :=
    Runs.run_invariant_of_guarded preserved guardedBefore reached World.init_readable
  have after : second.Readable :=
    Runs.run_invariant_of_guarded preserved guardedAfter continued before
  have extended := extends_of_effects (effects_of_reaches ⟨later, continued⟩)
  have agree := fun accepted acceptedLater =>
    latestRowAt_stable before after extended positive current accepted acceptedLater
  constructor
  · intro key kv
    rw [get_at positive, get_at positive]
    apply stable_of_answered
    intro accepted acceptedLater
    rw [agree accepted acceptedLater]
  · intro pre startKey limit kvs
    rw [list_at positive, list_at positive]
    apply stable_of_answered
    intro accepted acceptedLater
    rw [listRows_congr after.inv.storedDistinct before.inv.storedDistinct after.inv.storedNodup
      before.inv.storedNodup fun key _ => agree accepted acceptedLater key]
  · intro pre startKey n
    rw [count_at positive, count_at positive]
    apply stable_of_answered
    intro accepted acceptedLater
    exact (joinedRows_perm after.inv.storedDistinct before.inv.storedDistinct
      after.inv.storedNodup before.inv.storedNodup
      fun key _ => agree accepted acceptedLater key).length_eq

/-- A key is created at revision 5 and updated at revision 20. -/
def overwriteRun : List Action :=
  [.write (.create (ascii "k") (some (ascii "v")) 0) 5,
    .write (.update (ascii "k") (some (ascii "w")) 5 0) 20]

def overwriteThenCreateRun : List Action :=
  overwriteRun ++ [.write (.create (ascii "j") none 0) 25]

/-- `Compact` with the target, down to its only batch. -/
def compactToRun (targetRev : Int) : List Action :=
  [.compact 0 targetRev, .effective 0 true, .scan 0 [0], .deleteBatch 0]

/-- Compaction up to revision 20 keeps what can be read at revision 22. -/
theorem compactToTwenty_reads_stable :
    ∃ first second, Runs.run World.step World.init overwriteThenCreateRun = some first ∧
      Runs.run World.step first (compactToRun 20) = some second ∧
      first.db.kv.length = 3 ∧ second.db.kv.length = 2 ∧ ReadsStable first second 22 :=
  ⟨_, _, rfl, rfl, rfl, rfl,
    historical_reads_immutable overwriteThenCreateRun (compactToRun 20) (by decide) rfl rfl
      (by decide) (by decide)⟩

/-- Compaction up to revision 10 erases the value that the key has at the
revisions 11 to 19, which can still be read. -/
theorem compact_erases_readable_value :
    ∃ first second, Runs.run World.step World.init overwriteRun = some first ∧
      Runs.run World.step first (compactToRun 10) = some second ∧
      0 < (15 : Int) ∧ 15 ≤ currentRevision first.db ∧
      (get second.db second.db second.db (ascii "k") 15).2 = .ok none ∧
      ¬ReadsStable first second 15 := by
  refine ⟨_, _, rfl, rfl, by decide, by decide, rfl, ?_⟩
  intro stable
  have unchanged := stable.get (ascii "k") _ rfl nofun
  cases unchanged

end SpannerEtcd
