import SpannerEtcd.Store.Compaction
import SpannerEtcd.Store.Horizon

/-!
# Rows above the horizon

A compactor deletes by ids that it scanned some time ago, up to a target that
it fixed before the scan.  The stored compact revision only grows, so it is
enough that the target was recorded first: from then on the horizon covers
it, whatever the other compactors do in between.
-/

namespace SpannerEtcd

/-- The stored horizon is at least this timestamp. -/
def Covers (db : DB) (ts : Int) : Prop :=
  ∃ stored, db.kvRev = some stored ∧ ts ≤ stored

/-- The target of a compactor that has been through its transaction. -/
def Compactor.recorded? : Compactor → Option Int
  | .recorded targetRev => some targetRev
  | .deleting targetRev => some targetRev
  | .scanned targetRev _ => some targetRev
  | .idle | .aged _ | .raised _ => none

structure World.RetentionInv (world : World) : Prop where
  covered : ∀ compactor targetRev,
    (world.compactors compactor).recorded? = some targetRev →
      Covers world.db (revToTS targetRev)
  batches : ∀ compactor targetRev ids, world.compactors compactor = .scanned targetRev ids →
    ∀ id ∈ ids, ∃ row ∈ world.history, row.id = id ∧ row.rev ≤ revToTS targetRev
  retained : ∀ row ∈ world.history, row ∉ world.db.kv → Covers world.db row.rev

theorem World.init_retentionInv : World.init.RetentionInv where
  covered := by simp [World.init, Compactor.recorded?]
  batches := by simp [World.init]
  retained := by simp [World.init]

/-! ## What the steps do to the horizon -/

/-- The stored value, once present, is replaced by larger ones only. -/
def HorizonGrows (before after : DB) : Prop :=
  ∀ old, before.kvRev = some old → ∃ new, after.kvRev = some new ∧ old ≤ new

theorem HorizonGrows.trans {first second third : DB} (before : HorizonGrows first second)
    (after : HorizonGrows second third) : HorizonGrows first third := by
  intro old existing
  obtain ⟨middle, found, below⟩ := before old existing
  obtain ⟨new, replaced, above⟩ := after middle found
  exact ⟨new, replaced, below.trans above⟩

theorem Covers.grows {before after : DB} {ts : Int} (covers : Covers before ts)
    (grows : HorizonGrows before after) : Covers after ts := by
  obtain ⟨old, existing, below⟩ := covers
  obtain ⟨new, found, above⟩ := grows old existing
  exact ⟨new, found, below.trans above⟩

theorem Covers.le_compactRevision {db : DB} {ts : Int} (covers : Covers db ts)
    (stored : ∀ horizon, db.kvRev = some horizon → IsHorizon horizon) :
    ts ≤ compactRevision db := by
  obtain ⟨horizon, found, below⟩ := covers
  simpa only [compactRevision, found, tsToRev_of_isHorizon (stored horizon found)] using below

/-- Whoever wins the comparison, the transaction leaves its target covered. -/
theorem recordCompactRev_covers (db : DB) (targetRev : Int) :
    Covers (recordCompactRev db targetRev) (revToTS targetRev) := by
  unfold recordCompactRev
  cases existing : db.kvRev with
  | none => exact ⟨_, rfl, le_refl _⟩
  | some old =>
      dsimp only
      split
      next => exact ⟨_, rfl, le_refl _⟩
      next notBelow => exact ⟨old, existing, not_lt.mp notBelow⟩

/-- Raising a covered target to the stored value keeps it covered. -/
theorem raiseTarget_covers {db : DB} {targetRev : Int} (readOk : Bool)
    (stored : ∀ horizon, db.kvRev = some horizon → IsHorizon horizon)
    (covers : Covers db (revToTS targetRev)) :
    Covers db (revToTS (raiseTarget db readOk targetRev)) := by
  unfold raiseTarget
  split
  next =>
      obtain ⟨horizon, found, _⟩ := covers
      have isHorizon := stored horizon found
      refine ⟨horizon, found, ?_⟩
      simp only [compactRevision, found, tsToRev_of_isHorizon isHorizon,
        revToTS_of_one_le isHorizon.1, le_refl]
  next => exact covers

theorem World.step_horizonGrows {world next : World} {action : Action}
    (stepped : world.step action = some next) : HorizonGrows world.db next.db := by
  intro old existing
  cases World.step_move stepped with
  | write op ts later => exact ⟨old, (op.apply_kvRev world.db ts).trans existing, le_refl old⟩
  | seed => exact ⟨old, by simp [seedCompactRev, existing], le_refl old⟩
  | compactor compactor move => exact move.grows existing

theorem horizonGrows_of_reaches {world next : World}
    (reached : Runs.Reaches World.step world next) : HorizonGrows world.db next.db :=
  Runs.Reaches.relates (fun first second => HorizonGrows first.db second.db)
    (fun _ old existing => ⟨old, existing, le_refl old⟩) HorizonGrows.trans
    (fun _ _ _ => World.step_horizonGrows) reached

/-! ## The invariant -/

theorem CompactorMove.covers {db next : DB} {compactor : Nat} {action : Action}
    {before after : Compactor} (move : CompactorMove db compactor action before next after)
    (stored : ∀ horizon, db.kvRev = some horizon → IsHorizon horizon)
    (held : ∀ targetRev, before.recorded? = some targetRev → Covers db (revToTS targetRev)) :
    ∀ targetRev, after.recorded? = some targetRev → Covers next (revToTS targetRev) := by
  cases move with
  | record range => rintro _ ⟨⟩; exact recordCompactRev_covers db _
  | effective readOk => rintro _ ⟨⟩; exact raiseTarget_covers readOk stored (held _ rfl)
  | autoRecord => rintro _ ⟨⟩; exact recordCompactRev_covers db _
  | scan batch => rintro _ ⟨⟩; exact held _ rfl
  | @delete targetRev ids =>
      rcases afterBatch_cases targetRev ids with idle | more
      · simp [idle, Compactor.recorded?]
      · rw [more]
        rintro _ ⟨⟩
        exact held _ rfl
  | _ => simp [Compactor.recorded?]

theorem scan_rev_le {world : World} (inv : world.Inv) {targetTS : Int} {ids : List Nat}
    (scan : IsScan world.db.kv targetTS ids) {id : Nat} (inBatch : id ∈ ids) :
    ∃ row ∈ world.history, row.id = id ∧ row.rev ≤ targetTS := by
  obtain ⟨row, chosen, rowId⟩ := List.mem_map.mp (scan.1 id inBatch)
  obtain ⟨membership, isEligible⟩ := List.mem_filter.mp chosen
  simp only [eligible, Bool.and_eq_true, decide_eq_true_eq] at isEligible
  exact ⟨row, inv.mem_history membership, rowId, isEligible.1⟩

/-- The batches that were scanned are still about rows at or below their
target, for the history only grows. -/
theorem World.RetentionInv.batches_effect {world next : World} (inv : world.Inv)
    (retention : world.RetentionInv) (effect : Effect world next) :
    ∀ compactor targetRev ids, next.compactors compactor = .scanned targetRev ids →
      ∀ id ∈ ids, ∃ row ∈ next.history, row.id = id ∧ row.rev ≤ revToTS targetRev := by
  intro compactor targetRev ids scanned id inBatch
  cases effect with
  | commit ts inserts later writeSet db history compactors =>
      obtain ⟨row, membership, found⟩ :=
        retention.batches compactor targetRev ids (compactors ▸ scanned) id inBatch
      exact ⟨row, history ▸ List.mem_append_left _ membership, found⟩
  | control kv nextId clock history batches =>
      rw [history]
      rcases batches compactor targetRev ids scanned with before | scan
      · exact retention.batches compactor targetRev ids before id inBatch
      · exact scan_rev_le inv scan inBatch
  | deletion deleter deleterRev deleted _ db history batches =>
      rw [history]
      exact retention.batches compactor targetRev ids (batches _ _ _ scanned) id inBatch

theorem World.RetentionInv.deleted_covered {world next : World} {action : Action}
    (inv : world.Inv) (retention : world.RetentionInv)
    (stepped : world.step action = some next) {row : Row} (before : row ∈ world.db.kv)
    (missing : row ∉ next.db.kv) : Covers world.db row.rev := by
  obtain ⟨compactor, rfl, inBatch⟩ := step_deletes stepped before missing
  cases standing : world.compactors compactor with
  | scanned targetRev ids =>
      rw [standing] at inBatch
      obtain ⟨other, otherMembership, sameId, below⟩ :=
        retention.batches compactor targetRev ids standing row.id inBatch
      obtain rfl := inv.id_injective otherMembership (inv.mem_history before) sameId
      obtain ⟨stored, found, covered⟩ :=
        retention.covered compactor targetRev (by rw [standing]; rfl)
      exact ⟨stored, found, below.trans covered⟩
  | _ => simp [standing, Compactor.batch] at inBatch

theorem World.RetentionInv.step {world next : World} {action : Action} (inv : world.Inv)
    (horizon : world.HorizonInv) (stepped : world.step action = some next)
    (retention : world.RetentionInv) : next.RetentionInv where
  covered := by
    have stillCovered : ∀ other targetRev, (world.compactors other).recorded? = some targetRev →
        Covers next.db (revToTS targetRev) := fun other targetRev held =>
      (retention.covered other targetRev held).grows (World.step_horizonGrows stepped)
    cases World.step_move stepped with
    | write op ts later => exact stillCovered
    | seed => exact stillCovered
    | compactor compactor move =>
        exact World.setCompactor_forall
          (fun state =>
            ∀ targetRev, state.recorded? = some targetRev → Covers _ (revToTS targetRev))
          stillCovered (move.covers horizon.stored (retention.covered compactor)) compactor
  batches := retention.batches_effect inv (World.step_effect stepped)
  retained := by
    intro row membership missing
    have grows := World.step_horizonGrows stepped
    have old : row ∈ world.history := by
      by_contra new
      exact missing ((World.step_effect stepped).mem_kv_of_new membership new)
    by_cases before : row ∈ world.db.kv
    · exact (retention.deleted_covered inv stepped before missing).grows grows
    · exact (retention.retained row old before).grows grows

/-- The invariants of the log and of the horizon, which carry each other. -/
structure World.Consistent (world : World) : Prop where
  inv : world.Inv
  horizon : world.HorizonInv
  retention : world.RetentionInv

theorem World.init_consistent : World.init.Consistent :=
  ⟨World.init_inv, World.init_horizonInv, World.init_retentionInv⟩

theorem World.Consistent.step {world next : World} {action : Action}
    (stepped : world.step action = some next) (consistent : world.Consistent) :
    next.Consistent where
  inv := consistent.inv.step stepped
  horizon := consistent.horizon.step stepped
  retention := consistent.retention.step consistent.inv consistent.horizon stepped

theorem World.Consistent.reaches {world next : World} (consistent : world.Consistent)
    (reached : Runs.Reaches World.step world next) : next.Consistent :=
  reached.invariant (fun _ _ _ stepped => World.Consistent.step stepped) consistent

theorem Reachable.consistent {world : World} (reachable : Reachable world) : world.Consistent :=
  World.init_consistent.reaches reachable

/-- A committed row above the stored compact revision is still in the table. -/
theorem World.Consistent.mem_kv {world : World} (consistent : world.Consistent) {row : Row}
    (membership : row ∈ world.history) (above : compactRevision world.db < row.rev) :
    row ∈ world.db.kv := by
  by_contra missing
  have covered := consistent.retention.retained row membership missing
  have below := covered.le_compactRevision consistent.horizon.stored
  omega

theorem compactRevision_le_of_grows {before after : DB}
    (beforeStored : ∀ ts, before.kvRev = some ts → IsHorizon ts)
    (afterStored : ∀ ts, after.kvRev = some ts → IsHorizon ts)
    (grows : HorizonGrows before after) : compactRevision before ≤ compactRevision after :=
  compactRevision_le_of_kvRev afterStored fun old existing =>
    ⟨beforeStored old existing, grows old existing⟩

/-- For any interleaving of writes, `Compact` calls and auto-compaction rounds
on any replicas: the stored compact revision never decreases, a row that a
step deletes is at or below it at that time, and every row ever committed
above it is in the table. -/
theorem deleted_rows_below_horizon {world : World} (reachable : Reachable world) :
    (∀ later, Runs.Reaches World.step world later →
      HorizonGrows world.db later.db ∧
        compactRevision world.db ≤ compactRevision later.db) ∧
    (∀ action next, world.step action = some next →
      ∀ row ∈ world.db.kv, row ∉ next.db.kv → row.rev ≤ compactRevision world.db) ∧
    ∀ row ∈ world.history, compactRevision world.db < row.rev → row ∈ world.db.kv := by
  have consistent := reachable.consistent
  have horizon := consistent.horizon
  refine ⟨?_, ?_, ?_⟩
  · intro later reached
    have grows := horizonGrows_of_reaches reached
    exact ⟨grows, compactRevision_le_of_grows horizon.stored (horizon.reaches reached).stored grows⟩
  · intro action next stepped row before missing
    have covered := consistent.retention.deleted_covered consistent.inv stepped before missing
    exact covered.le_compactRevision horizon.stored
  · intro row membership above
    exact consistent.mem_kv membership above

/-- A key is written twice, and a compactor that recorded the first revision
is about to delete its row. -/
def aboutToDeleteRun : List Action :=
  [.write (.create (ascii "k") (some (ascii "v")) 0) 5,
    .write (.update (ascii "k") (some (ascii "w")) 5 0) 6,
    .compact 0 5, .effective 0 true, .scan 0 [0]]

def aboutToDelete : World :=
  (Runs.run World.step World.init aboutToDeleteRun).getD World.init

theorem aboutToDelete_rows_below_horizon :
    compactRevision aboutToDelete.db = 5 ∧ aboutToDelete.history.map Row.rev = [5, 6] ∧
    (aboutToDelete.step (.deleteBatch 0)).map (fun next => next.db.kv.map Row.rev) =
      some [6] ∧
    (∀ next, aboutToDelete.step (.deleteBatch 0) = some next →
      ∀ row ∈ aboutToDelete.db.kv, row ∉ next.db.kv → row.rev ≤ 5) ∧
    ∀ row ∈ aboutToDelete.history, 5 < row.rev → row ∈ aboutToDelete.db.kv := by
  have reachable : Reachable aboutToDelete := ⟨aboutToDeleteRun, rfl⟩
  have retained := deleted_rows_below_horizon reachable
  exact ⟨rfl, rfl, rfl, retained.2.1 (.deleteBatch 0), retained.2.2⟩

end SpannerEtcd
