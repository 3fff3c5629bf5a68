import SpannerEtcd.Lib.Sweep
import SpannerEtcd.Store.System

/-!
# One compaction from its first batch to its last

`compactRows` deletes batch after batch until one is short.  Spanner may return
any eligible rows in a batch, and eligibility is a matter of other rows.  The
newest row of a key is never eligible, so what remains is the same for all
choices.
-/

namespace SpannerEtcd

/-- One round of the loop: what it leaves, the total, and whether another round
follows. -/
def compactRound (ids : List Nat) (db : DB) (total : Nat) : (DB × Nat) × Bool :=
  if ids.isEmpty then ((db, total), false)
  else ((deleteIds db ids, total + ids.length), !decide (ids.length < compactBatchSize))

/-- The loop of `compactRows`; `scan` returns the batch of each round. -/
def compactRows (scan : Nat → List Row → List Nat) : Nat → Nat → DB → Nat → Option (DB × Nat)
  | 0, _, _, _ => none
  | fuel + 1, round, db, total =>
      match compactRound (scan round db.kv) db total with
      | (result, false) => some result
      | (result, true) => compactRows scan fuel (round + 1) result.1 result.2

/-- The row is old enough, and a strictly newer row of its key is in the table. -/
def Outdated (rows : List Row) (targetRev : Int) (row : Row) : Prop :=
  row.rev ≤ revToTS targetRev ∧ ∃ newer ∈ rows, newer.key = row.key ∧ row.rev < newer.rev

theorem eligible_iff_outdated {rows : List Row} {targetRev : Int} {row : Row} :
    eligible rows (revToTS targetRev) row = true ↔ Outdated rows targetRev row := by
  simp [eligible, Outdated]

instance (rows : List Row) (targetRev : Int) (row : Row) :
    Decidable (Outdated rows targetRev row) :=
  decidable_of_iff _ eligible_iff_outdated

section

open VersionedLog

variable {rows rest : List Row} {targetTS : Int}

/-- The newest row of a key stays, and everything older is still superseded by
it. -/
theorem eligible_stable (rows : List Row) (targetTS : Int) :
    Sweep.Stable (fun rows => eligible rows targetTS) rows := by
  intro rest remains row inRest
  rw [Bool.eq_iff_iff]
  simp only [eligible, Bool.and_eq_true, decide_eq_true_eq, List.any_eq_true]
  refine and_congr_right fun _ => ⟨?_, ?_⟩
  · intro found
    obtain ⟨newer, membership, isNewer⟩ := found
    exact ⟨newer, remains.sublist.subset membership, isNewer⟩
  · intro found
    obtain ⟨newer, membership, sameKey, isNewer⟩ := found
    cases newest : latestRow rows row.key with
    | none =>
        have hidden := newest_eq_none_iff.mp newest newer membership sameKey
        simp at hidden
    | some best =>
        have bestKey : best.key = row.key := newest_key newest
        have highest : ∀ other ∈ rows, other.key = row.key → other.rev ≤ best.rev :=
          fun other otherMembership otherKey => newest_le newest otherMembership otherKey rfl
        have notEligible : eligible rows targetTS best = false := by
          simp only [eligible, Bool.and_eq_false_iff, List.any_eq_false]
          right
          intro other otherMembership
          simpa [bestKey] using highest other otherMembership
        refine ⟨best, remains.kept best (newest_mem newest) notEligible, bestKey, ?_⟩
        exact isNewer.trans_le (highest newer membership sameKey)

end

/-! ## The loop -/

section Loop

variable {ids : List Nat} {db : DB} {total : Nat}

/-- An empty batch ends the loop as a short one does. -/
theorem compactRound_of_short (short : ids.length < compactBatchSize) :
    compactRound ids db total = ((deleteIds db ids, total + ids.length), false) := by
  unfold compactRound
  split
  next empty =>
    obtain rfl := List.isEmpty_iff.mp empty
    simp [deleteIds]
  next => simp [short]

theorem compactRound_of_full (full : ¬ids.length < compactBatchSize) :
    compactRound ids db total = ((deleteIds db ids, total + ids.length), true) := by
  have nonempty : ids.isEmpty = false := by
    cases ids with
    | nil => exact absurd (by decide) full
    | cons id rest => rfl
  simp [compactRound, nonempty, full]

variable {items : List Row} {targetRev : Int} {scan : Nat → List Row → List Nat}
  (distinct : (items.map Row.id).Nodup)
  (batches : ∀ round rest, rest.Sublist items →
    IsBatch rest (revToTS targetRev) (scan round rest))

include distinct batches

/-- The loop from any round on.  Every full batch takes rows, and a short one
leaves none that is eligible. -/
theorem compactRows_from {fuel : Nat} (round total : Nat) {db : DB}
    (remains : Sweep.Remains (fun rows => eligible rows (revToTS targetRev)) items db.kv)
    (enough : db.kv.length < fuel) :
    ∃ removed, compactRows scan fuel round db total =
        some ({ db with kv := items.filter fun row => !eligible items (revToTS targetRev) row },
          total + removed) ∧
      removed + (items.filter fun row => !eligible items (revToTS targetRev) row).length =
        db.kv.length := by
  induction fuel generalizing round total db with
  | zero => exact absurd enough (Nat.not_lt_zero _)
  | succ fuel inductionHypothesis =>
      have batch : Sweep.IsBatch Row.id (fun rows => eligible rows (revToTS targetRev))
          compactBatchSize db.kv (scan round db.kv) := batches round db.kv remains.sublist
      have stable := eligible_stable items (revToTS targetRev)
      have number := batch.length_remove (distinct.sublist (remains.sublist.map Row.id))
      by_cases short : (scan round db.kv).length < compactBatchSize
      · have final := remains.remove_short stable distinct batch short
        refine ⟨(scan round db.kv).length, ?_, ?_⟩
        · simp only [compactRows, compactRound_of_short short, ← final]
          rfl
        · rw [← final, Nat.add_comm]
          exact number
      · have smaller : (deleteIds db (scan round db.kv)).kv.length < fuel := by
          have positive : 0 < compactBatchSize := by decide
          have same : (deleteIds db (scan round db.kv)).kv.length + (scan round db.kv).length =
              db.kv.length := number
          omega
        have left : Sweep.Remains (fun rows => eligible rows (revToTS targetRev)) items
            (deleteIds db (scan round db.kv)).kv := remains.remove stable distinct batch
        obtain ⟨removed, ran, rest⟩ := inductionHypothesis (round + 1)
          (total + (scan round db.kv).length) left smaller
        refine ⟨(scan round db.kv).length + removed, ?_, ?_⟩
        · simp only [compactRows, compactRound_of_full short, ran, Nat.add_assoc]
          rfl
        · rw [Nat.add_assoc, rest, Nat.add_comm]
          exact number

end Loop

/-- Whatever batches Spanner returns, `compactRows` comes to an end, what it
leaves is what was not outdated when it began, and it returns the number of
rows that it has removed. -/
theorem compactRows_removes_outdated (db : DB) (distinct : (db.kv.map Row.id).Nodup)
    (targetRev : Int) {scan : Nat → List Row → List Nat}
    (batches : ∀ round rest, rest.Sublist db.kv →
      IsBatch rest (revToTS targetRev) (scan round rest)) :
    ∃ total, (∀ fuel > db.kv.length, compactRows scan fuel 0 db 0 = some
        ({ db with kv := db.kv.filter fun row => decide (¬Outdated db.kv targetRev row) },
          total)) ∧
      total + (db.kv.filter fun row => decide (¬Outdated db.kv targetRev row)).length =
        db.kv.length := by
  have same : (fun row => decide (¬Outdated db.kv targetRev row)) =
      fun row => !eligible db.kv (revToTS targetRev) row := by
    funext row
    rw [decide_not, Bool.decide_congr eligible_iff_outdated.symm, Bool.decide_eq_true]
  rw [same]
  have remains := Sweep.Remains.refl (fun rows => eligible rows (revToTS targetRev)) db.kv
  refine ⟨db.kv.length - (db.kv.filter fun row =>
    !eligible db.kv (revToTS targetRev) row).length, ?_, ?_⟩
  · intro fuel enough
    obtain ⟨removed, ran, number⟩ := compactRows_from distinct batches 0 0 remains enough
    rw [ran, ← number, Nat.add_sub_cancel, Nat.zero_add]
  · exact Nat.sub_add_cancel (List.length_filter_le _ _)

/-- The first eligible rows of the table. -/
def firstEligible (targetRev : Int) (_ : Nat) (rows : List Row) : List Nat :=
  (eligibleIds rows (revToTS targetRev)).take compactBatchSize

theorem firstEligible_isBatch {rows : List Row} (distinct : (rows.map Row.id).Nodup)
    (targetRev : Int) (round : Nat) :
    IsBatch rows (revToTS targetRev) (firstEligible targetRev round rows) := by
  have nodup : (eligibleIds rows (revToTS targetRev)).Nodup :=
    distinct.sublist (List.filter_sublist.map Row.id)
  exact ⟨nodup.sublist (List.take_sublist _ _), fun _ => List.mem_of_mem_take, List.length_take⟩

/-- A key in its third version. -/
def threeVersions : DB := threeRevisionsWorld.db

theorem threeVersions_compacted :
    ∃ final, compactRows (firstEligible 6) 4 0 threeVersions 0 = some (final, 2) ∧
      final.kv.map Row.rev = [7] := by
  have distinct : (threeVersions.kv.map Row.id).Nodup := by decide
  obtain ⟨total, ran, number⟩ := compactRows_removes_outdated threeVersions distinct 6
    fun round rest sublist =>
      firstEligible_isBatch (distinct.sublist (sublist.map Row.id)) 6 round
  obtain rfl : total = 2 := by
    have left : (threeVersions.kv.filter fun row =>
        decide (¬Outdated threeVersions.kv 6 row)).length = 1 := by decide
    have all : threeVersions.kv.length = 3 := by decide
    omega
  exact ⟨_, ran 4 (by decide), by decide⟩

/-! ## The loop as steps of a compactor -/

theorem World.setCompactor_setCompactor (world : World) (compactor : Nat)
    (first second : Compactor) :
    (world.setCompactor compactor first).setCompactor compactor second =
      world.setCompactor compactor second := by
  simp [World.setCompactor]

section

variable {world : World} {compactor : Nat} {targetRev : Int}

theorem compactRound_sublist (ids : List Nat) (db : DB) (total : Nat) :
    (compactRound ids db total).1.1.kv.Sublist db.kv := by
  unfold compactRound
  split
  · exact .refl _
  · exact List.filter_sublist

/-- One round is a scan, followed by the deletion of what was scanned. -/
theorem compactRound_reaches {ids : List Nat}
    (standing : world.compactors compactor = .deleting targetRev)
    (batch : IsBatch world.db.kv (revToTS targetRev) ids) (total : Nat) :
    Runs.Reaches World.step world
      ({ world with db := (compactRound ids world.db total).1.1 }.setCompactor compactor
        (if (compactRound ids world.db total).2 then .deleting targetRev else .idle)) := by
  unfold compactRound
  split
  next empty =>
    have scanned : world.step (.scan compactor ids) =
        some (world.setCompactor compactor .idle) := by
      simp only [World.step, standing, batch, empty, if_true]
    exact .single scanned
  next nonempty =>
    have scanned : world.step (.scan compactor ids) =
        some (world.setCompactor compactor (.scanned targetRev ids)) := by
      simp [World.step, standing, batch, nonempty]
    have deleted : (world.setCompactor compactor (.scanned targetRev ids)).step
        (.deleteBatch compactor) = some
          ({ world with db := deleteIds world.db ids }.setCompactor compactor
            (afterBatch targetRev ids)) := by
      have now : (world.setCompactor compactor (.scanned targetRev ids)).compactors compactor =
          .scanned targetRev ids := Function.update_self ..
      simp only [World.step, now]
      exact congrArg some (World.setCompactor_setCompactor
        { world with db := deleteIds world.db ids } compactor _ _)
    have ends : (if (!decide (ids.length < compactBatchSize)) = true then .deleting targetRev
        else .idle) = afterBatch targetRev ids := by
      unfold afterBatch
      by_cases short : ids.length < compactBatchSize <;> simp [short]
    rw [ends]
    exact (Runs.Reaches.single scanned).trans (.single deleted)

/-- The loop is a run of the compactor in which nobody else takes a step. -/
theorem compactRows_reaches {scan : Nat → List Row → List Nat} {fuel round total : Nat}
    {result : DB × Nat} (standing : world.compactors compactor = .deleting targetRev)
    (batches : ∀ round rest, rest.Sublist world.db.kv →
      IsBatch rest (revToTS targetRev) (scan round rest))
    (ran : compactRows scan fuel round world.db total = some result) :
    Runs.Reaches World.step world
      ({ world with db := result.1 }.setCompactor compactor .idle) := by
  induction fuel generalizing round total world with
  | zero => cases ran
  | succ fuel inductionHypothesis =>
      have first := compactRound_reaches standing (batches round world.db.kv (.refl _)) total
      simp only [compactRows] at ran
      split at ran
      next stopped =>
        obtain rfl := Option.some.inj ran
        rwa [stopped] at first
      next middle goesOn =>
        rw [goesOn] at first
        have smaller : middle.1.kv.Sublist world.db.kv := by
          have sublist := compactRound_sublist (scan round world.db.kv) world.db total
          rwa [goesOn] at sublist
        have goesOnDeleting : ({ world with db := middle.1 }.setCompactor compactor
            (.deleting targetRev)).compactors compactor = .deleting targetRev :=
          Function.update_self ..
        have rest := inductionHypothesis goesOnDeleting
          (fun round rest sublist => batches round rest (sublist.trans smaller)) ran
        exact first.trans (World.setCompactor_setCompactor
          { world with db := result.1 } compactor (.deleting targetRev) .idle ▸ rest)

end

end SpannerEtcd
