import SpannerEtcd.Store.CompactRows
import SpannerEtcd.Store.EventReads

/-!
# A compaction that comes to its end

`compactRows` scans and deletes in separate accesses.  Meanwhile writers make
more rows eligible and other compactors delete rows that this one has scanned.
A batch that is not full names every row that was outdated when the compaction
began and is still in the table, and no such row is added afterwards: so the
compaction that stops after it has removed them all.
-/

namespace SpannerEtcd

open VersionedLog

/-! ## Rows to be removed -/

theorem Outdated.mono {rows more : List Row} {targetRev higher : Int} {row : Row}
    (outdated : Outdated rows targetRev row) (included : ∀ other ∈ rows, other ∈ more)
    (raised : targetRev ≤ higher) : Outdated more higher row := by
  obtain ⟨old, newer, membership, sameKey, above⟩ := outdated
  refine ⟨old.trans ?_, newer, included newer membership, sameKey, above⟩
  unfold revToTS
  split <;> split <;> omega

/-- The row that supersedes an outdated one may have been deleted, but then a
newer one has not. -/
theorem World.Inv.eligible_of_outdated {world : World} (inv : world.Inv) {targetRev : Int}
    {row : Row} (outdated : Outdated world.history targetRev row) :
    eligible world.db.kv (revToTS targetRev) row = true := by
  obtain ⟨old, newer, membership, sameKey, above⟩ := outdated
  apply eligible_iff_outdated.mpr
  refine ⟨old, ?_⟩
  cases found : latestRow world.history row.key with
  | none =>
      have hidden := newest_eq_none_iff.mp found newer membership sameKey
      simp at hidden
  | some best =>
      have bestKey : best.key = row.key := newest_key found
      have highest : newer.rev ≤ best.rev := newest_le found membership sameKey rfl
      exact ⟨best, inv.newest_stored found, bestKey, above.trans_le highest⟩

/-- A batch that is not full leaves no eligible row out. -/
theorem IsBatch.mem_of_eligible {rows : List Row} {targetTS : Int} {ids : List Nat}
    (batch : IsBatch rows targetTS ids) (short : ids.length < compactBatchSize) {row : Row}
    (membership : row ∈ rows) (due : eligible rows targetTS row = true) : row.id ∈ ids := by
  have swept :
      Sweep.IsBatch Row.id (fun rows => eligible rows targetTS) compactBatchSize rows ids :=
    batch
  exact swept.mem_of_due short membership due

/-- Outdated when a compaction up to `targetRev` began in `start`. -/
def World.Stale (start : World) (targetRev : Int) (row : Row) : Prop :=
  row ∈ start.history ∧ Outdated start.history targetRev row

theorem World.Stale.eligible {start world : World} {targetRev own : Int} {row : Row}
    (stale : start.Stale targetRev row) (inv : world.Inv) (extended : Extends start world)
    (raised : targetRev ≤ own) : SpannerEtcd.eligible world.db.kv (revToTS own) row = true :=
  inv.eligible_of_outdated (stale.2.mono (fun _ => extended.mem_history) raised)

/-! ## The compactor at work -/

section Sweeping

variable {start : World} {compactor : Nat} {targetRev : Int}

/-- The compactor holds a target that covers `targetRev`, and if the batch that
it has scanned is not full then it names the stale rows that are left. -/
structure World.Sweeping (start : World) (compactor : Nat) (targetRev : Int) (world : World) :
    Prop where
  target : ∃ own, (world.compactors compactor).target? = some own ∧ targetRev ≤ own
  named : ∀ own ids, world.compactors compactor = .scanned own ids →
    ids.length < compactBatchSize →
      ∀ row ∈ world.db.kv, start.Stale targetRev row → row.id ∈ ids

def World.Swept (start : World) (targetRev : Int) (world : World) : Prop :=
  ∀ row ∈ world.db.kv, ¬start.Stale targetRev row

theorem le_raiseTarget (db : DB) (readOk : Bool) (own : Int) : own ≤ raiseTarget db readOk own := by
  unfold raiseTarget
  split <;> omega

/-- A stale row is not added again. -/
theorem World.Stale.still_stored {world next : World} {action : Action} {row : Row}
    (stale : start.Stale targetRev row) (inv : world.Inv) (extended : Extends start world)
    (stepped : world.step action = some next) (membership : row ∈ next.db.kv) :
    row ∈ world.db.kv := by
  by_contra missing
  exact inv.still_missing stepped (extended.mem_history stale.1) missing membership

theorem World.Swept.step {world next : World} {action : Action} (inv : world.Inv)
    (extended : Extends start world) (stepped : world.step action = some next)
    (swept : start.Swept targetRev world) : start.Swept targetRev next := by
  intro row membership stale
  exact swept row (stale.still_stored inv extended stepped membership) stale

/-- A step of somebody else. -/
theorem World.Sweeping.frame {world next : World} {action : Action} (inv : world.Inv)
    (extended : Extends start world) (stepped : world.step action = some next)
    (same : next.compactors compactor = world.compactors compactor)
    (sweeping : start.Sweeping compactor targetRev world) :
    start.Sweeping compactor targetRev next := by
  refine ⟨same ▸ sweeping.target, ?_⟩
  intro own ids standing short row membership stale
  exact sweeping.named own ids (same.symm.trans standing) short row
    (stale.still_stored inv extended stepped membership) stale

/-- A step of the compactor itself, unless it gives up: its target does not
fall, and it stops after a batch that has left nothing to remove. -/
theorem World.Sweeping.own {world : World} {action : Action} {db : DB} {state : Compactor}
    (inv : world.Inv) (extended : Extends start world)
    (move : CompactorMove world.db compactor action (world.compactors compactor) db state)
    (persists : action ≠ .giveUp compactor)
    (sweeping : start.Sweeping compactor targetRev world) :
    start.Sweeping compactor targetRev ({ world with db := db }.setCompactor compactor state) ∨
      start.Swept targetRev ({ world with db := db }.setCompactor compactor state) := by
  obtain ⟨own, held, covers⟩ := sweeping.target
  have named := sweeping.named
  have now : ({ world with db := db }.setCompactor compactor state).compactors compactor = state :=
    Function.update_self ..
  -- a compactor that has not scanned yet only has to keep its target
  have unscanned : ∀ higher, state.target? = some higher → own ≤ higher →
      (∀ other ids, state ≠ .scanned other ids) →
      start.Sweeping compactor targetRev
        ({ world with db := db }.setCompactor compactor state) := by
    intro higher raised above noBatch
    refine ⟨⟨higher, now.symm ▸ raised, covers.trans above⟩, ?_⟩
    intro other ids standing
    exact absurd (now.symm.trans standing) (noBatch other ids)
  generalize standing : world.compactors compactor = before at move held named
  cases move with
  | record range => simp [Compactor.target?] at held
  | autoTick age notNegative range written old => simp [Compactor.target?] at held
  | effective readOk =>
      obtain rfl := Option.some.inj held
      exact .inl (unscanned _ rfl (le_raiseTarget ..) (by simp))
  | autoExisting readOk =>
      obtain rfl := Option.some.inj held
      exact .inl (unscanned _ rfl (le_raiseTarget ..) (by simp))
  | autoRecord =>
      obtain rfl := Option.some.inj held
      exact .inl (unscanned _ rfl le_rfl (by simp))
  | scanNothing batch =>
      obtain rfl := Option.some.inj held
      right
      intro row membership stale
      have chosen := batch.mem_of_eligible (by decide) membership
        (stale.eligible inv extended covers)
      simp at chosen
  | @scan _ ids batch =>
      obtain rfl := Option.some.inj held
      left
      refine ⟨⟨_, congrArg Compactor.target? now, covers⟩, ?_⟩
      intro other names scanned short row membership stale
      cases now.symm.trans scanned
      exact batch.mem_of_eligible short membership (stale.eligible inv extended covers)
  | @delete aim ids =>
      obtain rfl := Option.some.inj held
      by_cases short : ids.length < compactBatchSize
      · right
        intro row membership stale
        obtain ⟨inTable, outside⟩ := List.mem_filter.mp membership
        simp only [decide_eq_true_eq] at outside
        exact outside (named _ ids rfl short row inTable stale)
      · left
        have goesOn : afterBatch aim ids = .deleting aim := if_neg short
        rw [goesOn] at unscanned ⊢
        exact unscanned aim rfl le_rfl (by simp)
  | giveUp => exact absurd rfl persists

theorem World.Sweeping.step {world next : World} {action : Action} (inv : world.Inv)
    (extended : Extends start world) (persists : action ≠ .giveUp compactor)
    (stepped : world.step action = some next)
    (sweeping : start.Sweeping compactor targetRev world) :
    start.Sweeping compactor targetRev next ∨ start.Swept targetRev next := by
  have frame := fun same => sweeping.frame inv extended stepped same
  cases World.step_move stepped with
  | write op ts later => exact .inl (frame rfl)
  | seed => exact .inl (frame rfl)
  | compactor other move =>
      by_cases same : other = compactor
      · subst same
        exact sweeping.own inv extended move persists
      · exact .inl (frame (Function.update_of_ne (Ne.symm same) ..))

theorem World.Sweeping.run {finish : World} {actions : List Action} (inv : start.Inv)
    (begun : start.Sweeping compactor targetRev start)
    (ran : Runs.run World.step start actions = some finish)
    (persists : ∀ action ∈ actions, action ≠ .giveUp compactor) :
    (finish.Inv ∧ Extends start finish) ∧
      (start.Sweeping compactor targetRev finish ∨ start.Swept targetRev finish) := by
  have guarded : Runs.Guarded World.step (fun _ action => action ≠ .giveUp compactor) start
      actions := Runs.Guarded.of_forall fun action member _ => persists action member
  apply Runs.run_invariant_of_guarded _ guarded ran ⟨⟨inv, Extends.refl start⟩, .inl begun⟩
  rintro world action next persists stepped ⟨⟨inv, extended⟩, progress⟩
  refine ⟨⟨inv.step stepped, extended.trans (World.step_effect stepped).extends⟩, ?_⟩
  rcases progress with sweeping | swept
  · exact sweeping.step inv extended persists stepped
  · exact .inr (swept.step inv extended stepped)

theorem World.Swept.reaches {world later : World} (inv : world.Inv)
    (extended : Extends start world) (swept : start.Swept targetRev world)
    (reached : Runs.Reaches World.step world later) : start.Swept targetRev later := by
  have kept : (later.Inv ∧ Extends start later) ∧ start.Swept targetRev later := by
    apply reached.invariant _ ⟨⟨inv, extended⟩, swept⟩
    rintro state action next stepped ⟨⟨inv, extended⟩, swept⟩
    exact ⟨⟨inv.step stepped, extended.trans (World.step_effect stepped).extends⟩,
      swept.step inv extended stepped⟩
  exact kept.2

/-- What is not stale is the newest row of its key. -/
theorem World.Inv.latestRow_of_not_stale (inv : start.Inv) {row : Row}
    (membership : row ∈ start.history) (old : row.rev ≤ revToTS targetRev)
    (fresh : ¬start.Stale targetRev row) : latestRow start.history row.key = some row := by
  apply (newest_eq_some_iff inv.distinctRows).mpr
  refine ⟨rfl, membership, rfl, ?_⟩
  intro other otherMembership sameKey _
  by_contra above
  exact fresh ⟨membership, old, other, otherMembership, sameKey, not_le.mp above⟩

end Sweeping

/-- A compactor that has fixed its target, for `Compact` or for a round of
auto-compaction, and does not give up: once it is idle again, every key keeps
at most one of the rows at or below the target that there were when the target
was fixed, and it is the newest of them.  Writers, replicas and other
compactors may do anything in between and afterwards. -/
theorem finished_compaction_leaves_newest {start finish later : World}
    (reachable : Reachable start) {compactor : Nat} {targetRev : Int}
    (begun : (start.compactors compactor).target? = some targetRev)
    (unscanned : ∀ own ids, start.compactors compactor ≠ .scanned own ids)
    {actions : List Action} (ran : Runs.run World.step start actions = some finish)
    (persists : ∀ action ∈ actions, action ≠ .giveUp compactor)
    (idle : finish.compactors compactor = .idle)
    (reached : Runs.Reaches World.step finish later) :
    ∀ row ∈ later.db.kv, row ∈ start.history → row.rev ≤ revToTS targetRev →
      latestRow start.history row.key = some row := by
  intro row membership inHistory old
  have inv := reachable.inv
  have atWork : start.Sweeping compactor targetRev start := by
    refine ⟨⟨targetRev, begun, le_rfl⟩, ?_⟩
    intro own ids standing
    exact absurd standing (unscanned own ids)
  obtain ⟨⟨finishInv, extended⟩, progress⟩ := atWork.run inv ran persists
  rcases progress with sweeping | swept
  · obtain ⟨own, held, _⟩ := sweeping.target
    rw [idle] at held
    cases held
  · apply inv.latestRow_of_not_stale inHistory old
    exact swept.reaches finishInv extended reached row membership

/-- A key that is written once, another in its third version, and a client that
compacts the second of these. -/
def contendedStart : List Action :=
  [.write (.create (ascii "l") none 0) 4,
    .write (.create (ascii "k") (some (ascii "u")) 0) 5,
    .write (.update (ascii "k") (some (ascii "v")) 5 0) 6,
    .write (.update (ascii "k") (some (ascii "w")) 6 0) 7,
    .compact 0 6]

/-- A second compactor deletes what the first has scanned, and the second key is
written once more. -/
def contendedRun : List Action :=
  [.effective 0 true, .scan 0 [1, 2], .compact 1 7, .effective 1 true, .scan 1 [2, 1],
    .deleteBatch 1, .write (.update (ascii "k") none 7 0) 8, .deleteBatch 0]

theorem contendedRun_leaves_newest :
    ∃ start finish, Runs.run World.step World.init contendedStart = some start ∧
      Runs.run World.step start contendedRun = some finish ∧
      finish.db.kv.map Row.rev = [4, 7, 8] ∧
      ∀ row ∈ finish.db.kv, row ∈ start.history → row.rev ≤ revToTS 6 →
        latestRow start.history row.key = some row := by
  have runs : ∃ start finish, Runs.run World.step World.init contendedStart = some start ∧
      Runs.run World.step start contendedRun = some finish ∧
      start.compactors 0 = .recorded 6 ∧ finish.compactors 0 = .idle ∧
      finish.db.kv.map Row.rev = [4, 7, 8] := ⟨_, _, rfl, rfl, rfl, rfl, rfl⟩
  obtain ⟨start, finish, reached, ran, begun, idle, left⟩ := runs
  refine ⟨start, finish, reached, ran, left, ?_⟩
  exact finished_compaction_leaves_newest ⟨contendedStart, reached⟩
    (begun ▸ rfl : (start.compactors 0).target? = some 6) (by simp [begun]) ran
    (by simp [contendedRun]) idle ⟨[], rfl⟩

end SpannerEtcd
