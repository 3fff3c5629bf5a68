import SpannerEtcd.Store.Retention
import SpannerEtcd.Watch.Poll

/-!
# The horizon and the poll loop

`Compact` takes any revision and records it.  The horizon stays at or below
the current revision exactly as long as no client asks for more; the target
of an auto-compaction round is an age below the current revision, or a value
that was stored before.  A round of the poll loop from the current revision
is then accepted, and finds every row that is committed later.
-/

namespace SpannerEtcd

/-- Clients compact what has been written. -/
def CompactsWritten (world : World) : Action → Prop
  | .compact _ targetRev => targetRev ≤ currentRevision world.db
  | _ => True

instance (world : World) (action : Action) : Decidable (CompactsWritten world action) :=
  match action with
  | .compact _ targetRev => inferInstanceAs (Decidable (targetRev ≤ _))
  | .write _ _ | .seed | .effective _ _ | .autoTick _ _ | .autoExisting _ _ | .autoRecord _
  | .scan _ _ | .deleteBatch _ | .giveUp _ => .isTrue trivial

/-- Nothing above the limit is recorded, by a client or by a round of
auto-compaction. -/
def RecordsAtMost (limit : Int) (world : World) : Action → Prop
  | .compact _ targetRev => targetRev ≤ limit
  | .autoRecord compactor => ∀ targetRev ∈ (world.compactors compactor).target?, targetRev ≤ limit
  | _ => True

instance (limit : Int) (world : World) (action : Action) :
    Decidable (RecordsAtMost limit world action) :=
  match action with
  | .compact _ targetRev => inferInstanceAs (Decidable (targetRev ≤ _))
  | .autoRecord _ => inferInstanceAs (Decidable (∀ targetRev ∈ _, _))
  | .write _ _ | .seed | .effective _ _ | .autoTick _ _ | .autoExisting _ _
  | .scan _ _ | .deleteBatch _ | .giveUp _ => .isTrue trivial

/-! ## Targets at or below the current revision -/

theorem agedTarget_le {db : DB} {age : Int} (notNegative : 0 ≤ age) (range : IsInt64 age)
    (bound : currentRevision db < 2 ^ 63) : agedTarget db age ≤ currentRevision db := by
  have positive := one_le_currentRevision db
  have fits : IsInt64 (currentRevision db - age) := by
    have := range.2
    constructor <;> omega
  simp only [agedTarget, revToTS_of_one_le positive, tsToRev, unixNano,
    wrapInt64_of_isInt64 fits]
  split <;> omega

theorem raiseTarget_le {db : DB} {targetRev limit : Int} (readOk : Bool)
    (stored : compactRevision db ≤ limit) (held : targetRev ≤ limit) :
    raiseTarget db readOk targetRev ≤ limit := by
  unfold raiseTarget
  split
  · exact stored
  · exact held

theorem compactRevision_record_le {db : DB} {targetRev limit : Int}
    (stored : compactRevision db ≤ limit) (positive : 1 ≤ limit) (bound : targetRev < 2 ^ 63)
    (below : targetRev ≤ limit) : compactRevision (recordCompactRev db targetRev) ≤ limit := by
  obtain ⟨ts, found, _⟩ := recordCompactRev_covers db targetRev
  have readBack : compactRevision (recordCompactRev db targetRev) = tsToRev ts := by
    simp only [compactRevision, found]
  rw [readBack]
  rcases recordCompactRev_kvRev found with old | rfl
  · simpa only [compactRevision, old] using stored
  · rw [tsToRev_of_isHorizon (isHorizon_revToTS bound)]
    unfold revToTS
    split <;> omega

theorem compactRevision_seed (db : DB) :
    compactRevision (seedCompactRev db) = compactRevision db := by
  unfold seedCompactRev
  cases existing : db.kvRev with
  | none =>
      simp only [compactRevision, existing]
      exact tsToRev_of_isHorizon ⟨le_refl 1, by decide⟩
  | some ts => rfl

structure World.HorizonBelow (world : World) : Prop where
  stored : compactRevision world.db ≤ currentRevision world.db
  held : ∀ compactor targetRev, (world.compactors compactor).target? = some targetRev →
    targetRev ≤ currentRevision world.db

theorem World.init_horizonBelow : World.init.HorizonBelow where
  stored := le_refl 1
  held := by simp [World.init, Compactor.target?]

/-- One access of a compactor keeps the stored horizon and its own target at
or below the current revision, unless a client asks for more. -/
theorem CompactorMove.below {db next : DB} {compactor : Nat} {action : Action}
    {before after : Compactor} (move : CompactorMove db compactor action before next after)
    (bound : currentRevision db < 2 ^ 63)
    (targets : ∀ targetRev, before.target? = some targetRev → targetRev < 2 ^ 63)
    (written : ∀ targetRev, action = .compact compactor targetRev →
      targetRev ≤ currentRevision db)
    (stored : compactRevision db ≤ currentRevision db)
    (held : ∀ targetRev, before.target? = some targetRev → targetRev ≤ currentRevision db) :
    compactRevision next ≤ currentRevision db ∧
      ∀ targetRev, after.target? = some targetRev → targetRev ≤ currentRevision db := by
  have positive := one_le_currentRevision db
  cases move with
  | record range =>
      have below := written _ rfl
      exact ⟨compactRevision_record_le stored positive range.2 below, by rintro _ ⟨⟩; exact below⟩
  | effective readOk =>
      exact ⟨stored, by rintro _ ⟨⟩; exact raiseTarget_le readOk stored (held _ rfl)⟩
  | autoTick age notNegative range _ old =>
      exact ⟨stored, by rintro _ ⟨⟩; exact agedTarget_le notNegative range bound⟩
  | autoExisting readOk =>
      exact ⟨stored, by rintro _ ⟨⟩; exact raiseTarget_le readOk stored (held _ rfl)⟩
  | autoRecord =>
      exact ⟨compactRevision_record_le stored positive (targets _ rfl) (held _ rfl),
        by rintro _ ⟨⟩; exact held _ rfl⟩
  | scanNothing batch => exact ⟨stored, by simp [Compactor.target?]⟩
  | scan batch => exact ⟨stored, by rintro _ ⟨⟩; exact held _ rfl⟩
  | @delete targetRev ids =>
      rcases afterBatch_cases targetRev ids with idle | more
      · rw [idle]
        exact ⟨stored, by simp [Compactor.target?]⟩
      · rw [more]
        exact ⟨stored, by rintro _ ⟨⟩; exact held _ rfl⟩
  | giveUp state => exact ⟨stored, by simp [Compactor.target?]⟩

theorem World.HorizonBelow.step {world next : World} {action : Action} (inv : world.Inv)
    (horizon : world.HorizonInv) (written : CompactsWritten world action)
    (stepped : world.step action = some next) (below : world.HorizonBelow) :
    next.HorizonBelow := by
  have grows : currentRevision world.db ≤ currentRevision next.db :=
    inv.currentRevision_mono (inv.step stepped) (World.step_effect stepped).extends
  have stillHeld : ∀ other targetRev, (world.compactors other).target? = some targetRev →
      targetRev ≤ currentRevision next.db := fun other targetRev held =>
    (below.held other targetRev held).trans grows
  cases World.step_move stepped with
  | write op ts later =>
      refine ⟨?_, stillHeld⟩
      simpa only [compactRevision, op.apply_kvRev] using below.stored.trans grows
  | seed =>
      refine ⟨?_, stillHeld⟩
      rw [compactRevision_seed]
      exact below.stored.trans grows
  | compactor compactor move =>
      obtain ⟨stored, held⟩ := move.below inv.currentRevision_lt (horizon.targets compactor)
        (by rintro targetRev rfl; exact written) below.stored (below.held compactor)
      exact ⟨stored.trans grows, World.setCompactor_forall
        (fun state => ∀ targetRev, state.target? = some targetRev →
          targetRev ≤ currentRevision _)
        stillHeld (fun targetRev target => (held targetRev target).trans grows) compactor⟩

/-- A client that compacts beyond the current revision moves the horizon
there at once. -/
theorem horizonBelow_compact {world next : World} {compactor : Nat} {targetRev : Int}
    (horizon : world.HorizonInv) (stepped : world.step (.compact compactor targetRev) = some next)
    (below : compactRevision next.db ≤ currentRevision next.db) :
    targetRev ≤ currentRevision world.db := by
  have nextHorizon := horizon.step stepped
  by_contra beyond
  have positive := one_le_currentRevision world.db
  cases World.step_move stepped with
  | compactor other move =>
      generalize world.compactors other = state at move
      cases move with
      | record range =>
          have covered := (recordCompactRev_covers world.db targetRev).le_compactRevision
            nextHorizon.stored
          have unwritten : currentRevision (recordCompactRev world.db targetRev) =
              currentRevision world.db := by
            simp only [currentRevision, (recordCompactRev_kv world.db targetRev).1]
          simp only [World.setCompactor_db, unwritten] at below
          rw [revToTS_of_one_le (by omega)] at covered
          omega

/-- The invariants of the store together with the bound on the horizon. -/
structure World.Sound (world : World) : Prop extends world.Consistent where
  below : world.HorizonBelow

theorem World.init_sound : World.init.Sound := ⟨World.init_consistent, World.init_horizonBelow⟩

theorem World.Sound.step {world next : World} {action : Action}
    (written : CompactsWritten world action) (stepped : world.step action = some next)
    (sound : world.Sound) : next.Sound :=
  ⟨sound.toConsistent.step stepped, sound.below.step sound.inv sound.horizon written stepped⟩

/-- A run leaves the horizon at or below the current revision, at each of its
instants, exactly if its clients compact what has been written. -/
theorem guarded_iff_horizon_below {actions : List Action} {world : World}
    (ran : Runs.run World.step World.init actions = some world) :
    Runs.Guarded World.step CompactsWritten World.init actions ↔
      ∀ state ∈ Runs.visited World.step World.init actions,
        compactRevision state.db ≤ currentRevision state.db := by
  refine Runs.guarded_iff_visited (fun _ _ _ => World.Sound.step)
    (fun _ sound => sound.below.stored) ?_ ran World.init_sound
  intro state action next sound stepped below
  cases action with
  | compact compactor targetRev => exact horizonBelow_compact sound.horizon stepped below
  | _ => trivial

/-! ## Rounds of the poll loop -/

theorem compactRevision_le_step {limit : Int} (positive : 1 ≤ limit) {world next : World}
    {action : Action} (recorded : RecordsAtMost limit world action)
    (stepped : world.step action = some next)
    (known : world.HorizonInv ∧ compactRevision world.db ≤ limit) :
    next.HorizonInv ∧ compactRevision next.db ≤ limit := by
  obtain ⟨horizon, below⟩ := known
  refine ⟨horizon.step stepped, ?_⟩
  cases World.step_move stepped with
  | write op ts later => simpa only [compactRevision, op.apply_kvRev] using below
  | seed => rwa [compactRevision_seed]
  | compactor compactor move =>
      generalize standing : world.compactors compactor = state at move
      cases move with
      | record range => exact compactRevision_record_le below positive range.2 recorded
      | @autoRecord targetRev =>
          have held : (world.compactors compactor).target? = some targetRev := by
            rw [standing]; rfl
          exact compactRevision_record_le below positive (horizon.targets compactor _ held)
            (recorded targetRev held)
      | _ => exact below

theorem compactRevision_le_run {limit : Int} (positive : 1 ≤ limit) {world finish : World}
    {actions : List Action}
    (guarded : Runs.Guarded World.step (RecordsAtMost limit) world actions)
    (ran : Runs.run World.step world actions = some finish)
    (known : world.HorizonInv ∧ compactRevision world.db ≤ limit) :
    finish.HorizonInv ∧ compactRevision finish.db ≤ limit := by
  apply Runs.run_invariant_of_guarded _ guarded ran known
  exact fun _ _ _ => compactRevision_le_step positive

/-- A round that starts from this cursor is not refused, and its query finds
every row committed above it: whatever happens before its compaction check
and between the check and the query, as long as nothing above the cursor is
compacted. -/
def PollsAccepted (world : World) (lastRev : Int) : Prop :=
  ∀ (first second : List Action) (checked queried : World) (revDb : DB) (order : List Row),
    Runs.run World.step world first = some checked →
    Runs.Guarded World.step (RecordsAtMost lastRev) world first →
    Runs.run World.step checked second = some queried →
    Runs.Guarded World.step (RecordsAtMost lastRev) checked second →
    IsRevOrder (afterRows queried.db.kv [] (revToTS lastRev)) order →
      after revDb checked.db order lastRev pollBatchSize =
        (currentRevision revDb, .ok ((order.take pollBatchSize.toNat).map rowEvent)) ∧
      doPoll revDb checked.db order lastRev =
        ((order.take pollBatchSize.toNat).map rowEvent, currentRevision revDb) ∧
      ∀ row ∈ queried.history, lastRev < row.rev → row ∈ order

theorem after_accepted (revDb : DB) {compactDb : DB} (order : List Row) {lastRev : Int}
    (accepted : compactRevision compactDb ≤ lastRev) :
    after revDb compactDb order lastRev pollBatchSize =
      (currentRevision revDb, .ok ((order.take pollBatchSize.toNat).map rowEvent)) := by
  have notRefused : ¬(lastRev > 0 ∧ lastRev < compactRevision compactDb) := by omega
  simp only [after, notRefused, if_false]
  rfl

theorem World.Sound.pollsAccepted {world : World} (sound : world.Sound) :
    PollsAccepted world (currentRevision world.db) := by
  intro first second checked queried revDb order ranFirst guardedFirst ranSecond guardedSecond
    ordered
  have positive := one_le_currentRevision world.db
  have atCheck := compactRevision_le_run positive guardedFirst ranFirst
    ⟨sound.horizon, sound.below.stored⟩
  have atQuery := compactRevision_le_run positive guardedSecond ranSecond atCheck
  have consistent : queried.Consistent :=
    (sound.toConsistent.reaches ⟨first, ranFirst⟩).reaches ⟨second, ranSecond⟩
  have accepted := after_accepted revDb order atCheck.2
  refine ⟨accepted, by simp only [doPoll, accepted], ?_⟩
  intro row membership above
  apply ordered.1.mem_iff.mpr
  simp only [afterRows, List.mem_filter, like_likePrefix_nil, Bool.true_and, decide_eq_true_eq,
    revToTS_of_one_le positive]
  exact ⟨consistent.mem_kv membership (atQuery.2.trans_lt above), above⟩

/-- In every run the horizon stays at or below the current revision exactly
if each client compacts at most the current revision of its time; and then a
round of the poll loop from the current revision is accepted and finds the
rows that are committed after it, as long as no horizon above its cursor is
recorded before its query. -/
theorem horizon_within_current {actions : List Action} {world : World}
    (ran : Runs.run World.step World.init actions = some world) :
    (Runs.Guarded World.step CompactsWritten World.init actions ↔
      ∀ state ∈ Runs.visited World.step World.init actions,
        compactRevision state.db ≤ currentRevision state.db) ∧
    (Runs.Guarded World.step CompactsWritten World.init actions →
      PollsAccepted world (currentRevision world.db)) := by
  refine ⟨guarded_iff_horizon_below ran, fun guarded => ?_⟩
  have sound := Runs.run_invariant_of_guarded (fun _ _ _ => World.Sound.step) guarded ran
    World.init_sound
  exact sound.pollsAccepted

example : compactRevision World.init.db = 1 ∧ currentRevision World.init.db = 1 := ⟨rfl, rfl⟩

/-- A client compacts the only revision there is. -/
def writtenCompactRun : List Action :=
  [.write (.create (ascii "k") (some (ascii "v")) 0) 5, .compact 0 5]

def writtenCompact : World :=
  (Runs.run World.step World.init writtenCompactRun).getD World.init

theorem writtenCompact_polls_accepted :
    compactRevision writtenCompact.db = 5 ∧ currentRevision writtenCompact.db = 5 ∧
    (∀ state ∈ Runs.visited World.step World.init writtenCompactRun,
      compactRevision state.db ≤ currentRevision state.db) ∧
    PollsAccepted writtenCompact 5 := by
  have ran : Runs.run World.step World.init writtenCompactRun = some writtenCompact := rfl
  have within := horizon_within_current ran
  have guarded : Runs.Guarded World.step CompactsWritten World.init writtenCompactRun := by decide
  exact ⟨rfl, rfl, within.1.mp guarded, within.2 guarded⟩

/-- A client compacts revision 100 of a store whose current revision is 5. -/
def futureCompactRun : List Action :=
  [.write (.create (ascii "k") (some (ascii "v")) 0) 5, .compact 0 100]

def futureCompact : World :=
  (Runs.run World.step World.init futureCompactRun).getD World.init

/-- A key is written and everything is compacted before the next round of the
poll loop, whose cursor is 5. -/
def overtakenPollRun : List Action :=
  [.write (.create (ascii "k") (some (ascii "v")) 0) 5, .write (.create (ascii "l") none 0) 6,
    .compact 0 6]

def overtakenPoll : World :=
  (Runs.run World.step World.init overtakenPollRun).getD World.init

/-- A horizon above the current revision refuses a round from there, and the
key written next is dispatched by no round.  A horizon at the current revision
does the same to a round whose cursor it has passed. -/
theorem futureCompact_starves_poll :
    Runs.run World.step World.init futureCompactRun = some futureCompact ∧
    currentRevision futureCompact.db = 5 ∧ compactRevision futureCompact.db = 100 ∧
    (after futureCompact.db futureCompact.db [] 5 pollBatchSize).2 = .error .compacted ∧
    (∃ later, futureCompact.step (.write (.create (ascii "l") none 0) 6) = some later ∧
      ∀ order, doPoll later.db later.db order 5 = ([], 6)) ∧
    Runs.run World.step World.init overtakenPollRun = some overtakenPoll ∧
    Runs.Guarded World.step CompactsWritten World.init overtakenPollRun ∧
    ∀ order, doPoll overtakenPoll.db overtakenPoll.db order 5 = ([], 6) :=
  ⟨rfl, rfl, rfl, rfl, ⟨_, rfl, fun _ => rfl⟩, rfl, by decide, fun _ => rfl⟩

end SpannerEtcd
