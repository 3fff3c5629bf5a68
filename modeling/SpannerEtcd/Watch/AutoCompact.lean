import SpannerEtcd.Store.EventReads
import SpannerEtcd.Watch.PollHorizon

/-!
# What auto-compaction leaves to a watcher that lags

A round of auto-compaction aims an age below the current revision, or at what
was stored before.  Both numbers are read some time before the round records
its target, and other replicas compact meanwhile; but the current revision
only grows, so a target that was old enough stays old enough.  A reader that
lags by no more than the shortest age of the replicas is never refused, and
misses nothing.
-/

namespace SpannerEtcd

/-! ## The configuration of a store -/

/-- Durations in nanoseconds. -/
structure StoreConfig where
  autoCompactInterval : Int
  autoCompactAge : Int
  deriving DecidableEq, Repr

def timeMinute : Int := 60 * 10 ^ 9

def defaultAutoCompactInterval : Int := 5 * timeMinute

def defaultAutoCompactAge : Int := 5 * timeMinute

inductive StoreConfigErr where
  /-- `AutoCompactAge must be >= 0, got %v`. -/
  | negativeAge (got : Int)
  deriving DecidableEq, Repr

/-- The checks and the defaults of `NewWithConfig`. -/
def newWithConfig (cfg : StoreConfig) : Except StoreConfigErr StoreConfig :=
  if cfg.autoCompactAge < 0 then .error (.negativeAge cfg.autoCompactAge)
  else
    let interval := if cfg.autoCompactInterval < 0 then -1 else cfg.autoCompactInterval
    .ok
      { autoCompactInterval := if interval = 0 then defaultAutoCompactInterval else interval
        autoCompactAge :=
          if cfg.autoCompactAge = 0 then defaultAutoCompactAge else cfg.autoCompactAge }

/-- Whether `NewWithConfig` starts `autoCompactLoop`. -/
def StoreConfig.autoCompacts (cfg : StoreConfig) : Prop := 0 < cfg.autoCompactInterval

instance (cfg : StoreConfig) : Decidable cfg.autoCompacts :=
  inferInstanceAs (Decidable (0 < _))

/-- Every round of auto-compaction is one of a replica that was started with
one of these configurations, and clients compact up to `limit`. -/
def Configured (fleet : List StoreConfig) (limit : Int) (_ : World) : Action → Prop
  | .compact _ targetRev => targetRev ≤ limit
  | .autoTick _ age => ∃ cfg ∈ fleet, ∃ started, newWithConfig cfg = .ok started ∧
      started.autoCompacts ∧ age = started.autoCompactAge
  | _ => True

/-! ## Targets below the window -/

/-- The oldest revision that a reader may be at. -/
def windowStart (limit age : Int) (db : DB) : Int := max limit (currentRevision db - age)

theorem agedTarget_eq {db : DB} {age : Int} (notNegative : 0 ≤ age) (range : IsInt64 age)
    (bound : currentRevision db < 2 ^ 63) :
    agedTarget db age = max 1 (currentRevision db - age) := by
  have positive := one_le_currentRevision db
  have fits : IsInt64 (currentRevision db - age) := by
    have := range.2
    constructor <;> omega
  simp only [agedTarget, revToTS_of_one_le positive, tsToRev, unixNano,
    wrapInt64_of_isInt64 fits]
  split <;> omega

/-- One access of a compactor keeps the stored horizon and its own target at
or below a bound that fresh targets keep. -/
theorem CompactorMove.within {db next : DB} {compactor : Nat} {action : Action}
    {before after : Compactor} (move : CompactorMove db compactor action before next after)
    {bound : Int} (positive : 1 ≤ bound)
    (asked : ∀ targetRev, action = .compact compactor targetRev → targetRev ≤ bound)
    (aged : ∀ age, action = .autoTick compactor age → 0 ≤ age → IsInt64 age →
      agedTarget db age ≤ bound)
    (targets : ∀ targetRev, before.target? = some targetRev → targetRev < 2 ^ 63)
    (stored : compactRevision db ≤ bound)
    (held : ∀ targetRev, before.target? = some targetRev → targetRev ≤ bound) :
    compactRevision next ≤ bound ∧
      ∀ targetRev, after.target? = some targetRev → targetRev ≤ bound := by
  cases move with
  | record range =>
      have below := asked _ rfl
      refine ⟨compactRevision_record_le stored positive range.2 below, ?_⟩
      rintro _ ⟨⟩
      exact below
  | effective readOk =>
      refine ⟨stored, ?_⟩
      rintro _ ⟨⟩
      exact raiseTarget_le readOk stored (held _ rfl)
  | autoTick age notNegative range _ _ =>
      refine ⟨stored, ?_⟩
      rintro _ ⟨⟩
      exact aged age rfl notNegative range
  | autoExisting readOk =>
      refine ⟨stored, ?_⟩
      rintro _ ⟨⟩
      exact raiseTarget_le readOk stored (held _ rfl)
  | autoRecord =>
      refine ⟨compactRevision_record_le stored positive (targets _ rfl) (held _ rfl), ?_⟩
      rintro _ ⟨⟩
      exact held _ rfl
  | scanNothing batch => exact ⟨stored, by simp [Compactor.target?]⟩
  | scan batch =>
      refine ⟨stored, ?_⟩
      rintro _ ⟨⟩
      exact held _ rfl
  | @delete targetRev ids =>
      refine ⟨stored, ?_⟩
      rcases afterBatch_cases targetRev ids with idle | more
      · simp [idle, Compactor.target?]
      · rw [more]
        rintro _ ⟨⟩
        exact held _ rfl
  | giveUp state => exact ⟨stored, by simp [Compactor.target?]⟩

section Window

variable {fleet : List StoreConfig} {limit age : Int}

/-- The stored horizon and the target of every compactor lie below the window. -/
structure World.KeepsWindow (limit age : Int) (world : World) : Prop where
  consistent : world.Consistent
  stored : compactRevision world.db ≤ windowStart limit age world.db
  held : ∀ compactor targetRev, (world.compactors compactor).target? = some targetRev →
    targetRev ≤ windowStart limit age world.db

theorem World.init_keepsWindow (positive : 1 ≤ limit) (age : Int) :
    World.init.KeepsWindow limit age where
  consistent := World.init_consistent
  stored := positive.trans (le_max_left _ _)
  held := by simp [World.init, Compactor.target?]

theorem windowStart_mono {world next : World} {action : Action} (inv : world.Inv)
    (stepped : world.step action = some next) :
    windowStart limit age world.db ≤ windowStart limit age next.db := by
  have grows : currentRevision world.db ≤ currentRevision next.db :=
    inv.currentRevision_mono (inv.step stepped) (World.step_effect stepped).extends
  unfold windowStart
  omega

variable (positive : 1 ≤ limit)
  (shortest : ∀ cfg ∈ fleet, ∀ started, newWithConfig cfg = .ok started →
    started.autoCompacts → age ≤ started.autoCompactAge)

include positive shortest

theorem World.KeepsWindow.step {world next : World} {action : Action}
    (configured : Configured fleet limit world action)
    (stepped : world.step action = some next) (keeps : world.KeepsWindow limit age) :
    next.KeepsWindow limit age := by
  have inv := keeps.consistent.inv
  have grows : windowStart limit age world.db ≤ windowStart limit age next.db :=
    windowStart_mono inv stepped
  have stillHeld : ∀ other targetRev, (world.compactors other).target? = some targetRev →
      targetRev ≤ windowStart limit age next.db := by
    intro other targetRev target
    exact (keeps.held other targetRev target).trans grows
  have consistent := keeps.consistent.step stepped
  cases World.step_move stepped with
  | write op ts later =>
      refine ⟨consistent, ?_, stillHeld⟩
      simpa only [compactRevision, op.apply_kvRev] using keeps.stored.trans grows
  | seed =>
      refine ⟨consistent, ?_, stillHeld⟩
      rw [compactRevision_seed]
      exact keeps.stored.trans grows
  | compactor compactor move =>
      have fresh : ∀ own, action = .autoTick compactor own → 0 ≤ own → IsInt64 own →
          agedTarget world.db own ≤ windowStart limit age world.db := by
        rintro own rfl notNegative range
        obtain ⟨cfg, member, started, ok, compacts, rfl⟩ := configured
        have long := shortest cfg member started ok compacts
        rw [agedTarget_eq notNegative range inv.currentRevision_lt, windowStart]
        omega
      have bound : 1 ≤ windowStart limit age world.db := positive.trans (le_max_left _ _)
      have asked : ∀ targetRev, action = .compact compactor targetRev →
          targetRev ≤ windowStart limit age world.db := by
        rintro targetRev rfl
        exact le_trans configured (le_max_left _ _)
      obtain ⟨stored, held⟩ := move.within bound asked fresh
        (keeps.consistent.horizon.targets compactor) keeps.stored (keeps.held compactor)
      refine ⟨consistent, stored.trans grows, ?_⟩
      apply World.setCompactor_forall
        (fun state => ∀ targetRev, state.target? = some targetRev →
          targetRev ≤ windowStart limit age _) stillHeld
      intro targetRev target
      exact (held targetRev target).trans grows

theorem World.KeepsWindow.run {world finish : World} {actions : List Action}
    (configured : Runs.Guarded World.step (Configured fleet limit) world actions)
    (ran : Runs.run World.step world actions = some finish)
    (keeps : world.KeepsWindow limit age) : finish.KeepsWindow limit age :=
  Runs.run_invariant_of_guarded
    (fun _ _ _ => World.KeepsWindow.step positive shortest) configured ran keeps

/-- `After` called by a reader that is at `afterRev`: the current revision, the
compact revision and the rows are read at three instants of a run, which may be
far apart.  If the reader is inside the window when the rows are read, the call
is not refused and the rows are exactly those ever committed above `afterRev`,
whatever the replicas have compacted. -/
theorem lagging_reader_misses_nothing {first second third : List Action}
    {start checked queried : World}
    (ranFirst : Runs.run World.step World.init first = some start)
    (ranSecond : Runs.run World.step start second = some checked)
    (ranThird : Runs.run World.step checked third = some queried)
    (configured : Runs.Guarded World.step (Configured fleet limit) World.init
      (first ++ second ++ third))
    {pre : Bytes} {afterRev : Int} (recent : windowStart limit age queried.db ≤ afterRev)
    {order : List Row} (ordered : IsRevOrder (afterRows queried.db.kv pre (revToTS afterRev)) order)
    (count : Int) :
    after start.db checked.db order afterRev count =
        (currentRevision start.db, .ok ((limitClause count order).map rowEvent)) ∧
      ∀ row, row ∈ order ↔
        row ∈ queried.history ∧ like (likePrefix pre) row.key = true ∧ afterRev < row.rev := by
  have toChecked : Runs.run World.step World.init (first ++ second) = some checked :=
    Runs.run_append_eq_some.mpr ⟨start, ranFirst, ranSecond⟩
  obtain ⟨guardedChecked, guardedThird⟩ := configured.append toChecked
  have atCheck := (World.init_keepsWindow positive age).run positive shortest guardedChecked
    toChecked
  have atQuery := atCheck.run positive shortest guardedThird ranThird
  have horizonGrows : compactRevision checked.db ≤ compactRevision queried.db :=
    compactRevision_le_of_grows atCheck.consistent.horizon.stored
      atQuery.consistent.horizon.stored (horizonGrows_of_reaches ⟨third, ranThird⟩)
  have below : compactRevision queried.db ≤ afterRev := atQuery.stored.trans recent
  have atLeastOne : 1 ≤ afterRev := positive.trans ((le_max_left _ _).trans recent)
  constructor
  · have notRefused : ¬(afterRev > 0 ∧ afterRev < compactRevision checked.db) := by omega
    simp only [after, notRefused, if_false]
  · intro row
    rw [ordered.1.mem_iff]
    simp only [afterRows, List.mem_filter, Bool.and_eq_true, decide_eq_true_eq,
      revToTS_of_one_le atLeastOne]
    constructor
    · rintro ⟨membership, matched, above⟩
      exact ⟨atQuery.consistent.inv.mem_history membership, matched, above⟩
    · rintro ⟨membership, matched, above⟩
      exact ⟨atQuery.consistent.mem_kv membership (below.trans_lt above), matched, above⟩

end Window

/-- Two replicas with the default age, one of which does not compact. -/
def defaultFleet : List StoreConfig := [⟨0, 0⟩, ⟨-1, 0⟩]

/-- The key `k` is written twice and, more than five minutes later, `l`; then a
round of auto-compaction aims at the revision 700 seconds after the start. -/
def agedRound : List Action :=
  [.write (.create (ascii "k") (some (ascii "v")) 0) 5,
    .write (.update (ascii "k") (some (ascii "w")) 5 0) 6,
    .write (.create (ascii "l") none 0) 1000000000000,
    .autoTick 0 300000000000]

def agedRoundEnd : List Action :=
  [.autoExisting 0 true, .autoRecord 0, .scan 0 [0], .deleteBatch 0]

theorem agedRound_misses_nothing :
    ∃ checked queried,
      Runs.run World.step World.init agedRound = some checked ∧
      Runs.run World.step checked agedRoundEnd = some queried ∧
      compactRevision queried.db = 700000000000 ∧ queried.db.kv.length = 2 ∧
      ∀ order, IsRevOrder (afterRows queried.db.kv [] (revToTS 700000000000)) order →
        after checked.db checked.db order 700000000000 0 =
            (1000000000000, .ok (order.map rowEvent)) ∧
          ∀ row, row ∈ order ↔ row ∈ queried.history ∧
            like (likePrefix []) row.key = true ∧ 700000000000 < row.rev := by
  have runs : ∃ checked queried,
      Runs.run World.step World.init agedRound = some checked ∧
      Runs.run World.step checked agedRoundEnd = some queried ∧
      currentRevision checked.db = 1000000000000 ∧
      compactRevision queried.db = 700000000000 ∧ queried.db.kv.length = 2 ∧
      windowStart 1 300000000000 queried.db = 700000000000 := ⟨_, _, rfl, rfl, rfl, rfl, rfl, rfl⟩
  obtain ⟨checked, queried, ranFirst, ranThird, current, horizon, remaining, window⟩ := runs
  have configured : Runs.Guarded World.step (Configured defaultFleet 1) World.init
      (agedRound ++ [] ++ agedRoundEnd) := by
    apply Runs.Guarded.of_forall
    simp only [agedRound, agedRoundEnd, List.append_nil, List.cons_append, List.nil_append,
      List.forall_mem_cons, Configured, implies_true, true_and]
    refine ⟨fun _ => ⟨⟨0, 0⟩, .head _, _, rfl, ?_, ?_⟩, by simp⟩ <;> decide
  have shortest : ∀ cfg ∈ defaultFleet, ∀ started, newWithConfig cfg = .ok started →
      started.autoCompacts → 300000000000 ≤ started.autoCompactAge := by
    intro cfg member started ok compacts
    simp only [defaultFleet, List.mem_cons, List.not_mem_nil, or_false] at member
    rcases member with rfl | rfl <;> cases ok <;> decide
  refine ⟨checked, queried, ranFirst, ranThird, horizon, remaining, ?_⟩
  intro order ordered
  have served := lagging_reader_misses_nothing (by decide) shortest ranFirst rfl ranThird
    configured (le_of_eq window) ordered 0
  rw [current] at served
  exact served

end SpannerEtcd
