import SpannerEtcd.Store.Invariant

/-!
# The stored compact revision

Both ways to advance the horizon compare with the stored value first, so it
never moves back.  Every value it takes is an `int64` revision, which makes
the conversions between revisions and timestamps exact.
-/

namespace SpannerEtcd

def Compactor.target? : Compactor → Option Int
  | .idle => none
  | .recorded targetRev => some targetRev
  | .aged targetRev => some targetRev
  | .raised targetRev => some targetRev
  | .deleting targetRev => some targetRev
  | .scanned targetRev _ => some targetRev

/-- Timestamps stored in `kv_rev`. -/
def IsHorizon (ts : Int) : Prop := 1 ≤ ts ∧ ts < 2 ^ 63

structure World.HorizonInv (world : World) : Prop where
  stored : ∀ ts, world.db.kvRev = some ts → IsHorizon ts
  targets : ∀ compactor targetRev,
    (world.compactors compactor).target? = some targetRev → targetRev < 2 ^ 63

theorem tsToRev_of_isHorizon {ts : Int} (horizon : IsHorizon ts) : tsToRev ts = ts := by
  have lower := horizon.1
  have unwrapped : wrapInt64 ts = ts :=
    wrapInt64_of_isInt64 ⟨by omega, horizon.2⟩
  simp only [tsToRev, unixNano, unwrapped]
  omega

theorem isHorizon_revToTS {targetRev : Int} (bound : targetRev < 2 ^ 63) :
    IsHorizon (revToTS targetRev) := by
  unfold revToTS IsHorizon
  split <;> constructor <;> omega

theorem isHorizon_tsToRev (ts : Int) : IsHorizon (tsToRev ts) := by
  have upper : wrapInt64 ts < 2 ^ 63 := by
    exact Int.bmod_lt (by decide)
  unfold tsToRev unixNano IsHorizon
  dsimp only
  split <;> constructor <;> omega

theorem compactRevision_isHorizon (db : DB) : IsHorizon (compactRevision db) := by
  unfold compactRevision
  cases db.kvRev with
  | none => exact ⟨le_refl 1, by decide⟩
  | some ts => exact isHorizon_tsToRev ts

theorem raiseTarget_lt {db : DB} {targetRev : Int} (readOk : Bool)
    (bound : targetRev < 2 ^ 63) : raiseTarget db readOk targetRev < 2 ^ 63 := by
  unfold raiseTarget
  split
  · exact (compactRevision_isHorizon db).2
  · exact bound

theorem recordCompactRev_kvRev {db : DB} {targetRev ts : Int}
    (stored : (recordCompactRev db targetRev).kvRev = some ts) :
    db.kvRev = some ts ∨ ts = revToTS targetRev := by
  unfold recordCompactRev at stored
  cases existing : db.kvRev with
  | none =>
      simp only [existing, Option.some.injEq] at stored
      exact .inr stored.symm
  | some old =>
      simp only [existing] at stored
      split at stored
      · exact .inr (by simpa using stored.symm)
      · exact .inl (existing.symm.trans stored)

theorem World.init_horizonInv : World.init.HorizonInv where
  stored := by simp [World.init, DB.empty]
  targets := by simp [World.init, Compactor.target?]

theorem recordCompactRev_isHorizon {db : DB} {targetRev : Int}
    (stored : ∀ ts, db.kvRev = some ts → IsHorizon ts) (bound : targetRev < 2 ^ 63) :
    ∀ ts, (recordCompactRev db targetRev).kvRev = some ts → IsHorizon ts := by
  intro ts found
  rcases recordCompactRev_kvRev found with old | rfl
  · exact stored ts old
  · exact isHorizon_revToTS bound

theorem seedCompactRev_isHorizon {db : DB}
    (stored : ∀ ts, db.kvRev = some ts → IsHorizon ts) :
    ∀ ts, (seedCompactRev db).kvRev = some ts → IsHorizon ts := by
  intro ts found
  cases existing : db.kvRev with
  | none =>
      simp only [seedCompactRev, existing, Option.some.injEq] at found
      exact found ▸ ⟨le_refl 1, by decide⟩
  | some old =>
      simp only [seedCompactRev, existing] at found
      exact stored ts (existing.trans found)

theorem WriteOp.apply_kvRev (op : WriteOp) (db : DB) (ts : CommitTs) :
    (op.apply db ts).kvRev = db.kvRev := by
  rcases op.apply_cases db ts with same | ⟨inserts, _, committed⟩
  · rw [same]
  · rw [committed]; rfl

theorem CompactorMove.horizon {db next : DB} {compactor : Nat} {action : Action}
    {before after : Compactor} (move : CompactorMove db compactor action before next after)
    (stored : ∀ ts, db.kvRev = some ts → IsHorizon ts)
    (held : ∀ targetRev, before.target? = some targetRev → targetRev < 2 ^ 63) :
    (∀ ts, next.kvRev = some ts → IsHorizon ts) ∧
      ∀ targetRev, after.target? = some targetRev → targetRev < 2 ^ 63 := by
  cases move with
  | record range =>
      exact ⟨recordCompactRev_isHorizon stored range.2, by rintro _ ⟨⟩; exact range.2⟩
  | effective readOk =>
      exact ⟨stored, by rintro _ ⟨⟩; exact raiseTarget_lt readOk (held _ rfl)⟩
  | autoTick age notNegative range written old =>
      exact ⟨stored, by rintro _ ⟨⟩; exact (isHorizon_tsToRev _).2⟩
  | autoExisting readOk =>
      exact ⟨stored, by rintro _ ⟨⟩; exact raiseTarget_lt readOk (held _ rfl)⟩
  | autoRecord =>
      exact ⟨recordCompactRev_isHorizon stored (held _ rfl), by rintro _ ⟨⟩; exact held _ rfl⟩
  | scanNothing batch => exact ⟨stored, by simp [Compactor.target?]⟩
  | scan batch => exact ⟨stored, by rintro _ ⟨⟩; exact held _ rfl⟩
  | @delete targetRev ids =>
      rcases afterBatch_cases targetRev ids with idle | more
      · rw [idle]
        exact ⟨stored, by simp [Compactor.target?]⟩
      · rw [more]
        exact ⟨stored, by rintro _ ⟨⟩; exact held _ rfl⟩
  | giveUp state => exact ⟨stored, by simp [Compactor.target?]⟩

theorem World.HorizonInv.step {world next : World} {action : Action}
    (stepped : world.step action = some next) (inv : world.HorizonInv) : next.HorizonInv := by
  cases World.step_move stepped with
  | write op ts later => exact ⟨by simpa [op.apply_kvRev] using inv.stored, inv.targets⟩
  | seed => exact ⟨seedCompactRev_isHorizon inv.stored, inv.targets⟩
  | compactor compactor move =>
      obtain ⟨stored, held⟩ := move.horizon inv.stored (inv.targets compactor)
      exact ⟨stored, World.setCompactor_forall
        (fun state => ∀ targetRev, state.target? = some targetRev → targetRev < 2 ^ 63)
        inv.targets held compactor⟩

theorem World.HorizonInv.reaches {world next : World} (inv : world.HorizonInv)
    (reached : Runs.Reaches World.step world next) : next.HorizonInv :=
  reached.invariant (fun _ _ _ stepped => World.HorizonInv.step stepped) inv

/-! ## The horizon never moves back -/

theorem compactRevision_le_of_kvRev {before after : DB}
    (afterStored : ∀ ts, after.kvRev = some ts → IsHorizon ts)
    (grows : ∀ old, before.kvRev = some old → IsHorizon old ∧
      ∃ new, after.kvRev = some new ∧ old ≤ new) :
    compactRevision before ≤ compactRevision after := by
  cases existing : before.kvRev with
  | none =>
      simp only [compactRevision, existing]
      exact (compactRevision_isHorizon after).1
  | some old =>
      obtain ⟨oldHorizon, new, found, above⟩ := grows old existing
      simpa only [compactRevision, existing, found, tsToRev_of_isHorizon oldHorizon,
        tsToRev_of_isHorizon (afterStored new found)] using above

theorem recordCompactRev_grows (db : DB) (targetRev : Int) {old : Int}
    (existing : db.kvRev = some old) :
    ∃ new, (recordCompactRev db targetRev).kvRev = some new ∧ old ≤ new := by
  unfold recordCompactRev
  simp only [existing]
  split
  next below => exact ⟨_, rfl, le_of_lt below⟩
  next => exact ⟨old, existing, le_refl old⟩

theorem CompactorMove.grows {db next : DB} {compactor : Nat} {action : Action}
    {before after : Compactor} (move : CompactorMove db compactor action before next after)
    {old : Int} (existing : db.kvRev = some old) :
    ∃ new, next.kvRev = some new ∧ old ≤ new := by
  cases move with
  | record range => exact recordCompactRev_grows db _ existing
  | autoRecord => exact recordCompactRev_grows db _ existing
  | _ => exact ⟨old, existing, le_refl old⟩

theorem World.step_compactRevision_le {world next : World} {action : Action}
    (inv : world.HorizonInv) (stepped : world.step action = some next) :
    compactRevision world.db ≤ compactRevision next.db := by
  apply compactRevision_le_of_kvRev (inv.step stepped).stored
  intro old existing
  refine ⟨inv.stored old existing, ?_⟩
  cases World.step_move stepped with
  | write op ts later => exact ⟨old, (op.apply_kvRev world.db ts).trans existing, le_refl old⟩
  | seed => exact ⟨old, by simp [seedCompactRev, existing], le_refl old⟩
  | compactor compactor move => exact move.grows existing

end SpannerEtcd
