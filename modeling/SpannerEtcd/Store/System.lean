import SpannerEtcd.Lib.Runs
import SpannerEtcd.Store.Write

/-!
# The store as a concurrent system

Any number of clients issue writes and any number of compactors, on any
replicas, work on one database.  A write is one step, since Spanner
transactions are serializable; a compaction is a sequence of separate
accesses and every one of them is a step of its own.

`history` is a ghost: every row that was ever inserted, in commit order.
-/

namespace SpannerEtcd

/-! ## Compaction -/

/-- Rows deleted per Spanner transaction. -/
def compactBatchSize : Nat := 1000

/-- The transaction, in `Compact` and in the auto-compaction loop, that
advances the stored compact revision and never moves it back. -/
def recordCompactRev (db : DB) (targetRev : Int) : DB :=
  let targetTS := revToTS targetRev
  match db.kvRev with
  | none => { db with kvRev := some targetTS }
  | some existing =>
      if existing < targetTS then { db with kvRev := some targetTS } else db

/-- Seed the compact revision with the epoch if it is not there yet. -/
def seedCompactRev (db : DB) : DB :=
  match db.kvRev with
  | none => { db with kvRev := some 1 }
  | some _ => db

/-- A row is eligible if a strictly newer row of the same key exists. -/
def eligible (rows : List Row) (targetTS : Int) (row : Row) : Bool :=
  decide (row.rev ≤ targetTS) &&
    rows.any fun newer => decide (newer.key = row.key) && decide (row.rev < newer.rev)

def eligibleIds (rows : List Row) (targetTS : Int) : List Nat :=
  (rows.filter (eligible rows targetTS)).map Row.id

/-- `LIMIT @batch` without an order: any choice of that many eligible rows. -/
def IsBatch (rows : List Row) (targetTS : Int) (ids : List Nat) : Prop :=
  ids.Nodup ∧ (∀ id ∈ ids, id ∈ eligibleIds rows targetTS) ∧
    ids.length = min compactBatchSize (eligibleIds rows targetTS).length

instance (rows : List Row) (targetTS : Int) (ids : List Nat) :
    Decidable (IsBatch rows targetTS ids) :=
  inferInstanceAs (Decidable (_ ∧ _ ∧ _))

def IsScan (rows : List Row) (targetTS : Int) (ids : List Nat) : Prop :=
  (∀ id ∈ ids, id ∈ eligibleIds rows targetTS) ∧ ids.length ≤ compactBatchSize

theorem IsBatch.isScan {rows : List Row} {targetTS : Int} {ids : List Nat}
    (batch : IsBatch rows targetTS ids) : IsScan rows targetTS ids :=
  ⟨batch.2.1, by rw [batch.2.2]; exact Nat.min_le_left _ _⟩

def deleteIds (db : DB) (ids : List Nat) : DB :=
  { db with kv := db.kv.filter fun row => decide (row.id ∉ ids) }

/-- Where a compactor stands between two of its Spanner accesses. -/
inductive Compactor where
  | idle
  /-- `Compact` has recorded its target. -/
  | recorded (targetRev : Int)
  /-- The auto-compaction round has computed its age-based target. -/
  | aged (targetRev : Int)
  /-- The auto-compaction round has raised its target to the stored one. -/
  | raised (targetRev : Int)
  /-- `compactRows` is about to scan a batch. -/
  | deleting (targetRev : Int)
  /-- `compactRows` is about to delete the scanned batch. -/
  | scanned (targetRev : Int) (ids : List Nat)
  deriving DecidableEq, Repr

def Compactor.batch : Compactor → List Nat
  | .scanned _ ids => ids
  | _ => []

/-- After a batch the loop of `compactRows` goes on only if it was full. -/
def afterBatch (targetRev : Int) (ids : List Nat) : Compactor :=
  if ids.length < compactBatchSize then .idle else .deleting targetRev

/-! ## Worlds and steps -/

structure World where
  db : DB
  history : List Row
  compactors : Nat → Compactor

def World.init : World :=
  { db := .empty, history := [], compactors := fun _ => .idle }

/-- One atomic access to the database, with the choices it leaves open. -/
inductive Action where
  | write (op : WriteOp) (ts : CommitTs)
  | seed
  | compact (compactor : Nat) (targetRev : Int)
  | effective (compactor : Nat) (readOk : Bool)
  | autoTick (compactor : Nat) (age : Int)
  | autoExisting (compactor : Nat) (readOk : Bool)
  | autoRecord (compactor : Nat)
  | scan (compactor : Nat) (ids : List Nat)
  | deleteBatch (compactor : Nat)
  | giveUp (compactor : Nat)

def World.setCompactor (world : World) (compactor : Nat) (state : Compactor) : World :=
  { world with compactors := Function.update world.compactors compactor state }

@[simp]
theorem World.setCompactor_db (world : World) (compactor : Nat) (state : Compactor) :
    (world.setCompactor compactor state).db = world.db := rfl

@[simp]
theorem World.setCompactor_history (world : World) (compactor : Nat) (state : Compactor) :
    (world.setCompactor compactor state).history = world.history := rfl

/-- What holds of the other compactors and of the new state holds of all. -/
theorem World.setCompactor_forall (property : Compactor → Prop) {world : World}
    (others : ∀ other, property (world.compactors other)) {state : Compactor}
    (own : property state) (compactor : Nat) :
    ∀ other, property ((world.setCompactor compactor state).compactors other) :=
  (Function.forall_update_iff world.compactors fun _ => property).mpr
    ⟨own, fun other _ => others other⟩

/-- The larger of the target and the stored compact revision, if the latter
could be read. -/
def raiseTarget (db : DB) (readOk : Bool) (targetRev : Int) : Int :=
  if readOk ∧ compactRevision db > targetRev then compactRevision db else targetRev

def agedTarget (db : DB) (age : Int) : Int :=
  tsToRev (revToTS (currentRevision db) - age)

def World.step (world : World) : Action → Option World
  | .write op ts =>
      if world.db.clock < ts.ns then
        let db := op.apply world.db ts
        some { world with
          db := db
          history := world.history ++ db.kv.drop world.db.kv.length }
      else none
  | .seed => some { world with db := seedCompactRev world.db }
  | .compact compactor targetRev =>
      match world.compactors compactor with
      | .idle =>
          if IsInt64 targetRev then
            some ({ world with db := recordCompactRev world.db targetRev }.setCompactor
              compactor (.recorded targetRev))
          else none
      | _ => none
  | .effective compactor readOk =>
      match world.compactors compactor with
      | .recorded targetRev =>
          some (world.setCompactor compactor
            (.deleting (raiseTarget world.db readOk targetRev)))
      | _ => none
  | .autoTick compactor age =>
      match world.compactors compactor with
      | .idle =>
          if 0 ≤ age ∧ IsInt64 age ∧ 1 < currentRevision world.db ∧
              1 < agedTarget world.db age then
            some (world.setCompactor compactor (.aged (agedTarget world.db age)))
          else none
      | _ => none
  | .autoExisting compactor readOk =>
      match world.compactors compactor with
      | .aged targetRev =>
          some (world.setCompactor compactor
            (.raised (raiseTarget world.db readOk targetRev)))
      | _ => none
  | .autoRecord compactor =>
      match world.compactors compactor with
      | .raised targetRev =>
          some ({ world with db := recordCompactRev world.db targetRev }.setCompactor
            compactor (.deleting targetRev))
      | _ => none
  | .scan compactor ids =>
      match world.compactors compactor with
      | .deleting targetRev =>
          if IsBatch world.db.kv (revToTS targetRev) ids then
            if ids.isEmpty then some (world.setCompactor compactor .idle)
            else some (world.setCompactor compactor (.scanned targetRev ids))
          else none
      | _ => none
  | .deleteBatch compactor =>
      match world.compactors compactor with
      | .scanned targetRev ids =>
          some ({ world with db := deleteIds world.db ids }.setCompactor
            compactor (afterBatch targetRev ids))
      | _ => none
  | .giveUp compactor => some (world.setCompactor compactor .idle)

def Reachable (world : World) : Prop := Runs.Reaches World.step World.init world

/-! ## What a step can be -/

inductive CompactorMove (db : DB) (compactor : Nat) :
    Action → Compactor → DB → Compactor → Prop where
  | record {targetRev : Int} (range : IsInt64 targetRev) :
      CompactorMove db compactor (.compact compactor targetRev) .idle
        (recordCompactRev db targetRev) (.recorded targetRev)
  | effective {targetRev : Int} (readOk : Bool) :
      CompactorMove db compactor (.effective compactor readOk) (.recorded targetRev)
        db (.deleting (raiseTarget db readOk targetRev))
  | autoTick (age : Int) (notNegative : 0 ≤ age) (range : IsInt64 age)
      (written : 1 < currentRevision db) (old : 1 < agedTarget db age) :
      CompactorMove db compactor (.autoTick compactor age) .idle
        db (.aged (agedTarget db age))
  | autoExisting {targetRev : Int} (readOk : Bool) :
      CompactorMove db compactor (.autoExisting compactor readOk) (.aged targetRev)
        db (.raised (raiseTarget db readOk targetRev))
  | autoRecord {targetRev : Int} :
      CompactorMove db compactor (.autoRecord compactor) (.raised targetRev)
        (recordCompactRev db targetRev) (.deleting targetRev)
  | scanNothing {targetRev : Int} (batch : IsBatch db.kv (revToTS targetRev) []) :
      CompactorMove db compactor (.scan compactor []) (.deleting targetRev) db .idle
  | scan {targetRev : Int} {ids : List Nat} (batch : IsBatch db.kv (revToTS targetRev) ids) :
      CompactorMove db compactor (.scan compactor ids) (.deleting targetRev)
        db (.scanned targetRev ids)
  | delete {targetRev : Int} {ids : List Nat} :
      CompactorMove db compactor (.deleteBatch compactor) (.scanned targetRev ids)
        (deleteIds db ids) (afterBatch targetRev ids)
  | giveUp (state : Compactor) :
      CompactorMove db compactor (.giveUp compactor) state db .idle

inductive Move (world : World) : Action → World → Prop where
  | write (op : WriteOp) (ts : CommitTs) (later : world.db.clock < ts.ns) :
      Move world (.write op ts) { world with
        db := op.apply world.db ts
        history := world.history ++ (op.apply world.db ts).kv.drop world.db.kv.length }
  | seed : Move world .seed { world with db := seedCompactRev world.db }
  | compactor (compactor : Nat) {action : Action} {db : DB} {state : Compactor}
      (move : CompactorMove world.db compactor action (world.compactors compactor) db state) :
      Move world action ({ world with db := db }.setCompactor compactor state)

theorem World.step_move {world next : World} {action : Action}
    (stepped : world.step action = some next) : Move world action next := by
  cases action with
  | write op ts =>
      simp only [World.step, Option.ite_none_right_eq_some, Option.some.injEq] at stepped
      obtain ⟨later, rfl⟩ := stepped
      exact .write op ts later
  | seed =>
      simp only [World.step, Option.some.injEq] at stepped
      exact stepped ▸ .seed
  | compact compactor targetRev =>
      cases standing : world.compactors compactor with
      | idle =>
          simp only [World.step, standing, Option.ite_none_right_eq_some,
            Option.some.injEq] at stepped
          obtain ⟨range, rfl⟩ := stepped
          exact .compactor compactor (standing ▸ .record range)
      | _ => simp [World.step, standing] at stepped
  | effective compactor readOk =>
      cases standing : world.compactors compactor with
      | recorded targetRev =>
          simp only [World.step, standing, Option.some.injEq] at stepped
          exact stepped ▸ .compactor compactor (standing ▸ .effective readOk)
      | _ => simp [World.step, standing] at stepped
  | autoTick compactor age =>
      cases standing : world.compactors compactor with
      | idle =>
          simp only [World.step, standing, Option.ite_none_right_eq_some,
            Option.some.injEq] at stepped
          obtain ⟨⟨notNegative, range, written, old⟩, rfl⟩ := stepped
          exact .compactor compactor (standing ▸ .autoTick age notNegative range written old)
      | _ => simp [World.step, standing] at stepped
  | autoExisting compactor readOk =>
      cases standing : world.compactors compactor with
      | aged targetRev =>
          simp only [World.step, standing, Option.some.injEq] at stepped
          exact stepped ▸ .compactor compactor (standing ▸ .autoExisting readOk)
      | _ => simp [World.step, standing] at stepped
  | autoRecord compactor =>
      cases standing : world.compactors compactor with
      | raised targetRev =>
          simp only [World.step, standing, Option.some.injEq] at stepped
          exact stepped ▸ .compactor compactor (standing ▸ .autoRecord)
      | _ => simp [World.step, standing] at stepped
  | scan compactor ids =>
      cases standing : world.compactors compactor with
      | deleting targetRev =>
          simp only [World.step, standing, Option.ite_none_right_eq_some] at stepped
          obtain ⟨batch, stepped⟩ := stepped
          cases ids with
          | nil =>
              simp only [List.isEmpty_nil, if_true, Option.some.injEq] at stepped
              exact stepped ▸ .compactor compactor (standing ▸ .scanNothing batch)
          | cons id rest =>
              simp only [List.isEmpty_cons, Bool.false_eq_true, if_false,
                Option.some.injEq] at stepped
              exact stepped ▸ .compactor compactor (standing ▸ .scan batch)
      | _ => simp [World.step, standing] at stepped
  | deleteBatch compactor =>
      cases standing : world.compactors compactor with
      | scanned targetRev ids =>
          simp only [World.step, standing, Option.some.injEq] at stepped
          exact stepped ▸ .compactor compactor (standing ▸ .delete)
      | _ => simp [World.step, standing] at stepped
  | giveUp compactor =>
      simp only [World.step, Option.some.injEq] at stepped
      exact stepped ▸ .compactor compactor (.giveUp _)

theorem step_write_added {world next : World} {op : WriteOp} {ts : CommitTs}
    (stepped : world.step (.write op ts) = some next) :
    next.history.drop world.history.length =
      (op.apply world.db ts).kv.drop world.db.kv.length := by
  simp only [World.step, Option.ite_none_right_eq_some, Option.some.injEq] at stepped
  obtain ⟨_, rfl⟩ := stepped
  simp

/-- Three revisions of one key. -/
def threeRevisions : List Action :=
  [.write (.create (ascii "k") (some (ascii "u")) 0) 5,
    .write (.update (ascii "k") (some (ascii "v")) 5 0) 6,
    .write (.update (ascii "k") (some (ascii "w")) 6 0) 7]

def threeRevisionsWorld : World :=
  (Runs.run World.step World.init threeRevisions).getD World.init

end SpannerEtcd
