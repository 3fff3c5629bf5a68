import SpannerEtcd.Store.History
import SpannerEtcd.Server.TxnPaths

/-!
# Versions

The version of a key is not stored.  The server computes it as the distance
of two revisions plus one, the revision of the row and that of the row which
began its lifetime, and takes it to be 0 if there is no live row.
-/

namespace SpannerEtcd

variable {world : World}

/-- The version of the entry that a row is read as. -/
def Row.version (row : Row) : Int := versionOf (some (scanKV row))

/-- What the columns of a row say about its lifetime. -/
structure Row.Dated (row : Row) (created : Int) : Prop where
  rev : (scanKV row).rev = row.rev
  create : (scanKV row).createRevision = created
  stored : row.createRevision = some created
  afterEpoch : 1 < created
  since : created ≤ row.rev
  fitsInt64 : row.rev < 2 ^ 63

theorem World.Inv.dated (inv : world.Inv) {row : Row} (membership : row ∈ world.history) :
    ∃ created, row.Dated created := by
  obtain ⟨created, stored, exact⟩ := inv.createExact row membership
  refine ⟨created, ?_, ?_, stored, exact.1, inv.createRevision_le membership stored,
    (inv.exact row membership).2⟩
  · simp only [scanKV, tsToRev_of_exact (inv.exact row membership)]
  · simp only [scanKV, stored, nullTimeToRev, tsToRev_of_exact exact]

theorem Row.Dated.version_eq {row : Row} {created : Int} (dated : row.Dated created) :
    row.version = row.rev - created + 1 := by
  obtain ⟨rev, create, _, afterEpoch, since, fits⟩ := dated
  rw [Row.version, versionOf, rev, create]
  apply wrapInt64_of_isInt64
  constructor <;> omega

/-- The difference of the revisions and the version are `int64`s, and the
version is the one that answers show. -/
structure Row.VersionFits (row : Row) : Prop where
  difference : IsInt64 ((scanKV row).rev - (scanKV row).createRevision)
  version : row.version = (scanKV row).rev - (scanKV row).createRevision + 1
  shown : (toProtoKV (scanKV row)).version = row.version

theorem World.Inv.versionFits (inv : world.Inv) {row : Row} (membership : row ∈ world.history) :
    row.VersionFits := by
  obtain ⟨created, dated⟩ := inv.dated membership
  have afterEpoch := dated.afterEpoch
  have since := dated.since
  have fits := dated.fitsInt64
  constructor
  · rw [dated.rev, dated.create]
    constructor <;> omega
  · rw [dated.version_eq, dated.rev, dated.create]
  · rfl

theorem World.Inv.one_le_version (inv : world.Inv) {row : Row} (membership : row ∈ world.history) :
    1 ≤ row.version := by
  obtain ⟨created, dated⟩ := inv.dated membership
  have since := dated.since
  rw [dated.version_eq]
  omega

/-- The rows of a lifetime after the first are younger than the lifetime. -/
theorem World.Inv.version_lt (inv : world.Inv) {before row : Row}
    (membership : row ∈ world.history) (after : DirectlyAfter world.history before row)
    (continues : Continues before row) : before.version < row.version := by
  obtain ⟨created, dated⟩ := inv.dated membership
  obtain ⟨createdBefore, datedBefore⟩ := inv.dated after.membership
  have same : created = createdBefore := by
    have stored := continues.createRevision
    rw [dated.stored, datedBefore.stored] at stored
    exact Option.some.inj stored
  have earlier := after.earlier
  rw [dated.version_eq, datedBefore.version_eq]
  omega

theorem World.Inv.version_eq_one_iff (inv : world.Inv) {row : Row}
    (membership : row ∈ world.history) : row.version = 1 ↔ Begins row := by
  constructor
  · intro first
    rcases inv.linked row membership with ⟨_, begins⟩ | ⟨_, _, _, begins⟩ |
      ⟨before, found, _, continues, _⟩
    · exact begins
    · exact begins
    · have after := (predecessor_eq_some_iff inv.distinctRows).mp found
      have older := inv.version_lt membership after continues
      have := inv.one_le_version after.membership
      omega
  · intro begins
    obtain ⟨created, dated⟩ := inv.dated membership
    have same : created = row.rev := by
      have stored := begins.createRevision
      rw [dated.stored] at stored
      exact Option.some.inj stored
    rw [dated.version_eq]
    omega

/-! ## The version of a key -/

theorem World.Inv.latest_mem (inv : world.Inv) {key : Bytes} {row : Row}
    (found : latestRow world.db.kv key = some row) : row ∈ world.history :=
  inv.mem_history (VersionedLog.newest_mem found)

theorem versionOf_latest (rows : List Row) (key : Bytes) :
    versionOf (getLatestTxn rows key) = 0 ∧ getLatestTxn rows key = none ∨
      ∃ row, latestRow rows key = some row ∧ row.deleted = false ∧
        versionOf (getLatestTxn rows key) = row.version := by
  cases live : getLatestTxn rows key with
  | none => exact .inl ⟨rfl, rfl⟩
  | some kv =>
      obtain ⟨row, found, alive, rfl⟩ := liveKV_eq_some_iff.mp live
      exact .inr ⟨row, found, alive, rfl⟩

theorem World.Inv.versionOf_eq_zero_iff (inv : world.Inv) (key : Bytes) :
    versionOf (getLatestTxn world.db.kv key) = 0 ↔ getLatestTxn world.db.kv key = none := by
  rcases versionOf_latest world.db.kv key with ⟨zero, absent⟩ | ⟨row, found, alive, version⟩
  · exact iff_of_true zero absent
  · have := inv.one_le_version (inv.latest_mem found)
    have present : getLatestTxn world.db.kv key = some (scanKV row) := by
      rw [getLatestTxn, found, liveKV_some, alive]
      rfl
    rw [version]
    apply iff_of_false
    · omega
    · simp [present]

theorem getLatestTxn_eq_none_iff (rows : List Row) (key : Bytes) :
    getLatestTxn rows key = none ↔ ¬∃ row, latestRow rows key = some row ∧ row.deleted = false := by
  rw [getLatestTxn, ← Option.not_isSome_iff_eq_none, Option.isSome_iff_exists]
  simp only [liveKV_eq_some_iff]
  constructor
  · rintro absent ⟨row, found, alive⟩
    exact absent ⟨scanKV row, row, found, alive, rfl⟩
  · rintro absent ⟨kv, row, found, alive, _⟩
    exact absent ⟨row, found, alive⟩

theorem World.Inv.versionOf_eq_one_iff (inv : world.Inv) (key : Bytes) :
    versionOf (getLatestTxn world.db.kv key) = 1 ↔
      ∃ row, latestRow world.db.kv key = some row ∧ row.deleted = false ∧ Begins row := by
  rcases versionOf_latest world.db.kv key with ⟨zero, absent⟩ | ⟨row, found, alive, version⟩
  · rw [zero]
    apply iff_of_false (by decide)
    rintro ⟨row, found, alive, _⟩
    exact (getLatestTxn_eq_none_iff _ _).mp absent ⟨row, found, alive⟩
  · rw [version, inv.version_eq_one_iff (inv.latest_mem found)]
    constructor
    · intro begins
      exact ⟨row, found, alive, begins⟩
    · rintro ⟨other, same, _, begins⟩
      rw [found, Option.some.injEq] at same
      exact same ▸ begins

/-! ## The test for absence -/

/-- `Compare(Version(key), "=", 0)`. -/
structure Compare.TestsAbsence (compare : Compare) : Prop where
  target : compare.target = .version
  result : compare.result = .equal
  operand : compare.getVersion = 0

theorem Compare.TestsAbsence.holds_eq {compare : Compare} (tests : compare.TestsAbsence)
    (kv : Option KV) : compare.holds kv = decide (versionOf kv = 0) := by
  rw [Compare.holds, tests.target, tests.result, tests.operand]
  rfl

theorem Compare.TestsAbsence.supported {compare : Compare} (tests : compare.TestsAbsence) :
    compare.target.unsupported = none := by
  rw [tests.target]
  rfl

/-- A read of the key, of whatever age, finds an entry exactly if the test
fails. -/
theorem World.Inv.testsAbsence_iff (inv : world.Inv) {compare : Compare}
    (tests : compare.TestsAbsence) (key : Bytes) (cap : Int) :
    compare.holds (liveKV (latestRowAt world.db.kv key cap)) = true ↔
      liveKV (latestRowAt world.db.kv key cap) = none := by
  rw [tests.holds_eq, decide_eq_true_eq]
  cases read : liveKV (latestRowAt world.db.kv key cap) with
  | none => exact iff_of_true rfl rfl
  | some kv =>
      obtain ⟨row, found, alive, rfl⟩ := liveKV_eq_some_iff.mp read
      have version := inv.one_le_version (inv.mem_history (VersionedLog.newest_mem found))
      rw [Row.version] at version
      apply iff_of_false
      · omega
      · exact Option.some_ne_none _

theorem World.Inv.holds_eq_isNone (inv : world.Inv) {compare : Compare}
    (tests : compare.TestsAbsence) (key : Bytes) :
    compare.holds (getLatestTxn world.db.kv key) = (getLatestTxn world.db.kv key).isNone := by
  rw [tests.holds_eq, Bool.eq_iff_iff, decide_eq_true_eq, inv.versionOf_eq_zero_iff,
    Option.isNone_iff_eq_none]

/-- What the versions of a store say. -/
structure World.VersionsTrack (world : World) : Prop where
  fits : ∀ row ∈ world.history, row.VersionFits
  absent : ∀ key, versionOf (getLatestTxn world.db.kv key) = 0 ↔
    ¬∃ row, latestRow world.db.kv key = some row ∧ row.deleted = false
  created : ∀ key, versionOf (getLatestTxn world.db.kv key) = 1 ↔
    ∃ row, latestRow world.db.kv key = some row ∧ row.deleted = false ∧ Begins row
  increases : ∀ row ∈ world.history, ∀ before, DirectlyAfter world.history before row →
    before.deleted = false → before.version < row.version

/-- Both paths take a list of tests for absence to hold exactly if all the keys
are absent; a read of the non-atomic path that spans other writes decides by
what it found. -/
structure World.TestsDecideAbsence (world : World) : Prop where
  atomic : ∀ compares : List Compare, (∀ compare ∈ compares, compare.TestsAbsence) →
    evaluateCompares world.db.kv (compares.map Compare.toStore) =
      compares.all fun compare => (getLatestTxn world.db.kv compare.key).isNone
  nonAtomic : ∀ supply count, ∀ compares : List Compare,
    (∀ compare ∈ compares, compare.TestsAbsence) →
    alone supply (evaluateCompare compares) count world =
      (.ok (compares.all fun compare => (getLatestTxn world.db.kv compare.key).isNone), count,
        world)
  interrupted : ∀ revDb compactDb, ∀ compare : Compare, compare.TestsAbsence → ∀ kv,
    (get revDb compactDb world.db compare.key 0).2 = .ok kv →
    (compare.holds kv = true ↔ kv = none)

/-- In every reachable store the versions fit, are 0 for absent keys and only
those, start at 1 and grow within a lifetime; a test for version 0 is a test
for absence on both paths. -/
theorem versions_track_lifetimes {world : World} (reachable : Reachable world) :
    world.VersionsTrack ∧ world.TestsDecideAbsence := by
  have inv := reachable.inv
  constructor
  · constructor
    · intro row membership
      exact inv.versionFits membership
    · intro key
      rw [inv.versionOf_eq_zero_iff, getLatestTxn_eq_none_iff]
    · intro key
      exact inv.versionOf_eq_one_iff key
    · intro row membership before after live
      have continues := ((history_lifetimes reachable).2 row membership).2.1 before after live
      exact inv.version_lt membership after continues
  · have decides : ∀ compares : List Compare, (∀ compare ∈ compares, compare.TestsAbsence) →
        (compares.all fun compare => compare.holds (getLatestTxn world.db.kv compare.key)) =
          compares.all fun compare => (getLatestTxn world.db.kv compare.key).isNone := by
      intro compares tests
      rw [Bool.eq_iff_iff, List.all_eq_true, List.all_eq_true]
      apply forall₂_congr
      intro compare listed
      rw [inv.holds_eq_isNone (tests compare listed)]
    constructor
    · intro compares tests
      rw [evaluateCompares_supported fun compare listed => (tests compare listed).supported,
        decides compares tests]
    · intro supply count compares tests
      rw [alone_evaluateCompare supply count inv fun compare listed =>
        (tests compare listed).supported, decides compares tests]
    · intro revDb compactDb compare tests kv read
      rw [get_current, Except.ok.injEq] at read
      subst read
      exact inv.testsAbsence_iff tests compare.key (currentRevision revDb)

/-- The key after its update and before its deletion. -/
def updatedWorld : World :=
  (Runs.run World.step World.init (lifetimeRun.take 2)).getD World.init

theorem updatedWorld_versions :
    versionOf (getLatestTxn updatedWorld.db.kv (ascii "k")) = 2 ∧
      updatedWorld.VersionsTrack ∧ updatedWorld.TestsDecideAbsence :=
  ⟨by decide, versions_track_lifetimes ⟨lifetimeRun.take 2, rfl⟩⟩

end SpannerEtcd
