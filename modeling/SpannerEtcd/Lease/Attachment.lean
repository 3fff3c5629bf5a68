import SpannerEtcd.Lease.Revoke
import SpannerEtcd.Store.Refinement

/-!
# Keys and the leases they name

A write stores the lease id that it is given; no write looks into `kv_lease`.
A key therefore names a lease that exists only as long as the writers see to
it: they attach a lease that was granted, and not while it is being revoked,
since a revocation deletes the keys of its scan and then the lease.
-/

namespace SpannerEtcd

open VersionedLog

def Granted (db : DB) (leaseID : Int) : Prop := ∃ lease ∈ db.kvLease, lease.leaseId = leaseID

/-- The insert of `Grant` into `kv_lease`. -/
def grantLease (world : World) (leaseID ttl : Int) (ts : CommitTs) : World :=
  { world with
    db := { world.db with
      kvLease := world.db.kvLease ++ [⟨leaseID, ttl, ts.ns⟩]
      clock := ts.ns } }

inductive LeaseAction where
  | grant (leaseID ttl : Int) (ts : CommitTs)
  | revoke (action : RevokeAction)

/-- Grants next to revocations and everything else; an insert with a primary
key that is taken fails. -/
def RevokeSystem.leaseStep (system : RevokeSystem) : LeaseAction → Option RevokeSystem
  | .grant leaseID ttl ts =>
      if system.world.db.clock < ts.ns ∧
          ∀ lease ∈ system.world.db.kvLease, lease.leaseId ≠ leaseID then
        some { system with world := grantLease system.world leaseID ttl ts }
      else none
  | .revoke action => system.step action

def RevokePhase.expires : RevokePhase → Option Int
  | .expiring leaseID _ _ => some leaseID
  | _ => none

/-- Every live row that the step adds names no lease, or one that is granted
and not being revoked. -/
def AttachesGranted (system : RevokeSystem) : LeaseAction → Prop
  | .revoke (.other action) =>
      ∀ next, system.world.step action = some next → ∀ row ∈ addedRows system.world next,
        row.deleted = false → row.leaseId ≠ 0 →
          Granted system.world.db row.leaseId ∧
            ∀ revoker, (system.revokers revoker).expires ≠ some row.leaseId
  | _ => True

/-! ## What steps do to the live entries -/

theorem World.step_kvLease {world next : World} {action : Action}
    (stepped : world.step action = some next) : next.db.kvLease = world.db.kvLease := by
  cases World.step_move stepped with
  | write op ts later =>
      rcases op.apply_cases world.db ts with same | ⟨inserts, _, committed⟩
      · simp [same]
      · simp [committed, DB.commit]
  | seed =>
      unfold seedCompactRev
      split <;> rfl
  | compactor compactor move =>
      generalize world.compactors compactor = state at move
      have recorded : ∀ targetRev, (recordCompactRev world.db targetRev).kvLease =
          world.db.kvLease := by
        intro targetRev
        unfold recordCompactRev
        cases world.db.kvRev with
        | none => rfl
        | some existing => dsimp only; split <;> rfl
      cases move with
      | record range => exact recorded _
      | autoRecord => exact recorded _
      | _ => rfl

/-- A live entry after a step was there before, or the step added its row. -/
theorem World.Inv.entry_step {world next : World} (inv : world.Inv) {action : Action}
    (stepped : world.step action = some next) {key : Bytes} {kv : KV}
    (present : getLatestTxn next.db.kv key = some kv) :
    getLatestTxn world.db.kv key = some kv ∨
      ∃ row ∈ addedRows world next, row.deleted = false ∧ scanKV row = kv := by
  have nextInv := inv.step stepped
  obtain ⟨added, grown, _⟩ := (World.step_effect stepped).extends.history
  obtain ⟨row, found, live, scanned⟩ := latestRow_of_getLatestTxn_some present
  rw [nextInv.latestRow_eq, grown] at found
  rcases newest_append_cases (grown ▸ nextInv.distinctRows) found with new | old
  · exact .inr ⟨row, by simpa [addedRows, grown] using new, live, scanned⟩
  · left
    have before : latestRow world.history key = some row := old
    rw [inv.getLatestTxn_eq, getLatestTxn, before, liveKV_some, live, scanned]
    rfl

/-- `DeleteIfLease` adds tombstones only, and leaves the key without the lease. -/
theorem deleteIfLease_step {world next : World} (inv : world.Inv) {key : Bytes} {leaseID : Int}
    {ts : CommitTs} (stepped : world.step (.write (.deleteIfLease key leaseID) ts) = some next) :
    (∀ row ∈ addedRows world next, row.deleted = true) ∧
      ∀ kv, getLatestTxn next.db.kv key = some kv → kv.leaseID ≠ leaseID := by
  have moved := stepped
  simp only [World.step, Option.ite_none_right_eq_some, Option.some.injEq] at moved
  obtain ⟨later, rfl⟩ := moved
  rw [addedRows, step_write_added stepped]
  have unchanged : getLatestTxn (world.db.commit ts []).kv key = getLatestTxn world.db.kv key :=
    commit_getLatestTxn_other world.db (by simp)
  cases found : getLatestTxn world.db.kv key with
  | none =>
      simp only [WriteOp.apply, deleteIfLease_of_absent ts leaseID found, unchanged, found]
      simp [DB.commit, committedRows]
  | some prev =>
      by_cases agrees : prev.leaseID = leaseID
      · subst agrees
        have gone : getLatestTxn (world.db.commit ts [tombstoneInsert key prev]).kv key = none :=
          commit_getLatestTxn_new inv later (.singleton (.tombstone key prev found))
            (List.mem_singleton_self _)
        simp only [WriteOp.apply, deleteIfLease_of_match ts found, gone]
        simp [DB.commit, committedRows, KvInsert.toRow, tombstoneInsert]
      · simp only [WriteOp.apply, deleteIfLease_of_mismatch ts found agrees, unchanged, found]
        simpa [DB.commit, committedRows] using agrees

/-- The scan of a revocation finds every live key of the lease. -/
theorem mem_leaseKeys {rows : List Row} {key : Bytes} {kv : KV}
    (present : getLatestTxn rows key = some kv) : key ∈ leaseKeys rows kv.leaseID := by
  obtain ⟨row, found, live, rfl⟩ := latestRow_of_getLatestTxn_some present
  refine List.mem_map.mpr ⟨row, ?_, newest_key found⟩
  have sameLease : (scanKV row).leaseID = row.leaseId := rfl
  simp only [List.mem_filter, sameLease, live, Bool.not_false, Bool.and_true, decide_true,
    decide_eq_true_eq]
  refine ⟨newest_mem found, List.max?_eq_some_iff.mpr ⟨?_, ?_⟩⟩
  · exact List.mem_map_of_mem (List.mem_filter.mpr ⟨newest_mem found, by simp⟩)
  · intro rev membership
    obtain ⟨other, selected, rfl⟩ := List.mem_map.mp membership
    obtain ⟨otherMembership, matching⟩ := List.mem_filter.mp selected
    simp only [Bool.and_eq_true, decide_eq_true_eq] at matching
    exact newest_le found otherMembership (matching.2.trans (newest_key found)) rfl

/-! ## The invariant -/

structure RevokeSystem.Attached (system : RevokeSystem) : Prop where
  inv : system.world.Inv
  refers : ∀ key kv, getLatestTxn system.world.db.kv key = some kv → kv.leaseID ≠ 0 →
    Granted system.world.db kv.leaseID
  /-- As long as no delete has failed, a revocation has all live keys of its
  lease before it. -/
  listed : ∀ revoker leaseID keys, leaseID ≠ 0 →
    system.revokers revoker = .expiring leaseID keys 0 →
      ∀ key kv, getLatestTxn system.world.db.kv key = some kv → kv.leaseID = leaseID → key ∈ keys

theorem RevokeSystem.init_attached : RevokeSystem.init.Attached where
  inv := World.init_inv
  refers := by
    intro key kv present
    cases present
  listed := by simp [RevokeSystem.init]

/-- A step of the store keeps the invariant if the live rows that it adds are
attached as they should be. -/
theorem RevokeSystem.Attached.other {system : RevokeSystem} (attached : system.Attached)
    {action : Action} {next : World} (stepped : system.world.step action = some next)
    (attaches : ∀ row ∈ addedRows system.world next, row.deleted = false → row.leaseId ≠ 0 →
      Granted system.world.db row.leaseId ∧
        ∀ revoker, (system.revokers revoker).expires ≠ some row.leaseId) :
    RevokeSystem.Attached { system with world := next } where
  inv := attached.inv.step stepped
  refers := by
    intro key kv present leased
    rw [Granted, World.step_kvLease stepped]
    rcases attached.inv.entry_step stepped present with before | ⟨row, new, live, rfl⟩
    · exact attached.refers key kv before leased
    · exact (attaches row new live leased).1
  listed := by
    intro revoker leaseID keys leased standing key kv present sameLease
    rcases attached.inv.entry_step stepped present with before | ⟨row, new, live, rfl⟩
    · exact attached.listed revoker leaseID keys leased standing key kv before sameLease
    · subst sameLease
      exact absurd (by rw [standing]; rfl) ((attaches row new live leased).2 revoker)

/-- A revoker's new phase may list what the live entries demand. -/
theorem RevokeSystem.Attached.setRevoker {system : RevokeSystem} (attached : system.Attached)
    (revoker : Nat) {phase : RevokePhase}
    (listed : ∀ leaseID keys, leaseID ≠ 0 → phase = .expiring leaseID keys 0 →
      ∀ key kv, getLatestTxn system.world.db.kv key = some kv → kv.leaseID = leaseID →
        key ∈ keys) : (system.setRevoker revoker phase).Attached where
  inv := attached.inv
  refers := attached.refers
  listed := by
    intro other
    by_cases same : other = revoker
    · subst same
      simpa only [RevokeSystem.setRevoker, Function.update_self] using listed
    · simpa only [RevokeSystem.setRevoker, Function.update_of_ne same] using attached.listed other

theorem RevokeSystem.Attached.deleteKey {system : RevokeSystem} (attached : system.Attached)
    {revoker : Nat} {leaseID : Int} {key : Bytes} {rest : List Bytes} {deleteErrs : Nat}
    (standing : system.revokers revoker = .expiring leaseID (key :: rest) deleteErrs)
    {ts : CommitTs} {next : World}
    (stepped : system.world.step (.write (.deleteIfLease key leaseID) ts) = some next) :
    ({ system with world := next }.setRevoker revoker
      (.expiring leaseID rest deleteErrs)).Attached := by
  obtain ⟨tombstones, released⟩ := deleteIfLease_step attached.inv stepped
  have afterwards : RevokeSystem.Attached { system with world := next } := by
    refine attached.other stepped fun row new live => ?_
    simp [tombstones row new] at live
  refine afterwards.setRevoker revoker ?_
  rintro _ _ leased ⟨⟩ other kv present sameLease
  have before := afterwards.listed revoker leaseID (key :: rest) leased standing other kv present
    sameLease
  rcases List.mem_cons.mp before with rfl | remaining
  · exact absurd sameLease (released kv present)
  · exact remaining

/-- Once every key of its lease is deleted, the record may go. -/
theorem RevokeSystem.Attached.deleteRecord {system : RevokeSystem} (attached : system.Attached)
    {revoker : Nat} {leaseID : Int}
    (standing : system.revokers revoker = .expiring leaseID [] 0) :
    RevokeSystem.Attached { system with world := deleteLease system.world leaseID } where
  inv := attached.inv.control rfl rfl le_rfl rfl fun _ _ _ scanned => .inl scanned
  refers := by
    intro key kv present leased
    obtain ⟨lease, membership, found⟩ := attached.refers key kv present leased
    refine ⟨lease, List.mem_filter.mpr ⟨membership, ?_⟩, found⟩
    simp only [decide_eq_true_eq]
    rintro rfl
    exact List.not_mem_nil (attached.listed revoker _ [] (found ▸ leased) standing key kv
      present found.symm)
  listed := attached.listed

theorem RevokeSystem.Attached.grant {system : RevokeSystem} (attached : system.Attached)
    (leaseID ttl : Int) {ts : CommitTs} (later : system.world.db.clock < ts.ns) :
    RevokeSystem.Attached { system with world := grantLease system.world leaseID ttl ts } where
  inv := attached.inv.control rfl rfl later.le rfl fun _ _ _ scanned => .inl scanned
  refers := by
    intro key kv present leased
    obtain ⟨lease, membership, found⟩ := attached.refers key kv present leased
    exact ⟨lease, List.mem_append_left _ membership, found⟩
  listed := attached.listed

theorem RevokeSystem.Attached.revokeStep {system next : RevokeSystem} {action : RevokeAction}
    (attaches : AttachesGranted system (.revoke action)) (stepped : system.step action = some next)
    (attached : system.Attached) : next.Attached := by
  cases RevokeSystem.step_move stepped with
  | other moved => exact attached.other moved (attaches _ moved)
  | scan revoker ready range permuted =>
      refine attached.setRevoker revoker ?_
      rintro _ _ _ ⟨⟩ key kv present rfl
      exact permuted.mem_iff.mpr (mem_leaseKeys present)
  | deleteKey standing moved => exact attached.deleteKey standing moved
  | deleteFails standing => exact attached.setRevoker _ (by simp)
  | scanFails standing => exact attached.setRevoker _ (by simp)
  | deletesFailed applied standing => exact attached.setRevoker _ (by simp)
  | recordDeleted standing => exact (attached.deleteRecord standing).setRevoker _ (by simp)
  | recordNotDeleted standing => exact attached.setRevoker _ (by simp)

theorem RevokeSystem.Attached.step {system next : RevokeSystem} {action : LeaseAction}
    (attaches : AttachesGranted system action) (stepped : system.leaseStep action = some next)
    (attached : system.Attached) : next.Attached := by
  cases action with
  | grant leaseID ttl ts =>
      simp only [RevokeSystem.leaseStep, Option.ite_none_right_eq_some,
        Option.some.injEq] at stepped
      obtain ⟨⟨later, _⟩, rfl⟩ := stepped
      exact attached.grant leaseID ttl later
  | revoke action => exact attached.revokeStep attaches stepped

/-- In every run whose writes attach only leases that are granted and not
being revoked, every live key with a lease names one that is in `kv_lease`. -/
theorem live_keys_refer_to_leases {actions : List LeaseAction} {system : RevokeSystem}
    (guarded : Runs.Guarded RevokeSystem.leaseStep AttachesGranted .init actions)
    (ran : Runs.run RevokeSystem.leaseStep .init actions = some system) :
    ∀ key kv, getLatestTxn system.world.db.kv key = some kv → kv.leaseID ≠ 0 →
      Granted system.world.db kv.leaseID :=
  (Runs.run_invariant_of_guarded (fun _ _ _ => RevokeSystem.Attached.step) guarded ran
    RevokeSystem.init_attached).refers

def putLeased (key : Bytes) (leaseID : Int) (ts : CommitTs) : LeaseAction :=
  .revoke (.other (.write (.create key (some (ascii "v")) leaseID) ts))

/-- A lease is granted, attached to one key and revoked, and another lease is
attached to another key. -/
def attachedRun : List LeaseAction :=
  [.grant 7 15 5, putLeased (ascii "a") 7 6, .revoke (.scan 0 7 [ascii "a"]),
    .grant 8 15 7, putLeased (ascii "b") 8 8, .revoke (.deleteKey 0 9),
    .revoke (.deleteRecord 0 true)]

def attachedSystem : RevokeSystem :=
  (Runs.run RevokeSystem.leaseStep .init attachedRun).getD .init

theorem attachedRun_guarded :
    Runs.Guarded RevokeSystem.leaseStep AttachesGranted .init attachedRun := by
  refine (Runs.guarded_cons rfl).mpr ⟨trivial, (Runs.guarded_cons rfl).mpr ⟨?first,
    (Runs.guarded_cons rfl).mpr ⟨trivial, (Runs.guarded_cons rfl).mpr ⟨trivial,
    (Runs.guarded_cons rfl).mpr ⟨?second, (Runs.guarded_cons rfl).mpr ⟨trivial,
    (Runs.guarded_cons rfl).mpr ⟨trivial, trivial⟩⟩⟩⟩⟩⟩⟩
  case first =>
    rintro next ⟨⟩ row new _ _
    obtain rfl := List.mem_singleton.mp new
    exact ⟨⟨_, List.mem_cons_self, rfl⟩, fun _ => nofun⟩
  case second =>
    rintro next ⟨⟩ row new _ _
    obtain rfl := List.mem_singleton.mp new
    refine ⟨⟨⟨8, 15, 7⟩, by decide, rfl⟩, fun revoker => ?_⟩
    by_cases same : revoker = 0
    · subst same
      decide
    · simp [RevokeSystem.setRevoker, Function.update_of_ne same, RevokeSystem.init,
        RevokePhase.expires]

theorem attachedSystem_refers :
    (getLatestTxn attachedSystem.world.db.kv (ascii "b")).map KV.leaseID = some 8 ∧
    attachedSystem.world.db.kvLease.map LeaseRow.leaseId = [8] ∧
    ∀ key kv, getLatestTxn attachedSystem.world.db.kv key = some kv → kv.leaseID ≠ 0 →
      Granted attachedSystem.world.db kv.leaseID :=
  ⟨rfl, rfl, live_keys_refer_to_leases attachedRun_guarded rfl⟩

/-- A key is put with a lease that was never granted. -/
def ungrantedRun : List LeaseAction := [putLeased (ascii "k") 7 5]

/-- A key is put with a lease between the scan of its revocation and the
removal of its record. -/
def revokedRun : List LeaseAction :=
  [.grant 7 15 5, .revoke (.scan 0 7 []), putLeased (ascii "k") 7 6,
    .revoke (.deleteRecord 0 true)]

/-- After the run the key `k` is live and names lease 7, which is not there. -/
def LeavesDangling (actions : List LeaseAction) : Prop :=
  ∃ system kv, Runs.run RevokeSystem.leaseStep .init actions = some system ∧
    getLatestTxn system.world.db.kv (ascii "k") = some kv ∧ kv.leaseID = 7 ∧
    ¬Granted system.world.db 7

theorem live_key_without_lease : LeavesDangling ungrantedRun ∧ LeavesDangling revokedRun := by
  refine ⟨⟨_, _, rfl, rfl, rfl, ?_⟩, ⟨_, _, rfl, rfl, rfl, ?_⟩⟩
  · exact fun ⟨_, membership, _⟩ => List.not_mem_nil membership
  · exact fun ⟨_, membership, _⟩ => List.not_mem_nil membership

end SpannerEtcd
