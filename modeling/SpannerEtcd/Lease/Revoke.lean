import SpannerEtcd.Store.Compaction

/-!
# Revoking leases

`Revoke` scans the keys of a lease in one snapshot and then deletes them one
by one, each delete checking the lease again in its own transaction.  Any
number of revocations run next to any other steps of the system.

Rows without a lease carry lease id 0, and nothing keeps a client from
revoking 0.
-/

namespace SpannerEtcd

open VersionedLog

/-- The keys whose newest row among those of the lease is live; the join sees
only rows of the lease. -/
def leaseKeys (rows : List Row) (leaseID : Int) : List Bytes :=
  (rows.filter fun row =>
    decide (((rows.filter fun other => decide (other.leaseId = leaseID) &&
      decide (other.key = row.key)).map Row.rev).max? = some row.rev) &&
      !row.deleted && decide (row.leaseId = leaseID)).map Row.key

inductive RevokeErr where
  | scanFailed
  | deletesFailed (count : Nat) (leaseID : Int)
  | recordNotDeleted
  deriving DecidableEq, Repr

inductive RevokePhase where
  | idle
  /-- The scan has returned and these keys are still to be deleted. -/
  | expiring (leaseID : Int) (keys : List Bytes) (deleteErrs : Nat)
  | returned (leaseID : Int) (err : Option RevokeErr)

def RevokePhase.ready : RevokePhase → Bool
  | .expiring _ _ _ => false
  | _ => true

structure RevokeSystem where
  world : World
  revokers : Nat → RevokePhase

def RevokeSystem.init : RevokeSystem :=
  { world := .init, revokers := fun _ => .idle }

inductive RevokeAction where
  /-- Any other step of the system. -/
  | other (action : Action)
  /-- `LeaseRevoke` for any `int64`; the query has no order. -/
  | scan (revoker : Nat) (leaseID : Int) (order : List Bytes)
  | deleteKey (revoker : Nat) (ts : CommitTs)
  | deleteFails (revoker : Nat)
  | scanFails (revoker : Nat)
  | deleteRecord (revoker : Nat) (applied : Bool)

def RevokeSystem.setRevoker (system : RevokeSystem) (revoker : Nat) (phase : RevokePhase) :
    RevokeSystem :=
  { system with revokers := Function.update system.revokers revoker phase }

/-- `spanner.Delete("kv_lease", leaseID)`. -/
def deleteLease (world : World) (leaseID : Int) : World :=
  { world with
    db := { world.db with
      kvLease := world.db.kvLease.filter fun lease => decide (lease.leaseId ≠ leaseID) } }

def RevokeSystem.step (system : RevokeSystem) : RevokeAction → Option RevokeSystem
  | .other action =>
      (system.world.step action).map fun next => { system with world := next }
  | .scan revoker leaseID order =>
      if (system.revokers revoker).ready ∧ IsInt64 leaseID ∧
          order.Perm (leaseKeys system.world.db.kv leaseID) then
        some (system.setRevoker revoker (.expiring leaseID order 0))
      else none
  | .deleteKey revoker ts =>
      match system.revokers revoker with
      | .expiring leaseID (key :: rest) deleteErrs =>
          (system.world.step (.write (.deleteIfLease key leaseID) ts)).map fun next =>
            { system with world := next }.setRevoker revoker (.expiring leaseID rest deleteErrs)
      | _ => none
  | .deleteFails revoker =>
      match system.revokers revoker with
      | .expiring leaseID (_ :: rest) deleteErrs =>
          some (system.setRevoker revoker (.expiring leaseID rest (deleteErrs + 1)))
      | _ => none
  | .scanFails revoker =>
      match system.revokers revoker with
      | .expiring leaseID _ _ =>
          some (system.setRevoker revoker (.returned leaseID (some .scanFailed)))
      | _ => none
  | .deleteRecord revoker applied =>
      match system.revokers revoker with
      | .expiring leaseID [] 0 =>
          if applied then
            some ({ system with world := deleteLease system.world leaseID }.setRevoker revoker
              (.returned leaseID none))
          else some (system.setRevoker revoker (.returned leaseID (some .recordNotDeleted)))
      | .expiring leaseID [] deleteErrs =>
          some (system.setRevoker revoker
            (.returned leaseID (some (.deletesFailed deleteErrs leaseID))))
      | _ => none

inductive RevokeMove (system : RevokeSystem) : RevokeAction → RevokeSystem → Prop where
  | other {action : Action} {next : World} (moved : system.world.step action = some next) :
      RevokeMove system (.other action) { system with world := next }
  | scan (revoker : Nat) {leaseID : Int} {order : List Bytes}
      (ready : (system.revokers revoker).ready = true) (range : IsInt64 leaseID)
      (permuted : order.Perm (leaseKeys system.world.db.kv leaseID)) :
      RevokeMove system (.scan revoker leaseID order)
        (system.setRevoker revoker (.expiring leaseID order 0))
  | deleteKey {revoker : Nat} {leaseID : Int} {key : Bytes} {rest : List Bytes} {deleteErrs : Nat}
      (standing : system.revokers revoker = .expiring leaseID (key :: rest) deleteErrs)
      {ts : CommitTs} {next : World}
      (moved : system.world.step (.write (.deleteIfLease key leaseID) ts) = some next) :
      RevokeMove system (.deleteKey revoker ts)
        ({ system with world := next }.setRevoker revoker (.expiring leaseID rest deleteErrs))
  | deleteFails {revoker : Nat} {leaseID : Int} {key : Bytes} {rest : List Bytes}
      {deleteErrs : Nat}
      (standing : system.revokers revoker = .expiring leaseID (key :: rest) deleteErrs) :
      RevokeMove system (.deleteFails revoker)
        (system.setRevoker revoker (.expiring leaseID rest (deleteErrs + 1)))
  | scanFails {revoker : Nat} {leaseID : Int} {keys : List Bytes} {deleteErrs : Nat}
      (standing : system.revokers revoker = .expiring leaseID keys deleteErrs) :
      RevokeMove system (.scanFails revoker)
        (system.setRevoker revoker (.returned leaseID (some .scanFailed)))
  | deletesFailed {revoker : Nat} {leaseID : Int} {failed : Nat} (applied : Bool)
      (standing : system.revokers revoker = .expiring leaseID [] (failed + 1)) :
      RevokeMove system (.deleteRecord revoker applied)
        (system.setRevoker revoker
          (.returned leaseID (some (.deletesFailed (failed + 1) leaseID))))
  | recordDeleted {revoker : Nat} {leaseID : Int}
      (standing : system.revokers revoker = .expiring leaseID [] 0) :
      RevokeMove system (.deleteRecord revoker true)
        ({ system with world := deleteLease system.world leaseID }.setRevoker revoker
          (.returned leaseID none))
  | recordNotDeleted {revoker : Nat} {leaseID : Int}
      (standing : system.revokers revoker = .expiring leaseID [] 0) :
      RevokeMove system (.deleteRecord revoker false)
        (system.setRevoker revoker (.returned leaseID (some .recordNotDeleted)))

theorem RevokeSystem.step_move {system next : RevokeSystem} {action : RevokeAction}
    (stepped : system.step action = some next) : RevokeMove system action next := by
  cases action with
  | other action =>
      simp only [RevokeSystem.step, Option.map_eq_some_iff] at stepped
      obtain ⟨world, moved, rfl⟩ := stepped
      exact .other moved
  | scan revoker leaseID order =>
      simp only [RevokeSystem.step, Option.ite_none_right_eq_some, Option.some.injEq] at stepped
      obtain ⟨⟨ready, range, permuted⟩, rfl⟩ := stepped
      exact .scan revoker ready range permuted
  | deleteKey revoker ts =>
      cases standing : system.revokers revoker with
      | expiring leaseID keys deleteErrs =>
          cases keys with
          | nil => simp [RevokeSystem.step, standing] at stepped
          | cons key rest =>
              simp only [RevokeSystem.step, standing, Option.map_eq_some_iff] at stepped
              obtain ⟨world, moved, rfl⟩ := stepped
              exact .deleteKey standing moved
      | _ => simp [RevokeSystem.step, standing] at stepped
  | deleteFails revoker =>
      cases standing : system.revokers revoker with
      | expiring leaseID keys deleteErrs =>
          cases keys with
          | nil => simp [RevokeSystem.step, standing] at stepped
          | cons key rest =>
              simp only [RevokeSystem.step, standing, Option.some.injEq] at stepped
              exact stepped ▸ .deleteFails standing
      | _ => simp [RevokeSystem.step, standing] at stepped
  | scanFails revoker =>
      cases standing : system.revokers revoker with
      | expiring leaseID keys deleteErrs =>
          simp only [RevokeSystem.step, standing, Option.some.injEq] at stepped
          exact stepped ▸ .scanFails standing
      | _ => simp [RevokeSystem.step, standing] at stepped
  | deleteRecord revoker applied =>
      cases standing : system.revokers revoker with
      | expiring leaseID keys deleteErrs =>
          cases keys with
          | cons key rest => simp [RevokeSystem.step, standing] at stepped
          | nil =>
              cases deleteErrs with
              | succ count =>
                  simp only [RevokeSystem.step, standing, Option.some.injEq] at stepped
                  exact stepped ▸ .deletesFailed applied standing
              | zero =>
                  cases applied with
                  | true =>
                      simp only [RevokeSystem.step, standing, if_true,
                        Option.some.injEq] at stepped
                      exact stepped ▸ .recordDeleted standing
                  | false =>
                      simp only [RevokeSystem.step, standing, Bool.false_eq_true, if_false,
                        Option.some.injEq] at stepped
                      exact stepped ▸ .recordNotDeleted standing
      | _ => simp [RevokeSystem.step, standing] at stepped

/-- The step tombstones a key whose newest row belongs to no lease. -/
def TombstonesLeaseless (before after : World) : Prop :=
  ∃ row ∈ after.history.drop before.history.length, row.deleted = true ∧
    ∃ latest, latestRow before.db.kv row.key = some latest ∧ latest.leaseId = 0

/-- No interleaving lets a revocation of the lease tombstone a key without a
lease. -/
def SparesLeaseless (leaseID : Int) : Prop :=
  ∀ system, Runs.Reaches RevokeSystem.step RevokeSystem.init system →
    ∀ revoker keys deleteErrs, system.revokers revoker = .expiring leaseID keys deleteErrs →
      ∀ ts next, system.step (.deleteKey revoker ts) = some next →
        ¬TombstonesLeaseless system.world next.world

theorem deleteIfLease_over_lease {world next : World} {key : Bytes} {leaseID : Int}
    {ts : CommitTs} (stepped : world.step (.write (.deleteIfLease key leaseID) ts) = some next)
    {row : Row} (membership : row ∈ next.history.drop world.history.length) :
    ∃ latest, latestRow world.db.kv row.key = some latest ∧ latest.leaseId = leaseID := by
  rw [step_write_added stepped] at membership
  cases found : getLatestTxn world.db.kv key with
  | none =>
      simp [WriteOp.apply, deleteIfLease_of_absent ts leaseID found, DB.commit,
        committedRows] at membership
  | some prev =>
      by_cases agrees : prev.leaseID = leaseID
      · subst agrees
        simp only [WriteOp.apply, deleteIfLease_of_match ts found, DB.commit, List.drop_left,
          committedRows, List.mem_singleton] at membership
        subst membership
        obtain ⟨latest, newestRow, _, rfl⟩ := liveKV_eq_some_iff.mp found
        exact ⟨latest, newestRow, rfl⟩
      · simp [WriteOp.apply, deleteIfLease_of_mismatch ts found agrees, DB.commit,
          committedRows] at membership

/-- A key is written without a lease, and lease 0 is being revoked. -/
def revokeZeroRun : List RevokeAction :=
  [.other (.write (.create (ascii "k") (some (ascii "v")) 0) 5),
    .scan 0 0 [ascii "k"]]

def revokingZero : RevokeSystem :=
  (Runs.run RevokeSystem.step RevokeSystem.init revokeZeroRun).getD RevokeSystem.init

def revokedZero : RevokeSystem :=
  (revokingZero.step (.deleteKey 0 6)).getD RevokeSystem.init

theorem revokedZero_tombstones :
    TombstonesLeaseless revokingZero.world revokedZero.world :=
  ⟨_, List.mem_singleton_self _, rfl, _, rfl, rfl⟩

/-- Revoking a lease spares the keys without a lease exactly when the id is
not the one that stands for no lease. -/
theorem revoke_spares_leaseless_iff (leaseID : Int) :
    SparesLeaseless leaseID ↔ leaseID ≠ 0 := by
  constructor
  · rintro spares rfl
    exact spares revokingZero ⟨revokeZeroRun, rfl⟩ 0 [ascii "k"] 0 rfl
      ⟨6, by decide, by decide⟩ revokedZero rfl revokedZero_tombstones
  · rintro leased system _ revoker keys deleteErrs standing ts next stepped
      ⟨row, membership, _, latest, found, leaseless⟩
    cases keys with
    | nil => simp [RevokeSystem.step, standing] at stepped
    | cons key rest =>
        simp only [RevokeSystem.step, standing, Option.map_eq_some_iff] at stepped
        obtain ⟨world, moved, rfl⟩ := stepped
        obtain ⟨other, otherFound, otherLease⟩ := deleteIfLease_over_lease moved membership
        rw [found, Option.some.injEq] at otherFound
        subst otherFound
        exact leased (otherLease.symm.trans leaseless)

/-- Revoking 0 tombstones a key that was written without a lease. -/
theorem revoke_zero_tombstones_leaseless :
    ∃ system next, Runs.run RevokeSystem.step RevokeSystem.init revokeZeroRun = some system ∧
      IsInt64 0 ∧ system.revokers 0 = .expiring 0 [ascii "k"] 0 ∧
      system.step (.deleteKey 0 ⟨6, by decide, by decide⟩) = some next ∧
      TombstonesLeaseless system.world next.world :=
  ⟨revokingZero, revokedZero, rfl, by decide, rfl, rfl, revokedZero_tombstones⟩

end SpannerEtcd
