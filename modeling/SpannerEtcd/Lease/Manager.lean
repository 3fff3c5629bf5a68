import SpannerEtcd.Lib.Runs
import SpannerEtcd.Store.Schema

/-!
# Lease managers on a common clock

Each replica holds its leases in memory, next to the rows of `kv_lease` that
all replicas share.  A keepalive moves the deadline in the memory of the
replica that serves it; a replica that loads a lease computes the deadline
from `granted_at`.

The expiry goroutines of `scheduleExpiry` read a deadline, wait, look the
lease up, check the deadline again and only then revoke.  These are separate
steps, between which anything else may happen.
-/

namespace SpannerEtcd

/-- `time.Second`, in nanoseconds. -/
def timeSecond : Int := 1000000000

structure Lease where
  id : Int
  ttl : Int
  grantedAt : Int
  expiresAt : Int
  deriving DecidableEq, Repr

/-- `from.Add(time.Duration(ttl) * time.Second)`; the product is an `int64`. -/
def deadline (start ttl : Int) : Int := start + wrapInt64 (ttl * timeSecond)

/-- The lease that both `Grant` and `loadLeases` build. -/
def Lease.since (id ttl grantedAt : Int) : Lease :=
  { id, ttl, grantedAt, expiresAt := deadline grantedAt ttl }

/-- The TTL that `LeaseGrant` passes on. -/
def grantTTL (requested : Int) : Int := if requested ≤ 0 then 15 else requested

inductive GrantPhase where
  | idle
  /-- The lease is built, and the insert into `kv_lease` has not returned. -/
  | applying
  | applied
  deriving DecidableEq, Repr

/-- An expiry goroutine; pointers are addresses in the memory of its replica. -/
inductive Expiry where
  | ended
  | starting (lease : Nat)
  | waiting (leaseID : Int) (expiresAt : Int)
  /-- The map held the lease `current`; its deadline is not read yet. -/
  | found (leaseID : Int) (current : Nat)
  /-- About to call `Revoke`, once the backoff is over. -/
  | expired (leaseID : Int) (attempt : Nat) (notBefore : Int)
  | revoking (leaseID : Int) (attempt : Nat)
  /-- The row of `kv_lease` is gone, the entry of the map is not. -/
  | unmapping (leaseID : Int)
  deriving DecidableEq, Repr

/-- The lease of a goroutine that has passed its check and will not look at
the deadline again. -/
def Expiry.pastCheck : Expiry → Option Int
  | .expired leaseID _ _ => some leaseID
  | .revoking leaseID _ => some leaseID
  | .unmapping leaseID => some leaseID
  | _ => none

structure LeaseManager where
  running : Bool
  nextID : Int
  heap : Nat → Option Lease
  leases : Int → Option Nat
  /-- The calls of `Grant`, by the address of their lease. -/
  grants : Nat → GrantPhase
  expiries : Nat → Expiry
  /-- The rows that `loadLeases` has still to read of its scan. -/
  toLoad : List LeaseRow

def LeaseManager.down : LeaseManager where
  running := false
  nextID := 0
  heap := fun _ => none
  leases := fun _ => none
  grants := fun _ => .idle
  expiries := fun _ => .ended
  toLoad := []

/-- `newLeaseManager`: nothing in memory, ids from the clock. -/
def LeaseManager.started (now : Int) : LeaseManager :=
  { LeaseManager.down with running := true, nextID := unixNano now }

def LeaseManager.setExpiry (manager : LeaseManager) (expiry : Nat) (state : Expiry) :
    LeaseManager :=
  { manager with expiries := Function.update manager.expiries expiry state }

def LeaseManager.alloc (manager : LeaseManager) (pointer : Nat) (lease : Lease) :
    LeaseManager :=
  { manager with heap := Function.update manager.heap pointer (some lease) }

def LeaseManager.setGrant (manager : LeaseManager) (pointer : Nat) (phase : GrantPhase) :
    LeaseManager :=
  { manager with grants := Function.update manager.grants pointer phase }

def LeaseManager.enter (manager : LeaseManager) (id : Int) (entry : Option Nat) :
    LeaseManager :=
  { manager with leases := Function.update manager.leases id entry }

/-- A grant, or a keepalive that was acknowledged with the TTL of the lease. -/
structure Renewal where
  leaseID : Int
  ttl : Int
  time : Int
  deriving DecidableEq, Repr

/-- `renewals` is a ghost: no step reads it. -/
structure LeaseSystem where
  now : Int
  kvLease : List LeaseRow
  replicas : Nat → LeaseManager
  renewals : List Renewal

def LeaseSystem.init (now : Int) : LeaseSystem where
  now := now
  kvLease := []
  replicas := fun _ => .down
  renewals := []

def LeaseSystem.setReplica (system : LeaseSystem) (replica : Nat) (manager : LeaseManager) :
    LeaseSystem :=
  { system with replicas := Function.update system.replicas replica manager }

def LeaseSystem.renew (system : LeaseSystem) (leaseID ttl : Int) : LeaseSystem :=
  { system with renewals := system.renewals ++ [⟨leaseID, ttl, system.now⟩] }

inductive ManagerAction where
  | tick (time : Int)
  | start (replica : Nat)
  | stop (replica : Nat)
  | scan (replica : Nat)
  | loadNext (replica pointer expiry : Nat)
  | grant (replica : Nat) (requested : Int) (pointer : Nat)
  | commitGrant (replica pointer : Nat) (applied : Bool)
  | finishGrant (replica pointer expiry : Nat)
  | keepalive (replica : Nat) (leaseID : Int)
  | readDeadline (replica expiry : Nat)
  | lookUp (replica expiry : Nat)
  | check (replica expiry spawned : Nat)
  | revoke (replica expiry : Nat)
  | revoked (replica expiry : Nat) (failed : Bool)
  | unmap (replica expiry : Nat)

/-- One row of the scan; a lease that is in the map keeps its deadline. -/
def LeaseManager.load (manager : LeaseManager) (row : LeaseRow) (rest : List LeaseRow)
    (pointer expiry : Nat) : LeaseManager :=
  match manager.leases row.leaseId with
  | some _ => { manager with toLoad := rest }
  | none =>
      (({ manager with toLoad := rest }.alloc pointer
        (.since row.leaseId row.ttlSec row.grantedAt)).enter row.leaseId
          (some pointer)).setExpiry expiry (.starting pointer)

def LeaseManager.unused (manager : LeaseManager) (pointer expiry : Nat) : Prop :=
  manager.heap pointer = none ∧ manager.expiries expiry = .ended

instance (manager : LeaseManager) (pointer expiry : Nat) :
    Decidable (manager.unused pointer expiry) :=
  inferInstanceAs (Decidable (_ ∧ _))

def LeaseSystem.step (system : LeaseSystem) : ManagerAction → Option LeaseSystem
  | .tick time => if system.now ≤ time then some { system with now := time } else none
  | .start replica => some (system.setReplica replica (.started system.now))
  | .stop replica => some (system.setReplica replica .down)
  | .scan replica =>
      let manager := system.replicas replica
      if manager.running then
        some (system.setReplica replica { manager with toLoad := system.kvLease })
      else none
  | .loadNext replica pointer expiry =>
      let manager := system.replicas replica
      match manager.toLoad with
      | row :: rest =>
          if manager.unused pointer expiry then
            some (system.setReplica replica (manager.load row rest pointer expiry))
          else none
      | [] => none
  | .grant replica requested pointer =>
      let manager := system.replicas replica
      let id := wrapInt64 (manager.nextID + 1)
      if manager.running ∧ manager.heap pointer = none ∧ manager.grants pointer = .idle then
        some ((system.setReplica replica (({ manager with nextID := id }.alloc pointer
          (.since id (grantTTL requested) system.now)).setGrant pointer .applying)).renew id
            (grantTTL requested))
      else none
  | .commitGrant replica pointer applied =>
      let manager := system.replicas replica
      match manager.grants pointer, manager.heap pointer with
      | .applying, some lease =>
          -- The insert fails if the primary key is taken, and may fail anyway.
          if applied ∧ ∀ row ∈ system.kvLease, row.leaseId ≠ lease.id then
            some { system.setReplica replica (manager.setGrant pointer .applied) with
              kvLease := system.kvLease ++ [⟨lease.id, lease.ttl, system.now⟩] }
          else some (system.setReplica replica (manager.setGrant pointer .idle))
      | _, _ => none
  | .finishGrant replica pointer expiry =>
      let manager := system.replicas replica
      match manager.grants pointer, manager.heap pointer with
      | .applied, some lease =>
          if manager.expiries expiry = .ended then
            some (system.setReplica replica (((manager.setGrant pointer .idle).enter lease.id
              (some pointer)).setExpiry expiry (.starting pointer)))
          else none
      | _, _ => none
  | .keepalive replica leaseID =>
      let manager := system.replicas replica
      match manager.leases leaseID with
      -- An unknown lease is answered with TTL 0, and nothing changes.
      | none => some system
      | some pointer =>
          (manager.heap pointer).map fun lease =>
            (system.setReplica replica (manager.alloc pointer
              { lease with expiresAt := deadline system.now lease.ttl })).renew leaseID lease.ttl
  | .readDeadline replica expiry =>
      let manager := system.replicas replica
      match manager.expiries expiry with
      | .starting pointer =>
          (manager.heap pointer).map fun lease =>
            system.setReplica replica
              (manager.setExpiry expiry (.waiting lease.id lease.expiresAt))
      | _ => none
  | .lookUp replica expiry =>
      let manager := system.replicas replica
      match manager.expiries expiry with
      | .waiting leaseID expiresAt =>
          if expiresAt ≤ system.now then
            some (system.setReplica replica (manager.setExpiry expiry
              (match manager.leases leaseID with
                | none => .ended
                | some current => .found leaseID current)))
          else none
      | _ => none
  | .check replica expiry spawned =>
      let manager := system.replicas replica
      match manager.expiries expiry with
      | .found leaseID current =>
          match manager.heap current with
          | none => none
          | some lease =>
              if timeSecond < lease.expiresAt - system.now then
                -- The goroutine starts another one and ends.
                if manager.expiries spawned = .ended then
                  some (system.setReplica replica ((manager.setExpiry expiry .ended).setExpiry
                    spawned (.starting current)))
                else none
              else some (system.setReplica replica
                (manager.setExpiry expiry (.expired leaseID 1 system.now)))
      | _ => none
  | .revoke replica expiry =>
      let manager := system.replicas replica
      match manager.expiries expiry with
      | .expired leaseID attempt notBefore =>
          if notBefore ≤ system.now then
            some (system.setReplica replica
              (manager.setExpiry expiry (.revoking leaseID attempt)))
          else none
      | _ => none
  | .revoked replica expiry failed =>
      let manager := system.replicas replica
      match manager.expiries expiry with
      | .revoking leaseID attempt =>
          if failed then
            some (system.setReplica replica (manager.setExpiry expiry
              (if attempt < 5 then
                .expired leaseID (attempt + 1) (system.now + attempt * timeSecond)
              else .ended)))
          else
            some { system.setReplica replica (manager.setExpiry expiry (.unmapping leaseID)) with
              kvLease := system.kvLease.filter fun row => decide (row.leaseId ≠ leaseID) }
      | _ => none
  | .unmap replica expiry =>
      let manager := system.replicas replica
      match manager.expiries expiry with
      | .unmapping leaseID =>
          some (system.setReplica replica
            ((manager.enter leaseID none).setExpiry expiry .ended))
      | _ => none

/-! ## What a step can be -/

section
variable {system next : LeaseSystem}

inductive ManagerMove (system : LeaseSystem) : ManagerAction → LeaseSystem → Prop where
  | tick {time : Int} (later : system.now ≤ time) :
      ManagerMove system (.tick time) { system with now := time }
  | start (replica : Nat) :
      ManagerMove system (.start replica) (system.setReplica replica (.started system.now))
  | stop (replica : Nat) : ManagerMove system (.stop replica) (system.setReplica replica .down)
  | scan {replica : Nat} (running : (system.replicas replica).running = true) :
      ManagerMove system (.scan replica) (system.setReplica replica
        { system.replicas replica with toLoad := system.kvLease })
  | loadNext {replica pointer expiry : Nat} {row : LeaseRow} {rest : List LeaseRow}
      (scanned : (system.replicas replica).toLoad = row :: rest)
      (unused : (system.replicas replica).unused pointer expiry) :
      ManagerMove system (.loadNext replica pointer expiry) (system.setReplica replica
        ((system.replicas replica).load row rest pointer expiry))
  | grant {replica pointer : Nat} {requested id : Int}
      (named : id = wrapInt64 ((system.replicas replica).nextID + 1))
      (running : (system.replicas replica).running = true)
      (unused : (system.replicas replica).heap pointer = none)
      (idle : (system.replicas replica).grants pointer = .idle) :
      ManagerMove system (.grant replica requested pointer)
        ((system.setReplica replica
          (({ system.replicas replica with nextID := id }.alloc pointer
            (.since id (grantTTL requested) system.now)).setGrant pointer .applying)).renew id
              (grantTTL requested))
  | granted {replica pointer : Nat} {lease : Lease}
      (applying : (system.replicas replica).grants pointer = .applying)
      (stored : (system.replicas replica).heap pointer = some lease)
      (free : ∀ row ∈ system.kvLease, row.leaseId ≠ lease.id) :
      ManagerMove system (.commitGrant replica pointer true)
        { system.setReplica replica ((system.replicas replica).setGrant pointer .applied) with
          kvLease := system.kvLease ++ [⟨lease.id, lease.ttl, system.now⟩] }
  | notGranted {replica pointer : Nat} {lease : Lease} (applied : Bool)
      (applying : (system.replicas replica).grants pointer = .applying)
      (stored : (system.replicas replica).heap pointer = some lease) :
      ManagerMove system (.commitGrant replica pointer applied)
        (system.setReplica replica ((system.replicas replica).setGrant pointer .idle))
  | finishGrant {replica pointer expiry : Nat} {lease : Lease}
      (applied : (system.replicas replica).grants pointer = .applied)
      (stored : (system.replicas replica).heap pointer = some lease)
      (ended : (system.replicas replica).expiries expiry = .ended) :
      ManagerMove system (.finishGrant replica pointer expiry) (system.setReplica replica
        ((((system.replicas replica).setGrant pointer .idle).enter lease.id
          (some pointer)).setExpiry expiry (.starting pointer)))
  | unknown {replica : Nat} {leaseID : Int}
      (unmapped : (system.replicas replica).leases leaseID = none) :
      ManagerMove system (.keepalive replica leaseID) system
  | keepalive {replica pointer : Nat} {leaseID : Int} {lease : Lease}
      (mapped : (system.replicas replica).leases leaseID = some pointer)
      (stored : (system.replicas replica).heap pointer = some lease) :
      ManagerMove system (.keepalive replica leaseID)
        ((system.setReplica replica ((system.replicas replica).alloc pointer
          { lease with expiresAt := deadline system.now lease.ttl })).renew leaseID lease.ttl)
  | readDeadline {replica expiry pointer : Nat} {lease : Lease}
      (starting : (system.replicas replica).expiries expiry = .starting pointer)
      (stored : (system.replicas replica).heap pointer = some lease) :
      ManagerMove system (.readDeadline replica expiry) (system.setReplica replica
        ((system.replicas replica).setExpiry expiry (.waiting lease.id lease.expiresAt)))
  | gone {replica expiry : Nat} {leaseID expiresAt : Int}
      (waiting : (system.replicas replica).expiries expiry = .waiting leaseID expiresAt)
      (unmapped : (system.replicas replica).leases leaseID = none) :
      ManagerMove system (.lookUp replica expiry) (system.setReplica replica
        ((system.replicas replica).setExpiry expiry .ended))
  | found {replica expiry current : Nat} {leaseID expiresAt : Int}
      (waiting : (system.replicas replica).expiries expiry = .waiting leaseID expiresAt)
      (mapped : (system.replicas replica).leases leaseID = some current) :
      ManagerMove system (.lookUp replica expiry) (system.setReplica replica
        ((system.replicas replica).setExpiry expiry (.found leaseID current)))
  | extended {replica expiry spawned current : Nat} {leaseID : Int}
      (looked : (system.replicas replica).expiries expiry = .found leaseID current)
      (free : (system.replicas replica).expiries spawned = .ended) :
      ManagerMove system (.check replica expiry spawned) (system.setReplica replica
        (((system.replicas replica).setExpiry expiry .ended).setExpiry spawned
          (.starting current)))
  | expired {replica expiry current : Nat} (spawned : Nat) {leaseID : Int} {lease : Lease}
      (looked : (system.replicas replica).expiries expiry = .found leaseID current)
      (stored : (system.replicas replica).heap current = some lease)
      (passed : ¬timeSecond < lease.expiresAt - system.now) :
      ManagerMove system (.check replica expiry spawned) (system.setReplica replica
        ((system.replicas replica).setExpiry expiry (.expired leaseID 1 system.now)))
  | revoke {replica expiry attempt : Nat} {leaseID notBefore : Int}
      (checked : (system.replicas replica).expiries expiry = .expired leaseID attempt notBefore) :
      ManagerMove system (.revoke replica expiry) (system.setReplica replica
        ((system.replicas replica).setExpiry expiry (.revoking leaseID attempt)))
  | revokeFailed {replica expiry attempt : Nat} {leaseID : Int}
      (revoking : (system.replicas replica).expiries expiry = .revoking leaseID attempt) :
      ManagerMove system (.revoked replica expiry true) (system.setReplica replica
        ((system.replicas replica).setExpiry expiry
          (if attempt < 5 then
            .expired leaseID (attempt + 1) (system.now + attempt * timeSecond)
          else .ended)))
  | revoked {replica expiry attempt : Nat} {leaseID : Int}
      (revoking : (system.replicas replica).expiries expiry = .revoking leaseID attempt) :
      ManagerMove system (.revoked replica expiry false)
        { system.setReplica replica
            ((system.replicas replica).setExpiry expiry (.unmapping leaseID)) with
          kvLease := system.kvLease.filter fun row => decide (row.leaseId ≠ leaseID) }
  | unmap {replica expiry : Nat} {leaseID : Int}
      (unmapping : (system.replicas replica).expiries expiry = .unmapping leaseID) :
      ManagerMove system (.unmap replica expiry) (system.setReplica replica
        (((system.replicas replica).enter leaseID none).setExpiry expiry .ended))

theorem ManagerMove.of_commitGrant {replica pointer : Nat} {applied : Bool}
    (stepped : system.step (.commitGrant replica pointer applied) = some next) :
    ManagerMove system (.commitGrant replica pointer applied) next := by
  simp only [LeaseSystem.step] at stepped
  split at stepped
  case h_2 => cases stepped
  case h_1 lease applying stored =>
    split at stepped
    next inserts =>
      obtain rfl := Option.some.inj stepped
      obtain ⟨rfl, free⟩ := inserts
      exact .granted applying stored free
    next =>
      obtain rfl := Option.some.inj stepped
      exact .notGranted applied applying stored

theorem ManagerMove.of_check {replica expiry spawned : Nat}
    (stepped : system.step (.check replica expiry spawned) = some next) :
    ManagerMove system (.check replica expiry spawned) next := by
  simp only [LeaseSystem.step] at stepped
  split at stepped
  case h_2 => cases stepped
  case h_1 leaseID current looked =>
    split at stepped
    next => cases stepped
    next lease stored =>
      split at stepped
      next =>
        simp only [Option.ite_none_right_eq_some, Option.some.injEq] at stepped
        obtain ⟨free, rfl⟩ := stepped
        exact .extended looked free
      next passed =>
        obtain rfl := Option.some.inj stepped
        exact .expired spawned looked stored passed

theorem LeaseSystem.step_move {action : ManagerAction} (stepped : system.step action = some next) :
    ManagerMove system action next := by
  cases action with
  | tick time =>
      simp only [LeaseSystem.step, Option.ite_none_right_eq_some, Option.some.injEq] at stepped
      obtain ⟨later, rfl⟩ := stepped
      exact .tick later
  | start replica =>
      obtain rfl := Option.some.inj stepped
      exact .start replica
  | stop replica =>
      obtain rfl := Option.some.inj stepped
      exact .stop replica
  | scan replica =>
      simp only [LeaseSystem.step, Option.ite_none_right_eq_some, Option.some.injEq] at stepped
      obtain ⟨running, rfl⟩ := stepped
      exact .scan running
  | loadNext replica pointer expiry =>
      simp only [LeaseSystem.step] at stepped
      split at stepped
      case h_2 => cases stepped
      case h_1 row rest scanned =>
        simp only [Option.ite_none_right_eq_some, Option.some.injEq] at stepped
        obtain ⟨unused, rfl⟩ := stepped
        exact .loadNext scanned unused
  | grant replica requested pointer =>
      simp only [LeaseSystem.step, Option.ite_none_right_eq_some, Option.some.injEq] at stepped
      obtain ⟨⟨running, unused, idle⟩, rfl⟩ := stepped
      exact .grant rfl running unused idle
  | commitGrant replica pointer applied => exact .of_commitGrant stepped
  | finishGrant replica pointer expiry =>
      simp only [LeaseSystem.step] at stepped
      split at stepped
      case h_2 => cases stepped
      case h_1 lease applied stored =>
        simp only [Option.ite_none_right_eq_some, Option.some.injEq] at stepped
        obtain ⟨ended, rfl⟩ := stepped
        exact .finishGrant applied stored ended
  | keepalive replica leaseID =>
      simp only [LeaseSystem.step] at stepped
      split at stepped
      case h_1 unmapped =>
        obtain rfl := Option.some.inj stepped
        exact .unknown unmapped
      case h_2 pointer mapped =>
        obtain ⟨lease, stored, rfl⟩ := Option.map_eq_some_iff.mp stepped
        exact .keepalive mapped stored
  | readDeadline replica expiry =>
      simp only [LeaseSystem.step] at stepped
      split at stepped
      case h_2 => cases stepped
      case h_1 pointer starting =>
        obtain ⟨lease, stored, rfl⟩ := Option.map_eq_some_iff.mp stepped
        exact .readDeadline starting stored
  | lookUp replica expiry =>
      simp only [LeaseSystem.step] at stepped
      split at stepped
      case h_2 => cases stepped
      case h_1 leaseID expiresAt waiting =>
        simp only [Option.ite_none_right_eq_some, Option.some.injEq] at stepped
        obtain ⟨_, rfl⟩ := stepped
        cases mapped : (system.replicas replica).leases leaseID with
        | none => exact .gone waiting mapped
        | some current => exact .found waiting mapped
  | check replica expiry spawned => exact .of_check stepped
  | revoke replica expiry =>
      simp only [LeaseSystem.step] at stepped
      split at stepped
      case h_2 => cases stepped
      case h_1 leaseID attempt notBefore checked =>
        simp only [Option.ite_none_right_eq_some, Option.some.injEq] at stepped
        obtain ⟨_, rfl⟩ := stepped
        exact .revoke checked
  | revoked replica expiry failed =>
      simp only [LeaseSystem.step] at stepped
      split at stepped
      case h_2 => cases stepped
      case h_1 leaseID attempt revoking =>
        cases failed with
        | true =>
            obtain rfl := Option.some.inj stepped
            exact .revokeFailed revoking
        | false =>
            obtain rfl := Option.some.inj stepped
            exact .revoked revoking
  | unmap replica expiry =>
      simp only [LeaseSystem.step] at stepped
      split at stepped
      case h_2 => cases stepped
      case h_1 leaseID unmapping =>
        obtain rfl := Option.some.inj stepped
        exact .unmap unmapping

end

end SpannerEtcd
