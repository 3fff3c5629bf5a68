import SpannerEtcd.Lib.Rounding
import SpannerEtcd.Lease.Expiry
import SpannerEtcd.Lease.Replicas

/-!
# Deadlines and the time to live

`Grant`, `Keepalive` and `loadLeases` each add a number of seconds to a base
time, and each computes the nanoseconds as an `int64`.  The product wraps for
a TTL of more than some 292 years, and the deadline then has nothing to do
with the TTL that the lease was granted with.
-/

namespace SpannerEtcd

open Runs

/-! ## The time to live -/

/-- `time.Until`, which saturates. -/
def timeUntil (time now : Int) : Int :=
  max (-(2 ^ 63)) (min (2 ^ 63 - 1) (time - now))

structure LeaseSnapshot where
  id : Int
  ttl : Int
  remaining : Int
  deriving DecidableEq, Repr

/-- `Seconds` is computed in doubles. -/
def LeaseManager.getTTL (manager : LeaseManager) (float64 : Rounding) (id now : Int) :
    Option LeaseSnapshot :=
  (manager.get id).map fun lease =>
    let remaining := Rounding.truncate
      (float64.quotient (timeUntil lease.expiresAt now) timeSecond)
    { id := lease.id, ttl := lease.ttl, remaining := if remaining < 0 then 0 else remaining }

theorem LeaseManager.isSome_getTTL (manager : LeaseManager) (float64 : Rounding) (id now : Int) :
    (manager.getTTL float64 id now).isSome = manager.getTTLFinds id := by
  rw [getTTL, getTTLFinds, Option.isSome_map]

/-! ## Where a deadline is set -/

/-- The lease whose deadline an action sets, by its address, and the time from
which the TTL is counted. -/
def LeaseSystem.deadlineBase (system : LeaseSystem) : ManagerAction → Option (Nat × Nat × Int)
  | .grant replica _ pointer => some (replica, pointer, system.now)
  | .keepalive replica leaseID =>
      ((system.replicas replica).leases leaseID).map fun pointer => (replica, pointer, system.now)
  | .loadNext replica pointer _ =>
      match (system.replicas replica).toLoad with
      | [] => none
      | row :: _ =>
          match (system.replicas replica).leases row.leaseId with
          | some _ => none
          | none => some (replica, pointer, row.grantedAt)
  | _ => none

/-- The deadline that the action sets, if any, is the TTL of the lease after
its base. -/
def SetsDeadlineExactly (system : LeaseSystem) (action : ManagerAction) : Prop :=
  ∀ next replica pointer base, system.step action = some next →
    system.deadlineBase action = some (replica, pointer, base) →
    ∃ lease, (next.replicas replica).heap pointer = some lease ∧
      lease.expiresAt = base + lease.ttl * timeSecond ∧ base ≤ lease.expiresAt

/-- A TTL whose nanoseconds are an `int64`. -/
def FitsDuration (ttl : Int) : Prop := 1 ≤ ttl ∧ ttl * timeSecond < 2 ^ 63

/-- A grant asks for a TTL that the server can count. -/
def GrantFits (_ : LeaseSystem) : ManagerAction → Prop
  | .grant _ requested _ => grantTTL requested * timeSecond < 2 ^ 63
  | _ => True

theorem deadline_eq_iff {ttl : Int} (positive : 1 ≤ ttl) (base : Int) :
    deadline base ttl = base + ttl * timeSecond ↔ ttl * timeSecond < 2 ^ 63 := by
  have scaled : 0 ≤ ttl * timeSecond := by
    have : (0 : Int) ≤ timeSecond := by decide
    positivity
  rw [deadline, add_right_inj]
  constructor
  · intro same
    rw [← same]
    have below : wrapInt64 (ttl * timeSecond) < _ := Int.bmod_lt (by decide)
    simpa using below
  · intro short
    exact wrapInt64_of_isInt64 ⟨by omega, short⟩

/-! ## What every memory holds -/

section Dated

variable {accepted : Int → Prop} {now later : Int}

/-- A lease whose TTL was accepted and is counted from a time that has passed. -/
structure Lease.Dated (accepted : Int → Prop) (now : Int) (lease : Lease) : Prop where
  accepted : accepted lease.ttl
  based : ∃ base ≤ now, lease.expiresAt = deadline base lease.ttl

structure LeaseRow.Dated (accepted : Int → Prop) (now : Int) (row : LeaseRow) : Prop where
  accepted : accepted row.ttlSec
  past : row.grantedAt ≤ now

structure LeaseManager.Dated (accepted : Int → Prop) (now : Int) (manager : LeaseManager) :
    Prop where
  heap : ∀ pointer lease, manager.heap pointer = some lease → lease.Dated accepted now
  toLoad : ∀ row ∈ manager.toLoad, row.Dated accepted now

structure LeaseSystem.Dated (accepted : Int → Prop) (system : LeaseSystem) : Prop where
  rows : ∀ row ∈ system.kvLease, row.Dated accepted system.now
  replicas : ∀ replica, (system.replicas replica).Dated accepted system.now

theorem Lease.Dated.since (id : Int) {ttl grantedAt : Int} (allowed : accepted ttl)
    (past : grantedAt ≤ now) : (Lease.since id ttl grantedAt).Dated accepted now :=
  ⟨allowed, grantedAt, past, rfl⟩

theorem Lease.Dated.renew {lease : Lease} (dated : lease.Dated accepted now) :
    Lease.Dated accepted now { lease with expiresAt := deadline now lease.ttl } :=
  ⟨dated.accepted, now, le_rfl, rfl⟩

theorem LeaseRow.Dated.mono {row : LeaseRow} (dated : row.Dated accepted now)
    (passes : now ≤ later) : row.Dated accepted later :=
  ⟨dated.accepted, dated.past.trans passes⟩

theorem LeaseManager.Dated.mono {manager : LeaseManager} (dated : manager.Dated accepted now)
    (passes : now ≤ later) : manager.Dated accepted later where
  heap := by
    intro pointer lease stored
    obtain ⟨allowed, base, past, expires⟩ := dated.heap pointer lease stored
    exact ⟨allowed, base, past.trans passes, expires⟩
  toLoad row membership := (dated.toLoad row membership).mono passes

theorem LeaseManager.Dated.fresh {manager : LeaseManager}
    (heap : ∀ pointer, manager.heap pointer = none) (idle : manager.toLoad = []) :
    manager.Dated accepted now where
  heap pointer lease stored := by
    rw [heap pointer] at stored
    cases stored
  toLoad := by simp [idle]

theorem LeaseManager.Dated.alloc {manager : LeaseManager} (dated : manager.Dated accepted now)
    (pointer : Nat) {lease : Lease} (fresh : lease.Dated accepted now) :
    (manager.alloc pointer lease).Dated accepted now where
  heap := by
    intro other stored found
    simp only [LeaseManager.alloc, Function.update_apply] at found
    split at found
    next =>
      obtain rfl := Option.some.inj found
      exact fresh
    next => exact dated.heap other stored found
  toLoad := dated.toLoad

theorem LeaseManager.Dated.load {manager : LeaseManager} (dated : manager.Dated accepted now)
    {row : LeaseRow} {rest : List LeaseRow} (scanned : manager.toLoad = row :: rest)
    (pointer expiry : Nat) : (manager.load row rest pointer expiry).Dated accepted now := by
  have loading := dated.toLoad
  rw [scanned, List.forall_mem_cons] at loading
  unfold LeaseManager.load
  split
  next => exact ⟨dated.heap, loading.2⟩
  next =>
    have loaded := dated.alloc pointer (.since row.leaseId loading.1.accepted loading.1.past)
    exact ⟨loaded.heap, loading.2⟩

variable {system next : LeaseSystem}

theorem LeaseSystem.Dated.init (accepted : Int → Prop) (now : Int) :
    (LeaseSystem.init now).Dated accepted where
  rows := by simp [LeaseSystem.init]
  replicas _ := .fresh (fun _ => rfl) rfl

theorem LeaseSystem.Dated.setReplica (dated : system.Dated accepted) {replica : Nat}
    {manager : LeaseManager} (own : manager.Dated accepted system.now) :
    (system.setReplica replica manager).Dated accepted where
  rows := dated.rows
  replicas := by
    intro other
    simp only [LeaseSystem.setReplica, Function.update_apply]
    split
    · exact own
    · exact dated.replicas other

theorem LeaseSystem.Dated.renew (dated : system.Dated accepted) (leaseID ttl : Int) :
    (system.renew leaseID ttl).Dated accepted :=
  ⟨dated.rows, dated.replicas⟩

theorem LeaseSystem.Dated.withRows (dated : system.Dated accepted) {rows : List LeaseRow}
    (datedRows : ∀ row ∈ rows, row.Dated accepted system.now) :
    LeaseSystem.Dated accepted { system with kvLease := rows } :=
  ⟨datedRows, dated.replicas⟩

/-- A step that touches neither the leases of a replica nor its scan. -/
theorem LeaseSystem.Dated.same (dated : system.Dated accepted) {replica : Nat}
    {manager : LeaseManager} (heap : manager.heap = (system.replicas replica).heap)
    (toLoad : manager.toLoad = (system.replicas replica).toLoad) :
    (system.setReplica replica manager).Dated accepted := by
  apply dated.setReplica
  have own := dated.replicas replica
  exact ⟨heap ▸ own.heap, toLoad ▸ own.toLoad⟩

/-- The grants of a run are accepted. -/
def GrantAccepted (accepted : Int → Prop) (_ : LeaseSystem) : ManagerAction → Prop
  | .grant _ requested _ => accepted (grantTTL requested)
  | _ => True

theorem LeaseSystem.Dated.step (system : LeaseSystem) (action : ManagerAction)
    (next : LeaseSystem) (granted : GrantAccepted accepted system action)
    (stepped : system.step action = some next) (dated : system.Dated accepted) :
    next.Dated accepted := by
  cases LeaseSystem.step_move stepped with
  | tick passes =>
      exact ⟨fun row membership => (dated.rows row membership).mono passes,
        fun replica => (dated.replicas replica).mono passes⟩
  | start replica => exact dated.setReplica (.fresh (fun _ => rfl) rfl)
  | stop replica => exact dated.setReplica (.fresh (fun _ => rfl) rfl)
  | scan running => exact dated.setReplica ⟨(dated.replicas _).heap, dated.rows⟩
  | loadNext scanned unused => exact dated.setReplica ((dated.replicas _).load scanned _ _)
  | @grant replica pointer requested id named running unused idle =>
      have own := (dated.replicas replica).alloc pointer (.since id granted le_rfl)
      apply LeaseSystem.Dated.renew
      apply dated.setReplica
      exact ⟨own.heap, own.toLoad⟩
  | granted applying stored free =>
      apply LeaseSystem.Dated.withRows
      · exact dated.same rfl rfl
      · rw [List.forall_mem_append, List.forall_mem_singleton]
        exact ⟨dated.rows, ((dated.replicas _).heap _ _ stored).accepted, le_rfl⟩
  | unknown unmapped => exact dated
  | keepalive mapped stored =>
      have renewed := ((dated.replicas _).heap _ _ stored).renew
      exact (dated.setReplica ((dated.replicas _).alloc _ renewed)).renew _ _
  | revoked revoking =>
      apply LeaseSystem.Dated.withRows
      · exact dated.same rfl rfl
      · exact fun row membership => dated.rows row (List.mem_of_mem_filter membership)
  | notGranted | finishGrant | readDeadline | gone | found | extended | expired | revoke
  | revokeFailed | unmap => exact dated.same rfl rfl

end Dated

/-! ## Exact deadlines -/

section Exact

variable {system next : LeaseSystem}

theorem FitsDuration.sets {ttl : Int} (fits : FitsDuration ttl) (base : Int) :
    deadline base ttl = base + ttl * timeSecond ∧ base ≤ deadline base ttl := by
  have exact := (deadline_eq_iff fits.1 base).mpr fits.2
  have scaled : 0 ≤ ttl * timeSecond := mul_nonneg (by linarith [fits.1]) (by decide)
  exact ⟨exact, by omega⟩

theorem setsDeadlineExactly_iff {action : ManagerAction} {replica pointer : Nat} {base : Int}
    {lease : Lease} (stepped : system.step action = some next)
    (based : system.deadlineBase action = some (replica, pointer, base))
    (stored : (next.replicas replica).heap pointer = some lease) :
    SetsDeadlineExactly system action ↔
      lease.expiresAt = base + lease.ttl * timeSecond ∧ base ≤ lease.expiresAt := by
  constructor
  · intro exact
    obtain ⟨set, same, onTime⟩ := exact next replica pointer base stepped based
    rw [stored, Option.some.injEq] at same
    exact same ▸ onTime
  · intro onTime other otherReplica otherPointer otherBase again basedAgain
    rw [stepped, Option.some.injEq] at again
    rw [based, Option.some.injEq, Prod.mk.injEq, Prod.mk.injEq] at basedAgain
    obtain ⟨rfl, rfl, rfl⟩ := basedAgain
    exact ⟨lease, again ▸ stored, onTime⟩

theorem setsDeadlineExactly_of_none {action : ManagerAction}
    (none : system.deadlineBase action = none) : SetsDeadlineExactly system action := by
  intro next replica pointer base stepped based
  rw [none] at based
  cases based

theorem LeaseManager.heap_load_of_unmapped {manager : LeaseManager} {row : LeaseRow}
    (unmapped : manager.leases row.leaseId = none) (rest : List LeaseRow)
    (pointer expiry : Nat) :
    (manager.load row rest pointer expiry).heap =
      Function.update manager.heap pointer
        (some (.since row.leaseId row.ttlSec row.grantedAt)) := by
  simp only [LeaseManager.load, unmapped]
  rfl

theorem loadNext_setsDeadlineExactly {replica pointer expiry : Nat} {row : LeaseRow}
    {rest : List LeaseRow} (fits : FitsDuration row.ttlSec)
    (scanned : (system.replicas replica).toLoad = row :: rest)
    (stepped : system.step (.loadNext replica pointer expiry) =
      some (system.setReplica replica ((system.replicas replica).load row rest pointer expiry))) :
    SetsDeadlineExactly system (.loadNext replica pointer expiry) := by
  cases mapped : (system.replicas replica).leases row.leaseId with
  | some current =>
      apply setsDeadlineExactly_of_none
      simp only [LeaseSystem.deadlineBase, scanned, mapped]
  | none =>
      have based : system.deadlineBase (.loadNext replica pointer expiry) =
          some (replica, pointer, row.grantedAt) := by
        simp only [LeaseSystem.deadlineBase, scanned, mapped]
      have stored : ((system.setReplica replica ((system.replicas replica).load row rest pointer
          expiry)).replicas replica).heap pointer =
            some (.since row.leaseId row.ttlSec row.grantedAt) := by
        simp [LeaseSystem.setReplica, LeaseManager.heap_load_of_unmapped mapped]
      rw [setsDeadlineExactly_iff stepped based stored]
      exact fits.sets row.grantedAt

/-- With leases and rows that fit, only a grant can set a wrong deadline. -/
theorem grantFits_iff_setsDeadlineExactly (system : LeaseSystem) (action : ManagerAction)
    (next : LeaseSystem) (dated : system.Dated FitsDuration)
    (stepped : system.step action = some next) :
    GrantFits system action ↔ SetsDeadlineExactly system action := by
  cases LeaseSystem.step_move stepped with
  | @grant replica pointer requested id named running unused idle =>
      have stored : ((((system.setReplica replica
          (({ system.replicas replica with nextID := id }.alloc pointer
            (.since id (grantTTL requested) system.now)).setGrant pointer .applying)).renew id
              (grantTTL requested)).replicas replica).heap pointer) =
          some (.since id (grantTTL requested) system.now) := by
        simp [LeaseSystem.renew, LeaseSystem.setReplica, LeaseManager.setGrant,
          LeaseManager.alloc]
      rw [setsDeadlineExactly_iff stepped rfl stored]
      constructor
      · intro short
        exact FitsDuration.sets ⟨one_le_grantTTL requested, short⟩ system.now
      · intro onTime
        exact (deadline_eq_iff (one_le_grantTTL requested) system.now).mp onTime.1
  | @keepalive replica pointer leaseID lease mapped stored =>
      apply iff_of_true trivial
      have based : system.deadlineBase (.keepalive replica leaseID) =
          some (replica, pointer, system.now) := by
        simp only [LeaseSystem.deadlineBase, mapped, Option.map_some]
      have renewed : (((system.setReplica replica ((system.replicas replica).alloc pointer
          { lease with expiresAt := deadline system.now lease.ttl })).renew leaseID
            lease.ttl).replicas replica).heap pointer =
          some { lease with expiresAt := deadline system.now lease.ttl } := by
        simp [LeaseSystem.renew, LeaseSystem.setReplica, LeaseManager.alloc]
      rw [setsDeadlineExactly_iff stepped based renewed]
      exact ((dated.replicas replica).heap pointer lease stored).accepted.sets system.now
  | loadNext scanned unused =>
      have fits := (dated.replicas _).toLoad _ (scanned ▸ List.mem_cons_self)
      exact iff_of_true trivial (loadNext_setsDeadlineExactly fits.accepted scanned stepped)
  | unknown unmapped =>
      apply iff_of_true trivial
      apply setsDeadlineExactly_of_none
      simp only [LeaseSystem.deadlineBase, unmapped, Option.map_none]
  | tick | start | stop | scan | granted | notGranted | finishGrant | readDeadline | gone | found
  | extended | expired | revoke | revokeFailed | revoked | unmap =>
      exact iff_of_true trivial (setsDeadlineExactly_of_none rfl)

theorem heap_setReplica {replica other pointer : Nat} {manager : LeaseManager} {lease : Lease}
    (stored : ((system.setReplica other manager).replicas replica).heap pointer = some lease) :
    (replica = other ∧ manager.heap pointer = some lease) ∨
      (system.replicas replica).heap pointer = some lease := by
  simp only [LeaseSystem.setReplica, Function.update_apply] at stored
  split at stored
  next same => exact .inl ⟨same, stored⟩
  next => exact .inr stored

theorem heap_of_same {replica other pointer : Nat} {manager : LeaseManager} {lease : Lease}
    (stored : ((system.setReplica other manager).replicas replica).heap pointer = some lease)
    (same : manager.heap = (system.replicas other).heap) :
    (system.replicas replica).heap pointer = some lease := by
  rcases heap_setReplica stored with ⟨rfl, own⟩ | kept
  · rwa [same] at own
  · exact kept

theorem heap_of_alloc {replica other pointer target : Nat} {lease new : Lease}
    {manager : LeaseManager}
    (same : manager.heap = Function.update (system.replicas other).heap target (some new))
    (stored : ((system.setReplica other manager).replicas replica).heap pointer = some lease) :
    (system.replicas replica).heap pointer = some lease ∨ (other = replica ∧ target = pointer) := by
  rcases heap_setReplica stored with ⟨rfl, own⟩ | kept
  · rw [same, Function.update_apply] at own
    split at own
    next here => exact .inr ⟨rfl, here.symm⟩
    next => exact .inl own
  · exact .inl kept

/-- A lease is as it was unless the action sets its deadline. -/
theorem heap_of_step {action : ManagerAction} (stepped : system.step action = some next)
    {replica pointer : Nat} {lease : Lease}
    (stored : (next.replicas replica).heap pointer = some lease) :
    (system.replicas replica).heap pointer = some lease ∨
      ∃ base, system.deadlineBase action = some (replica, pointer, base) := by
  cases LeaseSystem.step_move stepped with
  | tick | unknown => exact .inl stored
  | start | stop =>
      rcases heap_setReplica stored with ⟨rfl, fresh⟩ | kept
      · cases fresh
      · exact .inl kept
  | grant named running unused idle =>
      rcases heap_of_alloc rfl stored with kept | ⟨rfl, rfl⟩
      · exact .inl kept
      · exact .inr ⟨system.now, rfl⟩
  | keepalive mapped held =>
      rcases heap_of_alloc rfl stored with kept | ⟨rfl, rfl⟩
      · exact .inl kept
      · right
        exact ⟨system.now, by simp only [LeaseSystem.deadlineBase, mapped, Option.map_some]⟩
  | @loadNext other target expiry row rest scanned unused =>
      cases mapped : (system.replicas other).leases row.leaseId with
      | some current =>
          have same : ((system.replicas other).load row rest target expiry).heap =
              (system.replicas other).heap := by simp only [LeaseManager.load, mapped]
          exact .inl (heap_of_same stored same)
      | none =>
          have loaded := LeaseManager.heap_load_of_unmapped mapped rest target expiry
          rcases heap_of_alloc loaded stored with kept | ⟨rfl, rfl⟩
          · exact .inl kept
          · right
            exact ⟨row.grantedAt, by simp only [LeaseSystem.deadlineBase, scanned, mapped]⟩
  | scan | granted | notGranted | finishGrant | readDeadline | gone | found | extended | expired
  | revoke | revokeFailed | revoked | unmap => exact .inl (heap_of_same stored rfl)

end Exact

/-! ## The remaining time -/

theorem timeUntil_le {lease : Lease} {now : Int} (dated : lease.Dated (1 ≤ ·) now) :
    timeUntil lease.expiresAt now ≤ min lease.ttl 9223372037 * timeSecond := by
  obtain ⟨positive, base, past, expires⟩ := dated
  have saturated : timeUntil lease.expiresAt now < 2 ^ 63 := by
    unfold timeUntil
    omega
  rcases le_or_gt lease.ttl 9223372036 with short | long
  · have exact := (deadline_eq_iff positive base).mpr (by unfold timeSecond; omega)
    rw [min_eq_left (by omega)]
    unfold timeUntil
    unfold timeSecond at exact ⊢
    omega
  · rw [min_eq_right (by omega)]
    unfold timeSecond
    omega

theorem abs_tdiv_timeUntil_le (time now : Int) :
    |(timeUntil time now).tdiv timeSecond| ≤ 2 ^ 53 := by
  have lower : -(2 ^ 63) ≤ timeUntil time now := le_max_left _ _
  have upper : timeUntil time now < 2 ^ 63 := by
    unfold timeUntil
    omega
  have positive : 0 < timeSecond := by decide
  have above := Int.tmod_lt_of_pos (timeUntil time now) positive
  have below := Int.lt_tmod_of_pos (timeUntil time now) positive
  have parts := Int.mul_tdiv_add_tmod (timeUntil time now) timeSecond
  unfold timeSecond at *
  rw [abs_le]
  constructor <;> omega

theorem getTTL_bounds {system : LeaseSystem} (dated : system.Dated (1 ≤ ·)) (float64 : Rounding)
    {replica : Nat} {id : Int} {snapshot : LeaseSnapshot}
    (found : (system.replicas replica).getTTL float64 id system.now = some snapshot) :
    0 ≤ snapshot.remaining ∧ snapshot.remaining ≤ snapshot.ttl := by
  obtain ⟨lease, held, rfl⟩ := Option.map_eq_some_iff.mp found
  obtain ⟨pointer, mapped, stored⟩ := Option.bind_eq_some_iff.mp held
  have datedLease := (dated.replicas replica).heap pointer lease stored
  have positive : 1 ≤ lease.ttl := datedLease.accepted
  have bounded : Rounding.truncate
      (float64.quotient (timeUntil lease.expiresAt system.now) timeSecond) ≤
        min lease.ttl 9223372037 := by
    apply Rounding.truncate_le (by omega)
    apply Rounding.quotient_le (by decide) (by decide) (by omega) (by omega)
    · exact abs_tdiv_timeUntil_le lease.expiresAt system.now
    · exact timeUntil_le datedLease
  have capped := bounded.trans (min_le_left _ _)
  dsimp only
  split <;> omega

/-- In a run, every deadline is set its TTL after its base exactly if every
granted TTL fits a duration; the remaining time is between zero and the TTL
in any case, whatever doubles do. -/
theorem deadlines_exact_iff {now : Int} {actions : List ManagerAction} {system : LeaseSystem}
    (ran : run LeaseSystem.step (.init now) actions = some system) :
    (Guarded LeaseSystem.step GrantFits (.init now) actions ↔
      Guarded LeaseSystem.step SetsDeadlineExactly (.init now) actions) ∧
    ∀ float64 replica id snapshot,
      (system.replicas replica).getTTL float64 id system.now = some snapshot →
      0 ≤ snapshot.remaining ∧ snapshot.remaining ≤ snapshot.ttl := by
  constructor
  · apply guarded_iff_guarded ?_ grantFits_iff_setsDeadlineExactly ran
    · exact LeaseSystem.Dated.init FitsDuration now
    · intro before action next fits stepped dated
      apply dated.step before action next ?_ stepped
      cases action with
      | grant replica requested pointer => exact ⟨one_le_grantTTL requested, fits⟩
      | _ => trivial
  · intro float64 replica id snapshot found
    have dated : system.Dated (1 ≤ ·) := by
      refine run_invariant_of_guarded LeaseSystem.Dated.step ?_ ran (.init _ now)
      apply Guarded.of_forall
      intro action membership before
      cases action with
      | grant replica requested pointer => exact one_le_grantTTL requested
      | _ => trivial
    exact getTTL_bounds dated float64 found

/-- A grant of a minute, kept alive. -/
def minuteRun : List ManagerAction :=
  [.start 0, .grant 0 60 0, .commitGrant 0 0 true, .finishGrant 0 0 0, .tick 5, .keepalive 0 1]

theorem minuteRun_deadlines_exact :
    (run LeaseSystem.step (.init 0) minuteRun).isSome = true ∧
      Guarded LeaseSystem.step SetsDeadlineExactly (.init 0) minuteRun := by
  obtain ⟨system, ran⟩ : ∃ system, run LeaseSystem.step (.init 0) minuteRun = some system :=
    ⟨_, rfl⟩
  refine ⟨Option.isSome_of_eq_some ran, (deadlines_exact_iff ran).1.mp ?_⟩
  have short : grantTTL 60 * timeSecond < 2 ^ 63 := by decide
  exact ⟨trivial, short, trivial, trivial, trivial, trivial, trivial⟩

/-- A TTL one second too long for a duration is expired when it is granted. -/
theorem long_lease_expires_at_once :
    ∃ system lease,
      run LeaseSystem.step (.init 0) [.start 0, .grant 0 9223372037 0] = some system ∧
        (system.replicas 0).heap 0 = some lease ∧ lease.ttl = 9223372037 ∧
        lease.expiresAt < lease.grantedAt :=
  ⟨_, _, rfl, rfl, rfl, by decide⟩

end SpannerEtcd
