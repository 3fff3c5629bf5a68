import SpannerEtcd.Lease.Expiry
import SpannerEtcd.Lease.Replicas
import SpannerEtcd.Lease.TimeToLive

/-!
# The timers of the leases

A lease in the map of a replica expires only if some goroutine sees to it.  A
goroutine may end because it finds the lease gone, or hand the lease over to
another one after a keepalive; it never leaves a lease in the map without a
goroutine that wakes up by the deadline of the lease, unless `Revoke` fails
five times in a row.
-/

namespace SpannerEtcd

/-- The goroutine sees to the lease, and reads its deadline again by the time
that the deadline has passed. -/
def Expiry.Guards (id : Int) (pointer : Nat) (lease : Lease) : Expiry → Prop
  | .ended => False
  | .starting other => other = pointer
  | .waiting leaseID expiresAt => leaseID = id ∧ expiresAt ≤ lease.expiresAt
  | .found leaseID current => leaseID = id ∧ current = pointer
  | .expired leaseID _ _ | .revoking leaseID _ | .unmapping leaseID => leaseID = id

structure LeaseManager.Armed (manager : LeaseManager) : Prop where
  holds : ∀ id pointer, manager.leases id = some pointer → manager.Holds id pointer
  armed : ∀ id pointer lease, manager.leases id = some pointer →
    manager.heap pointer = some lease →
      ∃ expiry, (manager.expiries expiry).Guards id pointer lease

/-- No expiry fails for the fifth time. -/
def NeverGivesUp (system : ReplicaSystem) : ReplicaAction → Prop
  | .manager (.revoked replica expiry true) => ∀ leaseID attempt,
      (system.base.replicas replica).expiries expiry = .revoking leaseID attempt → attempt < 5
  | _ => True

/-! ## One memory -/

section Memory

variable {manager : LeaseManager}

namespace LeaseManager.Armed

theorem fresh (leases : ∀ id, manager.leases id = none) : manager.Armed where
  holds := by simp [leases]
  armed := by simp [leases]

/-- A goroutine goes on with the lease that it saw to, if it saw to one. -/
theorem setExpiry (armed : manager.Armed) {expiry : Nat} {state : Expiry}
    (keeps : ∀ id pointer lease, manager.leases id = some pointer →
      manager.heap pointer = some lease → (manager.expiries expiry).Guards id pointer lease →
        state.Guards id pointer lease) : (manager.setExpiry expiry state).Armed where
  holds := armed.holds
  armed := by
    intro id pointer lease mapped stored
    obtain ⟨guarding, guards⟩ := armed.armed id pointer lease mapped stored
    refine ⟨guarding, ?_⟩
    rcases eq_or_ne guarding expiry with rfl | other
    · simpa [LeaseManager.setExpiry] using keeps id pointer lease mapped stored guards
    · simpa [LeaseManager.setExpiry, Function.update_of_ne other] using guards

/-- A goroutine that has found a lease extended hands it over to a new one. -/
theorem respawn (armed : manager.Armed) {expiry spawned current : Nat} {leaseID : Int}
    (looked : manager.expiries expiry = .found leaseID current)
    (free : manager.expiries spawned = .ended) :
    ((manager.setExpiry expiry .ended).setExpiry spawned (.starting current)).Armed where
  holds := armed.holds
  armed := by
    intro id pointer lease mapped stored
    obtain ⟨guarding, guards⟩ := armed.armed id pointer lease mapped stored
    rcases eq_or_ne guarding expiry with rfl | other
    · rw [looked] at guards
      refine ⟨spawned, ?_⟩
      simpa [LeaseManager.setExpiry, Expiry.Guards] using guards.2
    · have running : guarding ≠ spawned := by
        rintro rfl
        rw [free] at guards
        exact guards
      refine ⟨guarding, ?_⟩
      simpa [LeaseManager.setExpiry, Function.update_of_ne running, Function.update_of_ne other]
        using guards

theorem ne_of_mapped (armed : manager.Armed) {id : Int} {mapped unused : Nat}
    (entry : manager.leases id = some mapped) (free : manager.heap unused = none) :
    mapped ≠ unused := by
  rintro rfl
  obtain ⟨lease, stored, _⟩ := armed.holds id mapped entry
  rw [free] at stored
  cases stored

/-- A new lease is built; it is not in the map yet. -/
theorem alloc (armed : manager.Armed) {pointer : Nat} (free : manager.heap pointer = none)
    (lease : Lease) : (manager.alloc pointer lease).Armed where
  holds := by
    intro id other mapped
    refine (armed.holds id other mapped).alloc ?_
    rw [free]
    rintro old ⟨⟩
  armed := by
    intro id other stored mapped found
    have different := armed.ne_of_mapped mapped free
    simp only [LeaseManager.alloc, Function.update_of_ne different] at found
    exact armed.armed id other stored mapped found

/-- A keepalive moves the deadline on. -/
theorem renew (armed : manager.Armed) {pointer : Nat} {lease : Lease} {later : Int}
    (stored : manager.heap pointer = some lease) (onward : lease.expiresAt ≤ later) :
    (manager.alloc pointer { lease with expiresAt := later }).Armed where
  holds := by
    intro id other mapped
    refine (armed.holds id other mapped).alloc ?_
    rw [stored]
    rintro old ⟨⟩
    rfl
  armed := by
    intro id other renewed mapped found
    rcases eq_or_ne other pointer with rfl | different
    · simp only [LeaseManager.alloc, Function.update_self, Option.some.injEq] at found
      subst found
      obtain ⟨expiry, guards⟩ := armed.armed id other lease mapped stored
      refine ⟨expiry, ?_⟩
      change (manager.expiries expiry).Guards id other _
      cases state : manager.expiries expiry with
      | waiting leaseID expiresAt =>
        rw [state] at guards
        exact ⟨guards.1, guards.2.trans onward⟩
      | ended | starting | found | expired | revoking | unmapping =>
        rw [state] at guards
        exact guards
    · simp only [LeaseManager.alloc, Function.update_of_ne different] at found
      exact armed.armed id other renewed mapped found

/-- A lease enters the map together with its goroutine. -/
theorem enter (armed : manager.Armed) {id : Int} {pointer expiry : Nat}
    (holds : manager.Holds id pointer) (ended : manager.expiries expiry = .ended) :
    ((manager.enter id (some pointer)).setExpiry expiry (.starting pointer)).Armed where
  holds := by
    intro other mapped entry
    rcases eq_or_ne other id with rfl | different
    · simp only [LeaseManager.setExpiry, LeaseManager.enter, Function.update_self,
        Option.some.injEq] at entry
      exact entry ▸ holds
    · simp only [LeaseManager.setExpiry, LeaseManager.enter,
        Function.update_of_ne different] at entry
      exact armed.holds other mapped entry
  armed := by
    intro other mapped lease entry stored
    rcases eq_or_ne other id with rfl | different
    · simp only [LeaseManager.setExpiry, LeaseManager.enter, Function.update_self,
        Option.some.injEq] at entry
      refine ⟨expiry, ?_⟩
      simpa [LeaseManager.setExpiry, Expiry.Guards] using entry
    · simp only [LeaseManager.setExpiry, LeaseManager.enter,
        Function.update_of_ne different] at entry
      obtain ⟨guarding, guards⟩ := armed.armed other mapped lease entry stored
      have running : guarding ≠ expiry := by
        rintro rfl
        rw [ended] at guards
        exact guards
      refine ⟨guarding, ?_⟩
      simpa [LeaseManager.setExpiry, LeaseManager.enter, Function.update_of_ne running] using guards

theorem unmap (armed : manager.Armed) (id : Int) : (manager.enter id none).Armed := by
  have kept : ∀ other pointer, (manager.enter id none).leases other = some pointer →
      manager.leases other = some pointer := by
    intro other pointer entry
    rcases eq_or_ne other id with rfl | different
    · simp [LeaseManager.enter] at entry
    · simpa [LeaseManager.enter, Function.update_of_ne different] using entry
  exact ⟨fun other pointer entry => armed.holds other pointer (kept other pointer entry),
    fun other pointer lease entry => armed.armed other pointer lease (kept other pointer entry)⟩

end LeaseManager.Armed

theorem LeaseManager.Armed.load (armed : manager.Armed) (row : LeaseRow) (rest : List LeaseRow)
    {pointer expiry : Nat} (unused : manager.unused pointer expiry) :
    (manager.load row rest pointer expiry).Armed := by
  unfold LeaseManager.load
  split
  · exact ⟨armed.holds, armed.armed⟩
  · have shorter : { manager with toLoad := rest }.Armed := ⟨armed.holds, armed.armed⟩
    apply (shorter.alloc unused.1 _).enter _ unused.2
    exact ⟨_, Function.update_self .., rfl⟩

end Memory

/-! ## All replicas -/

def LeaseSystem.Armed (system : LeaseSystem) : Prop :=
  ∀ replica, (system.replicas replica).Armed

section System

variable {system next : LeaseSystem}

theorem LeaseSystem.Armed.setReplica (armed : system.Armed) {replica : Nat}
    {manager : LeaseManager} (own : manager.Armed) : (system.setReplica replica manager).Armed := by
  intro other
  rcases eq_or_ne other replica with rfl | different
  · simpa [LeaseSystem.setReplica] using own
  · simpa [LeaseSystem.setReplica, Function.update_of_ne different] using armed other

theorem deadline_le_deadline {start later : Int} (passes : start ≤ later) (ttl : Int) :
    deadline start ttl ≤ deadline later ttl := by
  unfold deadline
  omega

theorem LeaseSystem.Armed.move (armed : system.Armed) (dated : system.Dated fun _ => True)
    {action : ManagerAction} (move : ManagerMove system action next)
    (persists : ∀ replica expiry, action = .revoked replica expiry true → ∀ leaseID attempt,
      (system.replicas replica).expiries expiry = .revoking leaseID attempt → attempt < 5) :
    next.Armed := by
  cases move with
  | tick | unknown => exact armed
  | start replica | stop replica => exact armed.setReplica (.fresh fun _ => rfl)
  | scan running => exact armed.setReplica ⟨(armed _).holds, (armed _).armed⟩
  | loadNext scanned unused => exact armed.setReplica ((armed _).load _ _ unused)
  | grant named running unused idle =>
    have built := (armed _).alloc unused
    exact armed.setReplica ⟨(built _).holds, (built _).armed⟩
  | granted | notGranted => exact armed.setReplica ⟨(armed _).holds, (armed _).armed⟩
  | @finishGrant replica pointer expiry lease applied stored ended =>
    have idle : ((system.replicas replica).setGrant pointer .idle).Armed :=
      ⟨(armed replica).holds, (armed replica).armed⟩
    exact armed.setReplica (idle.enter ⟨lease, stored, rfl⟩ ended)
  | @keepalive replica pointer leaseID lease mapped stored =>
    obtain ⟨base, past, expires⟩ := ((dated.replicas replica).heap pointer lease stored).based
    refine armed.setReplica ((armed replica).renew stored ?_)
    rw [expires]
    exact deadline_le_deadline past lease.ttl
  | @readDeadline replica expiry pointer lease starting stored =>
    refine armed.setReplica ((armed replica).setExpiry ?_)
    intro id mapped held entry storedHere guards
    rw [starting] at guards
    obtain rfl : pointer = mapped := guards
    obtain rfl := Option.some.inj (stored.symm.trans storedHere)
    obtain ⟨same, storedAgain, named⟩ := (armed replica).holds id pointer entry
    obtain rfl := Option.some.inj (stored.symm.trans storedAgain)
    exact ⟨named, le_rfl⟩
  | @gone replica expiry leaseID expiresAt waiting unmapped =>
    refine armed.setReplica ((armed replica).setExpiry ?_)
    intro id mapped held entry storedHere guards
    rw [waiting] at guards
    rw [← guards.1, unmapped] at entry
    cases entry
  | @found replica expiry current leaseID expiresAt waiting mapped =>
    refine armed.setReplica ((armed replica).setExpiry ?_)
    intro id pointer held entry storedHere guards
    rw [waiting] at guards
    rw [← guards.1, mapped] at entry
    exact ⟨guards.1, Option.some.inj entry⟩
  | extended looked free => exact armed.setReplica ((armed _).respawn looked free)
  | expired spawned looked stored passed =>
    refine armed.setReplica ((armed _).setExpiry ?_)
    intro id pointer held entry storedHere guards
    rw [looked] at guards
    exact guards.1
  | revoke checked =>
    refine armed.setReplica ((armed _).setExpiry ?_)
    intro id pointer held entry storedHere guards
    rw [checked] at guards
    exact guards
  | @revokeFailed replica expiry attempt leaseID revoking =>
    refine armed.setReplica ((armed _).setExpiry ?_)
    intro id pointer held entry storedHere guards
    rw [revoking] at guards
    rw [if_pos (persists replica expiry rfl leaseID attempt revoking)]
    exact guards
  | revoked revoking =>
    refine armed.setReplica ((armed _).setExpiry ?_)
    intro id pointer held entry storedHere guards
    rw [revoking] at guards
    exact guards
  | @unmap replica expiry leaseID unmapping =>
    refine armed.setReplica (((armed replica).unmap leaseID).setExpiry ?_)
    intro id pointer held entry storedHere guards
    rw [show ((system.replicas replica).enter leaseID none).expiries expiry = _ from unmapping]
      at guards
    obtain rfl : leaseID = id := guards
    simp [LeaseManager.enter] at entry

/-! ## What a goroutine can do on its own -/

/-- Time passes, or the goroutine takes a step in which no storage error
occurs. -/
def ManagerAction.Sees (replica expiry : Nat) : ManagerAction → Prop
  | .tick _ => True
  | .readDeadline other goroutine | .lookUp other goroutine | .check other goroutine _
  | .revoke other goroutine | .unmap other goroutine => other = replica ∧ goroutine = expiry
  | .revoked other goroutine failed => other = replica ∧ goroutine = expiry ∧ failed = false
  | _ => False

/-- The goroutine can take the lease out of the map while nobody else does
anything. -/
def LeaseSystem.CanExpire (system : LeaseSystem) (replica expiry : Nat) (id : Int) : Prop :=
  ∃ schedule final, (∀ action ∈ schedule, action.Sees replica expiry) ∧
    Runs.run LeaseSystem.step system schedule = some final ∧
      (final.replicas replica).leases id = none

theorem LeaseManager.setExpiry_self (manager : LeaseManager) (expiry : Nat) (state : Expiry) :
    (manager.setExpiry expiry state).expiries expiry = state :=
  Function.update_self ..

namespace LeaseSystem

variable {replica expiry pointer : Nat} {id : Int} {lease : Lease}

theorem setReplica_self (manager : LeaseManager) :
    (system.setReplica replica manager).replicas replica = manager :=
  Function.update_self ..

theorem canExpire_unmapped (unmapped : (system.replicas replica).leases id = none) :
    system.CanExpire replica expiry id :=
  ⟨[], system, by simp, rfl, unmapped⟩

theorem CanExpire.cons {action : ManagerAction} (can : next.CanExpire replica expiry id)
    (stepped : system.step action = some next) (sees : action.Sees replica expiry) :
    system.CanExpire replica expiry id := by
  obtain ⟨schedule, final, all, ran, unmapped⟩ := can
  exact ⟨action :: schedule, final, List.forall_mem_cons.mpr ⟨sees, all⟩,
    Runs.run_cons_eq_some.mpr ⟨next, stepped, ran⟩, unmapped⟩

/-- The goroutine may sleep. -/
theorem CanExpire.wait (time : Int)
    (can : CanExpire { system with now := max system.now time } replica expiry id) :
    system.CanExpire replica expiry id := by
  have stepped : system.step (.tick (max system.now time)) =
      some { system with now := max system.now time } := if_pos (le_max_left _ _)
  exact can.cons stepped trivial

theorem canExpire_unmapping
    (unmapping : (system.replicas replica).expiries expiry = .unmapping id) :
    system.CanExpire replica expiry id := by
  have stepped : system.step (.unmap replica expiry) = some (system.setReplica replica
      (((system.replicas replica).enter id none).setExpiry expiry .ended)) := by
    simp only [step, unmapping]
  refine CanExpire.cons ?_ stepped ⟨rfl, rfl⟩
  apply canExpire_unmapped
  rw [setReplica_self]
  exact Function.update_self ..

theorem canExpire_revoking {attempt : Nat}
    (revoking : (system.replicas replica).expiries expiry = .revoking id attempt) :
    system.CanExpire replica expiry id := by
  have stepped : system.step (.revoked replica expiry false) = some
      { system.setReplica replica
          ((system.replicas replica).setExpiry expiry (.unmapping id)) with
        kvLease := system.kvLease.filter fun row => decide (row.leaseId ≠ id) } := by
    simp only [step, revoking, Bool.false_eq_true, if_false]
  refine CanExpire.cons ?_ stepped ⟨rfl, rfl, rfl⟩
  apply canExpire_unmapping
  rw [setReplica_self, LeaseManager.setExpiry_self]

theorem canExpire_expired {attempt : Nat} {notBefore : Int}
    (checked : (system.replicas replica).expiries expiry = .expired id attempt notBefore) :
    system.CanExpire replica expiry id := by
  apply CanExpire.wait notBefore
  have stepped : step { system with now := max system.now notBefore } (.revoke replica expiry) =
      some (setReplica { system with now := max system.now notBefore } replica
        ((system.replicas replica).setExpiry expiry (.revoking id attempt))) := by
    simp only [step, checked, if_pos (le_max_right system.now notBefore)]
  refine CanExpire.cons ?_ stepped ⟨rfl, rfl⟩
  apply canExpire_revoking
  rw [setReplica_self, LeaseManager.setExpiry_self]

/-- The goroutine checks when the deadline has passed. -/
theorem canExpire_found
    (looked : (system.replicas replica).expiries expiry = .found id pointer)
    (stored : (system.replicas replica).heap pointer = some lease) :
    system.CanExpire replica expiry id := by
  apply CanExpire.wait lease.expiresAt
  have passed : ¬timeSecond < lease.expiresAt - max system.now lease.expiresAt := by
    have := le_max_right system.now lease.expiresAt
    simp only [timeSecond]
    omega
  have stepped : step { system with now := max system.now lease.expiresAt }
      (.check replica expiry 0) =
        some (setReplica { system with now := max system.now lease.expiresAt } replica
          ((system.replicas replica).setExpiry expiry
            (.expired id 1 (max system.now lease.expiresAt)))) := by
    simp only [step, looked, stored, if_neg passed]
  refine CanExpire.cons ?_ stepped ⟨rfl, rfl⟩
  apply canExpire_expired
  rw [setReplica_self, LeaseManager.setExpiry_self]

theorem canExpire_waiting {expiresAt : Int}
    (waiting : (system.replicas replica).expiries expiry = .waiting id expiresAt)
    (mapped : (system.replicas replica).leases id = some pointer)
    (stored : (system.replicas replica).heap pointer = some lease) :
    system.CanExpire replica expiry id := by
  apply CanExpire.wait expiresAt
  have stepped : step { system with now := max system.now expiresAt } (.lookUp replica expiry) =
      some (setReplica { system with now := max system.now expiresAt } replica
        ((system.replicas replica).setExpiry expiry (.found id pointer))) := by
    simp only [step, waiting, mapped, if_pos (le_max_right system.now expiresAt)]
  refine CanExpire.cons ?_ stepped ⟨rfl, rfl⟩
  apply canExpire_found
  · rw [setReplica_self, LeaseManager.setExpiry_self]
  · rw [setReplica_self]
    exact stored

theorem canExpire_starting
    (starting : (system.replicas replica).expiries expiry = .starting pointer)
    (mapped : (system.replicas replica).leases lease.id = some pointer)
    (stored : (system.replicas replica).heap pointer = some lease) :
    system.CanExpire replica expiry lease.id := by
  have stepped : system.step (.readDeadline replica expiry) = some (system.setReplica replica
      ((system.replicas replica).setExpiry expiry (.waiting lease.id lease.expiresAt))) := by
    simp only [step, starting, stored, Option.map_some]
  refine CanExpire.cons ?_ stepped ⟨rfl, rfl⟩
  apply canExpire_waiting
  · rw [setReplica_self, LeaseManager.setExpiry_self]
  · rw [setReplica_self]
    exact mapped
  · rw [setReplica_self]
    exact stored

/-- Whatever a goroutine that sees to a lease is doing, it can go on from there
and expire the lease. -/
theorem canExpire_of_guards (holds : (system.replicas replica).Holds id pointer)
    (mapped : (system.replicas replica).leases id = some pointer)
    (stored : (system.replicas replica).heap pointer = some lease)
    (guards : ((system.replicas replica).expiries expiry).Guards id pointer lease) :
    system.CanExpire replica expiry id := by
  obtain ⟨held, heldThere, rfl⟩ := holds
  obtain rfl := Option.some.inj (heldThere.symm.trans stored)
  cases state : (system.replicas replica).expiries expiry with
  | ended =>
    rw [state] at guards
    exact guards.elim
  | starting other =>
    rw [state] at guards
    obtain rfl : other = pointer := guards
    exact canExpire_starting state mapped stored
  | waiting leaseID expiresAt =>
    rw [state] at guards
    obtain ⟨rfl, _⟩ := guards
    exact canExpire_waiting state mapped stored
  | found leaseID current =>
    rw [state] at guards
    obtain ⟨rfl, rfl⟩ := guards
    exact canExpire_found state stored
  | expired leaseID attempt notBefore =>
    rw [state] at guards
    obtain rfl : leaseID = held.id := guards
    exact canExpire_expired state
  | revoking leaseID attempt =>
    rw [state] at guards
    obtain rfl : leaseID = held.id := guards
    exact canExpire_revoking state
  | unmapping leaseID =>
    rw [state] at guards
    obtain rfl : leaseID = held.id := guards
    exact canExpire_unmapping state

end LeaseSystem

end System

/-! ## Whole runs -/

section Runs

variable {system next : ReplicaSystem}

@[simp]
theorem ReplicaSystem.base_follow (system : ReplicaSystem) (base : LeaseSystem)
    (action : ManagerAction) : (system.follow base action).base = base := by
  cases action <;> rfl

/-- What a step does to the memories and to the table. -/
theorem ReplicaSystem.base_step {action : ReplicaAction} (stepped : system.step action = some next)
    (persists : NeverGivesUp system action)
    (armed : system.base.Armed) (dated : system.base.Dated fun _ => True) :
    next.base.Armed ∧ next.base.Dated fun _ => True := by
  cases action with
  | manager action =>
    obtain ⟨base, moved, rfl⟩ := ReplicaSystem.step_manager stepped
    rw [ReplicaSystem.base_follow]
    constructor
    · apply armed.move dated (LeaseSystem.step_move moved)
      rintro replica expiry rfl
      exact persists
    · exact LeaseSystem.Dated.step _ _ _ (by cases action <;> trivial) moved dated
  | loadFails replica =>
    simp only [ReplicaSystem.step, Option.ite_none_right_eq_some, Option.some.injEq] at stepped
    obtain ⟨_, rfl⟩ := stepped
    exact ⟨armed.setReplica ⟨(armed replica).holds, (armed replica).armed⟩,
      dated.setReplica ⟨(dated.replicas replica).heap, by simp⟩⟩
  | leaseRevoke replica call leaseID =>
    simp only [ReplicaSystem.step, Option.ite_none_right_eq_some, Option.some.injEq] at stepped
    obtain ⟨_, rfl⟩ := stepped
    exact ⟨armed, dated⟩
  | leaseRevoked replica call failed =>
    simp only [ReplicaSystem.step] at stepped
    split at stepped
    case h_2 => cases stepped
    case h_1 leaseID revoking =>
      split_ifs at stepped
      all_goals obtain rfl := Option.some.inj stepped
      · exact ⟨armed, dated⟩
      · exact ⟨armed, dated.withRows fun row membership =>
          dated.rows row (List.mem_of_mem_filter membership)⟩
  | leaseUnmap replica call =>
    simp only [ReplicaSystem.step] at stepped
    split at stepped
    case h_2 => cases stepped
    case h_1 leaseID unmapping =>
      obtain rfl := Option.some.inj stepped
      exact ⟨armed.setReplica ((armed replica).unmap leaseID), dated.same rfl rfl⟩

/-- As long as no expiry fails five times, every lease in the map of a replica
has a goroutine that wakes up by its deadline, and that goroutine alone can
expire the lease. -/
theorem leases_have_timers {now : Int} {actions : List ReplicaAction}
    (persists : Runs.Guarded ReplicaSystem.step NeverGivesUp (.init now) actions)
    (ran : Runs.run ReplicaSystem.step (.init now) actions = some system) (replica : Nat)
    {id : Int} {pointer : Nat} (mapped : (system.base.replicas replica).leases id = some pointer) :
    ∃ lease expiry, (system.base.replicas replica).heap pointer = some lease ∧
      ((system.base.replicas replica).expiries expiry).Guards id pointer lease ∧
      system.base.CanExpire replica expiry id := by
  have initially : (ReplicaSystem.init now).base.Armed ∧
      (ReplicaSystem.init now).base.Dated fun _ => True :=
    ⟨fun _ => .fresh fun _ => rfl, LeaseSystem.Dated.init _ now⟩
  have inv := Runs.run_invariant_of_guarded
    (fun _ _ _ met stepped both => ReplicaSystem.base_step stepped met both.1 both.2)
    persists ran initially
  have armed := inv.1 replica
  have holds := armed.holds id pointer mapped
  have ⟨lease, stored, _⟩ := holds
  obtain ⟨expiry, guards⟩ := armed.armed id pointer lease mapped stored
  exact ⟨lease, expiry, stored, guards,
    LeaseSystem.canExpire_of_guards holds mapped stored guards⟩

end Runs

/-- After a keepalive the first goroutine hands the lease over to a second. -/
def handingOver : List ManagerAction :=
  [.keepalive 0 1, .tick (10 * timeSecond), .lookUp 0 0, .check 0 0 1]

def handOverRun : List ReplicaAction := (grantRun ++ handingOver).map .manager

theorem handOverRun_has_timer :
    ∃ system, Runs.run ReplicaSystem.step (.init 0) handOverRun = some system ∧
      (system.base.replicas 0).expiries 0 = .ended ∧
      ∃ lease expiry, (system.base.replicas 0).heap 0 = some lease ∧
        ((system.base.replicas 0).expiries expiry).Guards 1 0 lease ∧
        system.base.CanExpire 0 expiry 1 := by
  have persists : Runs.Guarded ReplicaSystem.step NeverGivesUp (.init 0) handOverRun := by
    apply Runs.Guarded.of_forall
    simp [handOverRun, grantRun, handingOver, NeverGivesUp]
  have run : ∃ system, Runs.run ReplicaSystem.step (.init 0) handOverRun = some system ∧
      (system.base.replicas 0).expiries 0 = .ended ∧
      (system.base.replicas 0).leases 1 = some 0 := ⟨_, rfl, rfl, rfl⟩
  obtain ⟨system, ran, ended, mapped⟩ := run
  exact ⟨system, ran, ended, leases_have_timers persists ran 0 mapped⟩

end SpannerEtcd
