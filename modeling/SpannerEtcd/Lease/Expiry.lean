import SpannerEtcd.Lease.Manager

/-!
# Leases that are kept alive

An expiry revokes a lease on the word of its own replica.  It spares a lease
that was renewed in time as long as the replica that acknowledges a keepalive
is the only one that holds the lease, and no expiry is between its check and
its `Revoke`.
-/

namespace SpannerEtcd

/-- Some replica is about to run `Revoke` for the lease because it expired. -/
def LeaseSystem.Expires (system : LeaseSystem) (leaseID : Int) : Prop :=
  ∃ replica expiry attempt notBefore next,
    (system.replicas replica).expiries expiry = .expired leaseID attempt notBefore ∧
      system.step (.revoke replica expiry) = some next

/-- No lease expires that was granted or kept alive less than its TTL ago, up
to one second. -/
def LeaseSystem.SparesRenewed (system : LeaseSystem) : Prop :=
  ∀ leaseID, system.Expires leaseID → ∀ renewal ∈ system.renewals,
    renewal.leaseID = leaseID →
      renewal.time ≤ system.now - renewal.ttl * timeSecond + timeSecond

/-- Only this replica has the lease in memory, once, and no expiry of it is
past its check. -/
def LeaseSystem.SoleHolder (system : LeaseSystem) (replica : Nat) (leaseID : Int) : Prop :=
  (∀ other pointer lease, (system.replicas other).heap pointer = some lease →
    lease.id = leaseID →
      other = replica ∧ (system.replicas replica).leases leaseID = some pointer) ∧
  ∀ other expiry, ((system.replicas other).expiries expiry).pastCheck ≠ some leaseID

/-- What the clients and the operators of the replicas have to see to. -/
def RenewsAlone (system : LeaseSystem) : ManagerAction → Prop
  | .grant replica requested _ =>
      grantTTL requested * timeSecond < 2 ^ 63 ∧ ∀ renewal ∈ system.renewals,
        renewal.leaseID ≠ wrapInt64 ((system.replicas replica).nextID + 1)
  | .keepalive replica leaseID => system.SoleHolder replica leaseID
  | .loadNext replica _ _ =>
      ∀ row ∈ (system.replicas replica).toLoad.head?, ∀ renewal ∈ system.renewals,
        renewal.leaseID = row.leaseId → renewal.time ≤ row.grantedAt
  | _ => True

/-! ## What the memories know of the renewals -/

section Renewals

variable {renewals : List Renewal} {id other ttl otherTTL now : Int}

/-- The lease was granted, with this TTL. -/
structure Accounted (renewals : List Renewal) (id ttl : Int) : Prop where
  exact : IsInt64 (ttl * timeSecond)
  known : ∃ renewal ∈ renewals, renewal.leaseID = id
  agrees : ∀ renewal ∈ renewals, renewal.leaseID = id → renewal.ttl = ttl

theorem Accounted.unique (accounted : Accounted renewals id ttl)
    (again : Accounted renewals id otherTTL) : ttl = otherTTL := by
  obtain ⟨renewal, membership, same⟩ := accounted.known
  rw [← accounted.agrees renewal membership same, again.agrees renewal membership same]

theorem Accounted.deadline_eq (accounted : Accounted renewals id ttl) (start : Int) :
    deadline start ttl = start + ttl * timeSecond := by
  rw [deadline, wrapInt64_of_isInt64 accounted.exact]

/-- A renewal with the TTL of the grant, of this lease or of another one. -/
theorem Accounted.renew (accounted : Accounted renewals other otherTTL)
    (agrees : other = id → otherTTL = ttl) :
    Accounted (renewals ++ [⟨id, ttl, now⟩]) other otherTTL where
  exact := accounted.exact
  known := by
    obtain ⟨renewal, membership, same⟩ := accounted.known
    exact ⟨renewal, List.mem_append_left _ membership, same⟩
  agrees := by
    intro renewal membership same
    rcases List.mem_append.mp membership with old | new
    · exact accounted.agrees renewal old same
    · obtain rfl := List.mem_singleton.mp new
      exact (agrees same.symm).symm

/-- The deadline in memory is late enough for every renewal. -/
structure Lease.Honours (renewals : List Renewal) (lease : Lease) : Prop where
  accounted : Accounted renewals lease.id lease.ttl
  late : ∀ renewal ∈ renewals, renewal.leaseID = lease.id →
    renewal.time + lease.ttl * timeSecond ≤ lease.expiresAt

theorem Lease.Honours.renew_other {lease : Lease} (honours : lease.Honours renewals)
    (different : lease.id ≠ id) : lease.Honours (renewals ++ [⟨id, ttl, now⟩]) where
  accounted := honours.accounted.renew fun same => absurd same different
  late := by
    intro renewal membership same
    rcases List.mem_append.mp membership with old | new
    · exact honours.late renewal old same
    · obtain rfl := List.mem_singleton.mp new
      exact absurd same.symm different

/-- A lease whose deadline starts at or after every renewal. -/
theorem Accounted.honours {lease : Lease} {start : Int}
    (accounted : Accounted renewals lease.id lease.ttl)
    (expires : lease.expiresAt = deadline start lease.ttl)
    (after : ∀ renewal ∈ renewals, renewal.leaseID = lease.id → renewal.time ≤ start) :
    lease.Honours renewals where
  accounted := accounted
  late := by
    intro renewal membership same
    rw [expires, accounted.deadline_eq]
    have := after renewal membership same
    omega

/-- The lease was granted, and every renewal of it is over, up to a second. -/
structure Overdue (renewals : List Renewal) (now id : Int) : Prop where
  known : ∃ renewal ∈ renewals, renewal.leaseID = id
  lapsed : ∀ renewal ∈ renewals, renewal.leaseID = id →
    renewal.time + renewal.ttl * timeSecond ≤ now + timeSecond

theorem Overdue.mono {later : Int} (overdue : Overdue renewals now id) (passes : now ≤ later) :
    Overdue renewals later id where
  known := overdue.known
  lapsed := by
    intro renewal membership same
    have := overdue.lapsed renewal membership same
    omega

theorem Overdue.renew_other {time : Int} (overdue : Overdue renewals now other)
    (different : other ≠ id) : Overdue (renewals ++ [⟨id, ttl, time⟩]) now other where
  known := by
    obtain ⟨renewal, membership, same⟩ := overdue.known
    exact ⟨renewal, List.mem_append_left _ membership, same⟩
  lapsed := by
    intro renewal membership same
    rcases List.mem_append.mp membership with old | new
    · exact overdue.lapsed renewal old same
    · obtain rfl := List.mem_singleton.mp new
      exact absurd same.symm different

theorem Lease.Honours.overdue {lease : Lease} (honours : lease.Honours renewals)
    (passed : ¬timeSecond < lease.expiresAt - now) : Overdue renewals now lease.id where
  known := honours.accounted.known
  lapsed := by
    intro renewal membership same
    have late := honours.late renewal membership same
    rw [honours.accounted.agrees renewal membership same]
    omega

end Renewals

/-! ## The invariant of one memory -/

def LeaseManager.Holds (manager : LeaseManager) (id : Int) (pointer : Nat) : Prop :=
  ∃ lease, manager.heap pointer = some lease ∧ lease.id = id

structure LeaseManager.Inv (renewals : List Renewal) (now : Int) (manager : LeaseManager) :
    Prop where
  heap : ∀ pointer lease, manager.heap pointer = some lease → lease.Honours renewals
  mapped : ∀ id pointer, manager.leases id = some pointer → manager.Holds id pointer
  found : ∀ expiry id pointer, manager.expiries expiry = .found id pointer →
    manager.Holds id pointer
  expired : ∀ expiry id, (manager.expiries expiry).pastCheck = some id →
    Overdue renewals now id
  loading : ∀ row ∈ manager.toLoad, Accounted renewals row.leaseId row.ttlSec

section Memory

variable {renewals : List Renewal} {now : Int} {manager : LeaseManager}

theorem LeaseManager.Inv.fresh (heap : ∀ pointer, manager.heap pointer = none)
    (leases : ∀ id, manager.leases id = none)
    (expiries : ∀ expiry, manager.expiries expiry = .ended) (toLoad : manager.toLoad = []) :
    manager.Inv renewals now where
  heap := by simp [heap]
  mapped := by simp [leases]
  found := by simp [expiries]
  expired := by simp [expiries, Expiry.pastCheck]
  loading := by simp [toLoad]

theorem LeaseManager.Inv.setExpiry (inv : manager.Inv renewals now) {expiry : Nat}
    {state : Expiry} (found : ∀ id pointer, state = .found id pointer → manager.Holds id pointer)
    (expired : ∀ id, state.pastCheck = some id → Overdue renewals now id) :
    (manager.setExpiry expiry state).Inv renewals now where
  heap := inv.heap
  mapped := inv.mapped
  found := by
    intro other id pointer
    simp only [LeaseManager.setExpiry, Function.update_apply]
    split
    · exact found id pointer
    · exact inv.found other id pointer
  expired := by
    intro other id
    simp only [LeaseManager.setExpiry, Function.update_apply]
    split
    · exact expired id
    · exact inv.expired other id
  loading := inv.loading

theorem LeaseManager.Holds.alloc {id : Int} {other pointer : Nat} {lease : Lease}
    (holds : manager.Holds id other)
    (same : ∀ old, manager.heap pointer = some old → old.id = lease.id) :
    (manager.alloc pointer lease).Holds id other := by
  obtain ⟨old, stored, named⟩ := holds
  by_cases here : other = pointer
  · subst here
    exact ⟨lease, Function.update_self .., (same old stored).symm.trans named⟩
  · exact ⟨old, (Function.update_of_ne here ..).trans stored, named⟩

/-- Writing a lease to an unused address, or changing the deadline of the lease
at an address; the renewals may become more if the other leases, the expiries
and the scan agree with them. -/
theorem LeaseManager.Inv.allocRenewed {after : List Renewal} (inv : manager.Inv renewals now)
    {pointer : Nat} {lease : Lease} (honours : lease.Honours after)
    (same : ∀ old, manager.heap pointer = some old → old.id = lease.id)
    (others : ∀ other stored, other ≠ pointer → manager.heap other = some stored →
      stored.Honours after)
    (expired : ∀ expiry id, (manager.expiries expiry).pastCheck = some id →
      Overdue after now id)
    (loading : ∀ row ∈ manager.toLoad, Accounted after row.leaseId row.ttlSec) :
    (manager.alloc pointer lease).Inv after now where
  heap := by
    intro other stored
    simp only [LeaseManager.alloc, Function.update_apply]
    split
    · rintro ⟨⟩
      exact honours
    · rename_i different
      exact others other stored different
  mapped := fun id other mapped => (inv.mapped id other mapped).alloc same
  found := fun expiry id other found => (inv.found expiry id other found).alloc same
  expired := expired
  loading := loading

theorem LeaseManager.Inv.alloc (inv : manager.Inv renewals now) {pointer : Nat} {lease : Lease}
    (honours : lease.Honours renewals)
    (same : ∀ old, manager.heap pointer = some old → old.id = lease.id) :
    (manager.alloc pointer lease).Inv renewals now :=
  inv.allocRenewed honours same (fun other stored _ => inv.heap other stored) inv.expired
    inv.loading

theorem LeaseManager.Inv.enter (inv : manager.Inv renewals now) {id : Int} {entry : Option Nat}
    (holds : ∀ pointer, entry = some pointer → manager.Holds id pointer) :
    (manager.enter id entry).Inv renewals now where
  heap := inv.heap
  mapped := by
    intro other pointer
    simp only [LeaseManager.enter, Function.update_apply]
    split
    · rename_i same
      subst same
      exact holds pointer
    · exact inv.mapped other pointer
  found := inv.found
  expired := inv.expired
  loading := inv.loading

theorem LeaseManager.Inv.toLoad (inv : manager.Inv renewals now) {rows : List LeaseRow}
    (accounted : ∀ row ∈ rows, Accounted renewals row.leaseId row.ttlSec) :
    LeaseManager.Inv renewals now { manager with toLoad := rows } :=
  ⟨inv.heap, inv.mapped, inv.found, inv.expired, accounted⟩

/-- Grants and ids are nothing that the invariant looks at. -/
theorem LeaseManager.Inv.grants (inv : manager.Inv renewals now) {nextID : Int}
    {grants : Nat → GrantPhase} :
    LeaseManager.Inv renewals now { manager with nextID := nextID, grants := grants } :=
  ⟨inv.heap, inv.mapped, inv.found, inv.expired, inv.loading⟩

theorem LeaseManager.Inv.mono {later : Int} (inv : manager.Inv renewals now)
    (passes : now ≤ later) : manager.Inv renewals later :=
  ⟨inv.heap, inv.mapped, inv.found,
    fun expiry id checked => (inv.expired expiry id checked).mono passes, inv.loading⟩

/-- The expiries that are past their check, after a renewal of another lease. -/
theorem LeaseManager.Inv.expired_renew {id ttl time : Int} (inv : manager.Inv renewals now)
    (unexpired : ∀ expiry, (manager.expiries expiry).pastCheck ≠ some id) (expiry : Nat)
    (other : Int) (checked : (manager.expiries expiry).pastCheck = some other) :
    Overdue (renewals ++ [⟨id, ttl, time⟩]) now other := by
  refine (inv.expired expiry other checked).renew_other ?_
  rintro rfl
  exact unexpired expiry checked

theorem LeaseManager.Inv.loading_renew {id ttl time : Int} (inv : manager.Inv renewals now)
    (agrees : ∀ otherTTL, Accounted renewals id otherTTL → otherTTL = ttl) (row : LeaseRow)
    (membership : row ∈ manager.toLoad) :
    Accounted (renewals ++ [⟨id, ttl, time⟩]) row.leaseId row.ttlSec := by
  refine (inv.loading row membership).renew ?_
  rintro rfl
  exact agrees _ (inv.loading row membership)

/-- A renewal of a lease that this memory does not hold and does not expire. -/
theorem LeaseManager.Inv.renew_other {id ttl time : Int} (inv : manager.Inv renewals now)
    (unheld : ∀ pointer lease, manager.heap pointer = some lease → lease.id ≠ id)
    (unexpired : ∀ expiry, (manager.expiries expiry).pastCheck ≠ some id)
    (agrees : ∀ otherTTL, Accounted renewals id otherTTL → otherTTL = ttl) :
    manager.Inv (renewals ++ [⟨id, ttl, time⟩]) now where
  heap := fun pointer lease stored =>
    (inv.heap pointer lease stored).renew_other (unheld pointer lease stored)
  mapped := inv.mapped
  found := inv.found
  expired := inv.expired_renew unexpired
  loading := inv.loading_renew agrees

/-- A renewal, of a lease that is in this memory at one address at most. -/
theorem LeaseManager.Inv.renew {ttl : Int} (inv : manager.Inv renewals now) {pointer : Nat}
    (lease : Lease) (honours : lease.Honours (renewals ++ [⟨lease.id, ttl, now⟩]))
    (same : ∀ old, manager.heap pointer = some old → old.id = lease.id)
    (sole : ∀ other stored, manager.heap other = some stored → stored.id = lease.id →
      other = pointer)
    (unexpired : ∀ expiry, (manager.expiries expiry).pastCheck ≠ some lease.id)
    (agrees : ∀ otherTTL, Accounted renewals lease.id otherTTL → otherTTL = ttl) :
    (manager.alloc pointer lease).Inv (renewals ++ [⟨lease.id, ttl, now⟩]) now :=
  inv.allocRenewed honours same
    (fun other stored different present => (inv.heap other stored present).renew_other
      fun named => different (sole other stored present named))
    (inv.expired_renew unexpired) (inv.loading_renew agrees)

theorem LeaseManager.Inv.load (inv : manager.Inv renewals now) {row : LeaseRow}
    {rest : List LeaseRow} (scanned : manager.toLoad = row :: rest) {pointer expiry : Nat}
    (unused : manager.unused pointer expiry)
    (unrenewed : ∀ renewal ∈ renewals, renewal.leaseID = row.leaseId →
      renewal.time ≤ row.grantedAt) :
    (manager.load row rest pointer expiry).Inv renewals now := by
  have accounted : ∀ other ∈ row :: rest, Accounted renewals other.leaseId other.ttlSec :=
    scanned ▸ inv.loading
  have shorter := inv.toLoad fun other membership =>
    accounted other (List.mem_cons_of_mem row membership)
  unfold LeaseManager.load
  split
  · exact shorter
  · have honours : (Lease.since row.leaseId row.ttlSec row.grantedAt).Honours renewals :=
      Accounted.honours (accounted row List.mem_cons_self) rfl unrenewed
    refine ((shorter.alloc honours fun old stored => ?_).enter ?_).setExpiry (by simp)
      (by simp [Expiry.pastCheck])
    · simp [unused.1] at stored
    · rintro _ ⟨⟩
      exact ⟨_, Function.update_self .., rfl⟩

end Memory

/-! ## The invariant of the system -/

structure LeaseSystem.Inv (system : LeaseSystem) : Prop where
  past : ∀ renewal ∈ system.renewals, renewal.time ≤ system.now
  rows : ∀ row ∈ system.kvLease, Accounted system.renewals row.leaseId row.ttlSec
  replicas : ∀ replica, (system.replicas replica).Inv system.renewals system.now

section System

variable {system next : LeaseSystem}

theorem LeaseSystem.inv_init (now : Int) : (LeaseSystem.init now).Inv where
  past := by simp [LeaseSystem.init]
  rows := by simp [LeaseSystem.init]
  replicas := fun _ => .fresh (fun _ => rfl) (fun _ => rfl) (fun _ => rfl) rfl

theorem LeaseSystem.Inv.setReplica (inv : system.Inv) {replica : Nat} {manager : LeaseManager}
    (own : manager.Inv system.renewals system.now) : (system.setReplica replica manager).Inv where
  past := inv.past
  rows := inv.rows
  replicas := by
    intro other
    simp only [LeaseSystem.setReplica, Function.update_apply]
    split
    · exact own
    · exact inv.replicas other

theorem LeaseSystem.Inv.withRows (inv : system.Inv) {rows : List LeaseRow}
    (accounted : ∀ row ∈ rows, Accounted system.renewals row.leaseId row.ttlSec) :
    LeaseSystem.Inv { system with kvLease := rows } :=
  ⟨inv.past, accounted, inv.replicas⟩

theorem LeaseSystem.Inv.past_renew (inv : system.Inv) {id ttl : Int} (renewal : Renewal)
    (membership : renewal ∈ system.renewals ++ [⟨id, ttl, system.now⟩]) :
    renewal.time ≤ system.now := by
  rcases List.mem_append.mp membership with old | new
  · exact inv.past renewal old
  · rw [List.mem_singleton.mp new]

/-- A renewal by one replica of a lease that the other replicas neither hold
nor expire. -/
theorem LeaseSystem.Inv.renew (inv : system.Inv) {replica : Nat} {manager : LeaseManager}
    {id ttl : Int} (own : manager.Inv (system.renewals ++ [⟨id, ttl, system.now⟩]) system.now)
    (unheld : ∀ other, other ≠ replica → ∀ pointer lease,
      (system.replicas other).heap pointer = some lease → lease.id ≠ id)
    (unexpired : ∀ other expiry,
      ((system.replicas other).expiries expiry).pastCheck ≠ some id)
    (agrees : ∀ otherTTL, Accounted system.renewals id otherTTL → otherTTL = ttl) :
    ((system.setReplica replica manager).renew id ttl).Inv where
  past := inv.past_renew
  rows := by
    intro row membership
    refine (inv.rows row membership).renew ?_
    rintro rfl
    exact agrees _ (inv.rows row membership)
  replicas := by
    intro other
    simp only [LeaseSystem.renew, LeaseSystem.setReplica, Function.update_apply]
    split
    · exact own
    · rename_i different
      exact (inv.replicas other).renew_other (unheld other different) (unexpired other) agrees

/-- An id that no grant has used is in no memory and expires nowhere. -/
theorem LeaseSystem.Inv.unused_id (inv : system.Inv) {id : Int}
    (unused : ∀ renewal ∈ system.renewals, renewal.leaseID ≠ id) :
    (∀ other pointer lease, (system.replicas other).heap pointer = some lease →
      lease.id ≠ id) ∧
    (∀ other expiry, ((system.replicas other).expiries expiry).pastCheck ≠ some id) ∧
    ∀ ttl, ¬Accounted system.renewals id ttl := by
  refine ⟨?_, ?_, ?_⟩
  · rintro other pointer lease stored rfl
    obtain ⟨renewal, membership, same⟩ :=
      ((inv.replicas other).heap pointer lease stored).accounted.known
    exact unused renewal membership same
  · intro other expiry checked
    obtain ⟨renewal, membership, same⟩ := ((inv.replicas other).expired expiry id checked).known
    exact unused renewal membership same
  · intro ttl accounted
    obtain ⟨renewal, membership, same⟩ := accounted.known
    exact unused renewal membership same

theorem one_le_grantTTL (requested : Int) : 1 ≤ grantTTL requested := by
  unfold grantTTL
  split <;> omega

theorem LeaseSystem.Inv.grant (inv : system.Inv) {replica pointer : Nat} {ttl id : Int}
    (positive : 1 ≤ ttl) (short : ttl * timeSecond < 2 ^ 63)
    (fresh : ∀ renewal ∈ system.renewals, renewal.leaseID ≠ id)
    (unused : (system.replicas replica).heap pointer = none) :
    ((system.setReplica replica
      (({ system.replicas replica with nextID := id }.alloc pointer
        (.since id ttl system.now)).setGrant pointer .applying)).renew id ttl).Inv := by
  obtain ⟨unheld, unexpired, unaccounted⟩ := inv.unused_id fresh
  have accounted : Accounted (system.renewals ++ [⟨id, ttl, system.now⟩]) id ttl := by
    refine ⟨⟨?_, short⟩, ⟨_, List.mem_append_right _ (List.mem_singleton_self _), rfl⟩, ?_⟩
    · unfold timeSecond
      omega
    · intro renewal membership same
      rcases List.mem_append.mp membership with old | new
      · exact absurd same (fresh renewal old)
      · rw [List.mem_singleton.mp new]
  have agrees : ∀ otherTTL, Accounted system.renewals id otherTTL → otherTTL = ttl :=
    fun otherTTL known => absurd known (unaccounted otherTTL)
  have honours : (Lease.since id ttl system.now).Honours
      (system.renewals ++ [⟨id, ttl, system.now⟩]) :=
    Accounted.honours accounted rfl fun renewal membership _ =>
      inv.past_renew renewal membership
  have own := (inv.replicas replica).renew (.since id ttl system.now) honours
    (fun old stored => nomatch unused.symm.trans stored)
    (fun other stored present named => absurd named (unheld replica other stored present))
    (unexpired replica) agrees
  exact inv.renew own.grants (fun other _ => unheld other) unexpired agrees

theorem LeaseSystem.Inv.keepalive (inv : system.Inv) {replica pointer : Nat} {lease : Lease}
    (met : system.SoleHolder replica lease.id)
    (mapped : (system.replicas replica).leases lease.id = some pointer)
    (stored : (system.replicas replica).heap pointer = some lease) :
    ((system.setReplica replica ((system.replicas replica).alloc pointer
      { lease with expiresAt := deadline system.now lease.ttl })).renew lease.id
        lease.ttl).Inv := by
  have accounted := ((inv.replicas replica).heap pointer lease stored).accounted
  have agrees : ∀ ttl, Accounted system.renewals lease.id ttl → ttl = lease.ttl :=
    fun ttl known => known.unique accounted
  refine inv.renew ?_ ?_ met.2 agrees
  · have honours : Lease.Honours (system.renewals ++ [⟨lease.id, lease.ttl, system.now⟩])
        { lease with expiresAt := deadline system.now lease.ttl } :=
      Accounted.honours (accounted.renew fun _ => rfl) rfl fun renewal membership _ =>
        inv.past_renew renewal membership
    refine (inv.replicas replica).renew
      { lease with expiresAt := deadline system.now lease.ttl } honours ?_ ?_ (met.2 replica)
      agrees
    · intro old present
      rw [stored, Option.some.injEq] at present
      rw [← present]
    · intro other held present named
      have here := (met.1 replica other held present named).2
      exact (Option.some.inj (mapped.symm.trans here)).symm
  · intro other different place held present same
    exact different (met.1 other place held present same).1

/-- The goroutines read and write nothing but the memory of their replica,
`kv_lease` apart. -/
theorem LeaseSystem.Inv.expiry (inv : system.Inv) {replica expiry : Nat} {state : Expiry}
    (found : ∀ id pointer, state = .found id pointer →
      (system.replicas replica).Holds id pointer)
    (expired : ∀ id, state.pastCheck = some id → Overdue system.renewals system.now id) :
    (system.setReplica replica ((system.replicas replica).setExpiry expiry state)).Inv :=
  inv.setReplica ((inv.replicas replica).setExpiry found expired)

theorem LeaseSystem.Inv.granted (inv : system.Inv) {replica pointer : Nat} {lease : Lease}
    (stored : (system.replicas replica).heap pointer = some lease) :
    LeaseSystem.Inv
      { system.setReplica replica ((system.replicas replica).setGrant pointer .applied) with
        kvLease := system.kvLease ++ [⟨lease.id, lease.ttl, system.now⟩] } := by
  refine (inv.setReplica (inv.replicas replica).grants).withRows ?_
  intro row membership
  obtain old | new := List.mem_append.mp membership
  · exact inv.rows row old
  · obtain rfl := List.mem_singleton.mp new
    exact ((inv.replicas replica).heap pointer lease stored).accounted

theorem LeaseSystem.Inv.finishGrant (inv : system.Inv) {replica pointer expiry : Nat}
    {lease : Lease} (stored : (system.replicas replica).heap pointer = some lease) :
    (system.setReplica replica
      ((((system.replicas replica).setGrant pointer .idle).enter lease.id
        (some pointer)).setExpiry expiry (.starting pointer))).Inv := by
  have ungranted : ((system.replicas replica).setGrant pointer .idle).Inv _ _ :=
    (inv.replicas replica).grants
  refine inv.setReplica ((ungranted.enter ?_).setExpiry (by simp) (by simp [Expiry.pastCheck]))
  rintro _ ⟨⟩
  exact ⟨lease, stored, rfl⟩

theorem LeaseSystem.Inv.step (inv : system.Inv) {action : ManagerAction}
    (met : RenewsAlone system action) (stepped : system.step action = some next) :
    next.Inv := by
  -- an expiry past its check stays overdue, whatever it goes on to do
  have overdue : ∀ {replica expiry id}, ((system.replicas replica).expiries expiry).pastCheck =
      some id → Overdue system.renewals system.now id :=
    fun {replica expiry id} checked => (inv.replicas replica).expired expiry id checked
  cases LeaseSystem.step_move stepped with
  | tick later =>
      exact ⟨fun renewal membership => (inv.past renewal membership).trans later, inv.rows,
        fun replica => (inv.replicas replica).mono later⟩
  | start replica =>
      exact inv.setReplica (.fresh (fun _ => rfl) (fun _ => rfl) (fun _ => rfl) rfl)
  | stop replica =>
      exact inv.setReplica (.fresh (fun _ => rfl) (fun _ => rfl) (fun _ => rfl) rfl)
  | scan running => exact inv.setReplica ((inv.replicas _).toLoad inv.rows)
  | loadNext scanned unused =>
      exact inv.setReplica ((inv.replicas _).load scanned unused (met _ (by simp [scanned])))
  | grant named running unused idle =>
      exact inv.grant (one_le_grantTTL _) met.1 (named ▸ met.2) unused
  | granted applying stored free => exact inv.granted stored
  | notGranted applied applying stored => exact inv.setReplica (inv.replicas _).grants
  | finishGrant applied stored ended => exact inv.finishGrant stored
  | unknown unmapped => exact inv
  | keepalive mapped stored =>
      obtain ⟨held, same, rfl⟩ := (inv.replicas _).mapped _ _ mapped
      obtain rfl : held = _ := Option.some.inj (same.symm.trans stored)
      exact inv.keepalive met mapped stored
  | readDeadline starting stored => exact inv.expiry (by simp) (by simp [Expiry.pastCheck])
  | gone waiting unmapped => exact inv.expiry (by simp) (by simp [Expiry.pastCheck])
  | found waiting mapped =>
      refine inv.expiry ?_ (by simp [Expiry.pastCheck])
      rintro _ _ ⟨⟩
      exact (inv.replicas _).mapped _ _ mapped
  | extended looked free =>
      refine inv.setReplica (((inv.replicas _).setExpiry ?_ ?_).setExpiry ?_ ?_) <;>
        simp [Expiry.pastCheck]
  | expired spawned looked stored passed =>
      obtain ⟨lease, same, rfl⟩ := (inv.replicas _).found _ _ _ looked
      obtain rfl : lease = _ := Option.some.inj (same.symm.trans stored)
      refine inv.expiry (by simp) ?_
      rintro _ ⟨⟩
      exact ((inv.replicas _).heap _ lease stored).overdue passed
  | revoke checked =>
      refine inv.expiry (by simp) ?_
      rintro _ ⟨⟩
      exact overdue (by rw [checked]; rfl)
  | revokeFailed revoking =>
      split
      · refine inv.expiry (by simp) ?_
        rintro _ ⟨⟩
        exact overdue (by rw [revoking]; rfl)
      · exact inv.expiry (by simp) (by simp [Expiry.pastCheck])
  | revoked revoking =>
      refine (inv.expiry (by simp) ?_).withRows fun row membership =>
        inv.rows row (List.mem_of_mem_filter membership)
      rintro _ ⟨⟩
      exact overdue (by rw [revoking]; rfl)
  | unmap unmapping =>
      refine inv.setReplica (((inv.replicas _).enter ?_).setExpiry ?_ ?_) <;>
        simp [Expiry.pastCheck]

end System

/-- An expiry spares the leases renewed in time, on every replica and at every
instant of a run in which keepalives and loads never meet. -/
theorem expiry_spares_renewed {now : Int} {actions : List ManagerAction} {system : LeaseSystem}
    (guarded : Runs.Guarded LeaseSystem.step RenewsAlone (.init now) actions)
    (ran : Runs.run LeaseSystem.step (.init now) actions = some system) :
    system.SparesRenewed := by
  have inv : system.Inv :=
    Runs.run_invariant_of_guarded (fun _ _ _ met stepped inv => inv.step met stepped) guarded ran
      (LeaseSystem.inv_init now)
  rintro leaseID ⟨replica, expiry, attempt, notBefore, _, checked, _⟩ renewal membership same
  have overdue := (inv.replicas replica).expired expiry leaseID (by rw [checked]; rfl)
  have := overdue.lapsed renewal membership same
  omega

/-- A lease of ten seconds on one replica. -/
def grantRun : List ManagerAction :=
  [.start 0, .grant 0 10 0, .commitGrant 0 0 true, .finishGrant 0 0 0, .readDeadline 0 0,
    .tick (8 * timeSecond)]

/-- It is kept alive after eight seconds, and expires ten seconds later. -/
def keptRun : List ManagerAction :=
  grantRun ++ [.keepalive 0 1, .tick (10 * timeSecond), .lookUp 0 0, .check 0 0 1,
    .readDeadline 0 1, .tick (18 * timeSecond), .lookUp 0 1, .check 0 1 2]

def grantedSystem : LeaseSystem :=
  (Runs.run LeaseSystem.step (.init 0) grantRun).getD (.init 0)

/-- At the keepalive the lease is at address 0 of replica 0 and nowhere else. -/
theorem grantedSystem_soleHolder : grantedSystem.SoleHolder 0 1 := by
  constructor
  · intro other pointer lease stored _
    match other, pointer, stored with
    | 0, 0, _ => exact ⟨rfl, rfl⟩
    | 0, pointer + 1, stored => exact nomatch (show none = some lease from stored)
    | other + 1, pointer, stored => exact nomatch (show none = some lease from stored)
  · intro other expiry checked
    match other, expiry, checked with
    | 0, 0, checked => exact nomatch (show none = some (1 : Int) from checked)
    | 0, expiry + 1, checked => exact nomatch (show none = some (1 : Int) from checked)
    | other + 1, expiry, checked => exact nomatch (show none = some (1 : Int) from checked)

theorem keptRun_guarded : Runs.Guarded LeaseSystem.step RenewsAlone (.init 0) keptRun := by
  refine (Runs.guarded_cons rfl).mpr ⟨trivial, (Runs.guarded_cons rfl).mpr ⟨⟨by decide, nofun⟩, ?_⟩⟩
  refine (Runs.guarded_cons rfl).mpr ⟨trivial, (Runs.guarded_cons rfl).mpr ⟨trivial, ?_⟩⟩
  refine (Runs.guarded_cons rfl).mpr ⟨trivial, (Runs.guarded_cons rfl).mpr ⟨trivial, ?_⟩⟩
  refine (Runs.guarded_cons rfl).mpr ⟨grantedSystem_soleHolder, .of_forall ?_⟩
  simp [RenewsAlone]

def keptSystem : LeaseSystem :=
  (Runs.run LeaseSystem.step (.init 0) keptRun).getD (.init 0)

theorem keptSystem_spares_renewed : keptSystem.Expires 1 ∧ keptSystem.SparesRenewed :=
  ⟨⟨0, 1, 1, 18 * timeSecond, _, rfl, rfl⟩, expiry_spares_renewed keptRun_guarded rfl⟩

/-- Another replica starts after the keepalive and expires the lease ten
seconds after its grant. -/
def restartRun : List ManagerAction :=
  grantRun ++ [.keepalive 0 1, .tick (9 * timeSecond), .start 1, .scan 1, .loadNext 1 0 0,
    .readDeadline 1 0, .tick (10 * timeSecond), .lookUp 1 0, .check 1 0 1]

theorem restart_expires_renewed :
    ∃ system, Runs.run LeaseSystem.step (.init 0) restartRun = some system ∧
      ¬system.SparesRenewed := by
  refine ⟨_, rfl, fun spares => ?_⟩
  have late := spares 1 ⟨1, 0, 1, 10 * timeSecond, _, rfl, rfl⟩ ⟨1, 10, 8 * timeSecond⟩
    (by decide) rfl
  exact absurd late (by decide)

end SpannerEtcd
