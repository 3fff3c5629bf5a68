import SpannerEtcd.Lease.Manager
import SpannerEtcd.Lib.Mirror

/-!
# Replicas and the leases they know

`Keepalive` and `GetTTL` answer from the memory of the replica that is asked.
A replica fills its memory when it starts, from one scan of `kv_lease`, and
learns of no later grant or revocation but its own.
-/

namespace SpannerEtcd

open Mirror

/-- A `LeaseRevoke` of a client. -/
inductive RevokeCall where
  | idle
  | revoking (leaseID : Int)
  /-- The row of `kv_lease` is gone, the entry of the map is not. -/
  | unmapping (leaseID : Int)
  deriving DecidableEq, Repr

structure ReplicaSystem where
  base : LeaseSystem
  /-- The startup load of each replica. -/
  loads : Nat → Phase
  /-- The `LeaseRevoke` calls on each replica. -/
  calls : Nat → Nat → RevokeCall

def ReplicaSystem.init (now : Int) : ReplicaSystem :=
  { base := .init now, loads := fun _ => .pending, calls := fun _ _ => .idle }

inductive ReplicaAction where
  | manager (action : ManagerAction)
  /-- `loadLeases` returns an error, and `gcLoop` will scan again. -/
  | loadFails (replica : Nat)
  | leaseRevoke (replica call : Nat) (leaseID : Int)
  | leaseRevoked (replica call : Nat) (failed : Bool)
  | leaseUnmap (replica call : Nat)

def ReplicaSystem.setCall (system : ReplicaSystem) (replica call : Nat) (state : RevokeCall) :
    ReplicaSystem :=
  { system with
    calls := Function.update system.calls replica
      (Function.update (system.calls replica) call state) }

/-- Whatever the replica did before is over. -/
def ReplicaSystem.reset (system : ReplicaSystem) (replica : Nat) : ReplicaSystem :=
  { system with
    loads := Function.update system.loads replica .pending
    calls := Function.update system.calls replica fun _ => .idle }

/-- The load is over when no row is left. -/
def ReplicaSystem.loading (system : ReplicaSystem) (replica : Nat) : ReplicaSystem :=
  { system with
    loads := Function.update system.loads replica
      (.afterRow ((system.base.replicas replica).toLoad.map fun row => (row.leaseId, row.ttlSec))) }

/-- The system once the manager of a replica has taken a step. -/
def ReplicaSystem.follow (system : ReplicaSystem) (base : LeaseSystem) :
    ManagerAction → ReplicaSystem
  | .start replica | .stop replica => { system with base := base }.reset replica
  | .scan replica | .loadNext replica _ _ => { system with base := base }.loading replica
  | _ => { system with base := base }

def ReplicaSystem.step (system : ReplicaSystem) : ReplicaAction → Option ReplicaSystem
  | .manager action =>
      match action with
      | .scan replica =>
          -- `gcLoop` scans until a scan succeeds, and never again
          if system.loads replica = .pending then
            (system.base.step action).map fun base => system.follow base action
          else none
      | _ => (system.base.step action).map fun base => system.follow base action
  | .loadFails replica =>
      if system.loads replica = .scanning then
        some { system with
          base := system.base.setReplica replica
            { system.base.replicas replica with toLoad := [] }
          loads := Function.update system.loads replica .pending }
      else none
  | .leaseRevoke replica call leaseID =>
      if (system.base.replicas replica).running ∧ system.calls replica call = .idle then
        some (system.setCall replica call (.revoking leaseID))
      else none
  | .leaseRevoked replica call failed =>
      match system.calls replica call with
      | .revoking leaseID =>
          if failed then some (system.setCall replica call .idle)
          else
            let kvLease := system.base.kvLease.filter fun row => decide (row.leaseId ≠ leaseID)
            some ({ system with base := { system.base with kvLease := kvLease } }.setCall
              replica call (.unmapping leaseID))
      | _ => none
  | .leaseUnmap replica call =>
      match system.calls replica call with
      | .unmapping leaseID =>
          let manager := (system.base.replicas replica).enter leaseID none
          some ({ system with base := system.base.setReplica replica manager }.setCall
            replica call .idle)
      | _ => none

/-! ## What a replica answers -/

/-- The lease in the map. -/
def LeaseManager.get (manager : LeaseManager) (leaseID : Int) : Option Lease :=
  (manager.leases leaseID).bind manager.heap

/-- The TTL that `Keepalive` returns. -/
def LeaseManager.keepaliveTTL (manager : LeaseManager) (leaseID : Int) : Int :=
  match manager.get leaseID with
  | none => 0
  | some lease => lease.ttl

/-- Whether `GetTTL` finds the lease. -/
def LeaseManager.getTTLFinds (manager : LeaseManager) (leaseID : Int) : Bool :=
  (manager.get leaseID).isSome

/-- A `Grant` has inserted the row and not entered the lease. -/
def LeaseManager.Granting (manager : LeaseManager) (leaseID ttl : Int) : Prop :=
  ∃ pointer lease, manager.grants pointer = .applied ∧ manager.heap pointer = some lease ∧
    lease.id = leaseID ∧ lease.ttl = ttl

/-- A `Revoke` of an expiry or of a client has deleted the row and not yet
taken the lease out of the map. -/
def ReplicaSystem.Revoking (system : ReplicaSystem) (replica : Nat) (leaseID : Int) : Prop :=
  (∃ expiry, (system.base.replicas replica).expiries expiry = .unmapping leaseID) ∨
    ∃ call, system.calls replica call = .unmapping leaseID

/-- In every replica that has loaded, each lease of `kv_lease` is found with
its TTL, unless its grant is still going on there; and a lease that is not in
`kv_lease` is kept alive by no replica, unless its revocation is still going
on there. -/
def ReplicaSystem.AgreesOnLeases (system : ReplicaSystem) : Prop :=
  (∀ row ∈ system.base.kvLease, ∀ replica, system.loads replica = .loaded →
    ¬(system.base.replicas replica).Granting row.leaseId row.ttlSec →
      (system.base.replicas replica).keepaliveTTL row.leaseId = row.ttlSec ∧
        (system.base.replicas replica).getTTLFinds row.leaseId = true) ∧
  ∀ leaseID, (∀ row ∈ system.base.kvLease, row.leaseId ≠ leaseID) →
    ∀ replica, ¬system.Revoking replica leaseID →
      (system.base.replicas replica).keepaliveTTL leaseID = 0

/-- Nobody but the replica knows the lease, no replica is about to load it,
and no grant of it is going on. -/
def ReplicaSystem.Removable (system : ReplicaSystem) (replica : Nat) (leaseID : Int) : Prop :=
  (∀ other ≠ replica, (system.base.replicas other).leases leaseID = none) ∧
    ∀ other, (∀ row ∈ (system.base.replicas other).toLoad, row.leaseId ≠ leaseID) ∧
      ∀ ttl, ¬(system.base.replicas other).Granting leaseID ttl

/-- Leases are granted before any other replica begins to load, and not while
their id is being revoked; and a row is deleted only where nobody else knows
the lease. -/
def Coordinated (system : ReplicaSystem) : ReplicaAction → Prop
  | .manager (.commitGrant replica pointer _) =>
      ∀ lease ∈ (system.base.replicas replica).heap pointer,
        (∀ other, ¬system.Revoking other lease.id) ∧
          ∀ other ≠ replica, system.loads other = .pending
  | .manager (.revoked replica expiry false) =>
      ∀ leaseID attempt, (system.base.replicas replica).expiries expiry =
        .revoking leaseID attempt → system.Removable replica leaseID
  | .leaseRevoked replica call false =>
      ∀ leaseID, system.calls replica call = .revoking leaseID → system.Removable replica leaseID
  | _ => True

/-! ## The table -/

def leaseTable (rows : List LeaseRow) (leaseID : Int) : Option Int :=
  (rows.find? fun row => decide (row.leaseId = leaseID)).map LeaseRow.ttlSec

theorem leaseTable_eq_none_iff {rows : List LeaseRow} {leaseID : Int} :
    leaseTable rows leaseID = none ↔ ∀ row ∈ rows, row.leaseId ≠ leaseID := by
  simp [leaseTable]

theorem leaseTable_eq_some_iff {rows : List LeaseRow}
    (distinct : (rows.map LeaseRow.leaseId).Nodup) {leaseID ttl : Int} :
    leaseTable rows leaseID = some ttl ↔
      (leaseID, ttl) ∈ rows.map fun row => (row.leaseId, row.ttlSec) := by
  induction rows with
  | nil => simp [leaseTable]
  | cons head rest inductionHypothesis =>
      simp only [List.map_cons, List.nodup_cons] at distinct
      have later := inductionHypothesis distinct.2
      simp only [leaseTable, List.find?_cons, List.map_cons, List.mem_cons, Prod.mk.injEq]
        at later ⊢
      by_cases own : head.leaseId = leaseID
      · subst own
        have alone : (head.leaseId, ttl) ∉ rest.map fun row => (row.leaseId, row.ttlSec) := by
          intro among
          obtain ⟨row, membership, same⟩ := List.mem_map.mp among
          exact distinct.1 (List.mem_map.mpr ⟨row, membership, congrArg Prod.fst same⟩)
        simp [alone, eq_comm]
      · have other : leaseID ≠ head.leaseId := Ne.symm own
        simp only [own, other, decide_false, later, false_and, false_or]

theorem leaseTable_append {rows : List LeaseRow} {row : LeaseRow}
    (absent : leaseTable rows row.leaseId = none) :
    leaseTable (rows ++ [row]) =
      Function.update (leaseTable rows) row.leaseId (some row.ttlSec) := by
  funext leaseID
  by_cases same : leaseID = row.leaseId
  · subst same
    have missing := leaseTable_eq_none_iff.mp absent
    rw [Function.update_self, leaseTable, List.find?_append]
    have nothing : (rows.find? fun other => decide (other.leaseId = row.leaseId)) = none := by
      simpa using missing
    simp [nothing]
  · have other : row.leaseId ≠ leaseID := Ne.symm same
    rw [Function.update_of_ne same, leaseTable, List.find?_append]
    simp [leaseTable, other]

theorem leaseTable_filter (rows : List LeaseRow) (leaseID : Int) :
    leaseTable (rows.filter fun row => decide (row.leaseId ≠ leaseID)) =
      Function.update (leaseTable rows) leaseID none := by
  funext other
  by_cases same : other = leaseID
  · subst same
    rw [Function.update_self, leaseTable_eq_none_iff]
    simp
  · rw [Function.update_of_ne same, leaseTable, leaseTable, List.find?_filter]
    congr 2
    funext row
    by_cases own : row.leaseId = other
    · simp [own, same]
    · simp [own]

/-! ## The view of a replica -/

section Views
variable {manager : LeaseManager} {calls : Nat → RevokeCall}

def LeaseManager.known (manager : LeaseManager) (leaseID : Int) : Option Int :=
  (manager.get leaseID).map Lease.ttl

theorem LeaseManager.keepaliveTTL_eq (manager : LeaseManager) (leaseID : Int) :
    manager.keepaliveTTL leaseID = (manager.known leaseID).getD 0 := by
  unfold LeaseManager.keepaliveTTL LeaseManager.known
  cases manager.get leaseID <;> rfl

def LeaseManager.view (manager : LeaseManager) (calls : Nat → RevokeCall) : View Int Int where
  known := manager.known
  toLoad := manager.toLoad.map fun row => (row.leaseId, row.ttlSec)
  arriving := manager.Granting
  leaving leaseID := (∃ expiry, manager.expiries expiry = .unmapping leaseID) ∨
    ∃ call, calls call = .unmapping leaseID

/-- Every lease that the map or a grant points to is in memory. -/
structure LeaseManager.Valid (manager : LeaseManager) : Prop where
  mapped : ∀ id pointer, manager.leases id = some pointer →
    ∃ lease, manager.heap pointer = some lease
  granted : ∀ pointer, manager.grants pointer ≠ .idle → ∃ lease, manager.heap pointer = some lease

theorem LeaseManager.Valid.known_eq_none_iff (valid : manager.Valid) {leaseID : Int} :
    manager.known leaseID = none ↔ manager.leases leaseID = none := by
  unfold LeaseManager.known LeaseManager.get
  cases mapped : manager.leases leaseID with
  | none => simp
  | some pointer =>
      obtain ⟨lease, stored⟩ := valid.mapped leaseID pointer mapped
      simp [stored]

/-! ### What is kept valid -/

theorem LeaseManager.Valid.alloc (valid : manager.Valid) (pointer : Nat) (lease : Lease) :
    (manager.alloc pointer lease).Valid := by
  have stays : ∀ other, (∃ old, manager.heap other = some old) →
      ∃ held, (manager.alloc pointer lease).heap other = some held := by
    intro other before
    by_cases here : other = pointer
    · subst here
      exact ⟨lease, Function.update_self ..⟩
    · simpa only [LeaseManager.alloc, Function.update_of_ne here] using before
  exact ⟨fun id other mapped => stays other (valid.mapped id other mapped),
    fun other granted => stays other (valid.granted other granted)⟩

theorem LeaseManager.Valid.enter (valid : manager.Valid) (leaseID : Int) {pointer : Nat}
    {lease : Lease} (stored : manager.heap pointer = some lease) :
    (manager.enter leaseID (some pointer)).Valid := by
  refine ⟨fun id other mapped => ?_, valid.granted⟩
  by_cases same : id = leaseID
  · subst same
    simp only [LeaseManager.enter, Function.update_self, Option.some.injEq] at mapped
    exact ⟨lease, mapped ▸ stored⟩
  · simp only [LeaseManager.enter, Function.update_of_ne same] at mapped
    exact valid.mapped id other mapped

theorem LeaseManager.Valid.unmapped (valid : manager.Valid) (leaseID : Int) :
    (manager.enter leaseID none).Valid := by
  refine ⟨fun id other mapped => ?_, valid.granted⟩
  have different : id ≠ leaseID := fun same => by simp [LeaseManager.enter, same] at mapped
  simp only [LeaseManager.enter, Function.update_of_ne different] at mapped
  exact valid.mapped id other mapped

theorem LeaseManager.Valid.setGrant (valid : manager.Valid) {pointer : Nat} {lease : Lease}
    (stored : manager.heap pointer = some lease) (phase : GrantPhase) :
    (manager.setGrant pointer phase).Valid := by
  refine ⟨valid.mapped, fun other granted => ?_⟩
  by_cases same : other = pointer
  · subst same
    exact ⟨lease, stored⟩
  · simp only [LeaseManager.setGrant, Function.update_of_ne same] at granted
    exact valid.granted other granted

theorem LeaseManager.Valid.setExpiry (valid : manager.Valid) (expiry : Nat) (state : Expiry) :
    (manager.setExpiry expiry state).Valid :=
  ⟨valid.mapped, valid.granted⟩

theorem LeaseManager.Valid.setToLoad (valid : manager.Valid) (rows : List LeaseRow) :
    { manager with toLoad := rows }.Valid :=
  ⟨valid.mapped, valid.granted⟩

/-! ### What leaves the view as it is -/

theorem exists_iff_own_or {State : Type} (P : Nat → State → Prop) (states : Nat → State)
    (own : Nat) :
    (∃ index, P index (states index)) ↔
      P own (states own) ∨ ∃ index, index ≠ own ∧ P index (states index) := by
  constructor
  · intro h
    obtain ⟨index, holds⟩ := h
    by_cases same : index = own
    · exact .inl (same ▸ holds)
    · exact .inr ⟨index, same, holds⟩
  · intro h
    obtain holds | ⟨index, _, holds⟩ := h
    · exact ⟨own, holds⟩
    · exact ⟨index, holds⟩

theorem LeaseManager.view_setExpiry {expiry : Nat} {state : Expiry}
    (before : ∀ id, manager.expiries expiry ≠ .unmapping id) (after : ∀ id, state ≠ .unmapping id) :
    (manager.setExpiry expiry state).view calls = manager.view calls := by
  have leaving : ∀ id, (∃ other, Function.update manager.expiries expiry state other =
      .unmapping id) ↔ ∃ other, manager.expiries other = .unmapping id := by
    intro id
    rw [Function.exists_update_iff _ fun _ held => held = Expiry.unmapping id,
      exists_iff_own_or (fun _ held => held = Expiry.unmapping id) _ expiry]
    simp [before, after]
  simp only [LeaseManager.view, LeaseManager.setExpiry, leaving]
  rfl

theorem LeaseManager.view_updateCall {call : Nat} {state : RevokeCall}
    (before : ∀ id, calls call ≠ .unmapping id) (after : ∀ id, state ≠ .unmapping id) :
    manager.view (Function.update calls call state) = manager.view calls := by
  have leaving : ∀ id, (∃ other, Function.update calls call state other = .unmapping id) ↔
      ∃ other, calls other = .unmapping id := by
    intro id
    rw [Function.exists_update_iff _ fun _ held => held = RevokeCall.unmapping id,
      exists_iff_own_or (fun _ held => held = RevokeCall.unmapping id) _ call]
    simp [before, after]
  simp only [LeaseManager.view, leaving]

/-- A grant goes on as long as its phase and its lease say so. -/
theorem LeaseManager.view_setGrant {pointer : Nat} {phase : GrantPhase}
    (before : manager.grants pointer ≠ .applied) (after : phase ≠ .applied) :
    (manager.setGrant pointer phase).view calls = manager.view calls := by
  have granting : (manager.setGrant pointer phase).Granting = manager.Granting := by
    funext leaseID ttl
    simp only [LeaseManager.Granting, LeaseManager.setGrant, eq_iff_iff, exists_and_left]
    rw [Function.exists_update_iff _ fun other held => held = GrantPhase.applied ∧ _,
      exists_iff_own_or (fun other held => held = GrantPhase.applied ∧ _) _ pointer]
    simp [before, after]
  simp only [LeaseManager.view, granting]
  rfl

/-- A new lease on an unused address, or an old one with its id and TTL. -/
theorem LeaseManager.Valid.view_alloc (valid : manager.Valid) {pointer : Nat} {lease : Lease}
    (same : ∀ old, manager.heap pointer = some old → lease.id = old.id ∧ lease.ttl = old.ttl) :
    (manager.alloc pointer lease).view calls = manager.view calls := by
  have known : (manager.alloc pointer lease).known = manager.known := by
    funext leaseID
    simp only [LeaseManager.known, LeaseManager.get, LeaseManager.alloc]
    cases mapped : manager.leases leaseID with
    | none => rfl
    | some other =>
        by_cases here : other = pointer
        · subst here
          obtain ⟨old, stored⟩ := valid.mapped leaseID other mapped
          simp [stored, (same old stored).2]
        · simp [Function.update_of_ne here]
  have granting : (manager.alloc pointer lease).Granting = manager.Granting := by
    funext leaseID ttl
    simp only [LeaseManager.Granting, LeaseManager.alloc, eq_iff_iff]
    refine exists_congr fun other => ?_
    by_cases here : other = pointer
    · subst here
      rw [Function.update_self]
      cases stored : manager.heap other with
      | none =>
          -- an address without a lease has no grant
          have idle : manager.grants other ≠ .applied := by
            intro applied
            obtain ⟨old, held⟩ := valid.granted other (by simp [applied])
            simp [stored] at held
          simp [idle]
      | some old =>
          obtain ⟨sameId, sameTtl⟩ := same old stored
          simp [sameId, sameTtl]
    · simp [Function.update_of_ne here]
  simp only [LeaseManager.view, known, granting]
  rfl

/-! ### What the view learns and forgets -/

theorem LeaseManager.known_enter (leaseID : Int) {pointer : Nat} {lease : Lease}
    (stored : manager.heap pointer = some lease) :
    (manager.enter leaseID (some pointer)).known =
      Function.update manager.known leaseID (some lease.ttl) := by
  funext other
  by_cases same : other = leaseID
  · subst same
    simp [LeaseManager.known, LeaseManager.get, LeaseManager.enter, stored]
  · simp [LeaseManager.known, LeaseManager.get, LeaseManager.enter, Function.update_of_ne same]

theorem LeaseManager.known_unmapped (leaseID : Int) :
    (manager.enter leaseID none).known = Function.update manager.known leaseID none := by
  funext other
  by_cases same : other = leaseID
  · subst same
    simp [LeaseManager.known, LeaseManager.get, LeaseManager.enter]
  · simp [LeaseManager.known, LeaseManager.get, LeaseManager.enter, Function.update_of_ne same]

end Views

/-! ## What a step changes -/

section Changes
variable {manager : LeaseManager} {calls : Nat → RevokeCall} {table : Int → Option Int}
  {phase : Phase}

theorem LeaseManager.change_of_view_eq {later : LeaseManager} {laterCalls : Nat → RevokeCall}
    (same : later.view laterCalls = manager.view calls) :
    Change table (manager.view calls) phase table (later.view laterCalls) phase := by
  rw [same]
  exact .quiet rfl rfl rfl rfl

theorem LeaseManager.Valid.load (valid : manager.Valid) (row : LeaseRow) (rest : List LeaseRow)
    (pointer expiry : Nat) : (manager.load row rest pointer expiry).Valid := by
  unfold LeaseManager.load
  split
  · exact valid.setToLoad rest
  · exact (((valid.setToLoad rest).alloc pointer _).enter _ (Function.update_self ..)).setExpiry _ _

theorem LeaseManager.toLoad_load (row : LeaseRow) (rest : List LeaseRow) (pointer expiry : Nat) :
    (manager.load row rest pointer expiry).toLoad = rest := by
  unfold LeaseManager.load
  split <;> rfl

theorem LeaseManager.Valid.change_load (valid : manager.Valid) {row : LeaseRow}
    {rest : List LeaseRow} {pointer expiry : Nat} (scanned : manager.toLoad = row :: rest)
    (unused : manager.unused pointer expiry) :
    Change table (manager.view calls) phase table
      ((manager.load row rest pointer expiry).view calls)
      (.afterRow (rest.map fun row => (row.leaseId, row.ttlSec))) := by
  have next : (manager.view calls).toLoad =
      (row.leaseId, row.ttlSec) :: rest.map fun row => (row.leaseId, row.ttlSec) := by
    simp [LeaseManager.view, scanned]
  unfold LeaseManager.load
  split
  next other mapped =>
    have known : manager.known row.leaseId ≠ none := by
      rw [Ne, valid.known_eq_none_iff, mapped]
      simp
    refine .load next ?_ rfl rfl rfl
    exact (if_pos (Option.isSome_iff_ne_none.mpr known)).symm
  next unmapped =>
    have unknown : manager.known row.leaseId = none := valid.known_eq_none_iff.mpr unmapped
    have allocated : ({ manager with toLoad := rest }.alloc pointer
        (.since row.leaseId row.ttlSec row.grantedAt)).view calls =
          { manager with toLoad := rest }.view calls :=
      (valid.setToLoad rest).view_alloc (by simp [unused.1])
    have arriving := congrArg View.arriving allocated
    have leaving := congrArg View.leaving allocated
    rw [LeaseManager.view_setExpiry (by simp [LeaseManager.enter, LeaseManager.alloc, unused.2])
      (by simp)]
    refine .load next ?_ rfl arriving leaving
    rw [if_neg (by simp [LeaseManager.view, unknown])]
    refine (LeaseManager.known_enter row.leaseId (Function.update_self ..)).trans ?_
    exact congrArg (fun known => Function.update known row.leaseId (some row.ttlSec))
      (congrArg View.known allocated)

theorem LeaseManager.change_granted {pointer : Nat} {lease : Lease}
    (applying : manager.grants pointer = .applying) (stored : manager.heap pointer = some lease)
    (free : table lease.id = none) :
    Change table (manager.view calls) phase
      (Function.update table lease.id (some lease.ttl))
      ((manager.setGrant pointer .applied).view calls) phase := by
  refine .insert free rfl rfl (fun leaseID ttl => ?_) rfl
  simp only [LeaseManager.view, LeaseManager.Granting, LeaseManager.setGrant, exists_and_left]
  rw [Function.exists_update_iff _ fun other held => held = GrantPhase.applied ∧ _,
    exists_iff_own_or (fun other held => held = GrantPhase.applied ∧ _) _ pointer]
  simp [applying, stored, or_comm, eq_comm]

theorem LeaseManager.change_finishGrant {pointer expiry : Nat} {lease : Lease}
    (applied : manager.grants pointer = .applied) (stored : manager.heap pointer = some lease)
    (ended : manager.expiries expiry = .ended) :
    Change table (manager.view calls) phase table
      ((((manager.setGrant pointer .idle).enter lease.id (some pointer)).setExpiry expiry
        (.starting pointer)).view calls) phase := by
  rw [LeaseManager.view_setExpiry (by simp [LeaseManager.enter, LeaseManager.setGrant, ended])
    (by simp)]
  refine .enter ⟨pointer, lease, applied, stored, rfl, rfl⟩ ?_ rfl ?_ ?_ rfl
  · have inHeap : (manager.setGrant pointer .idle).heap pointer = some lease := stored
    exact LeaseManager.known_enter lease.id inHeap
  · intro leaseID ttl granting
    obtain ⟨other, held, phase, rest⟩ := granting
    have different : other ≠ pointer := by
      intro same
      subst same
      simp [LeaseManager.enter, LeaseManager.setGrant] at phase
    simp only [LeaseManager.enter, LeaseManager.setGrant, Function.update_of_ne different] at phase
    exact ⟨other, held, phase, rest⟩
  · intro leaseID ttl granting
    obtain ⟨other, held, phase, inHeap, named, timed⟩ := granting
    by_cases same : other = pointer
    · subst same
      obtain rfl := Option.some.inj (inHeap.symm.trans stored)
      exact .inr ⟨named.symm, timed.symm⟩
    · refine .inl ⟨other, held, ?_, inHeap, named, timed⟩
      simpa only [LeaseManager.enter, LeaseManager.setGrant, Function.update_of_ne same] using phase

/-- The row is deleted, by the goroutine of an expiry. -/
theorem LeaseManager.change_revoked {expiry : Nat} (leaseID : Int)
    (before : ∀ id, manager.expiries expiry ≠ .unmapping id) :
    Change table (manager.view calls) phase (Function.update table leaseID none)
      ((manager.setExpiry expiry (.unmapping leaseID)).view calls) phase := by
  refine .remove rfl rfl rfl fun other => ?_
  simp only [LeaseManager.view, LeaseManager.setExpiry]
  rw [Function.exists_update_iff _ fun _ held => held = Expiry.unmapping other,
    exists_iff_own_or (fun _ held => held = Expiry.unmapping other) _ expiry]
  simp only [before, false_or, Expiry.unmapping.injEq, eq_comm]
  exact or_assoc.trans or_comm

/-- The row is deleted, by the call of a client. -/
theorem LeaseManager.change_leaseRevoked {call : Nat} (leaseID : Int)
    (before : ∀ id, calls call ≠ .unmapping id) :
    Change table (manager.view calls) phase (Function.update table leaseID none)
      (manager.view (Function.update calls call (.unmapping leaseID))) phase := by
  refine .remove rfl rfl rfl fun other => ?_
  simp only [LeaseManager.view]
  rw [Function.exists_update_iff _ fun _ held => held = RevokeCall.unmapping other,
    exists_iff_own_or (fun _ held => held = RevokeCall.unmapping other) _ call]
  simp only [before, false_or, RevokeCall.unmapping.injEq, eq_comm]
  exact or_left_comm.trans or_comm

theorem LeaseManager.change_unmap {expiry : Nat} {leaseID : Int}
    (unmapping : manager.expiries expiry = .unmapping leaseID) :
    Change table (manager.view calls) phase table
      (((manager.enter leaseID none).setExpiry expiry .ended).view calls) phase := by
  have split : ∀ id, (∃ other, manager.expiries other = .unmapping id) ↔ leaseID = id ∨
      ∃ other, Function.update manager.expiries expiry .ended other = .unmapping id := by
    intro id
    rw [Function.exists_update_iff _ fun _ held => held = Expiry.unmapping id,
      exists_iff_own_or (fun _ held => held = Expiry.unmapping id) _ expiry]
    simp [unmapping]
  refine .forget (.inl ⟨expiry, unmapping⟩) (LeaseManager.known_unmapped leaseID) rfl rfl
    (fun other leaves => ?_) fun other leaves => ?_
  · exact leaves.imp_left fun still => (split other).mpr (.inr still)
  · obtain byExpiry | byCall := leaves
    · obtain same | still := (split other).mp byExpiry
      · exact .inr same.symm
      · exact .inl (.inl still)
    · exact .inl (.inr byCall)

theorem LeaseManager.change_leaseUnmap {call : Nat} {leaseID : Int}
    (unmapping : calls call = .unmapping leaseID) :
    Change table (manager.view calls) phase table
      ((manager.enter leaseID none).view (Function.update calls call .idle)) phase := by
  have split : ∀ id, (∃ other, calls other = .unmapping id) ↔ leaseID = id ∨
      ∃ other, Function.update calls call .idle other = .unmapping id := by
    intro id
    rw [Function.exists_update_iff _ fun _ held => held = RevokeCall.unmapping id,
      exists_iff_own_or (fun _ held => held = RevokeCall.unmapping id) _ call]
    simp [unmapping]
  refine .forget (.inr ⟨call, unmapping⟩) (LeaseManager.known_unmapped leaseID) rfl rfl
    (fun other leaves => ?_) fun other leaves => ?_
  · exact leaves.imp_right fun still => (split other).mpr (.inr still)
  · obtain byExpiry | byCall := leaves
    · exact .inl (.inl byExpiry)
    · obtain same | still := (split other).mp byCall
      · exact .inr same.symm
      · exact .inl (.inr still)

end Changes

/-! ## One step -/

section Steps
variable {system next : ReplicaSystem} {actor : Nat}

def ReplicaSystem.view (system : ReplicaSystem) (replica : Nat) : View Int Int :=
  (system.base.replicas replica).view (system.calls replica)

structure ReplicaSystem.WellFormed (system : ReplicaSystem) : Prop where
  distinct : (system.base.kvLease.map LeaseRow.leaseId).Nodup
  valid : ∀ replica, (system.base.replicas replica).Valid

/-- A step of one replica, seen from outside. -/
structure ReplicaSystem.ChangesTo (system next : ReplicaSystem) (actor : Nat) : Prop where
  wellFormed : next.WellFormed
  others : ∀ other ≠ actor, next.view other = system.view other ∧
    next.loads other = system.loads other
  change : Change (leaseTable system.base.kvLease) (system.view actor) (system.loads actor)
    (leaseTable next.base.kvLease) (next.view actor) (next.loads actor)
  careful : Careful (leaseTable system.base.kvLease) (leaseTable next.base.kvLease) system.view
    system.loads actor

/-- Only what belongs to the actor is set. -/
theorem ReplicaSystem.WellFormed.changesTo (wellFormed : system.WellFormed)
    {manager : LeaseManager} {calls : Nat → RevokeCall} {phase : Phase} {after : Int → Option Int}
    (replicas : next.base.replicas = Function.update system.base.replicas actor manager)
    (called : next.calls = Function.update system.calls actor calls)
    (loads : next.loads = Function.update system.loads actor phase)
    (rows : leaseTable next.base.kvLease = after)
    (distinct : (next.base.kvLease.map LeaseRow.leaseId).Nodup) (valid : manager.Valid)
    (change : Change (leaseTable system.base.kvLease) (system.view actor) (system.loads actor)
      after (manager.view calls) phase)
    (careful : Careful (leaseTable system.base.kvLease) after system.view system.loads actor) :
    system.ChangesTo next actor := by
  subst rows
  refine ⟨⟨distinct, fun replica => ?_⟩, fun other different => ?_, ?_, careful⟩
  · rw [replicas]
    by_cases same : replica = actor
    · subst same
      rwa [Function.update_self]
    · rw [Function.update_of_ne same]
      exact wellFormed.valid replica
  · simp only [ReplicaSystem.view, replicas, called, loads, Function.update_of_ne different,
      and_self]
  · simpa only [ReplicaSystem.view, replicas, called, loads, Function.update_self] using change

/-- The table stays as it is. -/
theorem ReplicaSystem.WellFormed.changesTo_of_rows_eq (wellFormed : system.WellFormed)
    {manager : LeaseManager} {calls : Nat → RevokeCall} {phase : Phase}
    (replicas : next.base.replicas = Function.update system.base.replicas actor manager)
    (called : next.calls = Function.update system.calls actor calls)
    (loads : next.loads = Function.update system.loads actor phase)
    (rows : next.base.kvLease = system.base.kvLease) (valid : manager.Valid)
    (change : Change (leaseTable system.base.kvLease) (system.view actor) (system.loads actor)
      (leaseTable system.base.kvLease) (manager.view calls) phase) :
    system.ChangesTo next actor := by
  exact wellFormed.changesTo replicas called loads (congrArg leaseTable rows)
    (rows ▸ wellFormed.distinct) valid change .of_unchanged

/-- The table, the calls and the load stay as they are. -/
theorem ReplicaSystem.WellFormed.changesTo_of_view_eq (wellFormed : system.WellFormed)
    {manager : LeaseManager}
    (replicas : next.base.replicas = Function.update system.base.replicas actor manager)
    (calls : next.calls = system.calls) (loads : next.loads = system.loads)
    (rows : next.base.kvLease = system.base.kvLease) (valid : manager.Valid)
    (same : manager.view (system.calls actor) = system.view actor) :
    system.ChangesTo next actor := by
  have called : next.calls = Function.update system.calls actor (system.calls actor) := by
    rw [calls, Function.update_eq_self]
  have loaded : next.loads = Function.update system.loads actor (system.loads actor) := by
    rw [loads, Function.update_eq_self]
  apply wellFormed.changesTo_of_rows_eq replicas called loaded rows valid
  exact LeaseManager.change_of_view_eq same

/-- A replica that starts or stops has nothing in memory. -/
theorem ReplicaSystem.WellFormed.changesTo_reset (wellFormed : system.WellFormed)
    {manager : LeaseManager} {base : LeaseSystem}
    (base_eq : base = system.base.setReplica actor manager)
    (leases : manager.leases = fun _ => none) (grants : manager.grants = fun _ => .idle)
    (expiries : manager.expiries = fun _ => .ended) (toLoad : manager.toLoad = []) :
    system.ChangesTo ({ system with base := base }.reset actor) actor := by
  subst base_eq
  have valid : manager.Valid := by
    constructor
    · simp [leases]
    · simp [grants]
  refine wellFormed.changesTo_of_rows_eq rfl rfl rfl rfl valid (.reset ?_ ?_ ?_ ?_)
  · simp [LeaseManager.view, LeaseManager.known, LeaseManager.get, leases]
  · simp [LeaseManager.view, toLoad]
  · simp [LeaseManager.view, LeaseManager.Granting, grants]
  · simp [LeaseManager.view, expiries]

theorem ReplicaSystem.loads_loading (system : ReplicaSystem) (replica : Nat)
    (manager : LeaseManager) :
    ({ system with base := system.base.setReplica replica manager }.loading replica).loads =
      Function.update system.loads replica
        (.afterRow (manager.toLoad.map fun row => (row.leaseId, row.ttlSec))) := by
  simp [ReplicaSystem.loading, LeaseSystem.setReplica]

/-- The moves of a manager that nobody sees in what it knows. -/
theorem ReplicaSystem.WellFormed.changesTo_setExpiry (wellFormed : system.WellFormed)
    {base : LeaseSystem} {expiry : Nat} {state : Expiry}
    (base_eq : base = system.base.setReplica actor
      ((system.base.replicas actor).setExpiry expiry state))
    (before : ∀ id, (system.base.replicas actor).expiries expiry ≠ .unmapping id)
    (after : ∀ id, state ≠ .unmapping id) :
    system.ChangesTo { system with base := base } actor := by
  subst base_eq
  exact wellFormed.changesTo_of_view_eq rfl rfl rfl rfl
    ((wellFormed.valid actor).setExpiry expiry state) (LeaseManager.view_setExpiry before after)

theorem leaseTable_granted {rows : List LeaseRow} {lease : Lease} {now : Int}
    (free : ∀ row ∈ rows, row.leaseId ≠ lease.id) :
    leaseTable (rows ++ [⟨lease.id, lease.ttl, now⟩]) =
      Function.update (leaseTable rows) lease.id (some lease.ttl) :=
  leaseTable_append (leaseTable_eq_none_iff.mpr free)

theorem ReplicaSystem.WellFormed.nodup_granted (wellFormed : system.WellFormed) {row : LeaseRow}
    (free : ∀ other ∈ system.base.kvLease, other.leaseId ≠ row.leaseId) :
    ((system.base.kvLease ++ [row]).map LeaseRow.leaseId).Nodup := by
  rw [List.map_append, List.map_singleton, List.nodup_append]
  refine ⟨wellFormed.distinct, List.nodup_singleton _, fun id among other same => ?_⟩
  obtain ⟨held, membership, rfl⟩ := List.mem_map.mp among
  obtain rfl := List.mem_singleton.mp same
  exact free held membership

theorem ReplicaSystem.WellFormed.nodup_revoked (wellFormed : system.WellFormed) (leaseID : Int) :
    ((system.base.kvLease.filter fun row => decide (row.leaseId ≠ leaseID)).map
      LeaseRow.leaseId).Nodup :=
  wellFormed.distinct.sublist (List.filter_sublist.map _)

/-- Deleting a removable row is careful. -/
theorem ReplicaSystem.WellFormed.careful_revoked (wellFormed : system.WellFormed) {leaseID : Int}
    (removable : system.Removable actor leaseID) :
    Careful (leaseTable system.base.kvLease)
      (Function.update (leaseTable system.base.kvLease) leaseID none) system.view system.loads
        actor := by
  refine .of_remove (fun other different => ?_) fun process held => ⟨fun loading => ?_, ?_⟩
  · exact (wellFormed.valid other).known_eq_none_iff.mpr (removable.1 other different)
  · obtain ⟨row, scanned, same⟩ := List.mem_map.mp loading
    exact (removable.2 process).1 row scanned (congrArg Prod.fst same)
  · exact (removable.2 process).2 held

theorem ReplicaSystem.WellFormed.manager_changes (wellFormed : system.WellFormed)
    {base : LeaseSystem} {action : ManagerAction} (move : ManagerMove system.base action base)
    (coordinated : Coordinated system (.manager action)) :
    ∃ actor, system.ChangesTo (system.follow base action) actor := by
  have loads : ∀ actor, system.loads = Function.update system.loads actor (system.loads actor) :=
    fun actor => (Function.update_eq_self actor system.loads).symm
  have calls : ∀ actor, system.calls = Function.update system.calls actor (system.calls actor) :=
    fun actor => (Function.update_eq_self actor system.calls).symm
  cases move with
  | tick =>
      refine ⟨0, wellFormed.changesTo_of_view_eq ?_ rfl rfl rfl (wellFormed.valid 0) rfl⟩
      exact (Function.update_eq_self 0 system.base.replicas).symm
  | start replica => exact ⟨replica, wellFormed.changesTo_reset rfl rfl rfl rfl rfl⟩
  | stop replica => exact ⟨replica, wellFormed.changesTo_reset rfl rfl rfl rfl rfl⟩
  | @scan replica running =>
      have valid := (wellFormed.valid replica).setToLoad system.base.kvLease
      have loading := system.loads_loading replica
        { system.base.replicas replica with toLoad := system.base.kvLease }
      refine ⟨replica, wellFormed.changesTo_of_rows_eq rfl (calls replica) loading rfl valid ?_⟩
      exact .scan rfl (fun _ _ => (leaseTable_eq_some_iff wellFormed.distinct).symm) rfl rfl
  | @loadNext replica pointer expiry row rest scanned unused =>
      have valid := (wellFormed.valid replica).load row rest pointer expiry
      have loading := system.loads_loading replica
        ((system.base.replicas replica).load row rest pointer expiry)
      rw [LeaseManager.toLoad_load] at loading
      refine ⟨replica, wellFormed.changesTo_of_rows_eq rfl (calls replica) loading rfl valid ?_⟩
      exact (wellFormed.valid replica).change_load scanned unused
  | @grant replica pointer requested id named running unused idle =>
      have renamed : { system.base.replicas replica with nextID := id }.Valid :=
        ⟨(wellFormed.valid replica).mapped, (wellFormed.valid replica).granted⟩
      have valid := (renamed.alloc pointer
        (.since id (grantTTL requested) system.base.now)).setGrant (Function.update_self ..)
          .applying
      refine ⟨replica, wellFormed.changesTo_of_view_eq rfl rfl rfl rfl valid ?_⟩
      rw [LeaseManager.view_setGrant (by simp [LeaseManager.alloc, idle]) (by simp),
        renamed.view_alloc (by simp [unused])]
      rfl
  | @granted replica pointer lease applying stored free =>
      have valid := (wellFormed.valid replica).setGrant stored .applied
      refine ⟨replica, wellFormed.changesTo rfl (calls replica) (loads replica)
        (leaseTable_granted free) (wellFormed.nodup_granted free) valid ?_ ?_⟩
      · exact LeaseManager.change_granted applying stored (leaseTable_eq_none_iff.mpr free)
      · obtain ⟨notRevoking, pending⟩ := coordinated lease stored
        exact .of_insert notRevoking pending
  | @notGranted replica pointer lease applied applying stored =>
      have valid := (wellFormed.valid replica).setGrant stored .idle
      refine ⟨replica, wellFormed.changesTo_of_view_eq rfl rfl rfl rfl valid ?_⟩
      exact LeaseManager.view_setGrant (by simp [applying]) (by simp)
  | @finishGrant replica pointer expiry lease applied stored ended =>
      have valid := (((wellFormed.valid replica).setGrant stored .idle).enter lease.id
        stored).setExpiry expiry (.starting pointer)
      refine ⟨replica, wellFormed.changesTo_of_rows_eq rfl (calls replica) (loads replica) rfl
        valid ?_⟩
      exact LeaseManager.change_finishGrant applied stored ended
  | @unknown replica leaseID unmapped =>
      refine ⟨replica,
        wellFormed.changesTo_of_view_eq ?_ rfl rfl rfl (wellFormed.valid replica) rfl⟩
      exact (Function.update_eq_self replica system.base.replicas).symm
  | @keepalive replica pointer leaseID lease mapped stored =>
      have valid := (wellFormed.valid replica).alloc pointer
        { lease with expiresAt := deadline system.base.now lease.ttl }
      refine ⟨replica, wellFormed.changesTo_of_view_eq rfl rfl rfl rfl valid ?_⟩
      apply (wellFormed.valid replica).view_alloc
      intro old held
      obtain rfl := Option.some.inj (held.symm.trans stored)
      exact ⟨rfl, rfl⟩
  | @readDeadline replica expiry pointer lease starting stored =>
      exact ⟨replica, wellFormed.changesTo_setExpiry rfl (by simp [starting]) (by simp)⟩
  | @gone replica expiry leaseID expiresAt waiting =>
      exact ⟨replica, wellFormed.changesTo_setExpiry rfl (by simp [waiting]) (by simp)⟩
  | @found replica expiry current leaseID expiresAt waiting =>
      exact ⟨replica, wellFormed.changesTo_setExpiry rfl (by simp [waiting]) (by simp)⟩
  | @extended replica expiry spawned current leaseID looked free =>
      have valid := ((wellFormed.valid replica).setExpiry expiry .ended).setExpiry spawned
        (.starting current)
      refine ⟨replica, wellFormed.changesTo_of_view_eq rfl rfl rfl rfl valid ?_⟩
      have ended : Function.update ((system.base.replicas replica).expiries) expiry .ended spawned =
          .ended := by
        by_cases same : spawned = expiry
        · rw [same, Function.update_self]
        · rw [Function.update_of_ne same, free]
      rw [LeaseManager.view_setExpiry (by simp [LeaseManager.setExpiry, ended]) (by simp),
        LeaseManager.view_setExpiry (by simp [looked]) (by simp)]
      rfl
  | @expired replica expiry current _ leaseID lease looked =>
      exact ⟨replica, wellFormed.changesTo_setExpiry rfl (by simp [looked]) (by simp)⟩
  | @revoke replica expiry attempt leaseID notBefore checked =>
      exact ⟨replica, wellFormed.changesTo_setExpiry rfl (by simp [checked]) (by simp)⟩
  | @revokeFailed replica expiry attempt leaseID revoking =>
      refine ⟨replica, wellFormed.changesTo_setExpiry rfl (by simp [revoking]) fun id => ?_⟩
      split <;> simp
  | @revoked replica expiry attempt leaseID revoking =>
      have valid := (wellFormed.valid replica).setExpiry expiry (.unmapping leaseID)
      refine ⟨replica, wellFormed.changesTo rfl (calls replica) (loads replica)
        (leaseTable_filter system.base.kvLease leaseID) (wellFormed.nodup_revoked leaseID) valid
          ?_ ?_⟩
      · exact LeaseManager.change_revoked leaseID (by simp [revoking])
      · exact wellFormed.careful_revoked (coordinated leaseID attempt revoking)
  | @unmap replica expiry leaseID unmapping =>
      have valid := ((wellFormed.valid replica).unmapped leaseID).setExpiry expiry .ended
      refine ⟨replica, wellFormed.changesTo_of_rows_eq rfl (calls replica) (loads replica) rfl
        valid ?_⟩
      exact LeaseManager.change_unmap unmapping

theorem ReplicaSystem.step_manager {action : ManagerAction}
    (stepped : system.step (.manager action) = some next) :
    ∃ base, system.base.step action = some base ∧ next = system.follow base action := by
  have mapped : (system.base.step action).map (fun base => system.follow base action) =
      some next := by
    cases action with
    | scan replica =>
        simp only [ReplicaSystem.step, Option.ite_none_right_eq_some] at stepped
        exact stepped.2
    | _ => exact stepped
  obtain ⟨base, moved, rfl⟩ := Option.map_eq_some_iff.mp mapped
  exact ⟨base, moved, rfl⟩

theorem ReplicaSystem.WellFormed.step_changes (wellFormed : system.WellFormed)
    {action : ReplicaAction} (coordinated : Coordinated system action)
    (stepped : system.step action = some next) : ∃ actor, system.ChangesTo next actor := by
  have replicas : ∀ actor, system.base.replicas =
      Function.update system.base.replicas actor (system.base.replicas actor) :=
    fun actor => (Function.update_eq_self actor system.base.replicas).symm
  have loads : ∀ actor, system.loads = Function.update system.loads actor (system.loads actor) :=
    fun actor => (Function.update_eq_self actor system.loads).symm
  have calls : ∀ actor, system.calls = Function.update system.calls actor (system.calls actor) :=
    fun actor => (Function.update_eq_self actor system.calls).symm
  cases action with
  | manager action =>
      obtain ⟨base, moved, rfl⟩ := ReplicaSystem.step_manager stepped
      exact wellFormed.manager_changes (LeaseSystem.step_move moved) coordinated
  | loadFails replica =>
      simp only [ReplicaSystem.step, Option.ite_none_right_eq_some, Option.some.injEq] at stepped
      obtain ⟨_, rfl⟩ := stepped
      have valid := (wellFormed.valid replica).setToLoad []
      refine ⟨replica, wellFormed.changesTo_of_rows_eq rfl (calls replica) rfl rfl valid ?_⟩
      exact .giveUp rfl rfl rfl rfl
  | leaseRevoke replica call leaseID =>
      simp only [ReplicaSystem.step, Option.ite_none_right_eq_some, Option.some.injEq] at stepped
      obtain ⟨⟨_, idle⟩, rfl⟩ := stepped
      refine ⟨replica, wellFormed.changesTo_of_rows_eq (replicas replica) rfl (loads replica) rfl
        (wellFormed.valid replica) (LeaseManager.change_of_view_eq ?_)⟩
      exact LeaseManager.view_updateCall (by simp [idle]) (by simp)
  | leaseRevoked replica call failed =>
      simp only [ReplicaSystem.step] at stepped
      split at stepped
      case h_2 => cases stepped
      case h_1 leaseID revoking =>
        cases failed with
        | true =>
            obtain rfl := Option.some.inj stepped
            refine ⟨replica, wellFormed.changesTo_of_rows_eq (replicas replica) rfl (loads replica)
              rfl (wellFormed.valid replica) (LeaseManager.change_of_view_eq ?_)⟩
            exact LeaseManager.view_updateCall (by simp [revoking]) (by simp)
        | false =>
            obtain rfl := Option.some.inj stepped
            refine ⟨replica, wellFormed.changesTo (replicas replica) rfl (loads replica)
              (leaseTable_filter system.base.kvLease leaseID) (wellFormed.nodup_revoked leaseID)
                (wellFormed.valid replica) ?_ ?_⟩
            · exact LeaseManager.change_leaseRevoked leaseID (by simp [revoking])
            · exact wellFormed.careful_revoked (coordinated leaseID revoking)
  | leaseUnmap replica call =>
      simp only [ReplicaSystem.step] at stepped
      split at stepped
      case h_2 => cases stepped
      case h_1 leaseID unmapping =>
        obtain rfl := Option.some.inj stepped
        have valid := (wellFormed.valid replica).unmapped leaseID
        refine ⟨replica, wellFormed.changesTo_of_rows_eq rfl rfl (loads replica) rfl valid ?_⟩
        exact LeaseManager.change_leaseUnmap unmapping

end Steps

/-! ## Whole runs -/

/-- Every replica mirrors the table. -/
structure ReplicaSystem.Mirrored (system : ReplicaSystem) : Prop where
  wellFormed : system.WellFormed
  mirrors : ∀ replica,
    (system.view replica).Mirrors (leaseTable system.base.kvLease) (system.loads replica)

theorem ReplicaSystem.Mirrored.init (now : Int) : (ReplicaSystem.init now).Mirrored := by
  refine ⟨⟨List.nodup_nil, fun replica => ⟨?_, ?_⟩⟩, fun replica => ?_⟩
  · intro id pointer mapped
    cases mapped
  · exact fun pointer granted => absurd rfl granted
  · constructor
    · intro key value known
      cases known
    · intro key value loading
      cases loading
    · intro key value arriving
      obtain ⟨pointer, lease, applied, _⟩ := arriving
      cases applied
    · intro key leaving
      obtain ⟨expiry, unmapping⟩ | ⟨call, unmapping⟩ := leaving <;> cases unmapping
    · exact fun _ => rfl
    · exact fun begun => absurd rfl begun

theorem ReplicaSystem.Mirrored.step {system next : ReplicaSystem} {action : ReplicaAction}
    (coordinated : Coordinated system action) (stepped : system.step action = some next)
    (mirrored : system.Mirrored) : next.Mirrored := by
  obtain ⟨actor, changes⟩ := mirrored.wellFormed.step_changes coordinated stepped
  refine ⟨changes.wellFormed, fun replica => ?_⟩
  by_cases acts : replica = actor
  · subst acts
    exact (mirrored.mirrors replica).of_actor changes.careful changes.change
  · obtain ⟨sameView, sameLoad⟩ := changes.others replica acts
    rw [sameView, sameLoad]
    exact (mirrored.mirrors replica).of_other acts changes.careful changes.change

theorem ReplicaSystem.Mirrored.agrees {system : ReplicaSystem} (mirrored : system.Mirrored) :
    system.AgreesOnLeases := by
  constructor
  · intro row stored replica loaded entered
    have inTable : leaseTable system.base.kvLease row.leaseId = some row.ttlSec :=
      (leaseTable_eq_some_iff mirrored.wellFormed.distinct).mpr (List.mem_map_of_mem stored)
    have mirrors := mirrored.mirrors replica
    rw [loaded] at mirrors
    have known : (system.base.replicas replica).known row.leaseId = some row.ttlSec :=
      mirrors.finds inTable entered
    constructor
    · rw [LeaseManager.keepaliveTTL_eq, known, Option.getD_some]
    · obtain ⟨lease, held, _⟩ := Option.map_eq_some_iff.mp known
      rw [LeaseManager.getTTLFinds, held, Option.isSome_some]
  · intro leaseID removed replica forgotten
    have unknown : (system.base.replicas replica).known leaseID = none :=
      (mirrored.mirrors replica).forgets (leaseTable_eq_none_iff.mpr removed) forgotten
    rw [LeaseManager.keepaliveTTL_eq, unknown, Option.getD_none]

/-- In every coordinated run the replicas agree on the leases. -/
theorem coordinated_replicas_agree {now : Int} {actions : List ReplicaAction}
    {system : ReplicaSystem}
    (coordinated : Runs.Guarded ReplicaSystem.step Coordinated (.init now) actions)
    (ran : Runs.run ReplicaSystem.step (.init now) actions = some system) :
    system.AgreesOnLeases := by
  have mirrored : system.Mirrored :=
    Runs.run_invariant_of_guarded (fun _ _ _ met stepped before => before.step met stepped)
      coordinated ran (.init now)
  exact mirrored.agrees

/-- The first replica grants a lease, then a second one starts and loads it. -/
def coordinatedRun : List ReplicaAction :=
  [.manager (.start 0), .manager (.scan 0), .manager (.grant 0 60 0),
    .manager (.commitGrant 0 0 true), .manager (.finishGrant 0 0 0), .manager (.start 1),
    .manager (.scan 1), .manager (.loadNext 1 0 0)]

def coordinatedSystem : ReplicaSystem :=
  (Runs.run ReplicaSystem.step (.init 0) coordinatedRun).getD (.init 0)

theorem coordinatedSystem_agrees :
    coordinatedSystem.base.kvLease = [⟨1, 60, 0⟩] ∧ coordinatedSystem.loads 1 = .loaded ∧
      coordinatedSystem.AgreesOnLeases := by
  have coordinated : Runs.Guarded ReplicaSystem.step Coordinated (.init 0) coordinatedRun := by
    refine ⟨trivial, trivial, trivial, ?_, trivial, trivial, trivial, trivial, trivial⟩
    intro lease stored
    refine ⟨fun other revoking => ?_, fun other different => ?_⟩
    · obtain ⟨expiry, unmapping⟩ | ⟨call, unmapping⟩ := revoking
      · cases other <;> cases unmapping
      · cases other <;> cases unmapping
    · cases other with
      | zero => exact absurd rfl different
      | succ other => rfl
  exact ⟨rfl, rfl, coordinated_replicas_agree coordinated rfl⟩

/-- Both replicas have loaded before one of them grants a lease. -/
def lateGrantRun : List ReplicaAction :=
  [.manager (.start 0), .manager (.start 1), .manager (.scan 0), .manager (.scan 1),
    .manager (.grant 0 60 0), .manager (.commitGrant 0 0 true), .manager (.finishGrant 0 0 0)]

/-- A client revokes on the first replica a lease that the second has loaded. -/
def remoteRevokeRun : List ReplicaAction :=
  coordinatedRun ++ [.leaseRevoke 0 0 1, .leaseRevoked 0 0 false, .leaseUnmap 0 0]

def lateGrantSystem : ReplicaSystem :=
  (Runs.run ReplicaSystem.step (.init 0) lateGrantRun).getD (.init 0)

def remoteRevokeSystem : ReplicaSystem :=
  (Runs.run ReplicaSystem.step (.init 0) remoteRevokeRun).getD (.init 0)

theorem replicas_disagree :
    (Runs.run ReplicaSystem.step (.init 0) lateGrantRun = some lateGrantSystem ∧
      lateGrantSystem.base.kvLease = [⟨1, 60, 0⟩] ∧ lateGrantSystem.loads 1 = .loaded ∧
      (lateGrantSystem.base.replicas 1).keepaliveTTL 1 = 0 ∧
      ¬lateGrantSystem.AgreesOnLeases) ∧
    Runs.run ReplicaSystem.step (.init 0) remoteRevokeRun = some remoteRevokeSystem ∧
      remoteRevokeSystem.base.kvLease = [] ∧
      (remoteRevokeSystem.base.replicas 1).keepaliveTTL 1 = 60 ∧
      ¬remoteRevokeSystem.AgreesOnLeases := by
  refine ⟨⟨rfl, rfl, rfl, rfl, fun agrees => ?_⟩, rfl, rfl, rfl, fun agrees => ?_⟩
  · have finds := (agrees.1 ⟨1, 60, 0⟩ List.mem_cons_self 1 rfl ?_).1
    · cases finds
    · intro granting
      obtain ⟨pointer, lease, applied, _⟩ := granting
      cases applied
  · have forgets := agrees.2 1 (by intro row stored; cases stored) 1 ?_
    · cases forgets
    · intro revoking
      obtain ⟨expiry, unmapping⟩ | ⟨call, unmapping⟩ := revoking
      · cases expiry <;> cases unmapping
      · cases unmapping

end SpannerEtcd
