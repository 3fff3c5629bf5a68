import SpannerEtcd.Lease.Attachment

/-!
# What a revocation removes

A revocation runs on a replica.  It scans the keys of the lease, deletes each
of them in a transaction that checks the lease again, then deletes the record
in `kv_lease`, and last takes the lease out of the map of its replica.  It
may fail at every one of these steps, and any number of revocations of one
lease run next to each other and to all other clients.

Two things are recorded about each attempt, which no step looks at: the keys
that have carried the lease at every instant since the scan, and whether a
step of the attempt has taken away the record or the lease in memory.
-/

namespace SpannerEtcd

open VersionedLog

/-- The newest row of the key carries the lease. -/
def carries (db : DB) (leaseID : Int) (key : Bytes) : Bool :=
  (latestRow db.kv key).any fun row => decide (row.leaseId = leaseID)

def carriers (db : DB) (leaseID : Int) : List Bytes :=
  (db.kv.map Row.key).filter (carries db leaseID)

structure Attempt where
  leaseID : Int
  attached : List Bytes
  removed : Bool

structure RevocationSystem where
  base : RevokeSystem
  /-- The ids in the map of each replica. -/
  leases : Nat → List Int
  /-- `expireLeaseKeys` has succeeded, and the map entry is still there. -/
  toUnmap : Nat → Bool
  attempts : Nat → Attempt

def RevocationSystem.init : RevocationSystem :=
  { base := .init, leases := fun _ => [], toUnmap := fun _ => false
    attempts := fun _ => ⟨0, [], false⟩ }

inductive RevocationAction where
  /-- A step on the database, of a revocation or of anybody else. -/
  | lease (action : LeaseAction)
  /-- `Grant` or `loadLeases` puts a lease into the map of a replica. -/
  | remember (replica : Nat) (leaseID : Int)
  /-- The rest of `Revoke` after the keys and the record are gone. -/
  | unmap (revoker : Nat)

/-- The revocation that takes a step. -/
def RevocationAction.revoker? : RevocationAction → Option Nat
  | .lease (.revoke (.scan revoker _ _)) => some revoker
  | .lease (.revoke (.deleteKey revoker _)) => some revoker
  | .lease (.revoke (.deleteFails revoker)) => some revoker
  | .lease (.revoke (.scanFails revoker)) => some revoker
  | .lease (.revoke (.deleteRecord revoker _)) => some revoker
  | .unmap revoker => some revoker
  | .lease (.grant _ _ _) | .lease (.revoke (.other _)) | .remember _ _ => none

/-- The lease that the step begins to revoke. -/
def RevocationAction.begins (revoker : Nat) : RevocationAction → Option Int
  | .lease (.revoke (.scan other leaseID _)) => if other = revoker then some leaseID else none
  | _ => none

def RevokePhase.succeeded : RevokePhase → Bool
  | .returned _ none => true
  | _ => false

section
-- the replica on which each revocation runs
variable (home : Nat → Nat)

/-- The step without what is recorded about it. -/
def RevocationSystem.move (system : RevocationSystem) :
    RevocationAction → Option RevocationSystem
  | .lease action =>
      match RevocationAction.revoker? (.lease action) with
      | none => (system.base.leaseStep action).map fun next => { system with base := next }
      | some revoker =>
          if system.toUnmap revoker then none
          else
            (system.base.leaseStep action).map fun next =>
              { system with
                base := next
                toUnmap := Function.update system.toUnmap revoker
                  (next.revokers revoker).succeeded }
  | .remember replica leaseID =>
      some { system with
        leases := Function.update system.leases replica (leaseID :: system.leases replica) }
  | .unmap revoker =>
      match system.toUnmap revoker, system.base.revokers revoker with
      | true, .returned leaseID _ =>
          some { system with
            leases := Function.update system.leases (home revoker)
              ((system.leases (home revoker)).filter fun id => decide (id ≠ leaseID))
            toUnmap := Function.update system.toUnmap revoker false }
      | _, _ => none

/-- The record of a lease, or the lease in the map of a replica, is lost from
one state to the next. -/
def RevocationSystem.loses (before after : RevocationSystem) (replica : Nat) (leaseID : Int) :
    Bool :=
  (before.base.world.db.kvLease.any fun lease => decide (lease.leaseId = leaseID)) &&
      !(after.base.world.db.kvLease.any fun lease => decide (lease.leaseId = leaseID)) ||
    (before.leases replica).contains leaseID && !(after.leases replica).contains leaseID

/-- What is recorded about an attempt when the system moves on. -/
def RevocationSystem.record (before after : RevocationSystem) (action : RevocationAction)
    (revoker : Nat) : Attempt :=
  match action.begins revoker with
  | some leaseID => ⟨leaseID, carriers after.base.world.db leaseID, false⟩
  | none =>
      let attempt := before.attempts revoker
      { attempt with
        attached := attempt.attached.filter (carries after.base.world.db attempt.leaseID)
        removed := attempt.removed || decide (action.revoker? = some revoker) &&
          before.loses after (home revoker) attempt.leaseID }

def RevocationSystem.step (system : RevocationSystem) (action : RevocationAction) :
    Option RevocationSystem :=
  (system.move home action).map fun next =>
    { next with attempts := system.record home next action }

end

/-! ## Carrying a lease -/

/-- Tombstones carry no lease, so a key that carries one is live. -/
theorem World.Inv.carries_iff {world : World} (inv : world.Inv) {leaseID : Int}
    (leased : leaseID ≠ 0) {key : Bytes} :
    carries world.db leaseID key = true ↔
      ∃ kv, getLatestTxn world.db.kv key = some kv ∧ kv.leaseID = leaseID := by
  simp only [carries, Option.any_eq_true, decide_eq_true_eq]
  constructor
  · intro ⟨row, found, carried⟩
    have membership : row ∈ world.history := inv.mem_history (newest_mem found)
    have live : row.deleted = false := by
      cases inv.linked row membership with
      | first alone begins => exact begins.deleted
      | again before earlier gone begins => exact begins.deleted
      | next before earlier live continues tombstone =>
          by_contra deleted
          exact leased (carried ▸ (tombstone (by simpa using deleted)).2)
    exact ⟨scanKV row, liveKV_eq_some_iff.mpr ⟨row, found, live, rfl⟩, carried⟩
  · intro ⟨kv, present, carried⟩
    obtain ⟨row, found, live, rfl⟩ := liveKV_eq_some_iff.mp present
    exact ⟨row, found, carried⟩

theorem World.Inv.mem_leaseKeys_of_carries {world : World} (inv : world.Inv) {leaseID : Int}
    (leased : leaseID ≠ 0) {key : Bytes} (carried : carries world.db leaseID key = true) :
    key ∈ leaseKeys world.db.kv leaseID := by
  obtain ⟨kv, present, rfl⟩ := (inv.carries_iff leased).mp carried
  exact mem_leaseKeys present

theorem mem_carriers {db : DB} {leaseID : Int} {key : Bytes} :
    key ∈ carriers db leaseID ↔ carries db leaseID key = true := by
  simp only [carriers, List.mem_filter, and_iff_right_iff_imp, carries, Option.any_eq_true]
  intro ⟨row, found, _⟩
  exact List.mem_map.mpr ⟨row, newest_mem found, newest_key found⟩

/-! ## What is recorded -/

/-- How the record of an attempt agrees with its phase. -/
def Attempt.Agrees (attempt : Attempt) : RevokePhase → Prop
  | .idle => True
  | .expiring leaseID keys deleteErrs =>
      attempt.leaseID = leaseID ∧ attempt.removed = false ∧
        (leaseID ≠ 0 → ∀ key ∈ attempt.attached, key ∈ keys ∨ 0 < deleteErrs)
  | .returned leaseID none =>
      attempt.leaseID = leaseID ∧ (leaseID ≠ 0 → attempt.attached = [])
  | .returned leaseID (some _) => attempt.leaseID = leaseID ∧ attempt.removed = false

/-- Keys that drop out are no loss. -/
theorem Attempt.Agrees.filter {attempt : Attempt} {phase : RevokePhase}
    (agrees : attempt.Agrees phase) (still : Bytes → Bool) :
    Attempt.Agrees { attempt with attached := attempt.attached.filter still } phase := by
  match phase with
  | .idle => exact trivial
  | .expiring leaseID keys deleteErrs =>
      obtain ⟨named, kept, listed⟩ := agrees
      exact ⟨named, kept, fun leased key membership =>
        listed leased key (List.mem_of_mem_filter membership)⟩
  | .returned leaseID none =>
      obtain ⟨named, released⟩ := agrees
      exact ⟨named, fun leased => by simp [released leased]⟩
  | .returned leaseID (some err) => exact agrees

structure RevocationSystem.Sound (system : RevocationSystem) : Prop where
  inv : system.base.world.Inv
  finishing : ∀ revoker, system.toUnmap revoker = true →
    (system.base.revokers revoker).succeeded = true
  agrees : ∀ revoker, (system.attempts revoker).Agrees (system.base.revokers revoker)

theorem RevocationSystem.init_sound : RevocationSystem.init.Sound where
  inv := World.init_inv
  finishing := by simp [RevocationSystem.init]
  agrees := fun _ => trivial

/-- A step moves no revocation but the one that takes it. -/
theorem RevokeMove.frame {system next : RevokeSystem} {action : RevokeAction}
    (move : RevokeMove system action next) {revoker : Nat}
    (others : RevocationAction.revoker? (.lease (.revoke action)) ≠ some revoker) :
    next.revokers revoker = system.revokers revoker := by
  cases move with
  | other moved => rfl
  | scan acting | deleteKey | deleteFails | scanFails | deletesFailed | recordDeleted
  | recordNotDeleted =>
      refine Function.update_of_ne (fun same => others ?_) _ _
      rw [same]
      rfl

theorem RevokeMove.inv {system next : RevokeSystem} {action : RevokeAction}
    (move : RevokeMove system action next) (inv : system.world.Inv) : next.world.Inv := by
  cases move with
  | other moved => exact inv.step moved
  | deleteKey standing moved => exact inv.step moved
  | recordDeleted standing =>
      exact inv.control rfl rfl le_rfl rfl fun _ _ _ scanned => .inl scanned
  | scan | deleteFails | scanFails | deletesFailed | recordNotDeleted => exact inv

namespace RevocationSystem

variable {home : Nat → Nat} {system next : RevocationSystem} {action : RevocationAction}

theorem step_eq_some_iff :
    system.step home action = some next ↔
      ∃ moved, system.move home action = some moved ∧
        { moved with attempts := system.record home moved action } = next := by
  simp [step]

theorem begins_eq_none {revoker : Nat} (others : action.revoker? ≠ some revoker) :
    action.begins revoker = none := by
  match action with
  | .lease (.revoke (.scan acting leaseID order)) =>
      have different : acting ≠ revoker := fun same => others (same ▸ rfl)
      simp [RevocationAction.begins, different]
  | .lease (.grant _ _ _) | .lease (.revoke (.other _)) | .lease (.revoke (.deleteKey _ _))
  | .lease (.revoke (.deleteFails _)) | .lease (.revoke (.scanFails _))
  | .lease (.revoke (.deleteRecord _ _)) | .remember _ _ | .unmap _ => rfl

/-- Most steps only let keys drop out. -/
theorem record_of_kept {before after : RevocationSystem} {revoker : Nat}
    (goesOn : action.begins revoker = none)
    (kept : action.revoker? = some revoker →
      before.loses after (home revoker) (before.attempts revoker).leaseID = false) :
    before.record home after action revoker =
      { before.attempts revoker with
        attached := (before.attempts revoker).attached.filter
          (carries after.base.world.db (before.attempts revoker).leaseID) } := by
  have unlost : (decide (action.revoker? = some revoker) &&
      before.loses after (home revoker) (before.attempts revoker).leaseID) = false := by
    by_cases own : action.revoker? = some revoker
    · simp [kept own]
    · simp [own]
  simp [record, goesOn, unlost]

theorem loses_of_same {before after : RevocationSystem}
    (records : after.base.world.db.kvLease = before.base.world.db.kvLease)
    (memory : after.leases = before.leases) (replica : Nat) (leaseID : Int) :
    before.loses after replica leaseID = false := by
  simp [loses, records, memory]

/-- Whoever does not act keeps what was recorded, less the keys that no
longer carry the lease. -/
theorem Sound.agrees_of_other (sound : system.Sound) {moved : RevocationSystem} {revoker : Nat}
    (others : action.revoker? ≠ some revoker)
    (standing : moved.base.revokers revoker = system.base.revokers revoker) :
    (system.record home moved action revoker).Agrees (moved.base.revokers revoker) := by
  rw [record_of_kept (begins_eq_none others) fun own => absurd own others, standing]
  exact (sound.agrees revoker).filter _

/-- An error returned, or certain to be returned. -/
def Failing (leaseID : Int) : RevokePhase → Prop
  | .expiring other _ deleteErrs => other = leaseID ∧ 0 < deleteErrs
  | .returned other (some _) => other = leaseID
  | _ => False

/-- A step that fails leaves the record of the lease and the map alone. -/
theorem Sound.agrees_of_failing (sound : system.Sound) {moved : RevocationSystem} {revoker : Nat}
    {leaseID : Int} {keys : List Bytes} {deleteErrs : Nat}
    (standing : system.base.revokers revoker = .expiring leaseID keys deleteErrs)
    (goesOn : action.begins revoker = none)
    (records : moved.base.world.db.kvLease = system.base.world.db.kvLease)
    (memory : moved.leases = system.leases)
    (failing : Failing leaseID (moved.base.revokers revoker)) :
    (system.record home moved action revoker).Agrees (moved.base.revokers revoker) := by
  have before := sound.agrees revoker
  rw [standing] at before
  obtain ⟨named, kept, _⟩ := before
  rw [record_of_kept goesOn fun _ => loses_of_same records memory _ _]
  generalize moved.base.revokers revoker = phase at failing
  match phase with
  | .idle => exact trivial
  | .expiring other later failed =>
      exact ⟨named.trans failing.1.symm, kept, fun _ _ _ => .inr failing.2⟩
  | .returned other none => exact failing.elim
  | .returned other (some err) => exact ⟨named.trans (Eq.symm failing), kept⟩

/-- The revocation that takes a step agrees with its new phase. -/
theorem Sound.agrees_of_own (sound : system.Sound) {moved : RevocationSystem}
    {action : RevokeAction} (move : RevokeMove system.base action moved.base)
    (memory : moved.leases = system.leases) {revoker : Nat}
    (own : RevocationAction.revoker? (.lease (.revoke action)) = some revoker) :
    (system.record home moved (.lease (.revoke action)) revoker).Agrees
      (moved.base.revokers revoker) := by
  have before := sound.agrees revoker
  generalize reached : moved.base = next at move
  cases move with
  | other => cases own
  | @scan acting leaseID order ready range permuted =>
      cases own
      have begun : RevocationAction.begins revoker
          (.lease (.revoke (.scan revoker leaseID order))) = some leaseID := if_pos rfl
      simp only [record, begun, reached, RevokeSystem.setRevoker, Function.update_self]
      refine ⟨rfl, rfl, fun leased key membership => .inl (permuted.mem_iff.mpr ?_)⟩
      exact sound.inv.mem_leaseKeys_of_carries leased (mem_carriers.mp membership)
  | @deleteKey _ leaseID key rest deleteErrs standing ts world stepped =>
      cases own
      rw [standing] at before
      obtain ⟨named, kept, listed⟩ := before
      rw [record_of_kept rfl fun _ => loses_of_same
        (by rw [reached]; exact World.step_kvLease stepped) memory _ _]
      simp only [reached, RevokeSystem.setRevoker, Function.update_self]
      refine ⟨named, kept, fun leased other membership => ?_⟩
      obtain ⟨attached, still⟩ := List.mem_filter.mp membership
      refine (listed leased other attached).imp_left fun among => ?_
      obtain rfl | later := List.mem_cons.mp among
      · -- after its transaction the key does not carry the lease
        rw [named] at still
        have released := (deleteIfLease_step sound.inv stepped).2
        obtain ⟨kv, present, carried⟩ :=
          ((sound.inv.step stepped).carries_iff leased).mp still
        exact absurd carried (released kv present)
      · exact later
  | deleteFails standing =>
      cases own
      rw [← reached]
      refine sound.agrees_of_failing standing rfl (by rw [reached]; rfl) memory ?_
      simp [reached, RevokeSystem.setRevoker, Failing]
  | scanFails standing =>
      cases own
      rw [← reached]
      refine sound.agrees_of_failing standing rfl (by rw [reached]; rfl) memory ?_
      simp [reached, RevokeSystem.setRevoker, Failing]
  | deletesFailed applied standing =>
      cases own
      rw [← reached]
      refine sound.agrees_of_failing standing rfl (by rw [reached]; rfl) memory ?_
      simp [reached, RevokeSystem.setRevoker, Failing]
  | recordDeleted standing =>
      cases own
      rw [standing] at before
      simp only [RevokeSystem.setRevoker, Function.update_self]
      refine ⟨before.1, fun leased => ?_⟩
      have released : (system.attempts revoker).attached = [] := by
        apply List.eq_nil_iff_forall_not_mem.mpr
        intro key attached
        simpa using before.2.2 leased key attached
      simp [record, RevocationAction.begins, released]
  | recordNotDeleted standing =>
      cases own
      rw [← reached]
      refine sound.agrees_of_failing standing rfl (by rw [reached]; rfl) memory ?_
      simp [reached, RevokeSystem.setRevoker, Failing]

/-- A step on the database, with the flags of the revocations that are to
finish in memory. -/
theorem move_lease {action : LeaseAction} {moved : RevocationSystem}
    (moves : system.move home (.lease action) = some moved) :
    system.base.leaseStep action = some moved.base ∧ moved.leases = system.leases ∧
      ∀ revoker, moved.toUnmap revoker = true →
        (moved.base.revokers revoker).succeeded = true ∨
          RevocationAction.revoker? (.lease action) ≠ some revoker ∧
            system.toUnmap revoker = true := by
  simp only [move] at moves
  cases acting : RevocationAction.revoker? (.lease action) with
  | none =>
      simp only [acting, Option.map_eq_some_iff] at moves
      obtain ⟨next, stepped, rfl⟩ := moves
      exact ⟨stepped, rfl, fun revoker flagged => .inr ⟨nofun, flagged⟩⟩
  | some own =>
      simp only [acting, Option.ite_none_left_eq_some, Option.map_eq_some_iff] at moves
      obtain ⟨_, next, stepped, rfl⟩ := moves
      refine ⟨stepped, rfl, fun revoker flagged => ?_⟩
      by_cases same : revoker = own
      · subst same
        simpa only [Function.update_self] using Or.inl flagged
      · right
        simp only [Function.update_of_ne same] at flagged
        exact ⟨fun owns => same (Option.some.inj owns).symm, flagged⟩

theorem move_unmap {acting : Nat} {moved : RevocationSystem}
    (moves : system.move home (.unmap acting) = some moved) :
    moved.base = system.base ∧ system.toUnmap acting = true ∧
      ∀ revoker, moved.toUnmap revoker = true → system.toUnmap revoker = true := by
  simp only [move] at moves
  split at moves
  next flagged _ =>
    cases moves
    refine ⟨rfl, flagged, fun revoker stillFlagged => ?_⟩
    by_cases same : revoker = acting
    · exact same ▸ flagged
    · simpa only [Function.update_of_ne same] using stillFlagged
  next => cases moves

theorem move_remember {replica : Nat} {leaseID : Int} {moved : RevocationSystem}
    (moves : system.move home (.remember replica leaseID) = some moved) :
    moved.base = system.base ∧ moved.toUnmap = system.toUnmap := by
  cases moves
  exact ⟨rfl, rfl⟩

theorem Sound.lease (sound : system.Sound) {action : LeaseAction} {moved : RevocationSystem}
    (moves : system.move home (.lease action) = some moved) :
    Sound { moved with attempts := system.record home moved (.lease action) } := by
  obtain ⟨stepped, memory, flags⟩ := move_lease moves
  cases action with
  | grant leaseID ttl ts =>
      simp only [RevokeSystem.leaseStep, Option.ite_none_right_eq_some,
        Option.some.injEq] at stepped
      obtain ⟨⟨later, _⟩, granted⟩ := stepped
      have standing : ∀ revoker,
          moved.base.revokers revoker = system.base.revokers revoker := by
        intro revoker
        rw [← granted]
      refine ⟨?_, fun revoker flagged => ?_, fun revoker =>
        sound.agrees_of_other (by simp [RevocationAction.revoker?]) (standing revoker)⟩
      · rw [← granted]
        exact sound.inv.control rfl rfl later.le rfl fun _ _ _ scanned => .inl scanned
      · obtain succeeded | ⟨_, before⟩ := flags revoker flagged
        · exact succeeded
        · exact (standing revoker).symm ▸ sound.finishing revoker before
  | revoke action =>
      have move := RevokeSystem.step_move stepped
      refine ⟨move.inv sound.inv, fun revoker flagged => ?_, fun revoker => ?_⟩
      · obtain succeeded | ⟨others, before⟩ := flags revoker flagged
        · exact succeeded
        · exact (move.frame others).symm ▸ sound.finishing revoker before
      · by_cases own : RevocationAction.revoker? (.lease (.revoke action)) = some revoker
        · exact sound.agrees_of_own move memory own
        · exact sound.agrees_of_other own (move.frame own)

theorem Sound.unmap (sound : system.Sound) {acting : Nat} {moved : RevocationSystem}
    (moves : system.move home (.unmap acting) = some moved) :
    Sound { moved with attempts := system.record home moved (.unmap acting) } := by
  obtain ⟨same, flagged, flags⟩ := move_unmap moves
  refine ⟨same ▸ sound.inv, fun revoker stillFlagged => ?_, fun revoker => ?_⟩
  · rw [same]
    exact sound.finishing revoker (flags revoker stillFlagged)
  by_cases own : revoker = acting
  · subst own
    -- the attempt has succeeded, so it may take the lease out of the map
    have succeeded := sound.finishing revoker flagged
    have before := sound.agrees revoker
    simp only [same]
    generalize system.base.revokers revoker = phase at succeeded before
    match phase with
    | .returned leaseID none =>
        refine ⟨before.1, fun leased => ?_⟩
        simp [record, RevocationAction.begins, before.2 leased]
  · have others : RevocationAction.revoker? (.unmap acting) ≠ some revoker :=
      fun owns => own (Option.some.inj owns).symm
    exact sound.agrees_of_other others (by rw [same])

theorem Sound.step (stepped : system.step home action = some next) (sound : system.Sound) :
    next.Sound := by
  obtain ⟨moved, moves, rfl⟩ := step_eq_some_iff.mp stepped
  cases action with
  | lease action => exact sound.lease moves
  | remember replica leaseID =>
      obtain ⟨same, flags⟩ := move_remember moves
      refine ⟨same ▸ sound.inv, fun revoker flagged => ?_, fun revoker => ?_⟩
      · rw [same]
        exact sound.finishing revoker (flags ▸ flagged)
      · have others : RevocationAction.revoker? (.remember replica leaseID) ≠ some revoker := by
          simp [RevocationAction.revoker?]
        exact sound.agrees_of_other others (by rw [same])
  | unmap revoker => exact sound.unmap moves

theorem Sound.reaches {finish : RevocationSystem} (sound : system.Sound)
    (reached : Runs.Reaches (RevocationSystem.step home) system finish) : finish.Sound :=
  reached.invariant (fun _ _ _ stepped before => before.step stepped) sound

/-! ## Tombstones and records -/

/-- The rows that a revocation adds are tombstones of keys that carry its
lease at that commit. -/
theorem Sound.tombstones (sound : system.Sound) (stepped : system.step home action = some next)
    {revoker : Nat} (own : action.revoker? = some revoker) :
    ∀ row ∈ addedRows system.base.world next.base.world, row.deleted = true ∧
      carries system.base.world.db (system.attempts revoker).leaseID row.key = true := by
  obtain ⟨moved, moves, rfl⟩ := step_eq_some_iff.mp stepped
  have nothing : moved.base.world.history = system.base.world.history →
      addedRows system.base.world moved.base.world = [] := by
    intro same
    simp [addedRows, same]
  cases action with
  | lease action =>
      obtain ⟨moved', memory, _⟩ := move_lease moves
      cases action with
      | grant => cases own
      | revoke action =>
          have before := sound.agrees revoker
          generalize moved.base = reached at moved' nothing
          cases RevokeSystem.step_move moved' with
          | other => cases own
          | @deleteKey _ leaseID key rest deleteErrs standing ts world written =>
              cases own
              rw [standing] at before
              intro row new
              obtain ⟨latest, found, carried⟩ := deleteIfLease_over_lease written new
              refine ⟨(deleteIfLease_step sound.inv written).1 row new, ?_⟩
              simpa [carries, found, before.1] using carried
          | scan | deleteFails | scanFails | deletesFailed | recordDeleted | recordNotDeleted =>
              simp [nothing rfl]
  | remember => cases own
  | unmap acting =>
      have same := (move_unmap moves).1
      simp [nothing (by rw [same])]

/-- A record is deleted only by a revocation of the lease that has released
every key of its scan. -/
theorem Sound.record_removed (sound : system.Sound) (stepped : system.step home action = some next)
    {leaseID : Int} (leased : leaseID ≠ 0) (granted : Granted system.base.world.db leaseID)
    (gone : ¬Granted next.base.world.db leaseID) :
    ∃ revoker, action = .lease (.revoke (.deleteRecord revoker true)) ∧
      next.base.revokers revoker = .returned leaseID none ∧
      (next.attempts revoker).attached = [] := by
  have nextSound := sound.step stepped
  obtain ⟨moved, moves, rfl⟩ := step_eq_some_iff.mp stepped
  have kept : moved.base.world.db.kvLease ≠ system.base.world.db.kvLease := by
    intro same
    exact gone (by simpa only [Granted, same] using granted)
  cases action with
  | lease action =>
      obtain ⟨moved', memory, _⟩ := move_lease moves
      cases action with
      | grant id ttl ts =>
          simp only [RevokeSystem.leaseStep, Option.ite_none_right_eq_some,
            Option.some.injEq] at moved'
          obtain ⟨lease, membership, same⟩ := granted
          refine absurd ⟨lease, ?_, same⟩ gone
          simp only [← moved'.2, grantLease]
          exact List.mem_append_left _ membership
      | revoke action =>
          have agrees := nextSound.agrees
          simp only at agrees gone ⊢
          generalize moved.base = reached at moved' kept agrees gone ⊢
          cases RevokeSystem.step_move moved' with
          | other written => exact absurd (World.step_kvLease written) kept
          | deleteKey standing written => exact absurd (World.step_kvLease written) kept
          | @recordDeleted revoker other standing =>
              have same : other = leaseID := by
                by_contra different
                obtain ⟨lease, membership, same⟩ := granted
                refine gone ⟨lease, List.mem_filter.mpr ⟨membership, ?_⟩, same⟩
                simpa [same] using fun swapped => different swapped.symm
              subst same
              have returned : RevokeSystem.revokers
                  (RevokeSystem.setRevoker { system.base with
                    world := deleteLease system.base.world other } revoker
                    (.returned other none)) revoker = .returned other none :=
                Function.update_self ..
              have released := agrees revoker
              rw [returned] at released
              exact ⟨revoker, rfl, returned, released.2 leased⟩
          | scan | deleteFails | scanFails | deletesFailed | recordNotDeleted =>
              exact absurd rfl kept
  | remember => exact absurd (by rw [(move_remember moves).1]) kept
  | unmap acting => exact absurd (by rw [(move_unmap moves).1]) kept

end RevocationSystem

/-! ## A revocation without concurrent writes -/

/-- Nobody else writes, and the revocation does not begin anew. -/
def AloneWriting (revoker : Nat) : RevocationAction → Prop
  | .lease (.revoke (.other (.write _ _))) => False
  | .lease (.revoke (.deleteKey other _)) => other = revoker
  | .lease (.revoke (.scan other _ _)) => other ≠ revoker
  | _ => True

section
variable (before : AbstractMap) (leaseID : Int)

/-- The live entry of the key has the lease. -/
def AbstractMap.Leased (key : Bytes) : Prop := ∃ kv, before key = some kv ∧ kv.leaseID = leaseID

/-- Every key is as before, and still to come if it has the lease; or it had
the lease, and is gone. -/
def Expired (map : AbstractMap) (remaining : List Bytes) : Prop :=
  ∀ key, (map key = before key ∧ (before.Leased leaseID key → key ∈ remaining)) ∨
    (before.Leased leaseID key ∧ map key = none)

/-- How far the revocation has come; nothing is said once a delete failed. -/
def ExpiredIn (map : AbstractMap) : RevokePhase → Prop
  | .expiring other keys 0 => other = leaseID ∧ Expired before leaseID map keys
  | .returned other none => other = leaseID ∧ Expired before leaseID map []
  | _ => True

end

/-- What the delete of a lease key does to the live entries. -/
theorem deleteIfLease_entries {world next : World} (inv : world.Inv) {key : Bytes} {leaseID : Int}
    {ts : CommitTs} (stepped : world.step (.write (.deleteIfLease key leaseID) ts) = some next)
    (other : Bytes) :
    (other = key ∧ AbstractMap.Leased (getLatestTxn world.db.kv) leaseID key ∧
        getLatestTxn next.db.kv other = none) ∨
      ((other = key → ¬AbstractMap.Leased (getLatestTxn world.db.kv) leaseID key) ∧
        getLatestTxn next.db.kv other = getLatestTxn world.db.kv other) := by
  simp only [World.step, Option.ite_none_right_eq_some, Option.some.injEq] at stepped
  obtain ⟨later, rfl⟩ := stepped
  obtain ⟨report, refined⟩ := deleteIfLease_refines inv later none key leaseID
  have reached := (congrArg Prod.snd refined).symm
  simp only [WriteOp.call_snd] at reached
  rw [reached]
  cases found : getLatestTxn world.db.kv key with
  | none =>
      right
      simp [WriteOp.spec, found, AbstractMap.Leased]
  | some prev =>
      by_cases agrees : prev.leaseID = leaseID
      · simp only [WriteOp.spec, found, KV.binding, agrees, if_true, AbstractMap.set,
          AbstractMap.Leased, Option.some.injEq, exists_eq_left']
        by_cases same : other = key
        · subst same
          exact .inl ⟨rfl, trivial, Function.update_self ..⟩
        · exact .inr ⟨fun equal => absurd equal same, Function.update_of_ne same _ _⟩
      · right
        simp [WriteOp.spec, found, KV.binding, agrees, AbstractMap.Leased]

theorem Expired.deleteKey {before : AbstractMap} {world next : World} (inv : world.Inv)
    {key : Bytes} {rest : List Bytes} {leaseID : Int} {ts : CommitTs}
    (stepped : world.step (.write (.deleteIfLease key leaseID) ts) = some next)
    (expired : Expired before leaseID (getLatestTxn world.db.kv) (key :: rest)) :
    Expired before leaseID (getLatestTxn next.db.kv) rest := by
  intro other
  obtain ⟨same, leased, gone⟩ | ⟨spared, unchanged⟩ := deleteIfLease_entries inv stepped other
  · subst same
    obtain ⟨asBefore, _⟩ | ⟨wasLeased, _⟩ := expired other
    · right
      rw [AbstractMap.Leased, asBefore] at leased
      exact ⟨leased, gone⟩
    · exact .inr ⟨wasLeased, gone⟩
  · rw [unchanged]
    refine (expired other).imp_left fun ⟨asBefore, listed⟩ => ⟨asBefore, fun leased => ?_⟩
    obtain same | later := List.mem_cons.mp (listed leased)
    · subst same
      refine absurd ?_ (spared rfl)
      rwa [AbstractMap.Leased, asBefore]
    · exact later

theorem RevokeMove.expiredIn {before : AbstractMap} {leaseID : Int} {system next : RevokeSystem}
    {action : RevokeAction} (move : RevokeMove system action next) (inv : system.world.Inv)
    {revoker : Nat} (undisturbed : AloneWriting revoker (.lease (.revoke action)))
    (expired : ExpiredIn before leaseID (getLatestTxn system.world.db.kv)
      (system.revokers revoker)) :
    ExpiredIn before leaseID (getLatestTxn next.world.db.kv) (next.revokers revoker) := by
  have nextInv := move.inv inv
  by_cases own : RevocationAction.revoker? (.lease (.revoke action)) = some revoker
  · cases move with
    | other => cases own
    | scan acting => exact absurd (Option.some.inj own) undisturbed
    | @deleteKey _ _ key rest deleteErrs standing ts world moved =>
        cases own
        rw [standing] at expired
        simp only [RevokeSystem.setRevoker, Function.update_self]
        cases deleteErrs with
        | zero =>
            obtain ⟨rfl, expired⟩ := expired
            exact ⟨rfl, expired.deleteKey inv moved⟩
        | succ failed => exact trivial
    | recordDeleted standing =>
        cases own
        rw [standing] at expired
        simp only [RevokeSystem.setRevoker, Function.update_self]
        exact expired
    | deleteFails | scanFails | deletesFailed | recordNotDeleted =>
        cases own
        simp only [RevokeSystem.setRevoker, Function.update_self]
        exact trivial
  · rw [move.frame own]
    cases move with
    | @other action world moved =>
        have unseen : ∀ op ts, action ≠ .write op ts := by
          intro op ts same
          rw [same] at undisturbed
          exact undisturbed
        rw [inv.getLatestTxn_of_history nextInv (step_history unseen moved)]
        exact expired
    | deleteKey => exact absurd (congrArg some undisturbed) own
    | scan | deleteFails | scanFails | deletesFailed | recordDeleted | recordNotDeleted =>
        exact expired

namespace RevocationSystem

variable {home : Nat → Nat} {system next : RevocationSystem} {action : RevocationAction}
  {before : AbstractMap} {leaseID : Int} {revoker : Nat}

theorem Sound.expiredIn (sound : system.Sound) (undisturbed : AloneWriting revoker action)
    (stepped : system.step home action = some next)
    (expired : ExpiredIn before leaseID (getLatestTxn system.base.world.db.kv)
      (system.base.revokers revoker)) :
    ExpiredIn before leaseID (getLatestTxn next.base.world.db.kv)
      (next.base.revokers revoker) := by
  obtain ⟨moved, moves, rfl⟩ := step_eq_some_iff.mp stepped
  cases action with
  | lease action =>
      obtain ⟨moved', _, _⟩ := move_lease moves
      cases action with
      | grant id ttl ts =>
          simp only [RevokeSystem.leaseStep, Option.ite_none_right_eq_some,
            Option.some.injEq] at moved'
          simp only [← moved'.2]
          exact expired
      | revoke action =>
          exact (RevokeSystem.step_move moved').expiredIn sound.inv undisturbed expired
  | remember => exact (move_remember moves).1 ▸ expired
  | unmap => exact (move_unmap moves).1 ▸ expired

/-- A revocation that nobody disturbs and that succeeds has deleted the keys
of its lease, and nothing else. -/
theorem Sound.revoke_alone (sound : system.Sound) {order : List Bytes}
    {rest : List RevocationAction} {finish : RevocationSystem}
    (ran : Runs.run (RevocationSystem.step home) system
      (.lease (.revoke (.scan revoker leaseID order)) :: rest) = some finish)
    (undisturbed : ∀ action ∈ rest, AloneWriting revoker action)
    (succeeded : finish.base.revokers revoker = .returned leaseID none) :
    Expired (getLatestTxn system.base.world.db.kv) leaseID
      (getLatestTxn finish.base.world.db.kv) [] := by
  obtain ⟨scanned, stepped, finished⟩ := Runs.run_cons_eq_some.mp ran
  have begun : ExpiredIn (getLatestTxn system.base.world.db.kv) leaseID
      (getLatestTxn scanned.base.world.db.kv) (scanned.base.revokers revoker) := by
    obtain ⟨moved, moves, rfl⟩ := step_eq_some_iff.mp stepped
    obtain ⟨moved', _, _⟩ := move_lease moves
    simp only
    generalize moved.base = reached at moved'
    have scans : system.base.step (.scan revoker leaseID order) = some reached := moved'
    cases RevokeSystem.step_move scans with
    | scan acting ready range permuted =>
        simp only [RevokeSystem.setRevoker, Function.update_self]
        refine ⟨rfl, fun key => .inl ⟨rfl, fun leased => ?_⟩⟩
        obtain ⟨kv, present, rfl⟩ := leased
        exact permuted.mem_iff.mpr (mem_leaseKeys present)
  have kept : finish.Sound ∧ ExpiredIn (getLatestTxn system.base.world.db.kv) leaseID
      (getLatestTxn finish.base.world.db.kv) (finish.base.revokers revoker) := by
    apply Runs.run_invariant_of_guarded _
      (Runs.Guarded.of_forall fun action membership _ => undisturbed action membership) finished
      ⟨sound.step stepped, begun⟩
    intro state action next condition moved before
    exact ⟨before.1.step moved, before.1.expiredIn condition moved before.2⟩
  have expired := kept.2
  rw [succeeded] at expired
  exact expired.2

end RevocationSystem

/-- Whatever runs next to it and fails in it, a revocation of a lease
tombstones only keys that carry the lease at that commit; the record goes,
and the revocation succeeds, only in an attempt during which every key that
carried the lease at its scan was at some instant without it; an attempt that
returns an error has removed neither the record nor the lease in memory.  If
nobody else writes, a revocation that succeeds leaves no live key with the
lease and all other keys as they were. -/
theorem revocation_contract (home : Nat → Nat) {leaseID : Int} (leased : leaseID ≠ 0)
    {system : RevocationSystem}
    (reached : Runs.Reaches (RevocationSystem.step home) .init system) :
    (∀ action next revoker, system.step home action = some next →
      action.revoker? = some revoker → (system.attempts revoker).leaseID = leaseID →
      ∀ row ∈ addedRows system.base.world next.base.world, row.deleted = true ∧
        carries system.base.world.db leaseID row.key = true) ∧
    (∀ action next, system.step home action = some next →
      Granted system.base.world.db leaseID → ¬Granted next.base.world.db leaseID →
      ∃ revoker, action = .lease (.revoke (.deleteRecord revoker true)) ∧
        next.base.revokers revoker = .returned leaseID none ∧
        (next.attempts revoker).attached = []) ∧
    (∀ revoker, system.base.revokers revoker = .returned leaseID none →
      (system.attempts revoker).attached = []) ∧
    (∀ revoker err, system.base.revokers revoker = .returned leaseID (some err) →
      (system.attempts revoker).removed = false) ∧
    (∀ revoker order rest finish,
      Runs.run (RevocationSystem.step home) system
        (.lease (.revoke (.scan revoker leaseID order)) :: rest) = some finish →
      (∀ action ∈ rest, AloneWriting revoker action) →
      finish.base.revokers revoker = .returned leaseID none →
      (∀ key kv, getLatestTxn finish.base.world.db.kv key = some kv → kv.leaseID ≠ leaseID) ∧
        ∀ key, carries system.base.world.db leaseID key = false →
          getLatestTxn finish.base.world.db.kv key = getLatestTxn system.base.world.db.kv key) := by
  have sound : system.Sound := RevocationSystem.init_sound.reaches reached
  refine ⟨?tombstones, ?record, ?success, ?failure, ?alone⟩
  case tombstones =>
    intro action next revoker stepped own named
    exact named ▸ sound.tombstones stepped own
  case record =>
    intro action next stepped granted gone
    exact sound.record_removed stepped leased granted gone
  case success =>
    intro revoker returned
    have agrees := sound.agrees revoker
    rw [returned] at agrees
    exact agrees.2 leased
  case failure =>
    intro revoker err returned
    have agrees := sound.agrees revoker
    rw [returned] at agrees
    exact agrees.2
  case alone =>
    intro revoker order rest finish ran undisturbed succeeded
    have expired := sound.revoke_alone ran undisturbed succeeded
    constructor
    · intro key kv present carried
      obtain ⟨asBefore, listed⟩ | ⟨_, gone⟩ := expired key
      · exact List.not_mem_nil (listed ⟨kv, asBefore.symm.trans present, carried⟩)
      · simp [gone] at present
    · intro key spared
      obtain ⟨asBefore, _⟩ | ⟨wasLeased, _⟩ := expired key
      · exact asBefore
      · rw [(sound.inv.carries_iff leased).mpr wasLeased] at spared
        cases spared

/-- A lease with one key is revoked on the replica that holds it. -/
def revocationRun : List RevocationAction :=
  [.lease (.grant 7 15 5), .remember 0 7, .lease (putLeased (ascii "a") 7 6),
    .lease (.revoke (.scan 0 7 [ascii "a"])), .lease (.revoke (.deleteKey 0 7)),
    .lease (.revoke (.deleteRecord 0 true)), .unmap 0]

def revocationSystem : RevocationSystem :=
  (Runs.run (RevocationSystem.step id) .init revocationRun).getD .init

theorem revocationRun_contract :
    revocationSystem.base.revokers 0 = .returned 7 none ∧ revocationSystem.leases 0 = [] ∧
      revocationSystem.base.world.db.kvLease = [] ∧
      (revocationSystem.attempts 0).attached = [] := by
  have reached : Runs.Reaches (RevocationSystem.step id) .init revocationSystem :=
    ⟨revocationRun, rfl⟩
  have leased : (7 : Int) ≠ 0 := by decide
  exact ⟨rfl, rfl, rfl, (revocation_contract id leased reached).2.2.1 0 rfl⟩

end SpannerEtcd
