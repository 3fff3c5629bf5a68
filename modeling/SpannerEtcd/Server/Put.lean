import SpannerEtcd.Server.Response
import SpannerEtcd.Store.Compaction

/-!
# Concurrent puts

`Put` is three store calls: `Create`, and if the key exists `Get` followed by
`Update` at the revision that `Get` returned.  `Update` reports a lost race
through its flag, which `Put` discards.  Any number of clients run `Put`
against the store while any other steps of the system go on.

The phases carry ghosts: the history at the current-revision read of `Get`
and at `Update`, and the rows that the call itself committed.
-/

namespace SpannerEtcd

open VersionedLog

inductive PutPath where
  | created
  | updated (atRead atUpdate : List Row)
  | failed

/-- Where a client stands between two accesses to the store. -/
inductive PutPhase where
  | idle
  /-- `Create` has returned `ErrKeyExists`. -/
  | existing (request : PutRequest)
  /-- `Get` has read the current revision. -/
  | revisionRead (request : PutRequest) (currentRev : Int) (atRead : List Row)
  /-- `Get` has returned. -/
  | rowRead (request : PutRequest) (kv : Option KV) (atRead : List Row)
  /-- The transaction of `Update` has found another revision or no entry. -/
  | missed (request : PutRequest) (prev : Option KV) (atRead atUpdate : List Row)
  | finished (request : PutRequest) (reply : Except GrpcErr PutResponse)
      (committed : List Row) (path : PutPath)

/-- A client may send a request when it waits for no reply. -/
def PutPhase.ready : PutPhase → Bool
  | .idle => true
  | .finished _ _ _ _ => true
  | _ => false

structure PutSystem where
  world : World
  clients : Nat → PutPhase

def PutSystem.init : PutSystem :=
  { world := .init, clients := fun _ => .idle }

inductive PutAction where
  /-- Any other step of the system. -/
  | other (action : Action)
  | create (client : Nat) (request : PutRequest) (ts : CommitTs)
  | readRevision (client : Nat)
  | readRow (client : Nat)
  | update (client : Nat) (ts : CommitTs)
  | readReported (client : Nat) (readOk : Bool)
  /-- The access the client is about to make fails in Spanner. -/
  | fail (client : Nat) (text : String)

def PutSystem.setClient (system : PutSystem) (client : Nat) (phase : PutPhase) : PutSystem :=
  { system with clients := Function.update system.clients client phase }

/-- What `Put` does with the result of `Create`. -/
def afterCreate (request : PutRequest) (committed : List Row) :
    Except StoreErr Int → PutPhase
  | .ok rev => .finished request (.ok { header := header rev, prevKv := none }) committed .created
  | .error .keyExists => .existing request
  | .error err => .finished request (.error (toGRPCErr err)) [] .failed

/-- What `Put` does with the result of the transaction of `Update`; the flag
only decides whether `Update` reads the current revision once more. -/
def afterUpdate (request : PutRequest) (atRead atUpdate committed : List Row) :
    Except StoreErr CasResult → PutPhase
  | .ok result =>
      if result.ok then
        .finished request (.ok (putResponse request result.rev result.prev)) committed
          (.updated atRead atUpdate)
      else .missed request result.prev atRead atUpdate
  | .error err => .finished request (.error (toGRPCErr err)) [] .failed

def PutSystem.step (system : PutSystem) : PutAction → Option PutSystem
  | .other action =>
      (system.world.step action).map fun next => { system with world := next }
  | .create client request ts =>
      if (system.clients client).ready then
        (system.world.step (.write (.create request.key request.value request.lease) ts)).map
          fun next => { system with world := next }.setClient client
            (afterCreate request (next.history.drop system.world.history.length)
              (create system.world.db ts request.key request.value request.lease).1)
      else none
  | .readRevision client =>
      match system.clients client with
      | .existing request => some (system.setClient client
          (.revisionRead request (currentRevision system.world.db) system.world.history))
      | _ => none
  | .readRow client =>
      match system.clients client with
      | .revisionRead request currentRev atRead => some (system.setClient client
          (.rowRead request (liveKV (latestRowAt system.world.db.kv request.key
            (revToTS (revCap 0 currentRev)))) atRead))
      | _ => none
  | .update client ts =>
      match system.clients client with
      | .rowRead request kv atRead =>
          (system.world.step (.write
              (.update request.key request.value (prevModRev kv) request.lease) ts)).map
            fun next => { system with world := next }.setClient client
              (afterUpdate request atRead system.world.history
                (next.history.drop system.world.history.length)
                (update system.world.db ts none request.key request.value (prevModRev kv)
                  request.lease).1)
      | _ => none
  | .readReported client readOk =>
      match system.clients client with
      | .missed request prev atRead atUpdate =>
          let rev := reportedRevision (if readOk then some system.world.db else none)
          some (system.setClient client
            (.finished request (.ok (putResponse request rev prev)) [] (.updated atRead atUpdate)))
      | _ => none
  | .fail client text =>
      match system.clients client with
      | .existing request | .revisionRead request _ _ | .rowRead request _ _ =>
          some (system.setClient client
            (.finished request (.error ⟨.internal, .text text⟩) [] .failed))
      | _ => none

/-! ## What a step can be -/

inductive PutMove (system : PutSystem) : PutAction → PutSystem → Prop where
  | other {action : Action} {world : World} (moved : system.world.step action = some world) :
      PutMove system (.other action) { system with world := world }
  | create {client : Nat} {request : PutRequest} {ts : CommitTs} {world : World}
      (ready : (system.clients client).ready = true)
      (moved : system.world.step
        (.write (.create request.key request.value request.lease) ts) = some world) :
      PutMove system (.create client request ts)
        ({ system with world := world }.setClient client
          (afterCreate request (world.history.drop system.world.history.length)
            (create system.world.db ts request.key request.value request.lease).1))
  | readRevision {client : Nat} {request : PutRequest}
      (standing : system.clients client = .existing request) :
      PutMove system (.readRevision client)
        (system.setClient client
          (.revisionRead request (currentRevision system.world.db) system.world.history))
  | readRow {client : Nat} {request : PutRequest} {currentRev : Int} {atRead : List Row}
      (standing : system.clients client = .revisionRead request currentRev atRead) :
      PutMove system (.readRow client)
        (system.setClient client
          (.rowRead request (liveKV (latestRowAt system.world.db.kv request.key
            (revToTS (revCap 0 currentRev)))) atRead))
  | update {client : Nat} {request : PutRequest} {kv : Option KV} {atRead : List Row}
      {ts : CommitTs} {world : World}
      (standing : system.clients client = .rowRead request kv atRead)
      (moved : system.world.step
        (.write (.update request.key request.value (prevModRev kv) request.lease) ts) =
          some world) :
      PutMove system (.update client ts)
        ({ system with world := world }.setClient client
          (afterUpdate request atRead system.world.history
            (world.history.drop system.world.history.length)
            (update system.world.db ts none request.key request.value (prevModRev kv)
              request.lease).1))
  | readReported {client : Nat} {request : PutRequest} {prev : Option KV}
      {atRead atUpdate : List Row} (readOk : Bool)
      (standing : system.clients client = .missed request prev atRead atUpdate) :
      PutMove system (.readReported client readOk)
        (system.setClient client
          (.finished request (.ok (putResponse request
            (reportedRevision (if readOk then some system.world.db else none)) prev)) []
            (.updated atRead atUpdate)))
  | fail {client : Nat} {request : PutRequest} {text : String}
      (standing : system.clients client = .existing request ∨
        (∃ currentRev atRead, system.clients client = .revisionRead request currentRev atRead) ∨
        ∃ kv atRead, system.clients client = .rowRead request kv atRead) :
      PutMove system (.fail client text)
        (system.setClient client
          (.finished request (.error ⟨.internal, .text text⟩) [] .failed))

theorem PutSystem.step_move {system next : PutSystem} {action : PutAction}
    (stepped : system.step action = some next) : PutMove system action next := by
  cases action with
  | other action =>
      obtain ⟨world, moved, rfl⟩ := Option.map_eq_some_iff.mp stepped
      exact .other moved
  | create client request ts =>
      simp only [PutSystem.step, Option.ite_none_right_eq_some, Option.map_eq_some_iff] at stepped
      obtain ⟨ready, world, moved, rfl⟩ := stepped
      exact .create ready moved
  | readRevision client =>
      simp only [PutSystem.step] at stepped
      split at stepped
      next request standing =>
        obtain rfl := Option.some.inj stepped
        exact .readRevision standing
      next => cases stepped
  | readRow client =>
      simp only [PutSystem.step] at stepped
      split at stepped
      next request currentRev atRead standing =>
        obtain rfl := Option.some.inj stepped
        exact .readRow standing
      next => cases stepped
  | update client ts =>
      simp only [PutSystem.step] at stepped
      split at stepped
      next request kv atRead standing =>
        obtain ⟨world, moved, rfl⟩ := Option.map_eq_some_iff.mp stepped
        exact .update standing moved
      next => cases stepped
  | readReported client readOk =>
      simp only [PutSystem.step] at stepped
      split at stepped
      next request prev atRead atUpdate standing =>
        obtain rfl := Option.some.inj stepped
        exact .readReported readOk standing
      next => cases stepped
  | fail client text =>
      simp only [PutSystem.step] at stepped
      split at stepped
      next request standing =>
        obtain rfl := Option.some.inj stepped
        exact .fail (.inl standing)
      next request currentRev atRead standing =>
        obtain rfl := Option.some.inj stepped
        exact .fail (.inr (.inl ⟨currentRev, atRead, standing⟩))
      next request kv atRead standing =>
        obtain rfl := Option.some.inj stepped
        exact .fail (.inr (.inr ⟨kv, atRead, standing⟩))
      next => cases stepped

/-! ## What the ghosts say -/

/-- The key was live when `Get` read the current revision, and no row of the
key was committed from then until `Update`. -/
def Undisturbed (atRead atUpdate : List Row) (key : Bytes) : Prop :=
  (getLatestTxn atRead key).isSome = true ∧
    ∀ row ∈ atUpdate.drop atRead.length, row.key ≠ key

def PutPath.undisturbed (key : Bytes) : PutPath → Prop
  | .created => True
  | .updated atRead atUpdate => Undisturbed atRead atUpdate key
  | .failed => False

/-- The call has committed a row with what the request asked for, and the
response carries its revision. -/
def Honoured (request : PutRequest) (response : PutResponse) (committed : List Row) : Prop :=
  ∃ row ∈ committed, row.key = request.key ∧ row.value = request.value ∧
    row.leaseId = request.lease ∧ response.header.revision = tsToRev row.rev

/-- The history is split at a read of the current revision. -/
structure Cut (world : World) (atRead : List Row) (currentRev : Int) : Prop where
  begins : atRead <+: world.history
  positive : 1 ≤ currentRev
  bounded : currentRev ≤ world.db.clock
  old : ∀ row ∈ atRead, row.rev ≤ currentRev
  new : ∀ row ∈ world.history.drop atRead.length, currentRev < row.rev

structure EntryRead (world : World) (key : Bytes) (kv : Option KV) (atRead : List Row) :
    Prop where
  begins : atRead <+: world.history
  source : ∀ entry, kv = some entry → ∃ row ∈ atRead, row.key = key ∧ row.rev = entry.rev ∧
    ∀ other ∈ world.history.drop atRead.length, row.rev < other.rev
  current : (∀ row ∈ world.history.drop atRead.length, row.key ≠ key) →
    kv = getLatestTxn atRead key

def PutPhase.Inv (world : World) : PutPhase → Prop
  | .idle => True
  | .existing _ => True
  | .revisionRead _ currentRev atRead => Cut world atRead currentRev
  | .rowRead request kv atRead => EntryRead world request.key kv atRead
  | .missed request _ atRead atUpdate => ¬Undisturbed atRead atUpdate request.key
  | .finished request reply committed path =>
      (∀ row ∈ committed, row ∈ world.history) ∧
        ∀ response, reply = .ok response →
          (Honoured request response committed ↔ path.undisturbed request.key)

structure PutSystem.Inv (system : PutSystem) : Prop where
  world : system.world.Inv
  clients : ∀ client, (system.clients client).Inv system.world

/-! ## Other steps keep what is known -/

theorem mem_drop_append {Item : Type} {first : List Item} {all added : List Item}
    (begins : first <+: all) {item : Item}
    (membership : item ∈ (all ++ added).drop first.length) :
    item ∈ all.drop first.length ∨ item ∈ added := by
  rw [List.drop_append_of_le_length begins.length_le] at membership
  exact List.mem_append.mp membership

theorem Cut.mono {world next : World} {atRead : List Row} {currentRev : Int}
    (cut : Cut world atRead currentRev) (extended : Extends world next) :
    Cut next atRead currentRev := by
  obtain ⟨added, grown, newer⟩ := extended.history
  refine ⟨?_, cut.positive, cut.bounded.trans extended.clock, cut.old, ?_⟩
  · rw [grown]
    exact cut.begins.trans (List.prefix_append _ _)
  · rw [grown]
    intro row membership
    rcases mem_drop_append cut.begins membership with before | after
    · exact cut.new row before
    · exact cut.bounded.trans_lt (newer row after)

theorem EntryRead.mono {world next : World} {key : Bytes} {kv : Option KV} {atRead : List Row}
    (read : EntryRead world key kv atRead) (inv : world.Inv) (extended : Extends world next) :
    EntryRead next key kv atRead := by
  obtain ⟨added, grown, newer⟩ := extended.history
  refine ⟨?_, ?_, ?_⟩
  · rw [grown]
    exact read.begins.trans (List.prefix_append _ _)
  · intro entry found
    obtain ⟨row, membership, rowKey, rowRev, older⟩ := read.source entry found
    refine ⟨row, membership, rowKey, rowRev, ?_⟩
    rw [grown]
    intro other otherMembership
    rcases mem_drop_append read.begins otherMembership with before | after
    · exact older other before
    · have bound := inv.bounded row (read.begins.subset membership)
      exact bound.trans_lt (newer other after)
  · intro untouched
    apply read.current
    intro row membership
    apply untouched row
    rw [grown, List.drop_append_of_le_length read.begins.length_le]
    exact List.mem_append_left added membership

theorem PutPhase.Inv.mono {world next : World} {phase : PutPhase} (known : phase.Inv world)
    (inv : world.Inv) (extended : Extends world next) : phase.Inv next := by
  cases phase with
  | idle => trivial
  | existing request => trivial
  | revisionRead request currentRev atRead => exact Cut.mono known extended
  | rowRead request kv atRead => exact EntryRead.mono known inv extended
  | missed request prev atRead atUpdate => exact known
  | finished request reply committed path =>
      obtain ⟨added, grown, _⟩ := extended.history
      refine ⟨?_, known.2⟩
      intro row membership
      rw [grown]
      exact List.mem_append_left added (known.1 row membership)

/-! ## The reads of `Get` -/

theorem cut_now {world : World} (inv : world.Inv) :
    Cut world world.history (currentRevision world.db) where
  begins := List.prefix_refl _
  positive := one_le_currentRevision world.db
  bounded := inv.currentRevision_le_clock
  old := fun _ => inv.le_currentRevision
  new := by simp

section Cut

variable {world : World} (inv : world.Inv) {atRead : List Row} {currentRev : Int}
  (cut : Cut world atRead currentRev)

include inv cut

theorem mem_atRead {row : Row} (membership : row ∈ world.db.kv) (capped : row.rev ≤ currentRev) :
    row ∈ atRead := by
  obtain ⟨added, split⟩ := cut.begins
  have inHistory := inv.mem_history membership
  rw [← split] at inHistory
  refine (List.mem_append.mp inHistory).resolve_right fun inAdded => ?_
  have above := cut.new row (by rw [← split, List.drop_left]; exact inAdded)
  omega

/-- Without writes to the key the capped query returns what was live at the
read of the current revision. -/
theorem latestRowAt_untouched {key : Bytes}
    (untouched : ∀ row ∈ world.history.drop atRead.length, row.key ≠ key) :
    latestRowAt world.db.kv key currentRev = latestRow atRead key := by
  obtain ⟨added, split⟩ := cut.begins
  have distinct : Distinct Row.key Row.rev atRead :=
    inv.distinctRows.mono fun row membership => cut.begins.subset membership
  have retained : latestRowAt world.db.kv key currentRev = latestRowAt atRead key currentRev := by
    apply newest_eq_of_retained distinct
    · intro row membership visible
      exact mem_atRead inv cut membership (by simpa using visible)
    · intro row membership sameKey _ missing
      obtain ⟨newer, newerMembership, newerKey, above⟩ :=
        inv.retained row (cut.begins.subset membership) missing
      have newerOld : newer ∈ atRead := by
        rw [← split] at newerMembership
        refine (List.mem_append.mp newerMembership).resolve_right fun inAdded => ?_
        exact untouched newer (by rw [← split, List.drop_left]; exact inAdded)
          (newerKey.trans sameKey)
      exact ⟨newer, newerOld, newerKey.trans sameKey, by simpa using cut.old newer newerOld, above⟩
  rw [retained]
  apply newest_congr
  intro row membership _
  simpa using cut.old row membership

theorem entryRead_of_cut (key : Bytes) :
    EntryRead world key
      (liveKV (latestRowAt world.db.kv key (revToTS (revCap 0 currentRev)))) atRead := by
  have cap : revToTS (revCap 0 currentRev) = currentRev := by
    simp [revCap, revToTS_of_one_le cut.positive]
  rw [cap]
  refine ⟨cut.begins, ?_, ?_⟩
  · intro entry present
    obtain ⟨row, found, _, rfl⟩ := liveKV_eq_some_iff.mp present
    have membership : row ∈ world.db.kv := newest_mem found
    have capped : row.rev ≤ currentRev := by simpa using newest_visible found
    refine ⟨row, mem_atRead inv cut membership capped, newest_key found, ?_, ?_⟩
    · simp [scanKV, tsToRev_of_exact (inv.storedExact row membership)]
    · intro other otherMembership
      exact lt_of_le_of_lt capped (cut.new other otherMembership)
  · intro untouched
    rw [latestRowAt_untouched inv cut untouched, getLatestTxn]

end Cut

/-! ## The transaction of `Update` -/

section Update

variable {world : World} (inv : world.Inv) {key : Bytes} {kv : Option KV} {atRead : List Row}
  (read : EntryRead world key kv atRead)

theorem getLatestTxn_untouched {atRead history : List Row} (begins : atRead <+: history)
    {key : Bytes} (untouched : ∀ row ∈ history.drop atRead.length, row.key ≠ key) :
    getLatestTxn history key = getLatestTxn atRead key := by
  obtain ⟨added, rfl⟩ := begins
  rw [List.drop_left] at untouched
  have same : latestRow (atRead ++ added) key = latestRow atRead key :=
    newest_append_of_hidden fun row membership sameKey =>
      absurd sameKey (untouched row membership)
  rw [getLatestTxn, same, getLatestTxn]

include inv read

/-- The transaction finds the revision that `Get` returned exactly when the
call was not disturbed. -/
theorem update_matches_iff :
    (∃ prev, getLatestTxn world.db.kv key = some prev ∧ prev.rev = prevModRev kv) ↔
      Undisturbed atRead world.history key := by
  rw [inv.getLatestTxn_eq]
  constructor
  · rintro ⟨prev, present, agrees⟩
    obtain ⟨newestRow, found, _, rfl⟩ := latestRow_of_getLatestTxn_some present
    have newestMembership : newestRow ∈ world.history := newest_mem found
    have exact := inv.exact newestRow newestMembership
    have newestRev : (scanKV newestRow).rev = newestRow.rev := by
      simp [scanKV, tsToRev_of_exact exact]
    have untouched : ∀ row ∈ world.history.drop atRead.length, row.key ≠ key := by
      intro row membership sameKey
      cases kv with
      | none =>
          have positive := exact.1
          rw [newestRev] at agrees
          simp only [prevModRev] at agrees
          omega
      | some entry =>
          obtain ⟨source, _, _, sourceRev, older⟩ := read.source entry rfl
          have below : row.rev ≤ newestRow.rev :=
            newest_le found (List.mem_of_mem_drop membership) sameKey rfl
          have above := older row membership
          rw [newestRev] at agrees
          simp only [prevModRev] at agrees
          omega
    refine ⟨?_, untouched⟩
    rw [← getLatestTxn_untouched read.begins untouched, present]
    rfl
  · rintro ⟨live, untouched⟩
    obtain ⟨prev, present⟩ := Option.isSome_iff_exists.mp live
    refine ⟨prev, (getLatestTxn_untouched read.begins untouched).trans present, ?_⟩
    rw [read.current untouched, present]
    rfl

end Update

/-! ## Every step keeps the invariant -/

theorem afterCreate_inv {world next : World} {request : PutRequest} {ts : CommitTs}
    (stepped : world.step
      (.write (.create request.key request.value request.lease) ts) = some next) :
    (afterCreate request (next.history.drop world.history.length)
      (create world.db ts request.key request.value request.lease).1).Inv next := by
  have added := step_write_added stepped
  cases found : getLatestTxn world.db.kv request.key with
  | none =>
      have created := create_of_absent ts request.value request.lease found
      simp only [WriteOp.apply, created, DB.commit, List.drop_left, committedRows] at added
      simp only [created, afterCreate]
      refine ⟨fun row membership => List.mem_of_mem_drop membership, ?_⟩
      intro response answered
      cases answered
      refine iff_of_true ⟨_, by rw [added]; exact List.mem_singleton_self _, ?_⟩ trivial
      exact ⟨rfl, rfl, rfl, rfl⟩
  | some prev =>
      simp only [create_of_present ts request.value request.lease found, afterCreate]
      trivial

theorem afterUpdate_inv {world next : World} (inv : world.Inv) {request : PutRequest}
    {kv : Option KV} {atRead : List Row} (read : EntryRead world request.key kv atRead)
    {ts : CommitTs}
    (stepped : world.step
      (.write (.update request.key request.value (prevModRev kv) request.lease) ts) = some next) :
    (afterUpdate request atRead world.history (next.history.drop world.history.length)
      (update world.db ts none request.key request.value (prevModRev kv) request.lease).1).Inv
      next := by
  have added := step_write_added stepped
  have matching := update_matches_iff inv read
  cases found : getLatestTxn world.db.kv request.key with
  | none =>
      simp only [update_of_absent ts none request.value _ request.lease found, afterUpdate]
      exact fun undisturbed => by simpa [found] using matching.mpr undisturbed
  | some prev =>
      by_cases agrees : prev.rev = prevModRev kv
      · have updated := update_of_match ts none request.value request.lease found
        rw [agrees] at updated
        simp only [WriteOp.apply, updated, DB.commit, List.drop_left, committedRows] at added
        simp only [updated, afterUpdate, if_true]
        refine ⟨fun row membership => List.mem_of_mem_drop membership, ?_⟩
        intro response answered
        cases answered
        refine iff_of_true ⟨_, by rw [added]; exact List.mem_singleton_self _, ?_⟩
          (matching.mp ⟨prev, found, agrees⟩)
        exact ⟨rfl, rfl, rfl, rfl⟩
      · simp only [update_of_mismatch ts none request.value request.lease found agrees, afterUpdate]
        exact fun undisturbed => agrees (by simpa [found] using matching.mpr undisturbed)

theorem PutSystem.init_inv : PutSystem.init.Inv :=
  ⟨World.init_inv, fun _ => trivial⟩

theorem PutSystem.Inv.setClient {system : PutSystem} (inv : system.Inv) {next : World}
    (nextInv : next.Inv) (extended : Extends system.world next) {client : Nat}
    {phase : PutPhase} (known : phase.Inv next) :
    ({ system with world := next }.setClient client phase).Inv := by
  refine ⟨nextInv, ?_⟩
  intro other
  by_cases same : other = client
  · subst same
    simpa [PutSystem.setClient] using known
  · simpa [PutSystem.setClient, Function.update_of_ne same] using
      (inv.clients other).mono inv.world extended

theorem PutSystem.Inv.step {system next : PutSystem} {action : PutAction}
    (stepped : system.step action = some next) (inv : system.Inv) : next.Inv := by
  have stay : ∀ {client : Nat} {phase : PutPhase}, phase.Inv system.world →
      (system.setClient client phase).Inv :=
    fun known => inv.setClient inv.world (.refl _) known
  cases PutSystem.step_move stepped with
  | other moved =>
      exact ⟨World.Inv.step moved inv.world, fun client =>
        (inv.clients client).mono inv.world (World.step_effect moved).extends⟩
  | create ready moved =>
      exact inv.setClient (World.Inv.step moved inv.world) (World.step_effect moved).extends
        (afterCreate_inv moved)
  | readRevision standing => exact stay (cut_now inv.world)
  | @readRow client request currentRev atRead standing =>
      have known := inv.clients client
      rw [standing] at known
      exact stay (entryRead_of_cut inv.world known request.key)
  | @update client request kv atRead ts world standing moved =>
      have known := inv.clients client
      rw [standing] at known
      exact inv.setClient (World.Inv.step moved inv.world) (World.step_effect moved).extends
        (afterUpdate_inv inv.world known moved)
  | @readReported client request prev atRead atUpdate readOk standing =>
      have known := inv.clients client
      rw [standing] at known
      refine stay ⟨by simp, ?_⟩
      intro response _
      exact iff_of_false (by simp [Honoured]) known
  | fail standing => exact stay ⟨by simp, by simp⟩

/-- An acknowledged `Put` has committed what it was asked for, at the
revision in its response, exactly when it created the key or no write to the
key came between the read of `Get` and `Update`. -/
theorem acknowledged_put_honoured_iff {system : PutSystem}
    (reachable : Runs.Reaches PutSystem.step PutSystem.init system) (client : Nat)
    {request : PutRequest} {response : PutResponse} {committed : List Row} {path : PutPath}
    (acknowledged : system.clients client = .finished request (.ok response) committed path) :
    (∃ row ∈ committed, row ∈ system.world.history ∧ row.key = request.key ∧
        row.value = request.value ∧ row.leaseId = request.lease ∧
        response.header.revision = tsToRev row.rev) ↔
      path.undisturbed request.key := by
  have inv : system.Inv :=
    reachable.invariant (fun _ _ _ stepped => PutSystem.Inv.step stepped) PutSystem.init_inv
  have known := inv.clients client
  rw [acknowledged] at known
  rw [← known.2 response rfl]
  constructor
  · rintro ⟨row, membership, _, honoured⟩
    exact ⟨row, membership, honoured⟩
  · rintro ⟨row, membership, honoured⟩
    exact ⟨row, membership, known.1 row membership, honoured⟩

/-- One client puts a key that exists, up to its `Update`. -/
def putRequest : PutRequest :=
  { key := ascii "k", value := some (ascii "x"), lease := 0, prevKv := false }

def startedPut : List PutAction :=
  [.other (.write (.create (ascii "k") (some (ascii "v")) 0) 5),
    .create 0 putRequest 6, .readRevision 0, .readRow 0]

theorem undisturbedPut_honoured :
    ∃ system response committed path,
      Runs.run PutSystem.step PutSystem.init
        (startedPut ++ [.update 0 ⟨8, by decide, by decide⟩]) = some system ∧
      system.clients 0 = .finished putRequest (.ok response) committed path ∧
      path.undisturbed putRequest.key ∧
      ∃ row ∈ committed, row ∈ system.world.history ∧ row.key = putRequest.key ∧
        row.value = putRequest.value ∧ row.leaseId = putRequest.lease ∧
        response.header.revision = tsToRev row.rev := by
  refine ⟨_, _, _, _, rfl, rfl, ⟨rfl, by decide⟩, ?_⟩
  refine (acknowledged_put_honoured_iff
    ⟨startedPut ++ [.update 0 ⟨8, by decide, by decide⟩], rfl⟩ 0 rfl).mpr ?_
  exact ⟨rfl, by decide⟩

/-- Another client updates the key before `Update`; the put is acknowledged
with the other client's revision and its value is written nowhere. -/
theorem acknowledged_put_lost :
    ∃ system response path,
      Runs.run PutSystem.step PutSystem.init
        (startedPut ++
          [.other (.write (.update (ascii "k") (some (ascii "w")) 5 0) ⟨7, by decide, by decide⟩),
            .update 0 ⟨8, by decide, by decide⟩, .readReported 0 true]) = some system ∧
      system.clients 0 = .finished putRequest (.ok response) [] path ∧
      response.header.revision = 7 ∧
      ∀ row ∈ system.world.history, row.value ≠ putRequest.value :=
  ⟨_, _, _, rfl, rfl, rfl, by decide⟩

end SpannerEtcd
