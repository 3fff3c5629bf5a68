import SpannerEtcd.Server.Handlers
import SpannerEtcd.Store.History
import SpannerEtcd.Store.Refinement

/-!
# Compare-and-swap is exclusive

Clients take locks and update objects with transactions that compare first:
`Version(k) = 0` or `CreateRevision(k) = 0` before a put that creates the key,
`ModRevision(k) = r` before a put or a delete of the version that was read.
Whatever else commits, no two of them win the same thing.
-/

namespace SpannerEtcd

open VersionedLog

/-! ## The contenders -/

/-- `Version(k) = 0` or `CreateRevision(k) = 0`. -/
def Compare.IsAbsence (compare : Compare) (key : Bytes) : Prop :=
  compare.key = key ∧ compare.result = .equal ∧
    (compare.target = .version ∧ compare.getVersion = 0 ∨
      compare.target = .create ∧ compare.getCreateRevision = 0)

/-- `ModRevision(k) = r`. -/
def Compare.IsRevision (compare : Compare) (key : Bytes) (r : Int) : Prop :=
  compare.key = key ∧ compare.result = .equal ∧ compare.target = .mod ∧
    compare.getModRevision = r

def RequestOp.puts (key : Bytes) : RequestOp → Prop
  | .put request => request.key = key
  | _ => False

def RequestOp.deletes (key : Bytes) : RequestOp → Prop
  | .deleteRange request => request.key = key
  | _ => False

/-- The commit of a request that takes the atomic path. -/
def TxnRequest.RunsAs (request : TxnRequest) (op : WriteOp) : Prop :=
  txnNeedsNonAtomicFallback request = false ∧
    ∃ compares successOps failureOps,
      request.toStore = .ok (compares, successOps, failureOps) ∧
        op = .atomicTxn compares successOps failureOps

def CreatesIfAbsent (key : Bytes) (op : WriteOp) : Prop :=
  ∃ request : TxnRequest, request.RunsAs op ∧
    (∃ compare ∈ request.compare, compare.IsAbsence key) ∧
    ∃ requestOp ∈ request.success, requestOp.puts key

def SwapsAt (key : Bytes) (r : Int) (op : WriteOp) : Prop :=
  (∃ request : TxnRequest, request.RunsAs op ∧
    (∃ compare ∈ request.compare, compare.IsRevision key r) ∧
    ∃ requestOp ∈ request.success, requestOp.puts key ∨ requestOp.deletes key) ∨
  (∃ value leaseID, op = .update key value r leaseID) ∨ op = .delete key r

/-- What the caller is told. -/
def WriteOp.succeeds (op : WriteOp) (db : DB) (ts : CommitTs) : Bool :=
  match op with
  | .create key value leaseID => (SpannerEtcd.create db ts key value leaseID).1.isOk
  | .update key value revision leaseID =>
      ((SpannerEtcd.update db ts none key value revision leaseID).1.map CasResult.ok).toOption.getD
        false
  | .delete key revision =>
      ((SpannerEtcd.delete db ts none key revision).1.map CasResult.ok).toOption.getD false
  | .deleteIfLease key leaseID =>
      (SpannerEtcd.deleteIfLease db ts key leaseID).1.toOption.getD false
  | .atomicTxn compares successOps failureOps =>
      ((SpannerEtcd.atomicTxn db ts compares successOps failureOps).1.map
        AtomicTxnResult.succeeded).toOption.getD false

structure Wins (world : World) (op : WriteOp) (ts : CommitTs) (next : World) : Prop where
  stepped : world.step (.write op ts) = some next
  succeeds : op.succeeds world.db ts = true

/-! ## What a winning transaction has read and written -/

/-- A compiled branch has the operations of the branch, one for one. -/
theorem toStoreOps_eq_ok {ops : List RequestOp} {storeOps : List TxnOp}
    (compiled : toStoreOps ops = .ok storeOps) :
    List.Forall₂ (fun op storeOp => op.toStore = .ok storeOp) ops storeOps := by
  induction ops generalizing storeOps with
  | nil =>
      simp only [toStoreOps, Except.ok.injEq] at compiled
      exact compiled ▸ .nil
  | cons op rest inductionHypothesis =>
      cases first : op.toStore with
      | error err => simp [toStoreOps, first, bind, Except.bind] at compiled
      | ok storeOp =>
          cases others : toStoreOps rest with
          | error err => simp [toStoreOps, first, others, bind, Except.bind] at compiled
          | ok storeRest =>
              simp only [toStoreOps, first, others, bind, Except.bind, pure, Except.pure,
                Except.ok.injEq] at compiled
              exact compiled ▸ .cons first (inductionHypothesis others)

theorem toStore_eq_ok {request : TxnRequest} {compares : List TxnCompare}
    {successOps failureOps : List TxnOp}
    (compiled : request.toStore = .ok (compares, successOps, failureOps)) :
    compares = request.compare.map Compare.toStore ∧
      toStoreOps request.success = .ok successOps ∧
      toStoreOps request.failure = .ok failureOps := by
  unfold TxnRequest.toStore at compiled
  cases success : toStoreOps request.success with
  | error err => simp [success, bind, Except.bind] at compiled
  | ok storeSuccess =>
      cases failure : toStoreOps request.failure with
      | error err => simp [success, failure, bind, Except.bind] at compiled
      | ok storeFailure =>
          simp only [success, failure, bind, Except.bind] at compiled
          split at compiled
          · cases compiled
          · split at compiled
            · cases compiled
            · simp only [pure, Except.pure, Except.ok.injEq, Prod.mk.injEq] at compiled
              exact ⟨compiled.1.symm, by rw [compiled.2.1], by rw [compiled.2.2]⟩

theorem atomicTxn_succeeds {db : DB} {ts : CommitTs} {compares : List TxnCompare}
    {successOps failureOps : List TxnOp}
    (won : (WriteOp.atomicTxn compares successOps failureOps).succeeds db ts = true) :
    evaluateCompares db.kv compares = true ∧
      WriteSet db.kv (successOps.filterMap (txnInsert db.kv)) ∧
      (WriteOp.atomicTxn compares successOps failureOps).apply db ts =
        db.commit ts (successOps.filterMap (txnInsert db.kv)) := by
  cases valid : validateCompares compares with
  | error err =>
      simp [WriteOp.succeeds, atomicTxn_of_invalid ts successOps failureOps valid, Except.map,
        Except.toOption] at won
  | ok _ =>
      cases checked : branchCheck (chosenOps db.kv compares successOps failureOps) with
      | error err =>
          simp [WriteOp.succeeds, atomicTxn_of_error ts valid checked, Except.map,
            Except.toOption] at won
      | ok _ =>
          have done := atomicTxn_of_ok ts valid checked
          simp only [WriteOp.succeeds, done, Except.map, Except.toOption,
            Option.getD_some] at won
          have branch : chosenOps db.kv compares successOps failureOps = successOps := by
            rw [chosenOps, if_pos won]
          rw [branch] at checked
          refine ⟨won, txnInserts_writeSet ((branchCheck_ok_iff _).mp checked).1, ?_⟩
          simp only [WriteOp.apply, done, branch]

/-- A compare of the request held in the rows that the transaction read. -/
theorem compare_holds {rows : List Row} {compares : List Compare}
    (held : evaluateCompares rows (compares.map Compare.toStore) = true) {compare : Compare}
    (membership : compare ∈ compares) :
    compare.holds (getLatestTxn rows compare.key) = true := by
  rw [evaluateCompares_eq, List.all_eq_true] at held
  have evaluated := held compare.toStore (List.mem_map_of_mem membership)
  unfold AbstractMap.holds Compare.toStore at evaluated
  cases supported : compare.target.unsupported with
  | none => simpa [supported] using evaluated
  | some code => simp [supported] at evaluated

/-- An insert of a committed transaction is a row that the step has added. -/
theorem added_of_insert {world next : World} {op : WriteOp} {ts : CommitTs}
    (stepped : world.step (.write op ts) = some next) {inserts : List KvInsert}
    (applied : op.apply world.db ts = world.db.commit ts inserts) {insert : KvInsert}
    (membership : insert ∈ inserts) :
    ∃ row ∈ addedRows world next, row.key = insert.key ∧ row.deleted = insert.deleted := by
  obtain ⟨rowId, found⟩ := exists_committedRow membership
  refine ⟨insert.toRow rowId ts.ns, ?_, rfl, rfl⟩
  rw [addedRows, step_write_added stepped, applied]
  simpa [DB.commit] using found

/-- A winning request: its compares held, and its success branch was
committed. -/
theorem TxnRequest.RunsAs.wins {request : TxnRequest} {op : WriteOp} (runs : request.RunsAs op)
    {world next : World} {ts : CommitTs} (won : Wins world op ts next) :
    ∃ successOps, List.Forall₂ (fun op storeOp => op.toStore = .ok storeOp) request.success
        successOps ∧
      (∀ compare ∈ request.compare,
        compare.holds (getLatestTxn world.db.kv compare.key) = true) ∧
      WriteSet world.db.kv (successOps.filterMap (txnInsert world.db.kv)) ∧
      op.apply world.db ts =
        world.db.commit ts (successOps.filterMap (txnInsert world.db.kv)) := by
  obtain ⟨_, compares, successOps, failureOps, compiled, rfl⟩ := runs
  obtain ⟨rfl, success, _⟩ := toStore_eq_ok compiled
  obtain ⟨held, writeSet, applied⟩ := atomicTxn_succeeds won.succeeds
  exact ⟨successOps, toStoreOps_eq_ok success, fun _ => compare_holds held, writeSet, applied⟩

/-- The store operation that an operation of a compiled branch became. -/
theorem exists_toStore {ops : List RequestOp} {storeOps : List TxnOp}
    (compiled : List.Forall₂ (fun op storeOp => op.toStore = .ok storeOp) ops storeOps)
    {op : RequestOp} (membership : op ∈ ops) :
    ∃ storeOp ∈ storeOps, op.toStore = .ok storeOp := by
  induction compiled with
  | nil => cases membership
  | cons first _ inductionHypothesis =>
      rcases List.mem_cons.mp membership with rfl | later
      · exact ⟨_, List.mem_cons_self, first⟩
      · obtain ⟨storeOp, found, same⟩ := inductionHypothesis later
        exact ⟨storeOp, List.mem_cons_of_mem _ found, same⟩

section Inserts

variable {ops : List RequestOp} {storeOps : List TxnOp} {rows : List Row}
  (compiled : List.Forall₂ (fun op storeOp => op.toStore = .ok storeOp) ops storeOps)

include compiled

theorem mem_inserts_of_put {request : PutRequest} (listed : .put request ∈ ops) :
    putInsert request.key request.value request.lease (getLatestTxn rows request.key) ∈
      storeOps.filterMap (txnInsert rows) := by
  obtain ⟨storeOp, found, same⟩ := exists_toStore compiled listed
  simp only [RequestOp.toStore, Except.ok.injEq] at same
  subst same
  exact List.mem_filterMap.mpr ⟨_, found, rfl⟩

theorem mem_inserts_of_delete {request : DeleteRangeRequest}
    (listed : .deleteRange request ∈ ops) {prev : KV}
    (present : getLatestTxn rows request.key = some prev) :
    tombstoneInsert request.key prev ∈ storeOps.filterMap (txnInsert rows) := by
  obtain ⟨storeOp, found, same⟩ := exists_toStore compiled listed
  simp only [RequestOp.toStore, Except.ok.injEq] at same
  subst same
  refine List.mem_filterMap.mpr ⟨_, found, ?_⟩
  simp only [txnInsert, present, Option.map_some]

end Inserts

/-! ## Guards and the entries they admit -/

theorem World.Inv.createRevision_bounds {world : World} (inv : world.Inv) {key : Bytes} {kv : KV}
    (present : getLatestTxn world.db.kv key = some kv) :
    1 < kv.createRevision ∧ kv.createRevision ≤ kv.rev ∧ kv.rev < 2 ^ 63 := by
  obtain ⟨revExact, createExact, _⟩ := inv.entry_exact present
  obtain ⟨row, found, _, rfl⟩ := latestRow_of_getLatestTxn_some present
  have membership := inv.mem_history (newest_mem found)
  obtain ⟨ts, stored, tsExact⟩ := inv.createExact row membership
  refine ⟨createExact.1, ?_, revExact.2⟩
  simpa only [scanKV, stored, nullTimeToRev, tsToRev_of_exact tsExact,
    tsToRev_of_exact (inv.exact row membership)] using inv.createRevision_le membership stored

/-- The guard holds of no live entry: its version is at least 1, and so is its
create revision. -/
theorem Compare.IsAbsence.absent {compare : Compare} {key : Bytes}
    (guard : compare.IsAbsence key) {world : World} (inv : world.Inv)
    (holds : compare.holds (getLatestTxn world.db.kv compare.key) = true) :
    getLatestTxn world.db.kv key = none := by
  obtain ⟨rfl, equal, zero⟩ := guard
  cases found : getLatestTxn world.db.kv compare.key with
  | none => rfl
  | some kv =>
      obtain ⟨positive, ordered, bounded⟩ := inv.createRevision_bounds found
      have unwrapped : wrapInt64 (kv.rev - kv.createRevision + 1) =
          kv.rev - kv.createRevision + 1 :=
        wrapInt64_of_isInt64 ⟨by omega, by omega⟩
      rcases zero with ⟨target, operand⟩ | ⟨target, operand⟩
      · simp only [Compare.holds, target, equal, operand, found, compareInt, versionOf, unwrapped,
          decide_eq_true_eq] at holds
        omega
      · simp only [Compare.holds, target, equal, operand, found, compareInt, createRevOf,
          decide_eq_true_eq] at holds
        omega

theorem Compare.IsRevision.present {compare : Compare} {key : Bytes} {r : Int}
    (guard : compare.IsRevision key r) (positive : 0 < r) {rows : List Row}
    (holds : compare.holds (getLatestTxn rows compare.key) = true) :
    ∃ kv, getLatestTxn rows key = some kv ∧ kv.rev = r := by
  obtain ⟨rfl, equal, target, operand⟩ := guard
  simp only [Compare.holds, target, equal, operand, compareInt, decide_eq_true_eq] at holds
  cases found : getLatestTxn rows compare.key with
  | none =>
      rw [found, prevModRev] at holds
      omega
  | some kv => exact ⟨kv, rfl, by rwa [found] at holds⟩

/-! ## The winners -/

theorem CreatesIfAbsent.wins {key : Bytes} {op : WriteOp} (creates : CreatesIfAbsent key op)
    {world next : World} (inv : world.Inv) {ts : CommitTs} (won : Wins world op ts next) :
    getLatestTxn world.db.kv key = none ∧ ∃ kv, getLatestTxn next.db.kv key = some kv := by
  obtain ⟨request, runs, ⟨compare, compared, guard⟩, requestOp, listed, puts⟩ := creates
  obtain ⟨successOps, compiled, held, writeSet, applied⟩ := runs.wins won
  refine ⟨guard.absent inv (held compare compared), ?_⟩
  cases requestOp with
  | put request =>
      obtain rfl : request.key = key := puts
      have moved := won.stepped
      simp only [World.step, Option.ite_none_right_eq_some, Option.some.injEq] at moved
      obtain ⟨later, rfl⟩ := moved
      have entry := commit_getLatestTxn_new inv later writeSet (mem_inserts_of_put compiled listed)
      rw [putInsert_entry inv] at entry
      exact ⟨_, applied ▸ entry⟩
  | range request => cases puts
  | deleteRange request => cases puts
  | unsupported => cases puts

theorem SwapsAt.wins {key : Bytes} {r : Int} {op : WriteOp} (swaps : SwapsAt key r op)
    (positive : 0 < r) {world next : World} {ts : CommitTs} (won : Wins world op ts next) :
    (∃ kv, getLatestTxn world.db.kv key = some kv ∧ kv.rev = r) ∧
      ∃ row ∈ addedRows world next, row.key = key := by
  have adds : ∀ {inserts insert}, op.apply world.db ts = world.db.commit ts inserts →
      insert ∈ inserts → ∃ row ∈ addedRows world next, row.key = insert.key := by
    intro inserts insert applied membership
    obtain ⟨row, added, sameKey, _⟩ := added_of_insert won.stepped applied membership
    exact ⟨row, added, sameKey⟩
  have succeeds := won.succeeds
  rcases swaps with ⟨request, runs, ⟨compare, compared, guard⟩, requestOp, listed, writes⟩ |
    ⟨value, leaseID, rfl⟩ | rfl
  · obtain ⟨successOps, compiled, held, _, applied⟩ := runs.wins won
    obtain ⟨kv, present, named⟩ := guard.present positive (held compare compared)
    refine ⟨⟨kv, present, named⟩, ?_⟩
    cases requestOp with
    | put request =>
        obtain rfl : request.key = key := writes.resolve_right id
        exact adds applied (mem_inserts_of_put compiled listed)
    | deleteRange request =>
        obtain rfl : request.key = key := writes.resolve_left id
        exact adds applied (mem_inserts_of_delete compiled listed present)
    | range request => exact (writes.elim id id).elim
    | unsupported => exact (writes.elim id id).elim
  · cases found : getLatestTxn world.db.kv key with
    | none =>
        simp [WriteOp.succeeds, update_of_absent ts none value r leaseID found, Except.map,
          Except.toOption] at succeeds
    | some kv =>
        by_cases agrees : kv.rev = r
        · subst agrees
          refine ⟨⟨kv, rfl, rfl⟩,
            adds ?_ (List.mem_singleton_self (updateInsert key value leaseID kv))⟩
          simp only [WriteOp.apply, update_of_match ts none value leaseID found]
        · simp [WriteOp.succeeds, update_of_mismatch ts none value leaseID found agrees,
            Except.map, Except.toOption] at succeeds
  · cases found : getLatestTxn world.db.kv key with
    | none =>
        simp [WriteOp.succeeds, delete_of_absent ts none r found, Except.map,
          Except.toOption] at succeeds
    | some kv =>
        by_cases agrees : kv.rev = r
        · refine ⟨⟨kv, rfl, agrees⟩, adds ?_ (List.mem_singleton_self (tombstoneInsert key kv))⟩
          simp only [WriteOp.apply, delete_of_match ts none found (.inr agrees)]
        · have mismatch : r ≠ 0 ∧ kv.rev ≠ r := ⟨by omega, agrees⟩
          simp [WriteOp.succeeds, delete_of_mismatch ts none found mismatch, Except.map,
            Except.toOption] at succeeds

/-- Once a newer row of the key is written, the current entry has another
revision for good. -/
theorem World.Inv.rev_ne_of_added {start first middle : World} (startInv : start.Inv)
    (middleInv : middle.Inv) (stepped : Extends start first) (reached : Extends first middle)
    {key : Bytes} {row : Row} (added : row ∈ addedRows start first) (named : row.key = key)
    {kv current : KV} (present : getLatestTxn start.db.kv key = some kv)
    (later : getLatestTxn middle.db.kv key = some current) : current.rev ≠ kv.rev := by
  rw [middleInv.getLatestTxn_eq] at later
  obtain ⟨oldRow, oldFound, _, rfl⟩ := latestRow_of_getLatestTxn_some present
  obtain ⟨newRow, newFound, _, rfl⟩ := latestRow_of_getLatestTxn_some later
  have oldMembership := startInv.mem_history (newest_mem oldFound)
  obtain ⟨rows, grown, newer⟩ := stepped.history
  have rowNew : start.db.clock < row.rev := newer row (by simpa [addedRows, grown] using added)
  have rowHistory : row ∈ first.history := by
    rw [stepped.history_eq]
    exact List.mem_append_right _ added
  have above : row.rev ≤ newRow.rev :=
    newest_le newFound (reached.mem_history rowHistory) named rfl
  have below := startInv.bounded oldRow oldMembership
  simp only [scanKV, tsToRev_of_exact (startInv.exact oldRow oldMembership),
    tsToRev_of_exact (middleInv.exact newRow (newest_mem newFound))]
  omega

/-- Of two successful creations of a key, the key was deleted in between; and
no revision of a key is swapped twice. -/
theorem compare_and_swap_exclusive {start first middle last : World} (reachable : Reachable start)
    {op other : WriteOp} {ts otherTs : CommitTs} (won : Wins start op ts first)
    (reached : Runs.Reaches World.step first middle) (wonAgain : Wins middle other otherTs last) :
    (∀ key, CreatesIfAbsent key op → CreatesIfAbsent key other →
      ∃ row ∈ addedRows first middle, row.key = key ∧ row.deleted = true) ∧
    ∀ key r, 0 < r → SwapsAt key r op → ¬SwapsAt key r other := by
  have startInv := reachable.inv
  have firstInv := startInv.step won.stepped
  have middleInv := firstInv.reaches reached
  have extended := extends_of_reaches reached
  refine ⟨?_, ?_⟩
  · intro key creates createsAgain
    obtain ⟨_, kv, present⟩ := creates.wins startInv won
    exact firstInv.deleted_between middleInv extended present
      (createsAgain.wins middleInv wonAgain).1
  · intro key r positive swaps swapsAgain
    obtain ⟨⟨kv, present, named⟩, row, added, sameKey⟩ := swaps.wins positive won
    obtain ⟨⟨current, later, namedAgain⟩, _⟩ := swapsAgain.wins positive wonAgain
    exact startInv.rev_ne_of_added middleInv (World.step_effect won.stepped).extends extended
      added sameKey present later (namedAgain.trans named.symm)

/-- Take the lock `k`, if no one holds it. -/
def lockRequest : TxnRequest :=
  { compare := [⟨.version, .equal, ascii "k", .version 0⟩]
    success := [.put { key := ascii "k", value := some (ascii "v"), lease := 0, prevKv := false }]
    failure := [] }

def lockOp : WriteOp :=
  .atomicTxn (lockRequest.compare.map Compare.toStore)
    [⟨.put, ascii "k", some (ascii "v"), 0⟩] []

theorem lockOp_creates : CreatesIfAbsent (ascii "k") lockOp :=
  ⟨lockRequest, ⟨rfl, _, _, _, rfl, rfl⟩,
    ⟨_, List.mem_cons_self, rfl, rfl, .inl ⟨rfl, rfl⟩⟩, ⟨_, List.mem_cons_self, rfl⟩⟩

def worldAfter (actions : List Action) : World :=
  (Runs.run World.step World.init actions).getD World.init

def lockedWorld : World := worldAfter [.write lockOp 5]

def freedWorld : World := worldAfter [.write lockOp 5, .write (.delete (ascii "k") 0) 6]

def relockedWorld : World :=
  worldAfter [.write lockOp 5, .write (.delete (ascii "k") 0) 6, .write lockOp 7]

theorem lock_won : Wins World.init lockOp 5 lockedWorld := ⟨rfl, by decide⟩

theorem lock_wonAgain : Wins freedWorld lockOp 7 relockedWorld := ⟨rfl, by decide⟩

theorem lock_freed_between :
    ∃ row ∈ addedRows lockedWorld freedWorld, row.key = ascii "k" ∧ row.deleted = true := by
  have exclusive := compare_and_swap_exclusive ⟨[], rfl⟩ lock_won
    ⟨[.write (.delete (ascii "k") 0) 6], rfl⟩ lock_wonAgain
  exact exclusive.1 (ascii "k") lockOp_creates lockOp_creates

end SpannerEtcd
