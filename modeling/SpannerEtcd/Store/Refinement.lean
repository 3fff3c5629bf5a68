import SpannerEtcd.Lib.Simulation
import SpannerEtcd.Store.AbstractMap
import SpannerEtcd.Store.Invariant

/-!
# The log simulates the map

Reading the newest row of every key and dropping tombstones abstracts the log
to the map.  Each write call then does to the map what its specification
says, and everything else a step can do is invisible.
-/

namespace SpannerEtcd

open VersionedLog

/-! ## A commit seen through the abstraction -/

section Commit

variable {world : World} (inv : world.Inv) {ts : CommitTs} (later : world.db.clock < ts.ns)
  {inserts : List KvInsert} (writeSet : WriteSet world.db.kv inserts)

include inv later writeSet in
theorem commit_latestRow_new {insert : KvInsert} (membership : insert ∈ inserts) :
    ∃ id, latestRow (world.db.commit ts inserts).kv insert.key =
      some (insert.toRow id ts.ns) := by
  let next : World :=
    { world with
      db := world.db.commit ts inserts
      history := world.history ++ committedRows ts.ns world.db.nextId inserts }
  have nextInv : next.Inv := inv.commit later writeSet rfl rfl rfl
  obtain ⟨id, found⟩ : ∃ id, insert.toRow id ts.ns ∈
      committedRows ts.ns world.db.nextId inserts := exists_committedRow membership
  refine ⟨id, newest_append_of_lt nextInv.storedDistinct found rfl ?_ ?_⟩
  · intro old oldMembership _
    have bound := inv.bounded old (inv.mem_history oldMembership)
    exact le_of_lt (lt_of_le_of_lt bound later)
  · intro other otherMembership _
    exact le_of_eq (committedRows_rev otherMembership)

omit inv later writeSet in
theorem commit_latestRow_other (db : DB) {key : Bytes}
    (untouched : ∀ insert ∈ inserts, insert.key ≠ key) :
    latestRow (db.commit ts inserts).kv key = latestRow db.kv key := by
  apply newest_append_of_hidden
  intro row membership sameKey
  obtain ⟨insert, insertMembership, _, _, rfl⟩ := mem_committedRows membership
  exact absurd sameKey (untouched insert insertMembership)

omit inv later writeSet in
theorem commit_getLatestTxn_other (db : DB) {key : Bytes}
    (untouched : ∀ insert ∈ inserts, insert.key ≠ key) :
    getLatestTxn (db.commit ts inserts).kv key = getLatestTxn db.kv key := by
  rw [getLatestTxn, commit_latestRow_other db untouched, getLatestTxn]

def KvInsert.entry (insert : KvInsert) (commit : Int) : Option KV :=
  liveKV (some (insert.toRow 0 commit))

include inv later writeSet in
theorem commit_getLatestTxn_new {insert : KvInsert} (membership : insert ∈ inserts) :
    getLatestTxn (world.db.commit ts inserts).kv insert.key = insert.entry ts.ns := by
  obtain ⟨id, found⟩ := commit_latestRow_new inv later writeSet membership
  rw [getLatestTxn, found]
  rfl

end Commit

theorem commit_singleton {world : World} (inv : world.Inv) {ts : CommitTs}
    (later : world.db.clock < ts.ns) {insert : KvInsert} (writes : Writes world.db.kv insert) :
    getLatestTxn (world.db.commit ts [insert]).kv =
      AbstractMap.set (getLatestTxn world.db.kv) insert.key (insert.entry ts.ns) := by
  funext key
  by_cases same : key = insert.key
  · subst same
    rw [commit_getLatestTxn_new inv later (.singleton writes) (List.mem_singleton_self insert)]
    simp [AbstractMap.set]
  · rw [commit_getLatestTxn_other]
    · simp [AbstractMap.set, Function.update_of_ne same]
    · intro other membership
      rw [List.mem_singleton.mp membership]
      exact Ne.symm same

/-! ## The entries the inserts leave -/

theorem World.Inv.entry_exact {world : World} (inv : world.Inv) {key : Bytes} {prev : KV}
    (present : getLatestTxn world.db.kv key = some prev) :
    Exact prev.rev ∧ Exact prev.createRevision ∧ prev.deleted = false := by
  obtain ⟨row, found, live, rfl⟩ := latestRow_of_getLatestTxn_some present
  have membership := inv.mem_history (newest_mem found)
  have exact := inv.exact row membership
  obtain ⟨ts, createdAt, tsExact⟩ := inv.createExact row membership
  refine ⟨?_, ?_, live⟩
  · simpa only [scanKV, tsToRev_of_exact exact] using exact
  · simpa only [scanKV, createdAt, nullTimeToRev, tsToRev_of_exact tsExact] using tsExact

theorem createInsert_entry (key : Bytes) (value : Option Bytes) (leaseID : Int) (ts : CommitTs) :
    (createInsert key value leaseID).entry ts.ns = some (.fresh key value leaseID ts.ns) := by
  simp [KvInsert.entry, liveKV_some, KvInsert.toRow, createInsert, scanKV, TsCell.resolve,
    nullTimeToRev, KV.fresh, tsToRev_of_exact ts.exact]

theorem tombstoneInsert_entry (key : Bytes) (prev : KV) (commit : Int) :
    (tombstoneInsert key prev).entry commit = none := rfl

theorem updateInsert_entry {world : World} (inv : world.Inv) {key : Bytes} {prev : KV}
    (present : getLatestTxn world.db.kv key = some prev) (value : Option Bytes) (leaseID : Int)
    (ts : CommitTs) :
    (updateInsert key value leaseID prev).entry ts.ns =
      some (prev.rebound value leaseID ts.ns) := by
  obtain ⟨revExact, createExact, live⟩ := inv.entry_exact present
  have sameKey := getLatestTxn_key present
  simp [KvInsert.entry, liveKV_some, KvInsert.toRow, updateInsert, scanKV, TsCell.resolve,
    nullTimeToRev, KV.rebound, tsToRev_of_exact ts.exact, tsToRev_revToTS revExact,
    tsToRev_revToTS createExact, live, sameKey]

theorem putInsert_entry {world : World} (inv : world.Inv) (key : Bytes) (value : Option Bytes)
    (leaseID : Int) (ts : CommitTs) :
    (putInsert key value leaseID (getLatestTxn world.db.kv key)).entry ts.ns =
      some (AbstractMap.bound (getLatestTxn world.db.kv) key value leaseID ts.ns) := by
  cases found : getLatestTxn world.db.kv key with
  | none => simp only [putInsert_none, createInsert_entry, AbstractMap.bound, found]
  | some prev =>
      simp only [putInsert_some, updateInsert_entry inv found, AbstractMap.bound, found]

/-! ## Transactions on the map -/

theorem evaluateCompares_eq (rows : List Row) (compares : List TxnCompare) :
    evaluateCompares rows compares = compares.all (AbstractMap.holds (getLatestTxn rows)) := by
  induction compares with
  | nil => rfl
  | cons compare rest inductionHypothesis =>
      cases evaluator : compare.evaluate with
      | none => simp [evaluateCompares, AbstractMap.holds, evaluator]
      | some evaluate =>
          cases held : evaluate (getLatestTxn rows compare.key) <;>
            simp [evaluateCompares, AbstractMap.holds, evaluator, held, inductionHypothesis]

theorem txnResult_eq (rows : List Row) :
    txnResult rows = AbstractMap.result (getLatestTxn rows) := by
  funext op
  unfold txnResult AbstractMap.result
  cases op.type <;> rfl

theorem txnInsert_isSome (rows : List Row) (op : TxnOp) :
    (txnInsert rows op).isSome = AbstractMap.writes (getLatestTxn rows) op := by
  unfold txnInsert AbstractMap.writes
  cases op.type <;> simp

theorem txnInserts_isEmpty (rows : List Row) (ops : List TxnOp) :
    (ops.filterMap (txnInsert rows)).isEmpty =
      !ops.any (AbstractMap.writes (getLatestTxn rows)) := by
  induction ops with
  | nil => rfl
  | cons op rest inductionHypothesis =>
      have written := txnInsert_isSome rows op
      cases buffered : txnInsert rows op with
      | none =>
          rw [List.filterMap_cons_none buffered, inductionHypothesis]
          simp [← written, buffered]
      | some insert =>
          rw [List.filterMap_cons_some buffered]
          simp [← written, buffered]

section Perform

variable (map : AbstractMap) (r : Int)

theorem foldl_perform_other {ops : List TxnOp} {key : Bytes}
    (untouched : key ∉ mutatedKeys ops) (current : AbstractMap) :
    ops.foldl (map.perform r) current key = current key := by
  induction ops generalizing current with
  | nil => rfl
  | cons op rest inductionHypothesis =>
      cases mutates : op.type.mutates with
      | false =>
          have restUntouched : key ∉ mutatedKeys rest := by
            simpa [mutatedKeys, mutates] using untouched
          simp [inductionHypothesis restUntouched, AbstractMap.perform, mutates]
      | true =>
          have split : key ≠ op.key ∧ key ∉ mutatedKeys rest := by
            simpa [mutatedKeys, mutates] using untouched
          simp [inductionHypothesis split.2, AbstractMap.perform, mutates, AbstractMap.set,
            Function.update_of_ne split.1]

theorem foldl_perform_mutated {ops : List TxnOp} (distinct : (mutatedKeys ops).Nodup)
    {op : TxnOp} (membership : op ∈ ops) (mutates : op.type.mutates = true)
    (current : AbstractMap) :
    ops.foldl (map.perform r) current op.key = map.outcome r op := by
  induction ops generalizing current with
  | nil => simp at membership
  | cons head rest inductionHypothesis =>
      rcases List.mem_cons.mp membership with rfl | inRest
      · have untouched : op.key ∉ mutatedKeys rest := by
          have split : op.key ∉ mutatedKeys rest ∧ (mutatedKeys rest).Nodup := by
            simpa [mutatedKeys, mutates] using distinct
          exact split.1
        simp [foldl_perform_other map r untouched, AbstractMap.perform, mutates, AbstractMap.set]
      · have restDistinct : (mutatedKeys rest).Nodup := by
          refine distinct.sublist ?_
          cases headMutates : head.type.mutates <;> simp [mutatedKeys, headMutates]
        exact inductionHypothesis restDistinct inRest _

end Perform

theorem txnInsert_entry {world : World} (inv : world.Inv) {op : TxnOp} {insert : KvInsert}
    (buffered : txnInsert world.db.kv op = some insert) (ts : CommitTs) :
    insert.entry ts.ns = AbstractMap.outcome (getLatestTxn world.db.kv) ts.ns op := by
  cases kind : op.type with
  | put =>
      simp only [txnInsert, kind, Option.some.injEq] at buffered
      rw [← buffered, putInsert_entry inv]
      simp only [AbstractMap.outcome, kind]
  | delete =>
      simp only [txnInsert, kind, Option.map_eq_some_iff] at buffered
      obtain ⟨prev, _, rfl⟩ := buffered
      simp only [tombstoneInsert_entry, AbstractMap.outcome, kind]
  | get => simp [txnInsert, kind] at buffered
  | other code => simp [txnInsert, kind] at buffered

/-- A mutation without an insert is the deletion of an absent key. -/
theorem outcome_of_no_insert {rows : List Row} {op : TxnOp} (mutates : op.type.mutates = true)
    (unbuffered : txnInsert rows op = none) (r : Int) :
    AbstractMap.outcome (getLatestTxn rows) r op = getLatestTxn rows op.key := by
  cases kind : op.type with
  | put => simp [txnInsert, kind] at unbuffered
  | delete =>
      simp only [txnInsert, kind, Option.map_eq_none_iff] at unbuffered
      simp only [AbstractMap.outcome, kind, unbuffered]
  | get => simp [TxnOpType.mutates, kind] at mutates
  | other code => simp [TxnOpType.mutates, kind] at mutates

/-- Committing the inserts of a branch performs its operations on the map. -/
theorem commit_performs {world : World} (inv : world.Inv) {ts : CommitTs}
    (later : world.db.clock < ts.ns) {ops : List TxnOp} (distinct : (mutatedKeys ops).Nodup) :
    getLatestTxn (world.db.commit ts (ops.filterMap (txnInsert world.db.kv))).kv =
      ops.foldl (AbstractMap.perform (getLatestTxn world.db.kv) ts.ns)
        (getLatestTxn world.db.kv) := by
  have writeSet : WriteSet world.db.kv (ops.filterMap (txnInsert world.db.kv)) :=
    txnInserts_writeSet distinct
  funext key
  by_cases touched : ∃ insert ∈ ops.filterMap (txnInsert world.db.kv), insert.key = key
  · obtain ⟨insert, membership, rfl⟩ := touched
    rw [commit_getLatestTxn_new inv later writeSet membership]
    obtain ⟨op, opMembership, buffered⟩ := List.mem_filterMap.mp membership
    obtain ⟨_, sameKey, mutates⟩ := txnInsert_writes buffered
    rw [sameKey, foldl_perform_mutated _ _ distinct opMembership mutates,
      txnInsert_entry inv buffered]
  · rw [commit_getLatestTxn_other world.db fun insert membership sameKey =>
      touched ⟨insert, membership, sameKey⟩]
    by_cases mutated : key ∈ mutatedKeys ops
    · obtain ⟨op, membership, rfl⟩ := List.mem_map.mp mutated
      obtain ⟨opMembership, mutates⟩ := List.mem_filter.mp membership
      rw [foldl_perform_mutated _ _ distinct opMembership mutates]
      cases buffered : txnInsert world.db.kv op with
      | none => exact (outcome_of_no_insert mutates buffered ts.ns).symm
      | some insert =>
          have inserted := List.mem_filterMap.mpr ⟨op, opMembership, buffered⟩
          exact absurd ⟨insert, inserted, (txnInsert_writes buffered).2.1⟩ touched
    · rw [foldl_perform_other _ _ mutated]

/-! ## Each call is the call on the map -/

section Calls

variable {world : World} (inv : world.Inv) {ts : CommitTs} (later : world.db.clock < ts.ns)
  (reread : Option DB)

/-- The call on the log answers and acts as specified on the map. -/
def Refines (world : World) (ts : CommitTs) (reread : Option DB) (op : WriteOp) : Prop :=
  ∃ report, op.spec ts.ns report (getLatestTxn world.db.kv) =
    ((op.call world.db ts reread).1, getLatestTxn (op.call world.db ts reread).2.kv)

include inv later

theorem create_refines (key : Bytes) (value : Option Bytes) (leaseID : Int) :
    Refines world ts reread (.create key value leaseID) := by
  refine ⟨0, ?_⟩
  cases found : getLatestTxn world.db.kv key with
  | none =>
      simp only [WriteOp.spec, WriteOp.call, found, create_of_absent ts value leaseID found,
        tsToRev_of_exact ts.exact, createInsert_entry,
        commit_singleton inv later (.create key value leaseID found)]
      rfl
  | some prev =>
      simp only [WriteOp.spec, WriteOp.call, found, create_of_present ts value leaseID found]

theorem update_refines (key : Bytes) (value : Option Bytes) (revision leaseID : Int) :
    Refines world ts reread (.update key value revision leaseID) := by
  refine ⟨reportedRevision reread, ?_⟩
  cases found : getLatestTxn world.db.kv key with
  | none =>
      simp only [WriteOp.spec, WriteOp.call, found,
        update_of_absent ts reread value revision leaseID found]
  | some prev =>
      by_cases agrees : prev.rev = revision
      · subst agrees
        simp only [WriteOp.spec, WriteOp.call, found, KV.binding, if_true,
          update_of_match ts reread value leaseID found, tsToRev_of_exact ts.exact,
          updateInsert_entry inv found,
          commit_singleton inv later (.update key value leaseID prev found)]
        rfl
      · simp only [WriteOp.spec, WriteOp.call, found, KV.binding, agrees, if_false,
          update_of_mismatch ts reread value leaseID found agrees]

theorem delete_refines (key : Bytes) (revision : Int) :
    Refines world ts reread (.delete key revision) := by
  refine ⟨reportedRevision reread, ?_⟩
  cases found : getLatestTxn world.db.kv key with
  | none =>
      simp only [WriteOp.spec, WriteOp.call, found, delete_of_absent ts reread revision found]
  | some prev =>
      by_cases agrees : revision = 0 ∨ prev.rev = revision
      · simp only [WriteOp.spec, WriteOp.call, found, KV.binding, agrees, if_true,
          delete_of_match ts reread found agrees, tsToRev_of_exact ts.exact,
          tombstoneInsert_entry, commit_singleton inv later (.tombstone key prev found)]
        rfl
      · simp only [WriteOp.spec, WriteOp.call, found, KV.binding, agrees, if_false,
          delete_of_mismatch ts reread found (not_or.mp agrees)]

theorem deleteIfLease_refines (key : Bytes) (leaseID : Int) :
    Refines world ts reread (.deleteIfLease key leaseID) := by
  refine ⟨0, ?_⟩
  have unchanged : getLatestTxn (world.db.commit ts []).kv = getLatestTxn world.db.kv := by
    simp [DB.commit, committedRows]
  cases found : getLatestTxn world.db.kv key with
  | none =>
      simp only [WriteOp.spec, WriteOp.call, found, deleteIfLease_of_absent ts leaseID found,
        unchanged]
  | some prev =>
      by_cases agrees : prev.leaseID = leaseID
      · subst agrees
        simp only [WriteOp.spec, WriteOp.call, found, KV.binding, if_true,
          deleteIfLease_of_match ts found, tombstoneInsert_entry,
          commit_singleton inv later (.tombstone key prev found)]
        rfl
      · simp only [WriteOp.spec, WriteOp.call, found, KV.binding, agrees, if_false,
          deleteIfLease_of_mismatch ts found agrees, unchanged]

theorem atomicTxn_refines (compares : List TxnCompare) (successOps failureOps : List TxnOp) :
    Refines world ts reread (.atomicTxn compares successOps failureOps) := by
  refine ⟨if snapshotRevision world.db.kv = 0 then 1 else snapshotRevision world.db.kv, ?_⟩
  cases valid : validateCompares compares with
  | error err =>
      simp only [WriteOp.spec, WriteOp.call, valid,
        atomicTxn_of_invalid ts successOps failureOps valid]
  | ok _ =>
      have branch : (if compares.all (AbstractMap.holds (getLatestTxn world.db.kv)) then successOps
          else failureOps) = chosenOps world.db.kv compares successOps failureOps := by
        rw [chosenOps, evaluateCompares_eq]
      cases checked : branchCheck (chosenOps world.db.kv compares successOps failureOps) with
      | error err =>
          simp only [WriteOp.spec, WriteOp.call, valid, branch, checked,
            atomicTxn_of_error ts valid checked]
      | ok _ =>
          have distinct := ((branchCheck_ok_iff _).mp checked).1
          simp only [WriteOp.spec, WriteOp.call, valid, branch, checked,
            atomicTxn_of_ok ts valid checked, evaluateCompares_eq, txnResult_eq, txnRevision,
            txnInserts_isEmpty, commit_performs inv later distinct, tsToRev_of_exact ts.exact]
          cases (chosenOps world.db.kv compares successOps failureOps).any
            (AbstractMap.writes (getLatestTxn world.db.kv)) <;> simp

theorem WriteOp.refines (op : WriteOp) : Refines world ts reread op := by
  cases op with
  | create key value leaseID => exact create_refines inv later reread key value leaseID
  | update key value revision leaseID =>
      exact update_refines inv later reread key value revision leaseID
  | delete key revision => exact delete_refines inv later reread key revision
  | deleteIfLease key leaseID => exact deleteIfLease_refines inv later reread key leaseID
  | atomicTxn compares successOps failureOps =>
      exact atomicTxn_refines inv later reread compares successOps failureOps

end Calls

/-! ## The simulation -/

theorem WriteOp.call_failed (op : WriteOp) (db : DB) (ts : CommitTs) (reread : Option DB)
    (failed : (op.call db ts reread).1.failed = true) :
    (op.call db ts reread).2.kv = db.kv := by
  cases op with
  | create key value leaseID =>
      cases found : getLatestTxn db.kv key with
      | none => simp [call, create_of_absent ts value leaseID found, Output.failed] at failed
      | some prev => simp only [call, create_of_present ts value leaseID found]
  | update key value revision leaseID =>
      cases found : getLatestTxn db.kv key with
      | none => simp only [call, update_of_absent ts reread value revision leaseID found]
      | some prev =>
          by_cases agrees : prev.rev = revision
          · subst agrees
            simp [call, update_of_match ts reread value leaseID found, Output.failed] at failed
          · simp only [call, update_of_mismatch ts reread value leaseID found agrees]
  | delete key revision =>
      cases found : getLatestTxn db.kv key with
      | none => simp only [call, delete_of_absent ts reread revision found]
      | some prev =>
          by_cases agrees : revision = 0 ∨ prev.rev = revision
          · simp [call, delete_of_match ts reread found agrees, Output.failed] at failed
          · simp only [call, delete_of_mismatch ts reread found (not_or.mp agrees)]
  | deleteIfLease key leaseID =>
      cases found : getLatestTxn db.kv key with
      | none => simp [call, deleteIfLease_of_absent ts leaseID found, DB.commit, committedRows]
      | some prev =>
          by_cases agrees : prev.leaseID = leaseID
          · subst agrees
            simp [call, deleteIfLease_of_match ts found, Output.failed] at failed
          · simp [call, deleteIfLease_of_mismatch ts found agrees, DB.commit, committedRows]
  | atomicTxn compares successOps failureOps =>
      cases valid : validateCompares compares with
      | error err => simp only [call, atomicTxn_of_invalid ts successOps failureOps valid]
      | ok _ =>
          cases checked : branchCheck (chosenOps db.kv compares successOps failureOps) with
          | error err => simp only [call, atomicTxn_of_error ts valid checked]
          | ok _ => simp [call, atomicTxn_of_ok ts valid checked, Output.failed] at failed

theorem step_history {world next : World} {action : Action}
    (unseen : ∀ op ts, action ≠ .write op ts) (stepped : world.step action = some next) :
    next.history = world.history := by
  cases World.step_move stepped with
  | write op ts later => exact absurd rfl (unseen op ts)
  | seed => rfl
  | compactor compactor move => rfl

theorem World.Inv.observed {world next : World} {label : Label}
    (observed : world.Observed label next) (inv : world.Inv) : next.Inv := by
  cases observed with
  | call reread stepped => exact World.Inv.step stepped inv
  | internal unseen stepped => exact World.Inv.step stepped inv

theorem observed_mapStep {world next : World} {label : Label}
    (observed : world.Observed label next) (inv : world.Inv) :
    MapStep (getLatestTxn world.db.kv) label (getLatestTxn next.db.kv) := by
  cases observed with
  | @call op ts _ reread stepped =>
      simp only [World.step, Option.ite_none_right_eq_some, Option.some.injEq] at stepped
      obtain ⟨later, rfl⟩ := stepped
      obtain ⟨report, refined⟩ := WriteOp.refines inv later reread op
      rw [WriteOp.call_snd, Prod.ext_iff] at refined
      obtain ⟨answer, reached⟩ := refined
      simp only at answer reached
      rw [← answer, ← reached]
      exact .call op ts report
  | internal unseen stepped =>
      have nextInv := World.Inv.step stepped inv
      rw [inv.getLatestTxn_of_history nextInv (step_history unseen stepped)]
      exact .internal

theorem exists_trace {start finish : World} {actions : List Action}
    (ran : Runs.run World.step start actions = some finish) :
    ∃ labels, labels.length = actions.length ∧
      Simulation.Trace World.Observed start labels finish := by
  induction actions generalizing start with
  | nil =>
      simp only [Runs.run_nil, Option.some.injEq] at ran
      exact ⟨[], rfl, ran ▸ .nil start⟩
  | cons action rest inductionHypothesis =>
      obtain ⟨next, stepped, finished⟩ := Runs.run_cons_eq_some.mp ran
      obtain ⟨labels, sameLength, trace⟩ := inductionHypothesis finished
      have observed : ∃ label, start.Observed label next := by
        by_cases written : ∃ op ts, action = .write op ts
        · obtain ⟨op, ts, rfl⟩ := written
          exact ⟨_, .call none stepped⟩
        · refine ⟨_, .internal ?_ stepped⟩
          intro op ts isWrite
          exact written ⟨op, ts, isWrite⟩
      obtain ⟨label, observed⟩ := observed
      exact ⟨label :: labels, by simp [sameLength], .cons observed trace⟩

/-- Along every run, what the calls on the log return is what the calls on
the map return, and the log stands for the map they lead to.  A failed call
leaves the log unchanged. -/
theorem log_simulates_map {labels : List Label} {world : World}
    (trace : Simulation.Trace World.Observed World.init labels world) :
    Simulation.Trace MapStep AbstractMap.empty labels (getLatestTxn world.db.kv) ∧
    ∀ (op : WriteOp) (ts : CommitTs) (reread : Option DB),
      (op.call world.db ts reread).1.failed = true →
        (op.call world.db ts reread).2.kv = world.db.kv := by
  refine ⟨?_, fun op ts reread => op.call_failed world.db ts reread⟩
  have started : getLatestTxn World.init.db.kv = AbstractMap.empty := rfl
  rw [← started]
  exact trace.simulated (fun world => getLatestTxn world.db.kv)
    (fun _ _ _ observed => World.Inv.observed observed)
    (fun _ _ _ observed => observed_mapStep observed) World.init_inv

/-- A key is created, a transaction overwrites it and creates another one. -/
def writtenRun : List Action :=
  [.write (.create (ascii "k") (some (ascii "v")) 7) 5,
    .write (.atomicTxn [⟨ascii "k", some fun kv => kv.isSome, none⟩]
      [⟨.put, ascii "k", some (ascii "w"), 0⟩, ⟨.put, ascii "j", none, 0⟩] [])
      6]

def writtenWorld : World := (Runs.run World.step World.init writtenRun).getD World.init

theorem writtenWorld_simulated :
    writtenWorld.db.kv.length = 3 ∧ ∃ labels, labels.length = 2 ∧
      Simulation.Trace MapStep AbstractMap.empty labels (getLatestTxn writtenWorld.db.kv) := by
  have ran : Runs.run World.step World.init writtenRun = some writtenWorld := rfl
  obtain ⟨labels, sameLength, trace⟩ := exists_trace ran
  exact ⟨rfl, labels, sameLength, (log_simulates_map trace).1⟩

end SpannerEtcd
