import SpannerEtcd.Store.Read

/-!
# Writes of the store

Each write is the callback of one Spanner read-write transaction.  The
callback reads the committed rows, never its own buffered inserts, and either
fails, which leaves the database as it is, or buffers inserts that all commit
at one timestamp.
-/

namespace SpannerEtcd

/-- What a transaction callback leaves behind: the variables it captured and
its error or buffered inserts. -/
structure Callback (Captured : Type) where
  captured : Captured
  outcome : Except StoreErr (List KvInsert)

/-- `ReadWriteTransactionWithOptions`. -/
def readWriteTransaction {Captured : Type} (db : DB) (ts : CommitTs)
    (callback : Callback Captured) : Except StoreErr Unit × DB :=
  match callback.outcome with
  | .error err => (.error err, db)
  | .ok inserts => (.ok (), db.commit ts inserts)

/-! ## The columns of the inserts -/

/-- The columns written by `Create`. -/
def createInsert (key : Bytes) (value : Option Bytes) (leaseID : Int) : KvInsert :=
  { key := key
    value := value
    oldValue := none
    leaseId := leaseID
    deleted := false
    created := true
    createRevision := .commitTimestamp
    prevRevision := .null }

/-- The columns written by `Update` over the current entry `prev`. -/
def updateInsert (key : Bytes) (value : Option Bytes) (leaseID : Int) (prev : KV) : KvInsert :=
  { key := key
    value := value
    oldValue := prev.value
    leaseId := leaseID
    deleted := false
    created := false
    createRevision := .at (revToTS prev.createRevision)
    prevRevision := .at (revToTS prev.rev) }

/-- The columns of a tombstone over the current entry `prev`, the same in
`DeleteIfLease`, `Delete` and `AtomicTxn`. -/
def tombstoneInsert (key : Bytes) (prev : KV) : KvInsert :=
  { key := key
    value := none
    oldValue := prev.value
    leaseId := 0
    deleted := true
    created := false
    createRevision := .at (revToTS prev.createRevision)
    prevRevision := .at (revToTS prev.rev) }

/-- The columns written by a put of `AtomicTxn`. -/
def putInsert (key : Bytes) (value : Option Bytes) (leaseID : Int) (prev : Option KV) :
    KvInsert :=
  { key := key
    value := value
    oldValue := match prev with
      | some kv => kv.value
      | none => none
    leaseId := leaseID
    deleted := false
    created := prev.isNone
    createRevision := match prev with
      | some kv => .at (revToTS kv.createRevision)
      | none => .commitTimestamp
    prevRevision := match prev with
      | some kv => .at (revToTS kv.rev)
      | none => .null }

@[simp]
theorem putInsert_none (key : Bytes) (value : Option Bytes) (leaseID : Int) :
    putInsert key value leaseID none = createInsert key value leaseID := rfl

@[simp]
theorem putInsert_some (key : Bytes) (value : Option Bytes) (leaseID : Int) (prev : KV) :
    putInsert key value leaseID (some prev) = updateInsert key value leaseID prev := rfl

/-! ## Create -/

def createCallback (key : Bytes) (value : Option Bytes) (leaseID : Int)
    (rows : List Row) : Callback Unit :=
  { captured := ()
    outcome :=
      if keyExistsTxn rows key then .error .keyExists
      else .ok [createInsert key value leaseID] }

/-- Insert the key only if it does not currently exist. -/
def create (db : DB) (ts : CommitTs) (key : Bytes) (value : Option Bytes) (leaseID : Int) :
    Except StoreErr Int × DB :=
  match readWriteTransaction db ts (createCallback key value leaseID db.kv) with
  | (.error err, next) => (.error err, next)
  | (.ok _, next) => (.ok (tsToRev ts.ns), next)

/-! ## Update and Delete -/

structure CasResult where
  rev : Int
  prev : Option KV
  ok : Bool
  deriving DecidableEq, Repr

/-- `curRev, _ := s.CurrentRevision(ctx)`: the revision a failed
compare-and-swap reports, 0 when that read fails. -/
def reportedRevision (later : Option DB) : Int :=
  match later with
  | none => 0
  | some db => currentRevision db

/-- The return path shared by `Update` and `Delete`. -/
def casReturn (ts : CommitTs) (prev : Option KV) (later : Option DB) :
    Except StoreErr Unit → Except StoreErr CasResult
  | .error .revisionMismatch => .ok ⟨reportedRevision later, prev, false⟩
  | .error .keyNotFound => .ok ⟨reportedRevision later, prev, false⟩
  | .error err => .error err
  | .ok _ => .ok ⟨tsToRev ts.ns, prev, true⟩

def updateCallback (key : Bytes) (value : Option Bytes) (revision leaseID : Int)
    (rows : List Row) : Callback (Option KV) :=
  let prev := getLatestTxn rows key
  { captured := prev
    outcome :=
      match prev with
      | none => .error .keyNotFound
      | some kv =>
          if kv.rev ≠ revision then .error .revisionMismatch
          else .ok [updateInsert key value leaseID kv] }

/-- Replace the key at the given revision.  `later` is the snapshot of the
current-revision read on the failure path. -/
def update (db : DB) (ts : CommitTs) (later : Option DB) (key : Bytes)
    (value : Option Bytes) (revision leaseID : Int) : Except StoreErr CasResult × DB :=
  let callback := updateCallback key value revision leaseID db.kv
  let (err, next) := readWriteTransaction db ts callback
  (casReturn ts callback.captured later err, next)

def deleteCallback (key : Bytes) (revision : Int) (rows : List Row) :
    Callback (Option KV) :=
  let prev := getLatestTxn rows key
  { captured := prev
    outcome :=
      match prev with
      | none => .error .keyNotFound
      | some kv =>
          if revision ≠ 0 ∧ kv.rev ≠ revision then .error .revisionMismatch
          else .ok [tombstoneInsert key kv] }

/-- Remove the key at the given revision; 0 is unconditional. -/
def delete (db : DB) (ts : CommitTs) (later : Option DB) (key : Bytes) (revision : Int) :
    Except StoreErr CasResult × DB :=
  let callback := deleteCallback key revision db.kv
  let (err, next) := readWriteTransaction db ts callback
  (casReturn ts callback.captured later err, next)

/-! ## DeleteIfLease -/

def deleteIfLeaseCallback (key : Bytes) (leaseID : Int) (rows : List Row) :
    Callback Bool :=
  match getLatestTxn rows key with
  | none => { captured := false, outcome := .ok [] }
  | some prev =>
      if prev.leaseID ≠ leaseID then { captured := false, outcome := .ok [] }
      else { captured := true, outcome := .ok [tombstoneInsert key prev] }

/-- Remove the key only if its current row belongs to the lease. -/
def deleteIfLease (db : DB) (ts : CommitTs) (key : Bytes) (leaseID : Int) :
    Except StoreErr Bool × DB :=
  let callback := deleteIfLeaseCallback key leaseID db.kv
  match readWriteTransaction db ts callback with
  | (.error err, next) => (.error err, next)
  | (.ok _, next) => (.ok callback.captured, next)

/-! ## AtomicTxn -/

/-- `TxnOpType` is an `int` with three named values. -/
inductive TxnOpType where
  | put
  | delete
  | get
  | other (code : Int)
  deriving DecidableEq, Repr

structure TxnOp where
  type : TxnOpType
  key : Bytes
  value : Option Bytes
  leaseID : Int
  deriving DecidableEq, Repr

structure TxnResult where
  kv : Option KV
  ok : Bool
  deriving DecidableEq, Repr

/-- A compare predicate; `evaluate` is `none` for a nil function. -/
structure TxnCompare where
  key : Bytes
  evaluate : Option (Option KV → Bool)
  err : Option StoreErr

/-- The validation before the transaction is opened. -/
def validateCompares : List TxnCompare → Except StoreErr Unit
  | [] => .ok ()
  | compare :: rest =>
      match compare.err, compare.evaluate with
      | some err, _ => .error err
      | none, none => .error (.nilEvaluate compare.key)
      | none, some _ => validateCompares rest

/-- Whether every compare holds; stops at the first one that does not. -/
def evaluateCompares (rows : List Row) : List TxnCompare → Bool
  | [] => true
  | compare :: rest =>
      match compare.evaluate with
      | none => false
      | some evaluate =>
          if !evaluate (getLatestTxn rows compare.key) then false
          else evaluateCompares rows rest

def TxnOpType.mutates : TxnOpType → Bool
  | .put => true
  | .delete => true
  | _ => false

def checkDuplicates (seen : List Bytes) : List TxnOp → Except StoreErr Unit
  | [] => .ok ()
  | op :: rest =>
      if op.type.mutates then
        if op.key ∈ seen then .error (.duplicateMutation op.key)
        else checkDuplicates (op.key :: seen) rest
      else checkDuplicates seen rest

/-- Execute the operations in order, collecting results and inserts. -/
def executeTxnOps (rows : List Row) (results : List TxnResult) (inserts : List KvInsert) :
    List TxnOp → Except StoreErr (List TxnResult × List KvInsert)
  | [] => .ok (results, inserts)
  | op :: rest =>
      let prev := getLatestTxn rows op.key
      match op.type with
      | .get => executeTxnOps rows (results ++ [⟨prev, prev.isSome⟩]) inserts rest
      | .put =>
          executeTxnOps rows (results ++ [⟨prev, true⟩])
            (inserts ++ [putInsert op.key op.value op.leaseID prev]) rest
      | .delete =>
          match prev with
          | none => executeTxnOps rows (results ++ [⟨none, false⟩]) inserts rest
          | some kv =>
              executeTxnOps rows (results ++ [⟨some kv, true⟩])
                (inserts ++ [tombstoneInsert op.key kv]) rest
      | .other code => .error (.unknownTxnOpType code)

/-- `SELECT MAX(rev) FROM kv` as a revision, 0 on an empty table. -/
def snapshotRevision (rows : List Row) : Int :=
  match (rows.map Row.rev).max? with
  | none => 0
  | some ts => tsToRev ts

structure TxnCapture where
  succeeded : Bool
  results : List TxnResult
  hasMutations : Bool
  snapshotRev : Int

def atomicTxnCallback (compares : List TxnCompare) (successOps failureOps : List TxnOp)
    (rows : List Row) : Callback TxnCapture :=
  let succeeded := evaluateCompares rows compares
  let ops := if succeeded then successOps else failureOps
  let executed := do
    checkDuplicates [] ops
    executeTxnOps rows [] [] ops
  match executed with
  | .error err => { captured := ⟨succeeded, [], false, 0⟩, outcome := .error err }
  | .ok (results, inserts) =>
      let hasMutations := !inserts.isEmpty
      let snapshotRev := if hasMutations then 0 else snapshotRevision rows
      { captured := ⟨succeeded, results, hasMutations, snapshotRev⟩, outcome := .ok inserts }

structure AtomicTxnResult where
  succeeded : Bool
  results : List TxnResult
  commitRev : Int
  deriving DecidableEq, Repr

/-- Compares and operations in a single read-write transaction. -/
def atomicTxn (db : DB) (ts : CommitTs) (compares : List TxnCompare)
    (successOps failureOps : List TxnOp) : Except StoreErr AtomicTxnResult × DB :=
  match validateCompares compares with
  | .error err => (.error err, db)
  | .ok _ =>
      let callback := atomicTxnCallback compares successOps failureOps db.kv
      match readWriteTransaction db ts callback with
      | (.error err, next) => (.error err, next)
      | (.ok _, next) =>
          let captured := callback.captured
          let commitRev :=
            if captured.hasMutations then tsToRev ts.ns
            else if captured.snapshotRev = 0 then 1
            else captured.snapshotRev
          (.ok ⟨captured.succeeded, captured.results, commitRev⟩, next)

/-! ## All writes -/

/-- The five write calls of the store with their arguments. -/
inductive WriteOp where
  | create (key : Bytes) (value : Option Bytes) (leaseID : Int)
  | update (key : Bytes) (value : Option Bytes) (revision leaseID : Int)
  | delete (key : Bytes) (revision : Int)
  | deleteIfLease (key : Bytes) (leaseID : Int)
  | atomicTxn (compares : List TxnCompare) (successOps failureOps : List TxnOp)

def WriteOp.apply (op : WriteOp) (db : DB) (ts : CommitTs) : DB :=
  match op with
  | .create key value leaseID => (SpannerEtcd.create db ts key value leaseID).2
  | .update key value revision leaseID =>
      (SpannerEtcd.update db ts none key value revision leaseID).2
  | .delete key revision => (SpannerEtcd.delete db ts none key revision).2
  | .deleteIfLease key leaseID => (SpannerEtcd.deleteIfLease db ts key leaseID).2
  | .atomicTxn compares successOps failureOps =>
      (SpannerEtcd.atomicTxn db ts compares successOps failureOps).2

/-! ## What a write can do -/

/-- The inserts a transaction may buffer after reading `rows`. -/
inductive Writes (rows : List Row) : KvInsert → Prop where
  | create (key : Bytes) (value : Option Bytes) (leaseID : Int) :
      getLatestTxn rows key = none → Writes rows (createInsert key value leaseID)
  | update (key : Bytes) (value : Option Bytes) (leaseID : Int) (prev : KV) :
      getLatestTxn rows key = some prev → Writes rows (updateInsert key value leaseID prev)
  | tombstone (key : Bytes) (prev : KV) :
      getLatestTxn rows key = some prev → Writes rows (tombstoneInsert key prev)

/-- The inserts of one transaction: each over the rows it read, and at most
one for each key. -/
structure WriteSet (rows : List Row) (inserts : List KvInsert) : Prop where
  writes : ∀ insert ∈ inserts, Writes rows insert
  keys : (inserts.map KvInsert.key).Nodup

theorem WriteSet.nil (rows : List Row) : WriteSet rows [] :=
  ⟨by simp, by simp⟩

theorem WriteSet.singleton {rows : List Row} {insert : KvInsert}
    (writes : Writes rows insert) : WriteSet rows [insert] :=
  ⟨by simpa using writes, by simp⟩

theorem getLatestTxn_eq_none {rows : List Row} {key : Bytes} :
    getLatestTxn rows key = none ↔ keyExistsTxn rows key = false := by
  rw [keyExistsTxn_eq_isSome, Option.isSome_eq_false_iff, Option.isNone_iff_eq_none]

def txnResult (rows : List Row) (op : TxnOp) : TxnResult :=
  let prev := getLatestTxn rows op.key
  match op.type with
  | .put => ⟨prev, true⟩
  | _ => ⟨prev, prev.isSome⟩

def txnInsert (rows : List Row) (op : TxnOp) : Option KvInsert :=
  let prev := getLatestTxn rows op.key
  match op.type with
  | .put => some (putInsert op.key op.value op.leaseID prev)
  | .delete => prev.map (tombstoneInsert op.key)
  | _ => none

def mutatedKeys (ops : List TxnOp) : List Bytes :=
  (ops.filter fun op => op.type.mutates).map TxnOp.key

def unknownType (op : TxnOp) : Option StoreErr :=
  match op.type with
  | .other code => some (.unknownTxnOpType code)
  | _ => none

/-- The operation loop returns the per-operation results and inserts, unless
some operation type has no name. -/
theorem executeTxnOps_eq (rows : List Row) (ops : List TxnOp)
    (results : List TxnResult) (inserts : List KvInsert) :
    executeTxnOps rows results inserts ops =
      match ops.findSome? unknownType with
      | some err => .error err
      | none =>
          .ok (results ++ ops.map (txnResult rows), inserts ++ ops.filterMap (txnInsert rows)) := by
  induction ops generalizing results inserts with
  | nil => simp [executeTxnOps]
  | cons op rest inductionHypothesis =>
      cases kind : op.type with
      | get =>
          simp only [executeTxnOps, kind, inductionHypothesis, List.findSome?_cons, unknownType]
          simp [txnResult, txnInsert, kind]
      | put =>
          simp only [executeTxnOps, kind, inductionHypothesis, List.findSome?_cons, unknownType]
          simp [txnResult, txnInsert, kind]
      | delete =>
          cases found : getLatestTxn rows op.key with
          | none =>
              simp only [executeTxnOps, kind, found, inductionHypothesis, List.findSome?_cons,
                unknownType]
              simp [txnResult, txnInsert, kind, found]
          | some prev =>
              simp only [executeTxnOps, kind, found, inductionHypothesis, List.findSome?_cons,
                unknownType]
              simp [txnResult, txnInsert, kind, found]
      | other code => simp [executeTxnOps, kind, unknownType]

theorem checkDuplicates_ok_iff (ops : List TxnOp) (seen : List Bytes) :
    checkDuplicates seen ops = .ok () ↔
      (mutatedKeys ops).Nodup ∧ ∀ key ∈ mutatedKeys ops, key ∉ seen := by
  induction ops generalizing seen with
  | nil => simp [checkDuplicates, mutatedKeys]
  | cons op rest inductionHypothesis =>
      cases mutates : op.type.mutates with
      | false => simpa [checkDuplicates, mutatedKeys, mutates] using inductionHypothesis seen
      | true =>
          have keys : mutatedKeys (op :: rest) = op.key :: mutatedKeys rest := by
            simp [mutatedKeys, mutates]
          by_cases repeated : op.key ∈ seen
          · simp [checkDuplicates, mutates, repeated, keys]
          · simp only [checkDuplicates, mutates, repeated, if_true, if_false,
              inductionHypothesis, keys, List.nodup_cons, List.mem_cons, forall_eq_or_imp,
              not_false_eq_true, true_and]
            constructor
            · rintro ⟨distinct, fresh⟩
              exact ⟨⟨fun repeatedLater => (fresh op.key repeatedLater) (.inl rfl), distinct⟩,
                fun key membership inSeen => fresh key membership (.inr inSeen)⟩
            · rintro ⟨⟨headFresh, distinct⟩, fresh⟩
              refine ⟨distinct, fun key membership clash => ?_⟩
              rcases clash with equality | inSeen
              · exact headFresh (equality ▸ membership)
              · exact fresh key membership inSeen

theorem txnInsert_writes {rows : List Row} {op : TxnOp} {insert : KvInsert}
    (buffered : txnInsert rows op = some insert) :
    Writes rows insert ∧ insert.key = op.key ∧ op.type.mutates = true := by
  cases kind : op.type with
  | put =>
      cases found : getLatestTxn rows op.key with
      | none =>
          simp only [txnInsert, kind, found, putInsert_none, Option.some.injEq] at buffered
          subst insert
          exact ⟨.create op.key op.value op.leaseID found, rfl, rfl⟩
      | some prev =>
          simp only [txnInsert, kind, found, putInsert_some, Option.some.injEq] at buffered
          subst insert
          exact ⟨.update op.key op.value op.leaseID prev found, rfl, rfl⟩
  | delete =>
      cases found : getLatestTxn rows op.key with
      | none => simp [txnInsert, kind, found] at buffered
      | some prev =>
          simp only [txnInsert, kind, found, Option.map_some, Option.some.injEq] at buffered
          subst insert
          exact ⟨.tombstone op.key prev found, rfl, rfl⟩
  | get => simp [txnInsert, kind] at buffered
  | other code => simp [txnInsert, kind] at buffered

/-- The inserts of a branch go to a sublist of the keys that it mutates. -/
theorem txnInserts_keys_sublist (rows : List Row) (ops : List TxnOp) :
    ((ops.filterMap (txnInsert rows)).map KvInsert.key).Sublist (mutatedKeys ops) := by
  induction ops with
  | nil => simp [mutatedKeys]
  | cons op rest inductionHypothesis =>
      cases buffered : txnInsert rows op with
      | none =>
          rw [List.filterMap_cons_none buffered]
          refine inductionHypothesis.trans ?_
          cases mutates : op.type.mutates <;> simp [mutatedKeys, mutates]
      | some insert =>
          obtain ⟨_, sameKey, mutates⟩ := txnInsert_writes buffered
          rw [List.filterMap_cons_some buffered]
          simpa [mutatedKeys, mutates, sameKey] using inductionHypothesis

theorem txnInserts_writeSet {rows : List Row} {ops : List TxnOp}
    (distinct : (mutatedKeys ops).Nodup) :
    WriteSet rows (ops.filterMap (txnInsert rows)) := by
  refine ⟨?_, distinct.sublist (txnInserts_keys_sublist rows ops)⟩
  intro insert membership
  obtain ⟨op, _, buffered⟩ := List.mem_filterMap.mp membership
  exact (txnInsert_writes buffered).1

/-! ## One specification for each write -/

theorem create_of_absent {db : DB} {key : Bytes} (ts : CommitTs) (value : Option Bytes)
    (leaseID : Int) (absent : getLatestTxn db.kv key = none) :
    create db ts key value leaseID =
      (.ok (tsToRev ts.ns), db.commit ts [createInsert key value leaseID]) := by
  simp [create, readWriteTransaction, createCallback, getLatestTxn_eq_none.mp absent]

theorem create_of_present {db : DB} {key : Bytes} {prev : KV} (ts : CommitTs)
    (value : Option Bytes) (leaseID : Int) (present : getLatestTxn db.kv key = some prev) :
    create db ts key value leaseID = (.error .keyExists, db) := by
  simp [create, readWriteTransaction, createCallback, keyExistsTxn_eq_isSome, present]

theorem update_of_absent {db : DB} {key : Bytes} (ts : CommitTs) (later : Option DB)
    (value : Option Bytes) (revision leaseID : Int) (absent : getLatestTxn db.kv key = none) :
    update db ts later key value revision leaseID =
      (.ok ⟨reportedRevision later, none, false⟩, db) := by
  simp [update, readWriteTransaction, updateCallback, casReturn, absent]

theorem update_of_mismatch {db : DB} {key : Bytes} {prev : KV} (ts : CommitTs)
    (later : Option DB) (value : Option Bytes) {revision : Int} (leaseID : Int)
    (present : getLatestTxn db.kv key = some prev) (mismatch : prev.rev ≠ revision) :
    update db ts later key value revision leaseID =
      (.ok ⟨reportedRevision later, some prev, false⟩, db) := by
  simp [update, readWriteTransaction, updateCallback, casReturn, present, mismatch]

theorem update_of_match {db : DB} {key : Bytes} {prev : KV} (ts : CommitTs)
    (later : Option DB) (value : Option Bytes) (leaseID : Int)
    (present : getLatestTxn db.kv key = some prev) :
    update db ts later key value prev.rev leaseID =
      (.ok ⟨tsToRev ts.ns, some prev, true⟩,
        db.commit ts [updateInsert key value leaseID prev]) := by
  simp [update, readWriteTransaction, updateCallback, casReturn, present]

theorem delete_of_absent {db : DB} {key : Bytes} (ts : CommitTs) (later : Option DB)
    (revision : Int) (absent : getLatestTxn db.kv key = none) :
    delete db ts later key revision = (.ok ⟨reportedRevision later, none, false⟩, db) := by
  simp [delete, readWriteTransaction, deleteCallback, casReturn, absent]

theorem delete_of_mismatch {db : DB} {key : Bytes} {prev : KV} (ts : CommitTs)
    (later : Option DB) {revision : Int} (present : getLatestTxn db.kv key = some prev)
    (mismatch : revision ≠ 0 ∧ prev.rev ≠ revision) :
    delete db ts later key revision =
      (.ok ⟨reportedRevision later, some prev, false⟩, db) := by
  simp [delete, readWriteTransaction, deleteCallback, casReturn, present, mismatch]

theorem delete_of_match {db : DB} {key : Bytes} {prev : KV} (ts : CommitTs)
    (later : Option DB) {revision : Int} (present : getLatestTxn db.kv key = some prev)
    (matches_ : revision = 0 ∨ prev.rev = revision) :
    delete db ts later key revision =
      (.ok ⟨tsToRev ts.ns, some prev, true⟩, db.commit ts [tombstoneInsert key prev]) := by
  have condition : ¬(revision ≠ 0 ∧ prev.rev ≠ revision) := by tauto
  simp only [delete, readWriteTransaction, deleteCallback, present, condition, if_false, casReturn]

theorem deleteIfLease_of_match {db : DB} {key : Bytes} {prev : KV} (ts : CommitTs)
    (present : getLatestTxn db.kv key = some prev) :
    deleteIfLease db ts key prev.leaseID =
      (.ok true, db.commit ts [tombstoneInsert key prev]) := by
  simp [deleteIfLease, readWriteTransaction, deleteIfLeaseCallback, present]

theorem deleteIfLease_of_absent {db : DB} {key : Bytes} (ts : CommitTs) (leaseID : Int)
    (absent : getLatestTxn db.kv key = none) :
    deleteIfLease db ts key leaseID = (.ok false, db.commit ts []) := by
  simp [deleteIfLease, readWriteTransaction, deleteIfLeaseCallback, absent]

theorem deleteIfLease_of_mismatch {db : DB} {key : Bytes} {prev : KV} {leaseID : Int}
    (ts : CommitTs) (present : getLatestTxn db.kv key = some prev)
    (mismatch : prev.leaseID ≠ leaseID) :
    deleteIfLease db ts key leaseID = (.ok false, db.commit ts []) := by
  simp [deleteIfLease, readWriteTransaction, deleteIfLeaseCallback, present, mismatch]

def chosenOps (rows : List Row) (compares : List TxnCompare)
    (successOps failureOps : List TxnOp) : List TxnOp :=
  if evaluateCompares rows compares then successOps else failureOps

/-- Why a branch is refused: a key mutated twice, or an operation type
without a name. -/
def branchCheck (ops : List TxnOp) : Except StoreErr Unit := do
  checkDuplicates [] ops
  match ops.findSome? unknownType with
  | some err => .error err
  | none => .ok ()

theorem branchCheck_ok_iff (ops : List TxnOp) :
    branchCheck ops = .ok () ↔
      (mutatedKeys ops).Nodup ∧ ops.findSome? unknownType = none := by
  have unrepeated := checkDuplicates_ok_iff ops []
  unfold branchCheck
  cases checked : checkDuplicates [] ops with
  | error err =>
      simp only [checked, reduceCtorEq, false_iff] at unrepeated
      simp only [bind, Except.bind, reduceCtorEq, false_iff, not_and]
      intro distinct
      exact absurd ⟨distinct, by simp⟩ unrepeated
  | ok _ =>
      have distinct := (unrepeated.mp checked).1
      simp only [bind, Except.bind, distinct, true_and]
      cases ops.findSome? unknownType <;> simp

def txnRevision (rows : List Row) (ts : CommitTs) (inserts : List KvInsert) : Int :=
  if inserts.isEmpty then
    if snapshotRevision rows = 0 then 1 else snapshotRevision rows
  else tsToRev ts.ns

theorem executed_eq (rows : List Row) (ops : List TxnOp) :
    (do
      checkDuplicates [] ops
      executeTxnOps rows [] [] ops) =
      (branchCheck ops).map
        fun _ => (ops.map (txnResult rows), ops.filterMap (txnInsert rows)) := by
  unfold branchCheck
  rw [executeTxnOps_eq]
  cases checkDuplicates [] ops with
  | error err => rfl
  | ok _ => cases ops.findSome? unknownType <;> simp [bind, Except.bind, Except.map]

theorem atomicTxn_of_ok {db : DB} (ts : CommitTs) {compares : List TxnCompare}
    {successOps failureOps : List TxnOp} (valid : validateCompares compares = .ok ())
    (checked : branchCheck (chosenOps db.kv compares successOps failureOps) = .ok ()) :
    let ops := chosenOps db.kv compares successOps failureOps
    let inserts := ops.filterMap (txnInsert db.kv)
    atomicTxn db ts compares successOps failureOps =
      (.ok ⟨evaluateCompares db.kv compares, ops.map (txnResult db.kv),
        txnRevision db.kv ts inserts⟩, db.commit ts inserts) := by
  intro ops inserts
  have branch : (if evaluateCompares db.kv compares then successOps else failureOps) = ops := rfl
  simp only [atomicTxn, valid, readWriteTransaction, atomicTxnCallback, branch, executed_eq]
  rw [checked]
  cases empty : (ops.filterMap (txnInsert db.kv)).isEmpty <;>
    simp [txnRevision, inserts, empty, Except.map]

theorem atomicTxn_of_invalid {db : DB} (ts : CommitTs) {compares : List TxnCompare}
    (successOps failureOps : List TxnOp) {err : StoreErr}
    (invalid : validateCompares compares = .error err) :
    atomicTxn db ts compares successOps failureOps = (.error err, db) := by
  simp [atomicTxn, invalid]

theorem atomicTxn_of_error {db : DB} (ts : CommitTs) {compares : List TxnCompare}
    {successOps failureOps : List TxnOp} (valid : validateCompares compares = .ok ())
    {err : StoreErr}
    (refused : branchCheck (chosenOps db.kv compares successOps failureOps) = .error err) :
    atomicTxn db ts compares successOps failureOps = (.error err, db) := by
  have branch : (if evaluateCompares db.kv compares then successOps else failureOps) =
      chosenOps db.kv compares successOps failureOps := rfl
  simp only [atomicTxn, valid, readWriteTransaction, atomicTxnCallback, branch, executed_eq]
  rw [refused]
  simp only [Except.map]

/-- Every write either leaves the database alone or commits one write set. -/
theorem WriteOp.apply_cases (op : WriteOp) (db : DB) (ts : CommitTs) :
    op.apply db ts = db ∨
      ∃ inserts, WriteSet db.kv inserts ∧ op.apply db ts = db.commit ts inserts := by
  cases op with
  | create key value leaseID =>
      cases found : getLatestTxn db.kv key with
      | none =>
          refine .inr ⟨_, .singleton (.create key value leaseID found), ?_⟩
          simp only [apply, create_of_absent ts value leaseID found]
      | some prev => exact .inl (by simp only [apply, create_of_present ts value leaseID found])
  | update key value revision leaseID =>
      cases found : getLatestTxn db.kv key with
      | none =>
          exact .inl (by simp only [apply, update_of_absent ts none value revision leaseID found])
      | some prev =>
          by_cases agrees : prev.rev = revision
          · subst agrees
            refine .inr ⟨_, .singleton (.update key value leaseID prev found), ?_⟩
            simp only [apply, update_of_match ts none value leaseID found]
          · exact .inl (by simp only [apply, update_of_mismatch ts none value leaseID found agrees])
  | delete key revision =>
      cases found : getLatestTxn db.kv key with
      | none => exact .inl (by simp only [apply, delete_of_absent ts none revision found])
      | some prev =>
          by_cases agrees : revision = 0 ∨ prev.rev = revision
          · refine .inr ⟨_, .singleton (.tombstone key prev found), ?_⟩
            simp only [apply, delete_of_match ts none found agrees]
          · exact .inl (by simp only [apply, delete_of_mismatch ts none found (not_or.mp agrees)])
  | deleteIfLease key leaseID =>
      cases found : getLatestTxn db.kv key with
      | none =>
          refine .inr ⟨[], .nil db.kv, ?_⟩
          simp only [apply, deleteIfLease_of_absent ts leaseID found]
      | some prev =>
          by_cases agrees : prev.leaseID = leaseID
          · subst agrees
            refine .inr ⟨_, .singleton (.tombstone key prev found), ?_⟩
            simp only [apply, deleteIfLease_of_match ts found]
          · refine .inr ⟨[], .nil db.kv, ?_⟩
            simp only [apply, deleteIfLease_of_mismatch ts found agrees]
  | atomicTxn compares successOps failureOps =>
      cases valid : validateCompares compares with
      | error err =>
          exact .inl (by simp only [apply, atomicTxn_of_invalid ts successOps failureOps valid])
      | ok _ =>
          cases checked : branchCheck (chosenOps db.kv compares successOps failureOps) with
          | error err => exact .inl (by simp only [apply, atomicTxn_of_error ts valid checked])
          | ok _ =>
              have distinct := ((branchCheck_ok_iff _).mp checked).1
              refine .inr ⟨_, txnInserts_writeSet distinct, ?_⟩
              simp only [apply, atomicTxn_of_ok ts valid checked]

end SpannerEtcd
