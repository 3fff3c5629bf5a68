import SpannerEtcd.Lib.Retry
import SpannerEtcd.Store.Write

/-!
# Retried transactions

The Spanner client runs the callback of a read-write transaction again when an
attempt is aborted.  The callbacks of `Update`, `Delete`, `DeleteIfLease` and
`AtomicTxn` assign variables of the function around them, and these keep their
values from one attempt to the next.  Here the callbacks are written access by
access, with the assignments, so that an attempt can end anywhere.
-/

namespace SpannerEtcd

/-- An error out of a transaction: one of the callback's own, or one that a
read, a buffered write or the commit met. -/
inductive TxnErr where
  | store (err : StoreErr)
  | aborted
  | spanner (code : Int)
  deriving DecidableEq, Repr

def TxnErr.isAborted : TxnErr → Bool
  | .aborted => true
  | _ => false

abbrev TxnCallback (Vars : Type) : Type → Type := Retry.Callback DB Vars KvInsert TxnErr

abbrev TxnAttempt : Type := Retry.Attempt DB TxnErr

abbrev TxnCall (Vars Out : Type) : Type := Retry.Call DB Vars KvInsert TxnErr Out

/-- What a call returns, and the rows that its transaction commits, if it
commits. -/
structure Returned (Out : Type) where
  result : Except TxnErr Out
  written : Option (List KvInsert)

/-- The result beside the database that the call leaves. -/
def Returned.on {Out : Type} (db : DB) (ts : CommitTs) (returned : Returned Out) :
    Except TxnErr Out × DB :=
  (returned.result, match returned.written with
    | none => db
    | some inserts => db.commit ts inserts)

section Accesses

variable {Vars : Type}

/-- `getLatestTxn` inside a transaction. -/
def queryLatest (key : Bytes) : TxnCallback Vars (Except TxnErr (Option KV)) :=
  .read fun answer => .ret (answer.map fun db => getLatestTxn db.kv key)

def bufferWrite (insert : KvInsert) : TxnCallback Vars (Except TxnErr Unit) :=
  .write insert .ret

theorem exec_queryLatest (db : DB) (key : Bytes) (vars : Vars) (buffered : List KvInsert) :
    (queryLatest key).exec db ⟨vars, buffered, none⟩ =
      (.ok (getLatestTxn db.kv key), ⟨vars, buffered, none⟩) := rfl

theorem exec_bufferWrite (db : DB) (insert : KvInsert) (vars : Vars) (buffered : List KvInsert) :
    (bufferWrite insert).exec db ⟨vars, buffered, none⟩ =
      (.ok (), ⟨vars, buffered ++ [insert], none⟩) := rfl

theorem exec_modify (db : DB) (change : Vars → Vars) (vars : Vars) (buffered : List KvInsert) :
    (Retry.Callback.modify change : TxnCallback Vars Unit).exec db ⟨vars, buffered, none⟩ =
      ((), ⟨change vars, buffered, none⟩) := rfl

/-- After a read, every answer has to be looked at. -/
theorem assigns_queryLatest {Result : Type} {silent : TxnErr → Prop} {key : Bytes}
    {next : Except TxnErr (Option KV) → TxnCallback Vars (Except TxnErr Result)}
    (assigns : ∀ answer, (next answer).Assigns silent) :
    (queryLatest key >>= next).Assigns silent :=
  .read fun _ => assigns _

end Accesses

/-! ## Update and Delete -/

/-- The callback shared by `Update` and `Delete`.  `prev, err = getLatestTxn`
assigns the captured `prev` even when the read fails. -/
def casAttempt (key : Bytes) (mismatch : KV → Bool) (insert : KV → KvInsert) :
    TxnCallback (Option KV) (Except TxnErr Unit) := do
  match ← queryLatest key with
  | .error err => .assign none (.ret (.error err))
  | .ok prev =>
      .assign prev <|
        match prev with
        | none => .ret (.error (.store .keyNotFound))
        | some kv =>
            if mismatch kv then .ret (.error (.store .revisionMismatch))
            else bufferWrite (insert kv)

/-- The return path shared by `Update` and `Delete`: an error of Spanner is
neither of the two that it looks for. -/
def casAnswer (ts : CommitTs) (later : Option DB) (outcome : Except TxnErr (List KvInsert))
    (prev : Option KV) : Returned CasResult :=
  { result :=
      match outcome with
      | .ok _ => (casReturn ts prev later (.ok ())).mapError .store
      | .error (.store err) => (casReturn ts prev later (.error err)).mapError .store
      | .error err => .error err
    written := outcome.toOption }

def casCall (ts : CommitTs) (later : Option DB) (key : Bytes) (mismatch : KV → Bool)
    (insert : KV → KvInsert) : TxnCall (Option KV) (Returned CasResult) :=
  { callback := casAttempt key mismatch insert
    initial := none
    answer := fun _ => casAnswer ts later }

def updateCall (ts : CommitTs) (later : Option DB) (key : Bytes) (value : Option Bytes)
    (revision leaseID : Int) : TxnCall (Option KV) (Returned CasResult) :=
  casCall ts later key (fun prev => prev.rev != revision) (updateInsert key value leaseID)

def deleteCall (ts : CommitTs) (later : Option DB) (key : Bytes) (revision : Int) :
    TxnCall (Option KV) (Returned CasResult) :=
  casCall ts later key (fun prev => revision != 0 && prev.rev != revision) (tombstoneInsert key)

section CompareAndSwap

variable (db : DB) (ts : CommitTs) (later : Option DB) (key : Bytes) (mismatch : KV → Bool)
  (insert : KV → KvInsert)

theorem exec_casAttempt (vars : Option KV) :
    (casAttempt key mismatch insert).exec db ⟨vars, [], none⟩ =
      match getLatestTxn db.kv key with
      | none => (.error (.store .keyNotFound), ⟨none, [], none⟩)
      | some prev =>
          if mismatch prev then (.error (.store .revisionMismatch), ⟨some prev, [], none⟩)
          else (.ok (), ⟨some prev, [insert prev], none⟩) := by
  rw [casAttempt, Retry.Callback.exec_bind, exec_queryLatest]
  cases getLatestTxn db.kv key with
  | none => rfl
  | some prev =>
      simp only [Retry.Callback.exec]
      split
      · rfl
      · rw [exec_bufferWrite, List.nil_append]

/-- A single attempt of `Update` or `Delete` that meets no error. -/
theorem run_casCall :
    (casCall ts later key mismatch insert).run TxnErr.isAborted [⟨db, none⟩] =
      some (match getLatestTxn db.kv key with
        | none => ⟨.ok ⟨reportedRevision later, none, false⟩, none⟩
        | some prev =>
            if mismatch prev then ⟨.ok ⟨reportedRevision later, some prev, false⟩, none⟩
            else ⟨.ok ⟨tsToRev ts.ns, some prev, true⟩, some [insert prev]⟩) := by
  have executed := exec_casAttempt db key mismatch insert none
  cases found : getLatestTxn db.kv key with
  | none =>
      rw [found] at executed
      rw [Retry.Call.run_of_error executed rfl]
      rfl
  | some prev =>
      simp only [found] at executed
      cases refused : mismatch prev with
      | true =>
          rw [if_pos refused] at executed
          rw [Retry.Call.run_of_error executed rfl]
          simp only [refused, if_true]
          rfl
      | false =>
          rw [refused, if_neg Bool.false_ne_true] at executed
          rw [Retry.Call.run_of_ok executed]
          simp only [refused, if_neg Bool.false_ne_true]
          rfl

theorem casCall_fresh : (casCall ts later key mismatch insert).Fresh fun _ => False where
  assigns := by
    apply assigns_queryLatest
    intro answer
    cases answer with
    | error err => apply Retry.Callback.Assigns.assign
    | ok prev => apply Retry.Callback.Assigns.assign
  answer := by simp

end CompareAndSwap

/-- A result of the store, seen beside the errors of Spanner. -/
def storeResult {Out : Type} (returned : Except StoreErr Out × DB) : Except TxnErr Out × DB :=
  (returned.1.mapError .store, returned.2)

theorem updateCall_alone (db : DB) (ts : CommitTs) (later : Option DB) (key : Bytes)
    (value : Option Bytes) (revision leaseID : Int) :
    ((updateCall ts later key value revision leaseID).run TxnErr.isAborted [⟨db, none⟩]).map
        (Returned.on db ts) =
      some (storeResult (update db ts later key value revision leaseID)) := by
  rw [updateCall, run_casCall]
  cases found : getLatestTxn db.kv key with
  | none =>
      rw [update_of_absent ts later _ _ _ found]
      rfl
  | some prev =>
      by_cases agrees : prev.rev = revision
      · subst agrees
        rw [update_of_match ts later _ _ found]
        simp only [bne_self_eq_false, if_neg Bool.false_ne_true]
        rfl
      · rw [update_of_mismatch ts later _ _ found agrees]
        simp only [bne_iff_ne.mpr agrees, if_true]
        rfl

theorem deleteCall_alone (db : DB) (ts : CommitTs) (later : Option DB) (key : Bytes)
    (revision : Int) :
    ((deleteCall ts later key revision).run TxnErr.isAborted [⟨db, none⟩]).map
        (Returned.on db ts) =
      some (storeResult (delete db ts later key revision)) := by
  rw [deleteCall, run_casCall]
  cases found : getLatestTxn db.kv key with
  | none =>
      rw [delete_of_absent ts later _ found]
      rfl
  | some prev =>
      by_cases mismatch : revision ≠ 0 ∧ prev.rev ≠ revision
      · rw [delete_of_mismatch ts later found mismatch]
        simp only [bne_iff_ne.mpr mismatch.1, bne_iff_ne.mpr mismatch.2, Bool.and_self, if_true]
        rfl
      · have agrees : revision = 0 ∨ prev.rev = revision := by tauto
        have accepted : (revision != 0 && prev.rev != revision) = false := by
          simpa using mismatch
        rw [delete_of_match ts later found agrees]
        simp only [accepted, if_neg Bool.false_ne_true]
        rfl

/-! ## DeleteIfLease -/

/-- The captured variable is the named result `deleted`, which a failed read
leaves alone. -/
def deleteIfLeaseAttempt (key : Bytes) (leaseID : Int) :
    TxnCallback Bool (Except TxnErr Unit) := do
  match ← queryLatest key with
  | .error err => .ret (.error err)
  | .ok none => .assign false (.ret (.ok ()))
  | .ok (some prev) =>
      if prev.leaseID ≠ leaseID then .assign false (.ret (.ok ()))
      else .assign true (bufferWrite (tombstoneInsert key prev))

def deleteIfLeaseCall (key : Bytes) (leaseID : Int) : TxnCall Bool (Returned Bool) :=
  { callback := deleteIfLeaseAttempt key leaseID
    initial := false
    answer := fun _ outcome deleted =>
      { result := outcome.map fun _ => deleted
        written := outcome.toOption } }

theorem deleteIfLeaseCall_fresh (key : Bytes) (leaseID : Int) :
    (deleteIfLeaseCall key leaseID).Fresh fun _ => True where
  assigns := by
    apply assigns_queryLatest
    intro answer
    rcases answer with err | _ | prev
    · exact .fail trivial
    · apply Retry.Callback.Assigns.assign
    · by_cases other : prev.leaseID ≠ leaseID
      · simp only [if_pos other]
        apply Retry.Callback.Assigns.assign
      · simp only [if_neg other]
        apply Retry.Callback.Assigns.assign
  answer := fun _ _ _ _ _ => rfl

theorem deleteIfLeaseCall_alone (db : DB) (ts : CommitTs) (key : Bytes) (leaseID : Int) :
    ((deleteIfLeaseCall key leaseID).run TxnErr.isAborted [⟨db, none⟩]).map (Returned.on db ts) =
      some (storeResult (deleteIfLease db ts key leaseID)) := by
  have executed : (deleteIfLeaseAttempt key leaseID).exec db ⟨false, [], none⟩ =
      (match (.ok (getLatestTxn db.kv key) : Except TxnErr (Option KV)) with
        | .error err => .ret (.error err)
        | .ok none => .assign false (.ret (.ok ()))
        | .ok (some prev) =>
            if prev.leaseID ≠ leaseID then .assign false (.ret (.ok ()))
            else .assign true (bufferWrite (tombstoneInsert key prev)) :
          TxnCallback Bool (Except TxnErr Unit)).exec db ⟨false, [], none⟩ := by
    rw [deleteIfLeaseAttempt, Retry.Callback.exec_bind, exec_queryLatest]
  cases found : getLatestTxn db.kv key with
  | none =>
      simp only [found] at executed
      rw [Retry.Call.run_of_ok executed, deleteIfLease_of_absent ts leaseID found]
      rfl
  | some prev =>
      simp only [found] at executed
      by_cases agrees : prev.leaseID = leaseID
      · subst agrees
        rw [if_neg (by simp)] at executed
        rw [Retry.Call.run_of_ok executed, deleteIfLease_of_match ts found]
        rfl
      · rw [if_pos agrees] at executed
        rw [Retry.Call.run_of_ok executed, deleteIfLease_of_mismatch ts found agrees]
        rfl

/-! ## AtomicTxn -/

/-- The variables around the callback: the three named results and two
locals. -/
structure TxnVars where
  succeeded : Bool
  results : List TxnResult
  hasMutations : Bool
  commitRev : Int
  snapshotRev : Int

def TxnVars.append (vars : TxnVars) (result : TxnResult) : TxnVars :=
  { vars with results := vars.results ++ [result] }

/-- The loop over the compares; `Evaluate` is not nil here, as
`validateCompares` has passed. -/
def compareLoop : List TxnCompare → TxnCallback TxnVars (Except TxnErr Unit)
  | [] => .ret (.ok ())
  | compare :: rest => do
      match ← queryLatest compare.key with
      | .error err => .ret (.error err)
      | .ok kv =>
          if compare.evaluate.any fun evaluate => evaluate kv then compareLoop rest
          else do
            .modify fun vars => { vars with succeeded := false }
            return .ok ()

/-- The loop over the operations of the chosen branch. -/
def opLoop : List TxnOp → TxnCallback TxnVars (Except TxnErr Unit)
  | [] => .ret (.ok ())
  | op :: rest =>
      match op.type with
      | .get => do
          match ← queryLatest op.key with
          | .error err => .ret (.error err)
          | .ok kv =>
              .modify fun vars => vars.append ⟨kv, kv.isSome⟩
              opLoop rest
      | .put => do
          match ← queryLatest op.key with
          | .error err => .ret (.error err)
          | .ok prev =>
              match ← bufferWrite (putInsert op.key op.value op.leaseID prev) with
              | .error err => .ret (.error err)
              | .ok _ =>
                  .modify fun vars => { vars with hasMutations := true }
                  .modify fun vars => vars.append ⟨prev, true⟩
                  opLoop rest
      | .delete => do
          match ← queryLatest op.key with
          | .error err => .ret (.error err)
          | .ok none =>
              .modify fun vars => vars.append ⟨none, false⟩
              opLoop rest
          | .ok (some prev) =>
              match ← bufferWrite (tombstoneInsert op.key prev) with
              | .error err => .ret (.error err)
              | .ok _ =>
                  .modify fun vars => { vars with hasMutations := true }
                  .modify fun vars => vars.append ⟨some prev, true⟩
                  opLoop rest
      | .other code => .ret (.error (.store (.unknownTxnOpType code)))

/-- `SELECT MAX(rev) FROM kv`, which assigns nothing on an empty table. -/
def querySnapshotRev : TxnCallback TxnVars (Except TxnErr Unit) :=
  .read fun answer => match answer with
    | .error err => .ret (.error err)
    | .ok db => do
        match (db.kv.map Row.rev).max? with
        | none => pure ()
        | some rev => .modify fun vars => { vars with snapshotRev := tsToRev rev }
        return .ok ()

def atomicTxnAttempt (compares : List TxnCompare) (successOps failureOps : List TxnOp) :
    TxnCallback TxnVars (Except TxnErr Unit) :=
  -- All per-attempt state is reset before the first access.
  .assign ⟨true, [], false, 0, 0⟩ do
    match ← compareLoop compares with
    | .error err => .ret (.error err)
    | .ok _ =>
        .look fun vars => do
          let ops := if vars.succeeded then successOps else failureOps
          match checkDuplicates [] ops with
          | .error err => .ret (.error (.store err))
          | .ok _ =>
              match ← opLoop ops with
              | .error err => .ret (.error err)
              | .ok _ =>
                  .look fun vars =>
                    if vars.hasMutations then .ret (.ok ()) else querySnapshotRev

def atomicTxnCall (ts : CommitTs) (compares : List TxnCompare)
    (successOps failureOps : List TxnOp) : TxnCall TxnVars (Returned AtomicTxnResult) :=
  { callback := atomicTxnAttempt compares successOps failureOps
    initial := ⟨false, [], false, 0, 0⟩
    answer := fun _ outcome vars =>
      { result := outcome.map fun _ =>
          ⟨vars.succeeded, vars.results,
            if vars.hasMutations then tsToRev ts.ns
            else if vars.snapshotRev = 0 then 1
            else vars.snapshotRev⟩
        written := outcome.toOption } }

theorem atomicTxnCall_fresh (ts : CommitTs) (compares : List TxnCompare)
    (successOps failureOps : List TxnOp) :
    (atomicTxnCall ts compares successOps failureOps).Fresh fun _ => False where
  assigns := by apply Retry.Callback.Assigns.assign
  answer := by simp

theorem exec_compareLoop (db : DB) (compares : List TxnCompare) (vars : TxnVars)
    (buffered : List KvInsert) :
    (compareLoop compares).exec db ⟨vars, buffered, none⟩ =
      (.ok (), ⟨{ vars with succeeded := vars.succeeded && evaluateCompares db.kv compares },
        buffered, none⟩) := by
  induction compares with
  | nil => simp [compareLoop, evaluateCompares, Retry.Callback.exec]
  | cons compare rest inductionHypothesis =>
      rw [compareLoop, Retry.Callback.exec_bind, exec_queryLatest, evaluateCompares]
      cases evaluates : compare.evaluate with
      | none => simp [Retry.Callback.exec_bind, exec_modify]
      | some evaluate =>
          cases holds : evaluate (getLatestTxn db.kv compare.key) with
          | false => simp [holds, Retry.Callback.exec_bind, exec_modify]
          | true => simpa [holds] using inductionHypothesis

/-- The variables after an operation. -/
def TxnVars.record (vars : TxnVars) (rows : List Row) (op : TxnOp) : TxnVars :=
  { vars.append (txnResult rows op) with
    hasMutations := vars.hasMutations || (txnInsert rows op).isSome }

theorem exec_opLoop_cons (db : DB) {op : TxnOp} (rest : List TxnOp) (vars : TxnVars)
    (buffered : List KvInsert) (known : unknownType op = none) :
    (opLoop (op :: rest)).exec db ⟨vars, buffered, none⟩ =
      (opLoop rest).exec db
        ⟨vars.record db.kv op, buffered ++ (txnInsert db.kv op).toList, none⟩ := by
  cases kind : op.type with
  | get =>
      simp only [opLoop, kind, Retry.Callback.exec_bind, exec_queryLatest, exec_modify]
      simp [TxnVars.record, TxnVars.append, txnResult, txnInsert, kind]
  | put =>
      simp only [opLoop, kind, Retry.Callback.exec_bind, exec_queryLatest, exec_bufferWrite,
        exec_modify]
      simp [TxnVars.record, TxnVars.append, txnResult, txnInsert, kind]
  | delete =>
      simp only [opLoop, kind, Retry.Callback.exec_bind, exec_queryLatest]
      cases found : getLatestTxn db.kv op.key with
      | none =>
          simp only [Retry.Callback.exec_bind, exec_modify]
          simp [TxnVars.record, TxnVars.append, txnResult, txnInsert, kind, found]
      | some prev =>
          simp only [Retry.Callback.exec_bind, exec_bufferWrite, exec_modify]
          simp [TxnVars.record, TxnVars.append, txnResult, txnInsert, kind, found]
  | other code => simp [unknownType, kind] at known

theorem exec_opLoop_of_known (db : DB) {ops : List TxnOp} (vars : TxnVars)
    (buffered : List KvInsert) (known : ops.findSome? unknownType = none) :
    (opLoop ops).exec db ⟨vars, buffered, none⟩ =
      (.ok (), ⟨{ vars with
          results := vars.results ++ ops.map (txnResult db.kv)
          hasMutations := vars.hasMutations || !(ops.filterMap (txnInsert db.kv)).isEmpty },
        buffered ++ ops.filterMap (txnInsert db.kv), none⟩) := by
  induction ops generalizing vars buffered with
  | nil => simp [opLoop, Retry.Callback.exec]
  | cons op rest inductionHypothesis =>
      obtain ⟨headKnown, restKnown⟩ :
          unknownType op = none ∧ rest.findSome? unknownType = none := by
        simpa using known
      rw [exec_opLoop_cons db rest vars buffered headKnown, inductionHypothesis _ _ restKnown]
      cases inserted : txnInsert db.kv op <;>
        simp [TxnVars.record, TxnVars.append, inserted]

theorem exec_opLoop_of_unknown (db : DB) {ops : List TxnOp} (vars : TxnVars)
    (buffered : List KvInsert) {err : StoreErr} (unknown : ops.findSome? unknownType = some err) :
    ((opLoop ops).exec db ⟨vars, buffered, none⟩).1 = .error (.store err) := by
  induction ops generalizing vars buffered with
  | nil => simp at unknown
  | cons op rest inductionHypothesis =>
      cases headKnown : unknownType op with
      | none =>
          rw [exec_opLoop_cons db rest vars buffered headKnown]
          apply inductionHypothesis
          simpa [List.findSome?_cons, headKnown] using unknown
      | some headErr =>
          obtain rfl : headErr = err := by simpa [List.findSome?_cons, headKnown] using unknown
          cases kind : op.type <;> simp [unknownType, kind] at headKnown
          subst headKnown
          simp [opLoop, kind, Retry.Callback.exec]

theorem exec_querySnapshotRev (db : DB) (vars : TxnVars) (buffered : List KvInsert)
    (reset : vars.snapshotRev = 0) :
    querySnapshotRev.exec db ⟨vars, buffered, none⟩ =
      (.ok (), ⟨{ vars with snapshotRev := snapshotRevision db.kv }, buffered, none⟩) := by
  simp only [querySnapshotRev, Retry.Callback.exec, Retry.access, Except.map]
  cases newest : (db.kv.map Row.rev).max? with
  | none => simp [snapshotRevision, newest, ← reset]
  | some rev => simp [snapshotRevision, newest, Retry.Callback.exec_bind, exec_modify]

section AtomicTxn

variable (db : DB) {compares : List TxnCompare} {successOps failureOps : List TxnOp}

/-- An attempt starts with the compares, and goes on with the branch that they
choose. -/
theorem exec_atomicTxnAttempt (vars : TxnVars) :
    (atomicTxnAttempt compares successOps failureOps).exec db ⟨vars, [], none⟩ =
      (match checkDuplicates [] (chosenOps db.kv compares successOps failureOps) with
        | .error err => .ret (.error (.store err))
        | .ok _ => do
            match ← opLoop (chosenOps db.kv compares successOps failureOps) with
            | .error err => .ret (.error err)
            | .ok _ =>
                .look fun vars =>
                  if vars.hasMutations then .ret (.ok ()) else querySnapshotRev :
          TxnCallback TxnVars (Except TxnErr Unit)).exec db
        ⟨⟨evaluateCompares db.kv compares, [], false, 0, 0⟩, [], none⟩ := by
  rw [atomicTxnAttempt, Retry.Callback.exec, Retry.Callback.exec_bind, exec_compareLoop]
  rfl

theorem exec_atomicTxnAttempt_of_ok (vars : TxnVars)
    (checked : branchCheck (chosenOps db.kv compares successOps failureOps) = .ok ()) :
    let ops := chosenOps db.kv compares successOps failureOps
    let inserts := ops.filterMap (txnInsert db.kv)
    (atomicTxnAttempt compares successOps failureOps).exec db ⟨vars, [], none⟩ =
      (.ok (), ⟨⟨evaluateCompares db.kv compares, ops.map (txnResult db.kv), !inserts.isEmpty, 0,
        if inserts.isEmpty then snapshotRevision db.kv else 0⟩, inserts, none⟩) := by
  intro ops inserts
  obtain ⟨distinct, known⟩ := (branchCheck_ok_iff _).mp checked
  have unrepeated : checkDuplicates [] ops = .ok () :=
    (checkDuplicates_ok_iff ops []).mpr ⟨distinct, by simp⟩
  rw [exec_atomicTxnAttempt, unrepeated]
  rw [Retry.Callback.exec_bind, exec_opLoop_of_known db _ _ known]
  simp only [Retry.Callback.exec, Bool.false_or, List.nil_append]
  cases empty : (ops.filterMap (txnInsert db.kv)).isEmpty with
  | true => simp [ops, inserts, exec_querySnapshotRev]
  | false => simp [ops, inserts, Retry.Callback.exec]

theorem exec_atomicTxnAttempt_of_error (vars : TxnVars) {err : StoreErr}
    (refused : branchCheck (chosenOps db.kv compares successOps failureOps) = .error err) :
    ((atomicTxnAttempt compares successOps failureOps).exec db ⟨vars, [], none⟩).1 =
      .error (.store err) := by
  rw [exec_atomicTxnAttempt]
  unfold branchCheck at refused
  cases repeated : checkDuplicates [] (chosenOps db.kv compares successOps failureOps) with
  | error first =>
      obtain rfl : first = err := by simpa [repeated, bind, Except.bind] using refused
      rfl
  | ok _ =>
      have unknown : (chosenOps db.kv compares successOps failureOps).findSome? unknownType =
          some err := by
        simp only [repeated, bind, Except.bind] at refused
        split at refused <;> simp_all
      simp only [Retry.Callback.exec_bind]
      rw [exec_opLoop_of_unknown db _ _ unknown]
      rfl

end AtomicTxn

/-- `AtomicTxn`, which validates the compares before it opens the
transaction. -/
def atomicTxnReturned (ts : CommitTs) (compares : List TxnCompare)
    (successOps failureOps : List TxnOp) (attempts : List TxnAttempt) :
    Option (Returned AtomicTxnResult) :=
  match validateCompares compares with
  | .error err => some ⟨.error (.store err), none⟩
  | .ok _ => (atomicTxnCall ts compares successOps failureOps).run TxnErr.isAborted attempts

theorem atomicTxnReturned_alone (db : DB) (ts : CommitTs) (compares : List TxnCompare)
    (successOps failureOps : List TxnOp) :
    (atomicTxnReturned ts compares successOps failureOps [⟨db, none⟩]).map (Returned.on db ts) =
      some (storeResult (atomicTxn db ts compares successOps failureOps)) := by
  unfold atomicTxnReturned
  cases valid : validateCompares compares with
  | error err =>
      rw [atomicTxn_of_invalid ts successOps failureOps valid]
      rfl
  | ok _ =>
      cases checked : branchCheck (chosenOps db.kv compares successOps failureOps) with
      | error err =>
          have executed := exec_atomicTxnAttempt_of_error db ⟨false, [], false, 0, 0⟩ checked
          rw [atomicTxn_of_error ts valid checked]
          dsimp only
          rw [Retry.Call.run_of_error (Prod.ext executed rfl) rfl]
          rfl
      | ok _ =>
          have executed := exec_atomicTxnAttempt_of_ok db ⟨false, [], false, 0, 0⟩ checked
          rw [atomicTxn_of_ok ts valid checked]
          dsimp only
          rw [Retry.Call.run_of_ok executed]
          cases empty : ((chosenOps db.kv compares successOps failureOps).filterMap
              (txnInsert db.kv)).isEmpty <;>
            simp [Returned.on, storeResult, atomicTxnCall, txnRevision, empty, Except.map,
              Except.mapError, Except.toOption]

/-! ## Retries are invisible -/

/-- A call returns, and writes, after any aborted attempts what its last
attempt does alone; and an attempt that meets no error does what `single` does
to its snapshot. -/
structure RetriesInvisible {Out : Type} (ts : CommitTs)
    (run : List TxnAttempt → Option (Returned Out)) (aborts : TxnAttempt → Prop)
    (single : DB → Except StoreErr Out × DB) : Prop where
  same : ∀ aborted final, (∀ given ∈ aborted, aborts given) → run (aborted ++ [final]) = run [final]
  returns : ∀ final, ¬aborts final → (run [final]).isSome = true
  alone : ∀ db, (run [⟨db, none⟩]).map (Returned.on db ts) = some (storeResult (single db))

theorem RetriesInvisible.of_fresh {Vars Out : Type} {ts : CommitTs}
    {call : TxnCall Vars (Returned Out)} {silent : TxnErr → Prop}
    {single : DB → Except StoreErr Out × DB} (fresh : call.Fresh silent)
    (alone : ∀ db, (call.run TxnErr.isAborted [⟨db, none⟩]).map (Returned.on db ts) =
      some (storeResult (single db))) :
    RetriesInvisible ts (call.run TxnErr.isAborted) (call.Aborts TxnErr.isAborted) single where
  same := fun _ final aborts => fresh.run_append aborts final
  returns := fun _ ends => Retry.Call.isSome_run_singleton ends
  alone := alone

theorem atomicTxnReturned_invisible (ts : CommitTs) (compares : List TxnCompare)
    (successOps failureOps : List TxnOp) :
    RetriesInvisible ts (atomicTxnReturned ts compares successOps failureOps)
      ((atomicTxnCall ts compares successOps failureOps).Aborts TxnErr.isAborted)
      fun db => atomicTxn db ts compares successOps failureOps where
  same := by
    intro aborted final aborts
    unfold atomicTxnReturned
    split
    · rfl
    · exact (atomicTxnCall_fresh ts compares successOps failureOps).run_append aborts final
  returns := by
    intro final ends
    unfold atomicTxnReturned
    split
    · rfl
    · exact Retry.Call.isSome_run_singleton ends
  alone := fun db => atomicTxnReturned_alone db ts compares successOps failureOps

/-- Whatever attempts Spanner aborts, and wherever it aborts them, the four
calls return and write what their last attempt does alone. -/
theorem retries_invisible (ts : CommitTs) (later : Option DB) :
    (∀ key value revision leaseID,
      let call := updateCall ts later key value revision leaseID
      RetriesInvisible ts (call.run TxnErr.isAborted) (call.Aborts TxnErr.isAborted)
        fun db => update db ts later key value revision leaseID) ∧
    (∀ key revision,
      let call := deleteCall ts later key revision
      RetriesInvisible ts (call.run TxnErr.isAborted) (call.Aborts TxnErr.isAborted)
        fun db => delete db ts later key revision) ∧
    (∀ key leaseID,
      let call := deleteIfLeaseCall key leaseID
      RetriesInvisible ts (call.run TxnErr.isAborted) (call.Aborts TxnErr.isAborted)
        fun db => deleteIfLease db ts key leaseID) ∧
    ∀ compares successOps failureOps,
      RetriesInvisible ts (atomicTxnReturned ts compares successOps failureOps)
        ((atomicTxnCall ts compares successOps failureOps).Aborts TxnErr.isAborted)
        fun db => atomicTxn db ts compares successOps failureOps := by
  refine ⟨?_, ?_, ?_, ?_⟩
  · intro key value revision leaseID
    exact .of_fresh (casCall_fresh ts later key _ _)
      fun db => updateCall_alone db ts later key value revision leaseID
  · intro key revision
    exact .of_fresh (casCall_fresh ts later key _ _)
      fun db => deleteCall_alone db ts later key revision
  · intro key leaseID
    exact .of_fresh (deleteIfLeaseCall_fresh key leaseID)
      fun db => deleteIfLeaseCall_alone db ts key leaseID
  · exact atomicTxnReturned_invisible ts

/-- A store in which lease 7 holds the key. -/
def leasedStore : DB :=
  DB.empty.commit 5 [createInsert (ascii "a") none 7]

/-- Attempts aborted at the read, at the write and at the commit; the last two
have set `deleted`.  The key is gone when the next attempt runs. -/
theorem abortedDeletes_invisible :
    (deleteIfLeaseCall (ascii "a") 7).run TxnErr.isAborted
        ([⟨leasedStore, some (0, .aborted)⟩, ⟨leasedStore, some (1, .aborted)⟩,
          ⟨leasedStore, some (2, .aborted)⟩] ++ [⟨.empty, none⟩]) =
      some ⟨.ok false, some []⟩ := by
  have invisible := (retries_invisible 6 none).2.2.1 (ascii "a") 7
  rw [invisible.same]
  · rfl
  · intro given membership
    fin_cases membership <;> exact ⟨.aborted, rfl, rfl⟩

end SpannerEtcd
