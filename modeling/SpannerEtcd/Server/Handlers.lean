import SpannerEtcd.Server.Response
import SpannerEtcd.Store.Calls

/-!
# The handlers of the key-value service

`Range`, `Put` and `DeleteRange` as programs over the store, and `Txn` with
its two paths: a transaction of simple operations runs as one `AtomicTxn`, any
other one compare after compare and operation after operation.
-/

namespace SpannerEtcd

/-! ## Range, Put and DeleteRange -/

/-- The `LIKE` prefix for the range from `key` to `rangeEnd`. -/
def rangeToPrefix (key rangeEnd : Bytes) : Bytes :=
  if rangeEnd = [0] then []
  else if rangeEnd ≠ [] ∧ key ≠ [] ∧ key.dropLast <+: rangeEnd then key.dropLast
  else key

def range (request : RangeRequest) : Call (Except GrpcErr RangeResponse) := do
  if request.rangeEnd = [] then
    match ← Store.get request.key request.revision with
    | (_, .error err) => return .error (toGRPCErr err)
    | (curRev, .ok (some kv)) =>
        if kv.deleted then
          return .ok { header := header curRev, kvs := [], count := 0 }
        else
          return .ok { header := header curRev, kvs := [toProtoKV kv], count := 1 }
    | (curRev, .ok none) => return .ok { header := header curRev, kvs := [], count := 0 }
  else
    let pre := rangeToPrefix request.key request.rangeEnd
    if request.countOnly then
      match ← Store.count pre request.key request.revision with
      | (_, .error err) => return .error (toGRPCErr err)
      | (curRev, .ok count) => return .ok { header := header curRev, kvs := [], count := count }
    else
      match ← Store.list pre request.key request.limit request.revision with
      | (_, _, .error err) => return .error (toGRPCErr err)
      | (curRev, _, .ok kvs) =>
          return .ok
            { header := header curRev
              kvs := kvs.map fun kv =>
                if request.keysOnly then ⟨kv.key, none, 0, 0, 0, 0⟩ else toProtoKV kv
              count := kvs.length }

/-- Neither `IgnoreValue` nor `IgnoreLease` is looked at. -/
def put (request : PutRequest) : Call (Except GrpcErr PutResponse) := do
  match ← Store.create request.key request.value request.lease with
  | .ok rev => return .ok { header := header rev, prevKv := none }
  | .error .keyExists =>
      match ← Store.get request.key 0 with
      | (_, .error err) => return .error (toGRPCErr err)
      | (_, .ok kv) =>
          match ← Store.update request.key request.value (prevModRev kv) request.lease with
          | .error err => return .error (toGRPCErr err)
          -- The flag of the result is discarded.
          | .ok result => return .ok (putResponse request result.rev result.prev)
  | .error err => return .error (toGRPCErr err)

def boolToInt (b : Bool) : Int := if b then 1 else 0

/-- The previous key-values of a response, if the client asked for them. -/
def prevKvsOf (prevKv : Bool) (prev : Option KV) : List KeyValue :=
  if prevKv then (prev.map toProtoKV).toList else []

/-- The delete of the single key `request.key`. -/
def deleteKey (request : DeleteRangeRequest) : Call (Except GrpcErr DeleteRangeResponse) := do
  match ← Store.delete request.key 0 with
  | .error err => return .error (toGRPCErr err)
  | .ok result =>
      return .ok
        { header := header result.rev
          deleted := boolToInt result.ok
          prevKvs := prevKvsOf request.prevKv result.prev }

/-- What a loop over listed keys has deleted; `lastRev` is 0 as long as that
is nothing. -/
structure Deletions where
  deleted : Int := 0
  prevKvs : List KeyValue := []
  lastRev : Int := 0

def Deletions.add (done : Deletions) (prevKv : Bool) (result : CasResult) : Deletions :=
  if result.ok then
    { deleted := done.deleted + 1
      prevKvs := done.prevKvs ++ prevKvsOf prevKv result.prev
      lastRev := result.rev }
  else done

/-- The loop of the bare call, which goes on after an error. -/
def deleteListed (prevKv : Bool) (done : Deletions) : List KV → Call Deletions
  | [] => return done
  | kv :: rest => do
      match ← Store.delete kv.key 0 with
      | .error _ => deleteListed prevKv done rest
      | .ok result => deleteListed prevKv (done.add prevKv result) rest

/-- `if rev == 0 { rev, err = k.store.CurrentRevision(ctx) }`. -/
def revisionOrCurrent (rev : Int) : Call Int :=
  if rev = 0 then Store.currentRevision else pure rev

/-- The response after a loop that has deleted `done`. -/
def deletionsResponse (done : Deletions) : Call DeleteRangeResponse := do
  let lastRev ← revisionOrCurrent done.lastRev
  return { header := header lastRev, deleted := done.deleted, prevKvs := done.prevKvs }

def deleteRange (request : DeleteRangeRequest) : Call (Except GrpcErr DeleteRangeResponse) := do
  if request.rangeEnd = [] then
    deleteKey request
  else
    match ← Store.list (rangeToPrefix request.key request.rangeEnd) request.key 0 0 with
    | (_, _, .error err) => return .error (toGRPCErr err)
    | (_, _, .ok kvs) =>
        let done ← deleteListed request.prevKv {} kvs
        let response ← deletionsResponse done
        return .ok response

/-! ## Compares -/

def compareInt (actual expected : Int) : CompareResult → Bool
  | .equal => decide (actual = expected)
  | .notEqual => decide (actual ≠ expected)
  | .greater => decide (actual > expected)
  | .less => decide (actual < expected)
  | .other _ => false

/-- `string(actual) == string(expected)`; nil and the empty string are one. -/
def compareBytes (actual expected : Option Bytes) : CompareResult → Bool
  | .equal => decide (actual.getD [] = expected.getD [])
  | .notEqual => decide (actual.getD [] ≠ expected.getD [])
  | _ => false

def versionOf : Option KV → Int
  | none => 0
  | some kv => wrapInt64 (kv.rev - kv.createRevision + 1)

def createRevOf : Option KV → Int
  | none => 0
  | some kv => kv.createRevision

def valueOf : Option KV → Option Bytes
  | none => none
  | some kv => kv.value

/-- The code of a target that has no evaluation. -/
def CompareTarget.unsupported : CompareTarget → Option Int
  | .other code => some code
  | _ => none

/-- What both paths make of a compare and the entry of its key. -/
def Compare.holds (compare : Compare) (kv : Option KV) : Bool :=
  match compare.target with
  | .version => compareInt (versionOf kv) compare.getVersion compare.result
  | .create => compareInt (createRevOf kv) compare.getCreateRevision compare.result
  | .mod => compareInt (prevModRev kv) compare.getModRevision compare.result
  | .value => compareBytes (valueOf kv) compare.getValue compare.result
  | .other _ => false

/-! ## The atomic path -/

def TxnRequest.branches (request : TxnRequest) : List (List RequestOp) :=
  [request.success, request.failure]

def RequestOp.complex : RequestOp → Bool
  | .range request =>
      decide (request.rangeEnd ≠ []) || decide (request.revision ≠ 0) || request.countOnly ||
        request.keysOnly || decide (request.limit ≠ 0)
  | .put request => request.ignoreValue || request.ignoreLease
  | .deleteRange request => decide (request.rangeEnd ≠ [])
  | .unsupported => false

def txnNeedsNonAtomicFallback (request : TxnRequest) : Bool :=
  request.branches.any fun ops => ops.any RequestOp.complex

def Compare.toStore (compare : Compare) : TxnCompare :=
  match compare.target.unsupported with
  | none => { key := compare.key, evaluate := some compare.holds, err := none }
  | some code => { key := compare.key, evaluate := none, err := some (.compareErr code) }

def RequestOp.toStore : RequestOp → Except GrpcErr TxnOp
  | .range request => .ok { type := .get, key := request.key, value := none, leaseID := 0 }
  | .put request =>
      .ok { type := .put, key := request.key, value := request.value, leaseID := request.lease }
  | .deleteRange request =>
      .ok { type := .delete, key := request.key, value := none, leaseID := 0 }
  | .unsupported => .error ⟨.invalidArgument, .text "unsupported Txn op type"⟩

def toStoreOps : List RequestOp → Except GrpcErr (List TxnOp)
  | [] => .ok []
  | op :: rest => do
      let storeOp ← op.toStore
      let storeOps ← toStoreOps rest
      return storeOp :: storeOps

/-- The first key that a list mentions twice. -/
def firstRepeated (seen : List Bytes) : List Bytes → Option Bytes
  | [] => none
  | key :: rest => if seen.contains key then some key else firstRepeated (key :: seen) rest

def refuseRepeated (keys : List Bytes) : Except GrpcErr Unit :=
  match firstRepeated [] keys with
  | none => .ok ()
  | some key => .error ⟨.invalidArgument, .errorOf (.duplicateMutation key)⟩

/-- `status.FromError`: the errors of the store that are a status already. -/
def StoreErr.status? : StoreErr → Option GrpcErr
  | .compareErr code => some ⟨.invalidArgument, .errorOf (.compareErr code)⟩
  | _ => none

def passThrough (err : StoreErr) : GrpcErr := err.status?.getD (toGRPCErr err)

def txnResponseOp (commitRev : Int) (result : TxnResult) : RequestOp → Option ResponseOp
  | .range _ =>
      some (.range
        { header := header commitRev
          kvs := (result.kv.map toProtoKV).toList
          count := boolToInt result.kv.isSome })
  | .put request => some (.put (putResponse request commitRev result.kv))
  | .deleteRange request =>
      some (.deleteRange
        { header := header commitRev
          deleted := boolToInt result.ok
          prevKvs := prevKvsOf request.prevKv result.kv })
  | .unsupported => none

/-- An operation without a result is answered from the zero result. -/
def txnResponseOps (commitRev : Int) : List RequestOp → List TxnResult → List ResponseOp
  | [], _ => []
  | op :: rest, results =>
      (txnResponseOp commitRev (results.headD ⟨none, false⟩) op).toList ++
        txnResponseOps commitRev rest results.tail

def TxnRequest.chosen (request : TxnRequest) (succeeded : Bool) : List RequestOp :=
  if succeeded then request.success else request.failure

/-- What `txnAtomic` passes to `AtomicTxn`. -/
def TxnRequest.toStore (request : TxnRequest) :
    Except GrpcErr (List TxnCompare × List TxnOp × List TxnOp) := do
  let successOps ← toStoreOps request.success
  let failureOps ← toStoreOps request.failure
  refuseRepeated (mutatedKeys successOps)
  refuseRepeated (mutatedKeys failureOps)
  return (request.compare.map Compare.toStore, successOps, failureOps)

def txnAtomic (request : TxnRequest) : Call (Except GrpcErr TxnResponse) := do
  match request.toStore with
  | .error err => return .error err
  | .ok (compares, successOps, failureOps) =>
      match ← Store.atomicTxn compares successOps failureOps with
      | .error err => return .error (passThrough err)
      | .ok result =>
          let commitRev ← revisionOrCurrent result.commitRev
          return .ok
            { header := header commitRev
              succeeded := result.succeeded
              responses := txnResponseOps commitRev (request.chosen result.succeeded)
                result.results }

/-! ## The non-atomic path -/

/-- The keys of the branch that the path checks for repetition: an empty key
counts as none. -/
def RequestOp.checkedKey : RequestOp → Option Bytes
  | .put request => if request.key = [] then none else some request.key
  | .deleteRange request =>
      if request.rangeEnd = [] ∧ request.key ≠ [] then some request.key else none
  | _ => none

def evaluateCompare : List Compare → Call (Except GrpcErr Bool)
  | [] => return .ok true
  | compare :: rest => do
      match ← Store.get compare.key 0 with
      | (_, .error err) => return .error (toGRPCErr err)
      | (_, .ok kv) =>
          match compare.target.unsupported with
          | some code => return .error ⟨.invalidArgument, .errorOf (.compareErr code)⟩
          | none => if compare.holds kv then evaluateCompare rest else return .ok false

/-- `List` may return keys at or after the end of the range. -/
def cutRange (request : RangeRequest) (response : RangeResponse) : RangeResponse :=
  if request.rangeEnd ≠ [] ∧ request.rangeEnd ≠ [0] ∧ request.countOnly = false then
    let filtered := response.kvs.filter fun kv => decide (kv.key < request.rangeEnd)
    { response with kvs := filtered, count := filtered.length }
  else response

/-- A put that keeps the value or the lease of the current entry. -/
def putIgnoring (request : PutRequest) : Call (Except GrpcErr PutResponse) := do
  match ← Store.get request.key 0 with
  | (_, .error err) => return .error (toGRPCErr err)
  | (_, .ok none) => return .error ⟨.notFound, .text "key not found"⟩
  | (_, .ok (some cur)) =>
      let value := if request.ignoreValue then cur.value else request.value
      let leaseID := if request.ignoreLease then cur.leaseID else request.lease
      match ← Store.update request.key value cur.rev leaseID with
      | .error err => return .error (toGRPCErr err)
      | .ok result =>
          if result.ok then
            return .ok (putResponse request result.rev result.prev)
          else
            return .error ⟨.failedPrecondition,
              .text "revision mismatch: concurrent update during IgnoreValue/IgnoreLease"⟩

/-- The loop of a transaction, which stops at the first error and at the end
of the range. -/
def deleteInRange (request : DeleteRangeRequest) (done : Deletions) :
    List KV → Call (Except GrpcErr Deletions)
  | [] => return .ok done
  | kv :: rest => do
      if request.rangeEnd ≠ [0] ∧ request.rangeEnd ≤ kv.key then
        return .ok done
      else
        match ← Store.delete kv.key 0 with
        | .error err => return .error (toGRPCErr err)
        | .ok result => deleteInRange request (done.add request.prevKv result) rest

def deleteRangeFailFast (request : DeleteRangeRequest) :
    Call (Except GrpcErr DeleteRangeResponse) := do
  match ← Store.list (rangeToPrefix request.key request.rangeEnd) request.key 0 0 with
  | (_, _, .error err) => return .error (toGRPCErr err)
  | (_, _, .ok kvs) =>
      match ← deleteInRange request {} kvs with
      | .error err => return .error err
      | .ok done =>
          let response ← deletionsResponse done
          return .ok response

def ResponseOp.header : ResponseOp → ResponseHeader
  | .range response => response.header
  | .put response => response.header
  | .deleteRange response => response.header

def executePut (request : PutRequest) : Call (Except GrpcErr PutResponse) :=
  if request.ignoreValue || request.ignoreLease then putIgnoring request else put request

def executeDeleteRange (request : DeleteRangeRequest) :
    Call (Except GrpcErr DeleteRangeResponse) :=
  if request.rangeEnd = [] then deleteRange request else deleteRangeFailFast request

def executeOp : RequestOp → Call (Except GrpcErr ResponseOp)
  | .range request => do
      let response ← range request
      return response.map fun response => .range (cutRange request response)
  | .put request => do
      let response ← executePut request
      return response.map .put
  | .deleteRange request => do
      let response ← executeDeleteRange request
      return response.map .deleteRange
  | .unsupported =>
      return .error ⟨.invalidArgument, .text "unsupported Txn op type in non-atomic path"⟩

/-- The responses and the revision of the last one. -/
def executeOps (responses : List ResponseOp) (lastRev : Int) :
    List RequestOp → Call (Except GrpcErr (List ResponseOp × Int))
  | [] => do
      let lastRev ← revisionOrCurrent lastRev
      return .ok (responses, lastRev)
  | op :: rest => do
      match ← executeOp op with
      | .error err => return .error err
      | .ok response => executeOps (responses ++ [response]) response.header.revision rest

def txnNonAtomic (request : TxnRequest) : Call (Except GrpcErr TxnResponse) := do
  match refuseRepeated (request.success.filterMap RequestOp.checkedKey),
      refuseRepeated (request.failure.filterMap RequestOp.checkedKey) with
  | .error err, _ => return .error err
  | .ok _, .error err => return .error err
  | .ok _, .ok _ =>
      match ← evaluateCompare request.compare with
      | .error err => return .error err
      | .ok succeeded =>
          match ← executeOps [] 0 (request.chosen succeeded) with
          | .error err => return .error err
          | .ok (responses, rev) =>
              return .ok { header := header rev, succeeded := succeeded, responses := responses }

def txn (request : TxnRequest) : Call (Except GrpcErr TxnResponse) :=
  if txnNeedsNonAtomicFallback request then txnNonAtomic request else txnAtomic request

end SpannerEtcd
