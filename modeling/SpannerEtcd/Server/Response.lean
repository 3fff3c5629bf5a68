import SpannerEtcd.Store.Write

/-!
# Protocol messages of the server

The parts of the etcd protocol that the handlers fill in.
-/

namespace SpannerEtcd

structure ResponseHeader where
  clusterId : Nat
  memberId : Nat
  revision : Int
  raftTerm : Nat
  deriving DecidableEq, Repr

def header (rev : Int) : ResponseHeader :=
  { clusterId := 1, memberId := 1, revision := rev, raftTerm := 1 }

/-- `mvccpb.KeyValue`. -/
structure KeyValue where
  key : Bytes
  value : Option Bytes
  modRevision : Int
  createRevision : Int
  version : Int
  lease : Int
  deriving DecidableEq, Repr

def toProtoKV (kv : KV) : KeyValue :=
  { key := kv.key
    value := kv.value
    modRevision := kv.rev
    createRevision := kv.createRevision
    version := wrapInt64 (kv.rev - kv.createRevision + 1)
    lease := kv.leaseID }

/-! ## Requests and responses -/

structure PutRequest where
  key : Bytes
  value : Option Bytes
  lease : Int
  prevKv : Bool
  ignoreValue : Bool := false
  ignoreLease : Bool := false
  deriving DecidableEq, Repr

structure PutResponse where
  header : ResponseHeader
  prevKv : Option KeyValue
  deriving DecidableEq, Repr

/-- `if r.PrevKv && kv != nil { resp.PrevKv = toProtoKV(kv) }`. -/
def putResponse (request : PutRequest) (rev : Int) (prev : Option KV) : PutResponse :=
  { header := header rev
    prevKv := if request.prevKv then prev.map toProtoKV else none }

def prevModRev : Option KV → Int
  | none => 0
  | some kv => kv.rev

/-- `more` is never set. -/
structure RangeResponse where
  header : ResponseHeader
  kvs : List KeyValue
  count : Int
  more : Bool := false
  deriving DecidableEq, Repr

structure RangeRequest where
  key : Bytes
  rangeEnd : Bytes
  limit : Int
  revision : Int
  keysOnly : Bool
  countOnly : Bool
  deriving DecidableEq, Repr

structure DeleteRangeRequest where
  key : Bytes
  rangeEnd : Bytes
  prevKv : Bool
  deriving DecidableEq, Repr

structure DeleteRangeResponse where
  header : ResponseHeader
  deleted : Int
  prevKvs : List KeyValue
  deriving DecidableEq, Repr

inductive CompareTarget where
  | version
  | create
  | mod
  | value
  | other (code : Int)
  deriving DecidableEq, Repr

inductive CompareResult where
  | equal
  | greater
  | less
  | notEqual
  | other (code : Int)
  deriving DecidableEq, Repr

/-- The operand, one variant of a union that need not fit the target. -/
inductive TargetUnion where
  | unset
  | version (version : Int)
  | createRevision (revision : Int)
  | modRevision (revision : Int)
  | value (value : Option Bytes)
  | lease (lease : Int)
  deriving DecidableEq, Repr

structure Compare where
  target : CompareTarget
  result : CompareResult
  key : Bytes
  targetUnion : TargetUnion
  deriving DecidableEq, Repr

def Compare.getVersion (compare : Compare) : Int :=
  match compare.targetUnion with
  | .version version => version
  | _ => 0

def Compare.getCreateRevision (compare : Compare) : Int :=
  match compare.targetUnion with
  | .createRevision revision => revision
  | _ => 0

def Compare.getModRevision (compare : Compare) : Int :=
  match compare.targetUnion with
  | .modRevision revision => revision
  | _ => 0

def Compare.getValue (compare : Compare) : Option Bytes :=
  match compare.targetUnion with
  | .value value => value
  | _ => none

inductive RequestOp where
  | range (request : RangeRequest)
  | put (request : PutRequest)
  | deleteRange (request : DeleteRangeRequest)
  /-- A nested transaction, or nothing. -/
  | unsupported
  deriving DecidableEq, Repr

structure TxnRequest where
  compare : List Compare
  success : List RequestOp
  failure : List RequestOp
  deriving DecidableEq, Repr

inductive ResponseOp where
  | range (response : RangeResponse)
  | put (response : PutResponse)
  | deleteRange (response : DeleteRangeResponse)
  deriving DecidableEq, Repr

structure TxnResponse where
  header : ResponseHeader
  succeeded : Bool
  responses : List ResponseOp
  deriving DecidableEq, Repr

/-! ## Errors -/

inductive Code where
  | invalidArgument
  | alreadyExists
  | notFound
  | failedPrecondition
  | outOfRange
  | internal
  deriving DecidableEq, Repr

/-- The text of a status: fixed, or that of the error it was made from. -/
inductive Message where
  | text (message : String)
  | errorOf (err : StoreErr)
  deriving DecidableEq, Repr

structure GrpcErr where
  code : Code
  message : Message
  deriving DecidableEq, Repr

def toGRPCErr : StoreErr → GrpcErr
  | .keyExists => ⟨.alreadyExists, .text "key already exists"⟩
  | .keyNotFound => ⟨.notFound, .text "key not found"⟩
  | .revisionMismatch => ⟨.failedPrecondition, .text "revision mismatch"⟩
  | .compacted => ⟨.outOfRange, .text "requested revision has been compacted"⟩
  | err => ⟨.internal, .errorOf err⟩

end SpannerEtcd
