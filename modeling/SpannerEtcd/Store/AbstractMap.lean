import SpannerEtcd.Store.System

/-!
# What the store is for

Clients think of the store as a map from keys to live entries: no log, no
tombstones, no timestamps.  The five write calls are specified on that map.
A revision a call reports without writing is not determined by the map and is
left open.
-/

namespace SpannerEtcd

structure Binding where
  value : Option Bytes
  lease : Int
  createRev : Int
  modRev : Int
  deriving DecidableEq, Repr

def KV.binding (kv : KV) : Binding :=
  ⟨kv.value, kv.leaseID, kv.createRevision, kv.rev⟩

def KV.fresh (key : Bytes) (value : Option Bytes) (leaseID r : Int) : KV :=
  { key := key
    value := value
    oldValue := none
    leaseID := leaseID
    deleted := false
    created := true
    rev := r
    createRevision := r
    prevRevision := 0 }

def KV.rebound (prev : KV) (value : Option Bytes) (leaseID r : Int) : KV :=
  { prev with
    value := value
    oldValue := prev.value
    leaseID := leaseID
    created := false
    rev := r
    prevRevision := prev.rev }

/-- The live entry of every key. -/
abbrev AbstractMap := Bytes → Option KV

namespace AbstractMap

def empty : AbstractMap := fun _ => none

def set (map : AbstractMap) (key : Bytes) (entry : Option KV) : AbstractMap :=
  Function.update map key entry

def bound (map : AbstractMap) (key : Bytes) (value : Option Bytes) (leaseID r : Int) : KV :=
  match map key with
  | none => .fresh key value leaseID r
  | some prev => prev.rebound value leaseID r

end AbstractMap

/-! ## The calls on the map -/

/-- What a write call returns to its caller. -/
inductive Output where
  | created (result : Except StoreErr Int)
  | swapped (result : Except StoreErr CasResult)
  | leased (result : Except StoreErr Bool)
  | executed (result : Except StoreErr AtomicTxnResult)

def Output.failed : Output → Bool
  | .created (.ok _) => false
  | .swapped (.ok result) => !result.ok
  | .leased (.ok ok) => !ok
  | .executed (.ok _) => false
  | _ => true

namespace AbstractMap

variable (map : AbstractMap) (r : Int)

def holds (compare : TxnCompare) : Bool :=
  match compare.evaluate with
  | none => false
  | some evaluate => evaluate (map compare.key)

/-- The result of one operation, read off the map before the transaction. -/
def result (op : TxnOp) : TxnResult :=
  match op.type with
  | .put => ⟨map op.key, true⟩
  | _ => ⟨map op.key, (map op.key).isSome⟩

def outcome (op : TxnOp) : Option KV :=
  match op.type with
  | .put => some (map.bound op.key op.value op.leaseID r)
  | _ => none

/-- Perform one operation of a transaction that began in `map`. -/
def perform (current : AbstractMap) (op : TxnOp) : AbstractMap :=
  if op.type.mutates then current.set op.key (map.outcome r op) else current

def writes (op : TxnOp) : Bool :=
  match op.type with
  | .put => true
  | .delete => (map op.key).isSome
  | _ => false

end AbstractMap

/-- The call on the map at revision `r`; `report` is the revision it reports
when it writes nothing. -/
def WriteOp.spec (r report : Int) (map : AbstractMap) : WriteOp → Output × AbstractMap
  | .create key value leaseID =>
      match map key with
      | none => (.created (.ok r), map.set key (some (.fresh key value leaseID r)))
      | some _ => (.created (.error .keyExists), map)
  | .update key value revision leaseID =>
      match map key with
      | none => (.swapped (.ok ⟨report, none, false⟩), map)
      | some prev =>
          if prev.binding.modRev = revision then
            (.swapped (.ok ⟨r, some prev, true⟩),
              map.set key (some (prev.rebound value leaseID r)))
          else (.swapped (.ok ⟨report, some prev, false⟩), map)
  | .delete key revision =>
      match map key with
      | none => (.swapped (.ok ⟨report, none, false⟩), map)
      | some prev =>
          if revision = 0 ∨ prev.binding.modRev = revision then
            (.swapped (.ok ⟨r, some prev, true⟩), map.set key none)
          else (.swapped (.ok ⟨report, some prev, false⟩), map)
  | .deleteIfLease key leaseID =>
      match map key with
      | none => (.leased (.ok false), map)
      | some prev =>
          if prev.binding.lease = leaseID then (.leased (.ok true), map.set key none)
          else (.leased (.ok false), map)
  | .atomicTxn compares successOps failureOps =>
      match validateCompares compares with
      | .error err => (.executed (.error err), map)
      | .ok _ =>
          let succeeded := compares.all map.holds
          let ops := if succeeded then successOps else failureOps
          match branchCheck ops with
          | .error err => (.executed (.error err), map)
          | .ok _ =>
              (.executed (.ok ⟨succeeded, ops.map map.result,
                if ops.any map.writes then r else report⟩), ops.foldl (map.perform r) map)

/-! ## Labels -/

/-- What the environment sees of a step: a call with what it returned, or
nothing. -/
inductive Label where
  | call (op : WriteOp) (ts : CommitTs) (output : Output)
  | internal

inductive MapStep (map : AbstractMap) : Label → AbstractMap → Prop where
  | call (op : WriteOp) (ts : CommitTs) (report : Int) :
      MapStep map (.call op ts (op.spec ts.ns report map).1) (op.spec ts.ns report map).2
  | internal : MapStep map .internal map

/-- The call on the store.  `later` is the snapshot of the current-revision
read that a failed compare-and-swap makes. -/
def WriteOp.call (op : WriteOp) (db : DB) (ts : CommitTs) (later : Option DB) : Output × DB :=
  match op with
  | .create key value leaseID =>
      let (result, next) := SpannerEtcd.create db ts key value leaseID
      (.created result, next)
  | .update key value revision leaseID =>
      let (result, next) := SpannerEtcd.update db ts later key value revision leaseID
      (.swapped result, next)
  | .delete key revision =>
      let (result, next) := SpannerEtcd.delete db ts later key revision
      (.swapped result, next)
  | .deleteIfLease key leaseID =>
      let (result, next) := SpannerEtcd.deleteIfLease db ts key leaseID
      (.leased result, next)
  | .atomicTxn compares successOps failureOps =>
      let (result, next) := SpannerEtcd.atomicTxn db ts compares successOps failureOps
      (.executed result, next)

/-- The steps of the store with what the environment sees of them. -/
inductive World.Observed (world : World) : Label → World → Prop where
  | call {op : WriteOp} {ts : CommitTs} {next : World} (later : Option DB)
      (stepped : world.step (.write op ts) = some next) :
      Observed world (.call op ts (op.call world.db ts later).1) next
  | internal {action : Action} {next : World} (unseen : ∀ op ts, action ≠ .write op ts)
      (stepped : world.step action = some next) : Observed world .internal next

theorem WriteOp.call_snd (op : WriteOp) (db : DB) (ts : CommitTs) (later : Option DB) :
    (op.call db ts later).2 = op.apply db ts := by
  cases op <;> rfl

end SpannerEtcd
