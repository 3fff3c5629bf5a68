import SpannerEtcd.Lib.Program
import SpannerEtcd.Store.Compaction

/-!
# The store as its callers see it

A store call makes several accesses to the database: reads of single
snapshots, which other clients may separate, and read-write transactions.
-/

namespace SpannerEtcd

/-- What the transaction of a write returns. -/
@[reducible]
def WriteOp.Answer : WriteOp → Type
  | .create _ _ _ => Except StoreErr Int
  | .update _ _ _ _ => Except StoreErr CasResult
  | .delete _ _ => Except StoreErr CasResult
  | .deleteIfLease _ _ => Except StoreErr Bool
  | .atomicTxn _ _ _ => Except StoreErr AtomicTxnResult

/-- A failed compare-and-swap has yet to read the revision it reports. -/
def WriteOp.answer (op : WriteOp) (db : DB) (ts : CommitTs) : op.Answer :=
  match op with
  | .create key value leaseID => (SpannerEtcd.create db ts key value leaseID).1
  | .update key value revision leaseID =>
      (SpannerEtcd.update db ts none key value revision leaseID).1
  | .delete key revision => (SpannerEtcd.delete db ts none key revision).1
  | .deleteIfLease key leaseID => (SpannerEtcd.deleteIfLease db ts key leaseID).1
  | .atomicTxn compares successOps failureOps =>
      (SpannerEtcd.atomicTxn db ts compares successOps failureOps).1

abbrev Call (Result : Type) : Type := Program DB WriteOp.Answer Result

namespace Store

/-- One read of a snapshot, by a query of its own. -/
def snapshot : Call DB := .observe .ret

def transaction (op : WriteOp) : Call op.Answer := .act op .ret

def currentRevision : Call Int := do
  let db ← snapshot
  return SpannerEtcd.currentRevision db

/-- The horizon is read only for a revision in the past. -/
def get (key : Bytes) (revision : Int) : Call (Int × Except StoreErr (Option KV)) := do
  let revDb ← snapshot
  let compactDb ← if 0 < revision then snapshot else pure revDb
  let rowDb ← snapshot
  return SpannerEtcd.get revDb compactDb rowDb key revision

def list (pre startKey : Bytes) (limit revision : Int) :
    Call (Int × Int × Except StoreErr (List KV)) := do
  let revDb ← snapshot
  let compactDb ← snapshot
  let rowDb ← snapshot
  return SpannerEtcd.list revDb compactDb rowDb pre startKey limit revision

def count (pre startKey : Bytes) (revision : Int) : Call (Int × Except StoreErr Nat) := do
  let revDb ← snapshot
  let compactDb ← if 0 < revision then snapshot else pure revDb
  let rowDb ← snapshot
  return SpannerEtcd.count revDb compactDb rowDb pre startKey revision

def create (key : Bytes) (value : Option Bytes) (leaseID : Int) : Call (Except StoreErr Int) :=
  transaction (.create key value leaseID)

/-- `curRev, _ := s.CurrentRevision(ctx)` on the failure path. -/
def reported : Except StoreErr CasResult → Call (Except StoreErr CasResult)
  | .ok result => do
      if result.ok then
        return .ok result
      let later ← snapshot
      return .ok { result with rev := reportedRevision (some later) }
  | .error err => return .error err

def update (key : Bytes) (value : Option Bytes) (revision leaseID : Int) :
    Call (Except StoreErr CasResult) := do
  let result ← transaction (.update key value revision leaseID)
  reported result

def delete (key : Bytes) (revision : Int) : Call (Except StoreErr CasResult) := do
  let result ← transaction (.delete key revision)
  reported result

def atomicTxn (compares : List TxnCompare) (successOps failureOps : List TxnOp) :
    Call (Except StoreErr AtomicTxnResult) :=
  transaction (.atomicTxn compares successOps failureOps)

end Store

/-- Between two accesses of a call the system takes any steps. -/
def World.environment : Program.Environment World DB WriteOp.Answer where
  later before after := before.Inv ∧ Runs.Reaches World.step before after
  view := World.db
  performs world op answer next :=
    ∃ ts, world.step (.write op ts) = some next ∧ answer = op.answer world.db ts
  trans first second := ⟨first.1, first.2.trans second.2⟩

end SpannerEtcd
