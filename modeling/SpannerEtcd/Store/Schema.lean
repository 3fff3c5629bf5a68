import Mathlib
import SpannerEtcd.Lib.Byte

/-!
# Tables and timestamps of the store

The `kv` table is an append-only log with one row per write.  Its `rev`
column is the Spanner commit timestamp of the write; clients see it as the
number of nanoseconds since the Unix epoch, an `int64`.  A `time.Time` is
modelled by that number as well, without the bound.
-/

namespace SpannerEtcd

/-- Go strings and byte slices, compared bytewise. -/
abbrev Byte := Fin 256

abbrev Bytes := List Byte

def ascii (text : String) : Bytes :=
  text.toList.map fun character => Fin.ofNat 256 character.toNat

/-- The value an `int64` variable holds after an assignment of `n`. -/
def wrapInt64 (n : Int) : Int := Int.bmod n (2 ^ 64)

def IsInt64 (n : Int) : Prop := -(2 ^ 63) ≤ n ∧ n < 2 ^ 63

instance (n : Int) : Decidable (IsInt64 n) := inferInstanceAs (Decidable (_ ∧ _))

theorem wrapInt64_of_isInt64 {n : Int} (range : IsInt64 n) : wrapInt64 n = n := by
  unfold wrapInt64
  exact Int.bmod_eq_of_le (by simpa using range.1) (by simpa using range.2)

theorem wrapInt64_injective {first second : Nat} (firstFits : first < 2 ^ 64)
    (secondFits : second < 2 ^ 64) (same : wrapInt64 first = wrapInt64 second) :
    first = second := by
  have divides := Int.dvd_of_bmod_eq_zero (Int.bmod_eq_bmod_iff_bmod_sub_eq_zero.mp same)
  omega

theorem wrapInt64_add_one (n : Int) : wrapInt64 (wrapInt64 n + 1) = wrapInt64 (n + 1) :=
  Int.bmod_add_bmod

/-- `Time.UnixNano`. -/
def unixNano (ts : Int) : Int := wrapInt64 ts

def tsToRev (ts : Int) : Int :=
  let n := unixNano ts
  if n ≤ 0 then 1 else n

def revToTS (rev : Int) : Int :=
  if rev ≤ 1 then 1 else rev

/-- Commit timestamps: later than one nanosecond after the epoch, the instant
that stands for "no revision", and representable as `int64` nanoseconds. -/
structure CommitTs where
  ns : Int
  afterEpoch : 1 < ns
  fitsInt64 : ns < 2 ^ 63

/-- Numerals for the timestamps of fixed runs; one that is out of range wraps. -/
instance (n : Nat) : OfNat CommitTs n where
  ofNat := {
    ns := ((n - 2) % (2 ^ 63 - 2) + 2 : Nat)
    afterEpoch := by omega
    fitsInt64 := by omega }

/-- Ints that survive the conversion to a revision and back. -/
def Exact (ts : Int) : Prop := 1 < ts ∧ ts < 2 ^ 63

theorem CommitTs.exact (ts : CommitTs) : Exact ts.ns := ⟨ts.afterEpoch, ts.fitsInt64⟩

theorem tsToRev_of_exact {ts : Int} (exact : Exact ts) : tsToRev ts = ts := by
  have lower := exact.1
  have unwrapped : wrapInt64 ts = ts :=
    wrapInt64_of_isInt64 ⟨by omega, exact.2⟩
  simp only [tsToRev, unixNano, unwrapped]
  omega

theorem revToTS_of_exact {ts : Int} (exact : Exact ts) : revToTS ts = ts := by
  have := exact.1
  simp only [revToTS]
  omega

@[simp]
theorem revToTS_tsToRev {ts : Int} (exact : Exact ts) : revToTS (tsToRev ts) = ts := by
  rw [tsToRev_of_exact exact, revToTS_of_exact exact]

theorem tsToRev_revToTS {rev : Int} (exact : Exact rev) : tsToRev (revToTS rev) = rev := by
  rw [revToTS_of_exact exact, tsToRev_of_exact exact]

structure Row where
  id : Nat
  rev : Int
  key : Bytes
  value : Option Bytes
  oldValue : Option Bytes
  leaseId : Int
  deleted : Bool
  created : Bool
  createRevision : Option Int
  prevRevision : Option Int
  deriving DecidableEq, Repr

structure LeaseRow where
  leaseId : Int
  ttlSec : Int
  grantedAt : Int
  deriving DecidableEq, Repr

/-- The shared database.  `kvRev` is the row of `kv_rev` that holds the
compact revision, `nextId` the state of the sequence that numbers `kv` rows
and `clock` the last commit timestamp that was handed out. -/
structure DB where
  kv : List Row
  kvRev : Option Int
  kvLease : List LeaseRow
  nextId : Nat
  clock : Int
  deriving Repr

def DB.empty : DB :=
  { kv := [], kvRev := none, kvLease := [], nextId := 0, clock := 1 }

/-- One key-value entry as seen by callers; a nil slice is `none`. -/
structure KV where
  key : Bytes
  value : Option Bytes
  oldValue : Option Bytes
  leaseID : Int
  deleted : Bool
  created : Bool
  rev : Int
  createRevision : Int
  prevRevision : Int
  deriving DecidableEq, Repr

/-- Read a nullable timestamp column into a revision that is 0 by default. -/
def nullTimeToRev : Option Int → Int
  | none => 0
  | some ts => tsToRev ts

def scanKV (row : Row) : KV :=
  { key := row.key
    value := row.value
    oldValue := row.oldValue
    leaseID := row.leaseId
    deleted := row.deleted
    created := row.created
    rev := tsToRev row.rev
    createRevision := nullTimeToRev row.createRevision
    prevRevision := nullTimeToRev row.prevRevision }

inductive StoreErr where
  | keyNotFound
  | keyExists
  | revisionMismatch
  | compacted
  | duplicateMutation (key : Bytes)
  | unknownTxnOpType (code : Int)
  | nilEvaluate (key : Bytes)
  | compareErr (target : Int)
  /-- `fmt.Errorf("list %s: %w", prefix, err)` and its likes, without the error
  of the client library. -/
  | queryFailed (call : String) (name : Bytes)
  deriving DecidableEq, Repr

inductive TsCell where
  | commitTimestamp
  | at (ts : Int)
  | null
  deriving DecidableEq, Repr

def TsCell.resolve (commit : Int) : TsCell → Option Int
  | .commitTimestamp => some commit
  | .at ts => some ts
  | .null => none

/-- A buffered insert into `kv`.  The `rev` column is the commit timestamp in
every insert of the store, and `id` is drawn from the sequence. -/
structure KvInsert where
  key : Bytes
  value : Option Bytes
  oldValue : Option Bytes
  leaseId : Int
  deleted : Bool
  created : Bool
  createRevision : TsCell
  prevRevision : TsCell
  deriving DecidableEq, Repr

def KvInsert.toRow (insert : KvInsert) (id : Nat) (commit : Int) : Row :=
  { id := id
    rev := commit
    key := insert.key
    value := insert.value
    oldValue := insert.oldValue
    leaseId := insert.leaseId
    deleted := insert.deleted
    created := insert.created
    createRevision := insert.createRevision.resolve commit
    prevRevision := insert.prevRevision.resolve commit }

def committedRows (commit : Int) : Nat → List KvInsert → List Row
  | _, [] => []
  | id, insert :: rest => insert.toRow id commit :: committedRows commit (id + 1) rest

/-- Commit the buffered inserts of one read-write transaction. -/
def DB.commit (db : DB) (ts : CommitTs) (inserts : List KvInsert) : DB :=
  { db with
    kv := db.kv ++ committedRows ts.ns db.nextId inserts
    nextId := db.nextId + inserts.length
    clock := ts.ns }

theorem mem_committedRows {commit : Int} {id : Nat} {inserts : List KvInsert}
    {row : Row} (membership : row ∈ committedRows commit id inserts) :
    ∃ insert ∈ inserts, ∃ offset < inserts.length,
      row = insert.toRow (id + offset) commit := by
  induction inserts generalizing id with
  | nil => simp [committedRows] at membership
  | cons insert rest inductionHypothesis =>
      rcases List.mem_cons.mp membership with equality | inRest
      · exact ⟨insert, by simp, 0, by simp, by simpa using equality⟩
      · obtain ⟨other, otherMembership, offset, bound, rfl⟩ := inductionHypothesis inRest
        refine ⟨other, by simp [otherMembership], offset + 1, by simpa using bound, ?_⟩
        rw [Nat.add_right_comm, Nat.add_assoc]

theorem exists_committedRow {commit : Int} {id : Nat} {inserts : List KvInsert}
    {insert : KvInsert} (membership : insert ∈ inserts) :
    ∃ rowId, insert.toRow rowId commit ∈ committedRows commit id inserts := by
  induction inserts generalizing id with
  | nil => simp at membership
  | cons head rest inductionHypothesis =>
      rcases List.mem_cons.mp membership with rfl | inRest
      · exact ⟨id, by simp [committedRows]⟩
      · obtain ⟨rowId, found⟩ := @inductionHypothesis (id + 1) inRest
        exact ⟨rowId, List.mem_cons_of_mem _ found⟩

theorem committedRows_rev {commit : Int} {id : Nat} {inserts : List KvInsert}
    {row : Row} (membership : row ∈ committedRows commit id inserts) :
    row.rev = commit := by
  obtain ⟨insert, _, offset, _, rfl⟩ := mem_committedRows membership
  rfl

end SpannerEtcd
