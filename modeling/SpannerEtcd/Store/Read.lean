import Mathlib
import SpannerEtcd.Lib.VersionedLog
import SpannerEtcd.Store.Schema

/-!
# Reads of the store

Every read of the store is a sequence of single-use Spanner reads, each at a
snapshot of its own.  The functions below therefore take one database for
each of their reads, in the order in which the code issues them; a call on a
quiet store passes the same database every time.
-/

namespace SpannerEtcd

open VersionedLog

/-! ## The newest row of a key -/

/-- `SELECT … FROM kv WHERE key = @key ORDER BY rev DESC LIMIT 1`. -/
def latestRow (rows : List Row) (key : Bytes) : Option Row :=
  newest Row.key Row.rev (fun _ => true) rows key

/-- `SELECT … FROM kv WHERE key = @key AND rev <= @cap ORDER BY key, rev DESC LIMIT 1`. -/
def latestRowAt (rows : List Row) (key : Bytes) (cap : Int) : Option Row :=
  newest Row.key Row.rev (fun rev => decide (rev ≤ cap)) rows key

def liveKV : Option Row → Option KV
  | none => none
  | some row =>
      let kv := scanKV row
      if kv.deleted then none else some kv

def keyExistsTxn (rows : List Row) (key : Bytes) : Bool :=
  match latestRow rows key with
  | none => false
  | some row => !row.deleted

def getLatestTxn (rows : List Row) (key : Bytes) : Option KV :=
  liveKV (latestRow rows key)

/-! ## Revisions -/

/-- `SELECT rev FROM kv ORDER BY rev DESC LIMIT 1`; 1 on an empty table. -/
def currentRevision (db : DB) : Int :=
  match (db.kv.map Row.rev).max? with
  | none => 1
  | some ts =>
      let rev := tsToRev ts
      if rev ≤ 1 then 1 else rev

/-- The stored compact revision, 1 if absent. -/
def compactRevision (db : DB) : Int :=
  match db.kvRev with
  | none => 1
  | some ts => tsToRev ts

def revCap (revision currentRev : Int) : Int :=
  if revision > 0 then revision else currentRev

/-- Whether a read at `revision` is refused against the stored horizon. -/
def refusedAt (compactDb : DB) (revision : Int) : Bool :=
  decide (revision > 0) && decide (compactRevision compactDb > 1) &&
    decide (revision ≤ compactRevision compactDb)

/-! ## Point reads -/

/-- The value of `key` at `revision`; 0 means current. -/
def get (revDb compactDb rowDb : DB) (key : Bytes) (revision : Int) :
    Int × Except StoreErr (Option KV) :=
  let currentRev := currentRevision revDb
  if refusedAt compactDb revision then
    (currentRev, .error .compacted)
  else
    let capTS := revToTS (revCap revision currentRev)
    (currentRev, .ok (liveKV (latestRowAt rowDb.kv key capTS)))

/-! ## GoogleSQL `LIKE` -/

def isContinuation (byte : Byte) : Bool := decide (128 ≤ byte) && decide (byte < 192)

/-- Drop one UTF-8 encoded character. -/
def dropChar : Bytes → Option Bytes
  | [] => none
  | byte :: rest =>
      if isContinuation byte then none else some (rest.dropWhile isContinuation)

/-- `text LIKE pattern`: `%` is any run, `_` any one character and a
backslash makes the next character literal. -/
def like : Bytes → Bytes → Bool
  | [], text => text.isEmpty
  | 37 :: pattern, text => text.tails.any (like pattern)
  | 95 :: pattern, text =>
      match dropChar text with
      | none => false
      | some rest => like pattern rest
  | 92 :: [], _ => false
  | 92 :: literal :: pattern, text =>
      match text with
      | [] => false
      | byte :: rest => decide (byte = literal) && like pattern rest
  | literal :: pattern, text =>
      match text with
      | [] => false
      | byte :: rest => decide (byte = literal) && like pattern rest

def likePrefix (pre : Bytes) : Bytes := pre ++ [37]

/-- An empty clause for a limit that is not positive. -/
def limitClause {Item : Type} (limit : Int) (items : List Item) : List Item :=
  if limit ≤ 0 then items else items.take limit.toNat

section LimitClause

variable {Item Result : Type} {limit : Int} {items : List Item}

theorem limitClause_of_nonpos (unlimited : limit ≤ 0) : limitClause limit items = items :=
  if_pos unlimited

theorem limitClause_of_pos (limited : 0 < limit) :
    limitClause limit items = items.take limit.toNat :=
  if_neg (not_le.mpr limited)

theorem limitClause_map (limit : Int) (f : Item → Result) (items : List Item) :
    limitClause limit (items.map f) = (limitClause limit items).map f := by
  unfold limitClause
  split <;> simp

theorem limitClause_isPrefix (limit : Int) (items : List Item) :
    limitClause limit items <+: items := by
  unfold limitClause
  split
  · exact List.prefix_rfl
  · exact List.take_prefix _ _

theorem limitClause_sublist (limit : Int) (items : List Item) :
    (limitClause limit items).Sublist items :=
  (limitClause_isPrefix limit items).sublist

/-- A page that is not full holds everything. -/
theorem limitClause_of_short
    (short : limit ≤ 0 ∨ ((limitClause limit items).length : Int) < limit) :
    limitClause limit items = items := by
  rcases le_or_gt limit 0 with unlimited | limited
  · exact limitClause_of_nonpos unlimited
  · rw [limitClause_of_pos limited] at short ⊢
    rw [List.length_take] at short
    apply List.take_of_length_le
    omega

end LimitClause

/-! ## Range reads -/

/-- `key LIKE @prefix AND key >= @start_key`. -/
def inRange (pre startKey key : Bytes) : Bool :=
  like (likePrefix pre) key && decide (startKey ≤ key)

/-- The rows joined with `MAX(rev)` of their key at or below the cap, less
the tombstones. -/
def joinedRows (rows : List Row) (pre startKey : Bytes) (cap : Int) : List Row :=
  rows.filter fun row =>
    inRange pre startKey row.key &&
      decide (((rows.filter fun other => decide (other.key = row.key) &&
        decide (other.rev ≤ cap)).map Row.rev).max? = some row.rev) &&
      !row.deleted

/-- `… WHERE kv.deleted = false ORDER BY kv.key ASC`. -/
def listRows (rows : List Row) (pre startKey : Bytes) (cap : Int) : List Row :=
  (joinedRows rows pre startKey cap).insertionSort fun first second => first.key ≤ second.key

def list (revDb compactDb rowDb : DB) (pre startKey : Bytes) (limit revision : Int) :
    Int × Int × Except StoreErr (List KV) :=
  let currentRev := currentRevision revDb
  let capTS := revToTS (revCap revision currentRev)
  let compactRev := compactRevision compactDb
  if refusedAt compactDb revision then
    (currentRev, compactRev, .error .compacted)
  else
    (currentRev, compactRev,
      .ok ((limitClause limit (listRows rowDb.kv pre startKey capTS)).map scanKV))

def count (revDb compactDb rowDb : DB) (pre startKey : Bytes) (revision : Int) :
    Int × Except StoreErr Nat :=
  let currentRev := currentRevision revDb
  if refusedAt compactDb revision then
    (currentRev, .error .compacted)
  else
    let capTS := revToTS (revCap revision currentRev)
    (currentRev, .ok (joinedRows rowDb.kv pre startKey capTS).length)

/-! ## Event reads -/

inductive EventType where
  | put
  | delete
  deriving DecidableEq, Repr

structure Event where
  kv : KV
  type : EventType
  deriving DecidableEq, Repr

def rowEvent (row : Row) : Event :=
  let kv := scanKV row
  { kv := kv, type := if kv.deleted then .delete else .put }

/-- `WHERE key LIKE @prefix AND rev > @after_rev`. -/
def afterRows (rows : List Row) (pre : Bytes) (afterTS : Int) : List Row :=
  rows.filter fun row => like (likePrefix pre) row.key && decide (afterTS < row.rev)

/-- `ORDER BY rev ASC` leaves the order of rows with one revision open. -/
def IsRevOrder (rows order : List Row) : Prop :=
  order.Perm rows ∧ order.Pairwise fun first second => first.rev ≤ second.rev

instance (rows order : List Row) : Decidable (IsRevOrder rows order) :=
  inferInstanceAs (Decidable (_ ∧ _))

/-- All events with a revision above `afterRev` matching the prefix.  `order`
is the order in which Spanner returns the rows of the query. -/
def after (revDb compactDb : DB) (order : List Row) (afterRev limit : Int) :
    Int × Except StoreErr (List Event) :=
  let currentRev := currentRevision revDb
  if afterRev > 0 ∧ afterRev < compactRevision compactDb then
    (currentRev, .error .compacted)
  else
    (currentRev, .ok ((limitClause limit order).map rowEvent))

/-! ## Facts about the reads -/

@[simp]
theorem liveKV_none : liveKV none = none := rfl

theorem liveKV_some (row : Row) :
    liveKV (some row) = if row.deleted then none else some (scanKV row) := rfl

theorem liveKV_eq_some_iff {found : Option Row} {kv : KV} :
    liveKV found = some kv ↔
      ∃ row, found = some row ∧ row.deleted = false ∧ scanKV row = kv := by
  cases found with
  | none => simp
  | some row => cases deleted : row.deleted <;> simp [liveKV_some, deleted]

theorem getLatestTxn_key {rows : List Row} {key : Bytes} {kv : KV}
    (present : getLatestTxn rows key = some kv) : kv.key = key := by
  obtain ⟨row, found, _, rfl⟩ := liveKV_eq_some_iff.mp present
  have sameKey : row.key = key := newest_key found
  exact sameKey

theorem keyExistsTxn_eq_isSome (rows : List Row) (key : Bytes) :
    keyExistsTxn rows key = (getLatestTxn rows key).isSome := by
  unfold keyExistsTxn getLatestTxn
  cases latestRow rows key with
  | none => rfl
  | some row => cases deleted : row.deleted <;> simp [liveKV_some, deleted]

theorem le_currentRevision {db : DB} (exact : ∀ row ∈ db.kv, Exact row.rev)
    {row : Row} (membership : row ∈ db.kv) : row.rev ≤ currentRevision db := by
  have inRevs : row.rev ∈ db.kv.map Row.rev := List.mem_map_of_mem membership
  cases largest : (db.kv.map Row.rev).max? with
  | none => simp [List.max?_eq_none_iff.mp largest] at inRevs
  | some ts =>
      obtain ⟨tsMembership, upper⟩ := List.max?_eq_some_iff.mp largest
      obtain ⟨source, sourceMembership, rfl⟩ := List.mem_map.mp tsMembership
      have bound := upper row.rev inRevs
      have sourceExact := exact source sourceMembership
      simp only [currentRevision, largest, tsToRev_of_exact sourceExact]
      split <;> omega

theorem currentRevision_le {db : DB} (exact : ∀ row ∈ db.kv, Exact row.rev)
    {bound : Int} (positive : 1 ≤ bound) (upper : ∀ row ∈ db.kv, row.rev ≤ bound) :
    currentRevision db ≤ bound := by
  unfold currentRevision
  cases largest : (db.kv.map Row.rev).max? with
  | none => exact positive
  | some ts =>
      obtain ⟨tsMembership, _⟩ := List.max?_eq_some_iff.mp largest
      obtain ⟨source, sourceMembership, rfl⟩ := List.mem_map.mp tsMembership
      have sourceBound := upper source sourceMembership
      simp only [tsToRev_of_exact (exact source sourceMembership)]
      split <;> omega

theorem one_le_currentRevision (db : DB) : 1 ≤ currentRevision db := by
  unfold currentRevision
  split
  · exact le_refl 1
  · dsimp only
    split <;> omega

theorem revToTS_of_one_le {rev : Int} (positive : 1 ≤ rev) : revToTS rev = rev := by
  unfold revToTS
  split <;> omega

/-- The empty prefix matches every key. -/
@[simp]
theorem like_likePrefix_nil (key : Bytes) : like (likePrefix []) key = true := by
  simp only [likePrefix, List.nil_append, like]
  induction key with
  | nil => rfl
  | cons byte rest inductionHypothesis => simp [List.tails, inductionHypothesis]

/-! ## Reads at a given revision -/

theorem get_at {revision : Int} (positive : 0 < revision) (revDb compactDb rowDb : DB)
    (key : Bytes) :
    (get revDb compactDb rowDb key revision).2 =
      if refusedAt compactDb revision then .error .compacted
      else .ok (liveKV (latestRowAt rowDb.kv key revision)) := by
  simp only [get, revCap, gt_iff_lt, positive, if_true,
    revToTS_of_one_le (Int.add_one_le_iff.mpr positive)]
  split <;> rfl

theorem list_at {revision : Int} (positive : 0 < revision) (revDb compactDb rowDb : DB)
    (pre startKey : Bytes) (limit : Int) :
    (list revDb compactDb rowDb pre startKey limit revision).2.2 =
      if refusedAt compactDb revision then .error .compacted
      else .ok ((limitClause limit (listRows rowDb.kv pre startKey revision)).map scanKV) := by
  simp only [list, revCap, gt_iff_lt, positive, if_true,
    revToTS_of_one_le (Int.add_one_le_iff.mpr positive)]
  split <;> rfl

theorem count_at {revision : Int} (positive : 0 < revision) (revDb compactDb rowDb : DB)
    (pre startKey : Bytes) :
    (count revDb compactDb rowDb pre startKey revision).2 =
      if refusedAt compactDb revision then .error .compacted
      else .ok (joinedRows rowDb.kv pre startKey revision).length := by
  simp only [count, revCap, gt_iff_lt, positive, if_true,
    revToTS_of_one_le (Int.add_one_le_iff.mpr positive)]
  split <;> rfl

/-! ## Current reads -/

theorem get_current (revDb compactDb rowDb : DB) (key : Bytes) :
    (get revDb compactDb rowDb key 0).2 =
      .ok (liveKV (latestRowAt rowDb.kv key (currentRevision revDb))) := by
  simp [get, refusedAt, revCap, revToTS_of_one_le (one_le_currentRevision revDb)]

theorem list_current (revDb compactDb rowDb : DB) (pre startKey : Bytes) (limit : Int) :
    (list revDb compactDb rowDb pre startKey limit 0).2.2 =
      .ok ((limitClause limit
        (listRows rowDb.kv pre startKey (currentRevision revDb))).map scanKV) := by
  simp [list, refusedAt, revCap, revToTS_of_one_le (one_le_currentRevision revDb)]

end SpannerEtcd
