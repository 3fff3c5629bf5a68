import SpannerEtcd.Server.Handlers
import SpannerEtcd.Store.CurrentReads
import SpannerEtcd.Store.Refinement

/-!
# Calls without concurrent clients

A call that runs alone reads and writes the map of live entries.  Revisions
aside, what it does is a function of the value and the lease of each key.
-/

namespace SpannerEtcd

open VersionedLog

/-! ## Running a call alone -/

/-- The world after a write that commits at `ts`. -/
def World.write (world : World) (op : WriteOp) (ts : CommitTs) : World :=
  { world with
    db := op.apply world.db ts
    history := world.history ++ (op.apply world.db ts).kv.drop world.db.kv.length }

theorem World.step_write {world : World} (op : WriteOp) {ts : CommitTs}
    (later : world.db.clock < ts.ns) : world.step (.write op ts) = some (world.write op ts) := by
  simp only [World.step, later, if_true, World.write]

/-- Run a call with no other steps in between; its transactions commit at the
timestamps of the supply, one after the other. -/
def alone {Result : Type} (supply : Nat → CommitTs) (program : Call Result) (count : Nat)
    (world : World) : Result × Nat × World :=
  program.exec World.db
    (fun count op world => (op.answer world.db (supply count), world.write op (supply count)))
    count world

/-- The timestamps from `count` up to `bound` lie ahead, in order. -/
structure Ready (supply : Nat → CommitTs) (count bound : Nat) (world : World) : Prop where
  inv : world.Inv
  ahead : ∀ i, count ≤ i → i < bound → world.db.clock < (supply i).ns
  ordered : ∀ i j, count ≤ i → i < j → j < bound → (supply i).ns < (supply j).ns

theorem Ready.of_supply {supply : Nat → CommitTs} {bound : Nat} {world : World} (inv : world.Inv)
    (ahead : ∀ i < bound, world.db.clock < (supply i).ns)
    (ordered : ∀ j < bound, ∀ i < j, (supply i).ns < (supply j).ns) :
    Ready supply 0 bound world :=
  ⟨inv, fun i _ below => ahead i below, fun i j _ order below => ordered j below i order⟩

theorem WriteOp.apply_clock_le (op : WriteOp) {db : DB} {ts : CommitTs}
    (later : db.clock < ts.ns) : (op.apply db ts).clock ≤ ts.ns := by
  rcases op.apply_cases db ts with same | ⟨inserts, _, committed⟩
  · rw [same]
    exact le_of_lt later
  · rw [committed]
    exact le_refl _

theorem Ready.write {supply : Nat → CommitTs} {count bound : Nat} {world : World}
    (ready : Ready supply count bound world) (room : count < bound) (op : WriteOp) :
    Ready supply (count + 1) bound (world.write op (supply count)) := by
  have later := ready.ahead count (le_refl count) room
  refine ⟨ready.inv.step (World.step_write op later), ?_, ?_⟩
  · intro i after below
    exact (op.apply_clock_le later).trans_lt (ready.ordered count i (le_refl count) after below)
  · intro i j after
    exact ready.ordered i j (Nat.le_of_succ_le after)

section Alone

variable {supply : Nat → CommitTs} {count : Nat} {world : World} {Result Other : Type}

theorem alone_bind (program : Call Result) (next : Result → Call Other) :
    alone supply (program >>= next) count world =
      alone supply (next (alone supply program count world).1)
        (alone supply program count world).2.1 (alone supply program count world).2.2 :=
  Program.exec_bind ..

theorem alone_bind_of {program : Call Result} {next : Result → Call Other} {result : Result}
    {after : Nat} {final : World}
    (ran : alone supply program count world = (result, after, final)) :
    alone supply (program >>= next) count world = alone supply (next result) after final := by
  rw [alone_bind, ran]

@[simp]
theorem alone_ret (result : Result) :
    alone supply (.ret result) count world = (result, count, world) := rfl

@[simp]
theorem alone_pure (result : Result) :
    alone supply (pure result) count world = (result, count, world) := rfl

theorem alone_transaction (op : WriteOp) :
    alone supply (Store.transaction op) count world =
      (op.answer world.db (supply count), count + 1, world.write op (supply count)) := rfl

theorem alone_currentRevision :
    alone supply Store.currentRevision count world =
      (currentRevision world.db, count, world) := rfl

/-- Alone, the reads of one call are reads of one snapshot. -/
theorem alone_getAt (key : Bytes) (revision : Int) :
    alone supply (Store.get key revision) count world =
      (get world.db world.db world.db key revision, count, world) := by
  by_cases past : 0 < revision <;> simp only [Store.get, past, if_true, if_false] <;> rfl

theorem alone_list (pre startKey : Bytes) (limit revision : Int) :
    alone supply (Store.list pre startKey limit revision) count world =
      (list world.db world.db world.db pre startKey limit revision, count, world) := rfl

theorem alone_count (pre startKey : Bytes) (revision : Int) :
    alone supply (Store.count pre startKey revision) count world =
      (SpannerEtcd.count world.db world.db world.db pre startKey revision, count, world) := by
  by_cases past : 0 < revision <;> simp only [Store.count, past, if_true, if_false] <;> rfl

/-- Alone, a read at the current revision sees the live entry. -/
theorem alone_get (inv : world.Inv) (key : Bytes) :
    alone supply (Store.get key 0) count world =
      ((currentRevision world.db, .ok (getLatestTxn world.db.kv key)), count, world) := by
  have read : get world.db world.db world.db key 0 =
      (currentRevision world.db, .ok (getLatestTxn world.db.kv key)) := by
    refine Prod.ext rfl ?_
    rw [get_current, latestRowAt_current inv inv (.refl world) fun row => newest_mem]
    rfl
  exact congrArg (·, count, world) read

end Alone

/-! ## Values and leases -/

structure Plain where
  value : Option Bytes
  lease : Int
  deriving DecidableEq, Repr

abbrev PlainMap := Bytes → Option Plain

def KV.plain (kv : KV) : Plain := ⟨kv.value, kv.leaseID⟩

def AbstractMap.plain (map : AbstractMap) : PlainMap := fun key => (map key).map KV.plain

def World.plain (world : World) : PlainMap := AbstractMap.plain (getLatestTxn world.db.kv)

theorem AbstractMap.plain_set (map : AbstractMap) (key : Bytes) (entry : Option KV) :
    (map.set key entry).plain = Function.update map.plain key (entry.map KV.plain) := by
  funext other
  by_cases same : other = key
  · subst same
    simp [AbstractMap.plain, AbstractMap.set]
  · simp [AbstractMap.plain, AbstractMap.set, Function.update_of_ne same]

/-- A response without its revisions. -/
inductive PlainResponse where
  | range (kvs : List (Bytes × Plain)) (count : Int)
  | put (prev : Option (Bytes × Plain))
  | deleteRange (deleted : Int) (prevKvs : List (Bytes × Plain))
  deriving DecidableEq, Repr

def KeyValue.plain (kv : KeyValue) : Bytes × Plain := (kv.key, ⟨kv.value, kv.lease⟩)

def ResponseOp.plain : ResponseOp → PlainResponse
  | .range response => .range (response.kvs.map KeyValue.plain) response.count
  | .put response => .put (response.prevKv.map KeyValue.plain)
  | .deleteRange response => .deleteRange response.deleted (response.prevKvs.map KeyValue.plain)

/-- What an operation on a single key answers; nothing for one that is not
supported. -/
def RequestOp.respond (map : PlainMap) : RequestOp → Option PlainResponse
  | .range request =>
      some (.range ((map request.key).map (request.key, ·)).toList
        (boolToInt (map request.key).isSome))
  | .put request =>
      some (.put (if request.prevKv then (map request.key).map (request.key, ·) else none))
  | .deleteRange request =>
      some (.deleteRange (boolToInt (map request.key).isSome)
        (if request.prevKv then ((map request.key).map (request.key, ·)).toList else []))
  | .unsupported => none

/-- What it leaves behind. -/
def RequestOp.effect (map : PlainMap) : RequestOp → PlainMap
  | .put request => Function.update map request.key (some ⟨request.value, request.lease⟩)
  | .deleteRange request => Function.update map request.key none
  | _ => map

theorem KV.plain_toProtoKV {key : Bytes} {entry : Option KV}
    (named : ∀ kv, entry = some kv → kv.key = key) :
    (entry.map toProtoKV).map KeyValue.plain = (entry.map KV.plain).map (key, ·) := by
  cases entry with
  | none => rfl
  | some kv =>
      simp only [Option.map_some, Option.some.injEq]
      exact Prod.ext (named kv rfl) rfl

/-! ## The handlers alone -/

section Handlers

variable {supply : Nat → CommitTs} {count bound : Nat} {world : World}

/-- Alone, the operation answers and takes effect as on the map, with at most
two commits. -/
def Performs (supply : Nat → CommitTs) (count bound : Nat) (world : World) (op : RequestOp) :
    Prop :=
  ∃ response after final,
    alone supply (executeOp op) count world = (.ok response, after, final) ∧
      some response.plain = op.respond world.plain ∧ final.plain = op.effect world.plain ∧
      after ≤ count + 2 ∧ Ready supply after bound final

theorem World.named (world : World) (key : Bytes) :
    ∀ kv, getLatestTxn world.db.kv key = some kv → kv.key = key :=
  fun _ => getLatestTxn_key

/-! ### Reads -/

theorem alone_range (inv : world.Inv) {request : RangeRequest} (single : request.rangeEnd = [])
    (current : request.revision = 0) :
    alone supply (range request) count world =
      (.ok { header := header (currentRevision world.db)
             kvs := ((getLatestTxn world.db.kv request.key).map toProtoKV).toList
             count := boolToInt (getLatestTxn world.db.kv request.key).isSome }, count, world) := by
  unfold range
  rw [if_pos single, current, alone_bind_of (alone_get inv request.key)]
  cases found : getLatestTxn world.db.kv request.key with
  | none => rfl
  | some kv =>
      have live := (inv.entry_exact found).2.2
      simp [live, boolToInt]

theorem range_performs (ready : Ready supply count bound world) {request : RangeRequest}
    (simple : (RequestOp.range request).complex = false) :
    Performs supply count bound world (.range request) := by
  simp only [RequestOp.complex, Bool.or_eq_false_iff, decide_eq_false_iff_not, not_not] at simple
  obtain ⟨⟨⟨⟨single, current⟩, _⟩, _⟩, _⟩ := simple
  refine ⟨_, count, world, (alone_bind_of (alone_range ready.inv single current)).trans rfl, ?_,
    rfl, Nat.le_add_right count 2, ready⟩
  have shown := KV.plain_toProtoKV (world.named request.key)
  simp only [cutRange, single, ne_eq, not_true_eq_false, false_and, if_false, ResponseOp.plain,
    RequestOp.respond, World.plain, AbstractMap.plain, ← shown, Option.isSome_map]
  cases getLatestTxn world.db.kv request.key <;> rfl

/-! ### Writes -/

theorem World.write_of_unchanged {op : WriteOp} {ts : CommitTs}
    (same : op.apply world.db ts = world.db) : world.write op ts = world := by
  simp [World.write, same]

theorem World.write_plain {op : WriteOp} {ts : CommitTs} (inv : world.Inv)
    (later : world.db.clock < ts.ns) {insert : KvInsert}
    (applied : op.apply world.db ts = world.db.commit ts [insert])
    (writes : Writes world.db.kv insert) :
    (world.write op ts).plain =
      Function.update world.plain insert.key ((insert.entry ts.ns).map KV.plain) := by
  unfold World.plain
  rw [← AbstractMap.plain_set, ← commit_singleton inv later writes, ← applied]
  rfl

theorem World.plain_of_present {key : Bytes} {kv : KV}
    (present : getLatestTxn world.db.kv key = some kv) : world.plain key = some kv.plain := by
  simp [World.plain, AbstractMap.plain, present]

theorem World.write_kv_ne {op : WriteOp} {ts : CommitTs} {insert : KvInsert}
    (applied : op.apply world.db ts = world.db.commit ts [insert]) :
    (world.write op ts).db.kv ≠ world.db.kv := by
  intro same
  have longer : (world.write op ts).db.kv.length = world.db.kv.length + 1 := by
    simp [World.write, applied, DB.commit, committedRows]
  rw [same] at longer
  omega

/-- An update against the entry that is there. -/
theorem update_writes (ready : Ready supply count bound world) (room : count < bound)
    {key : Bytes} {prev : KV} (value : Option Bytes) (leaseID : Int)
    (present : getLatestTxn world.db.kv key = some prev) :
    (world.write (.update key value prev.rev leaseID) (supply count)).plain =
        Function.update world.plain key (some ⟨value, leaseID⟩) ∧
      (world.write (.update key value prev.rev leaseID) (supply count)).db.kv ≠ world.db.kv := by
  have applied : (WriteOp.update key value prev.rev leaseID).apply world.db (supply count) =
      world.db.commit (supply count) [updateInsert key value leaseID prev] := by
    simp only [WriteOp.apply, update_of_match (supply count) none value leaseID present]
  refine ⟨?_, World.write_kv_ne applied⟩
  rw [World.write_plain ready.inv (ready.ahead count (le_refl count) room) applied
    (.update _ _ _ prev present), updateInsert_entry ready.inv present]
  rfl

theorem create_writes (ready : Ready supply count bound world) (room : count < bound)
    {key : Bytes} (value : Option Bytes) (leaseID : Int)
    (absent : getLatestTxn world.db.kv key = none) :
    (world.write (.create key value leaseID) (supply count)).plain =
        Function.update world.plain key (some ⟨value, leaseID⟩) ∧
      (world.write (.create key value leaseID) (supply count)).db.kv ≠ world.db.kv := by
  have applied : (WriteOp.create key value leaseID).apply world.db (supply count) =
      world.db.commit (supply count) [createInsert key value leaseID] := by
    simp only [WriteOp.apply, create_of_absent (supply count) value leaseID absent]
  refine ⟨?_, World.write_kv_ne applied⟩
  rw [World.write_plain ready.inv (ready.ahead count (le_refl count) room) applied
    (.create _ _ _ absent), createInsert_entry]
  rfl

theorem delete_writes (ready : Ready supply count bound world) (room : count < bound)
    {key : Bytes} {prev : KV} (present : getLatestTxn world.db.kv key = some prev) :
    (world.write (.delete key 0) (supply count)).plain = Function.update world.plain key none ∧
      (world.write (.delete key 0) (supply count)).db.kv ≠ world.db.kv := by
  have applied : (WriteOp.delete key 0).apply world.db (supply count) =
      world.db.commit (supply count) [tombstoneInsert key prev] := by
    simp only [WriteOp.apply, delete_of_match (supply count) none present (.inl rfl)]
  refine ⟨?_, World.write_kv_ne applied⟩
  rw [World.write_plain ready.inv (ready.ahead count (le_refl count) room) applied
    (.tombstone _ prev present)]
  rfl

theorem alone_update {key : Bytes} {prev : KV} (value : Option Bytes) (leaseID : Int)
    (present : getLatestTxn world.db.kv key = some prev) :
    alone supply (Store.update key value prev.rev leaseID) count world =
      (.ok ⟨tsToRev (supply count).ns, some prev, true⟩, count + 1,
        world.write (.update key value prev.rev leaseID) (supply count)) := by
  unfold Store.update
  rw [alone_bind_of (alone_transaction _)]
  simp only [WriteOp.answer, update_of_match (supply count) none value leaseID present]
  rfl

theorem alone_put_absent {request : PutRequest}
    (absent : getLatestTxn world.db.kv request.key = none) :
    alone supply (put request) count world =
      (.ok { header := header (tsToRev (supply count).ns), prevKv := none }, count + 1,
        world.write (.create request.key request.value request.lease) (supply count)) := by
  unfold put Store.create
  rw [alone_bind_of (alone_transaction _)]
  simp only [WriteOp.answer, create_of_absent (supply count) request.value request.lease absent]
  rfl

/-- A create that is refused leaves the world as it is. -/
theorem World.write_create_present {key : Bytes} {prev : KV} (value : Option Bytes)
    (leaseID : Int) (ts : CommitTs) (present : getLatestTxn world.db.kv key = some prev) :
    world.write (.create key value leaseID) ts = world :=
  World.write_of_unchanged (by
    simp only [WriteOp.apply, create_of_present ts value leaseID present])

theorem alone_put_present (inv : world.Inv) {request : PutRequest} {prev : KV}
    (present : getLatestTxn world.db.kv request.key = some prev) :
    alone supply (put request) count world =
      (.ok (putResponse request (tsToRev (supply (count + 1)).ns) (some prev)), count + 2,
        world.write (.update request.key request.value prev.rev request.lease)
          (supply (count + 1))) := by
  unfold put Store.create
  rw [alone_bind_of (alone_transaction _), World.write_create_present _ _ _ present]
  simp only [WriteOp.answer, create_of_present (supply count) request.value request.lease present]
  rw [alone_bind_of (alone_get inv request.key), present]
  dsimp only [prevModRev]
  rw [alone_bind_of (alone_update request.value request.lease present)]
  rfl

theorem executeOp_put {request : PutRequest}
    (simple : (RequestOp.put request).complex = false) :
    executeOp (.put request) = (do return (← put request).map .put) := by
  have kept : executePut request = put request := by
    unfold executePut
    rw [if_neg (by simpa [RequestOp.complex] using simple)]
  rw [← kept]
  rfl

theorem put_performs (ready : Ready supply count bound world) (room : count + 2 ≤ bound)
    {request : PutRequest} (simple : (RequestOp.put request).complex = false) :
    Performs supply count bound world (.put request) := by
  unfold Performs
  rw [executeOp_put simple]
  cases found : getLatestTxn world.db.kv request.key with
  | none =>
      refine ⟨_, _, _, (alone_bind_of (alone_put_absent found)).trans rfl, ?_, ?_, by omega,
        ready.write (by omega) _⟩
      · simp [ResponseOp.plain, RequestOp.respond, World.plain, AbstractMap.plain, found]
      · exact (create_writes ready (by omega) request.value request.lease found).1
  | some prev =>
      have again : Ready supply (count + 1) bound world := by
        have written := ready.write (by omega) (.create request.key request.value request.lease)
        rwa [World.write_create_present _ _ _ found] at written
      refine ⟨_, _, _, (alone_bind_of (alone_put_present ready.inv found)).trans rfl, ?_, ?_,
        le_refl _, again.write (by omega) _⟩
      · have named := getLatestTxn_key found
        simp only [ResponseOp.plain, RequestOp.respond, World.plain, AbstractMap.plain, found,
          putResponse, Option.map_some]
        cases request.prevKv
        · rfl
        · simp [toProtoKV, KeyValue.plain, KV.plain, named]
      · exact (update_writes again (by omega) request.value request.lease found).1

theorem World.write_delete_absent {key : Bytes} (ts : CommitTs)
    (absent : getLatestTxn world.db.kv key = none) : world.write (.delete key 0) ts = world :=
  World.write_of_unchanged (by simp only [WriteOp.apply, delete_of_absent ts none 0 absent])

theorem alone_delete_absent {key : Bytes} (absent : getLatestTxn world.db.kv key = none) :
    alone supply (Store.delete key 0) count world =
      (.ok ⟨currentRevision world.db, none, false⟩, count + 1, world) := by
  unfold Store.delete
  rw [alone_bind_of (alone_transaction _), World.write_delete_absent _ absent]
  simp only [WriteOp.answer, delete_of_absent (supply count) none 0 absent]
  rfl

theorem alone_delete_present {key : Bytes} {prev : KV}
    (present : getLatestTxn world.db.kv key = some prev) :
    alone supply (Store.delete key 0) count world =
      (.ok ⟨tsToRev (supply count).ns, some prev, true⟩, count + 1,
        world.write (.delete key 0) (supply count)) := by
  unfold Store.delete
  rw [alone_bind_of (alone_transaction _)]
  simp only [WriteOp.answer, delete_of_match (supply count) none present (.inl rfl)]
  rfl

theorem alone_deleteKey {request : DeleteRangeRequest} {result : CasResult} {after : Nat}
    {final : World}
    (deleted : alone supply (Store.delete request.key 0) count world =
      (.ok result, after, final)) :
    alone supply (deleteKey request) count world =
      (.ok { header := header result.rev
             deleted := boolToInt result.ok
             prevKvs := prevKvsOf request.prevKv result.prev }, after, final) := by
  unfold deleteKey
  rw [alone_bind_of deleted]
  rfl

theorem executeOp_deleteRange {request : DeleteRangeRequest}
    (simple : (RequestOp.deleteRange request).complex = false) :
    executeOp (.deleteRange request) = (do return (← deleteKey request).map .deleteRange) := by
  have single : request.rangeEnd = [] := by simpa [RequestOp.complex] using simple
  have kept : executeDeleteRange request = deleteKey request := by
    unfold executeDeleteRange deleteRange
    rw [if_pos single, if_pos single]
  rw [← kept]
  rfl

theorem deleteRange_performs (ready : Ready supply count bound world) (room : count + 2 ≤ bound)
    {request : DeleteRangeRequest}
    (simple : (RequestOp.deleteRange request).complex = false) :
    Performs supply count bound world (.deleteRange request) := by
  unfold Performs
  rw [executeOp_deleteRange simple]
  cases found : getLatestTxn world.db.kv request.key with
  | none =>
      have again : Ready supply (count + 1) bound world := by
        have written := ready.write (by omega) (.delete request.key 0)
        rwa [World.write_delete_absent _ found] at written
      have gone : world.plain request.key = none := by
        simp [World.plain, AbstractMap.plain, found]
      refine ⟨_, _, _, (alone_bind_of (alone_deleteKey (alone_delete_absent found))).trans rfl, ?_,
        ?_, by omega, again⟩
      · simp [ResponseOp.plain, RequestOp.respond, gone, prevKvsOf, boolToInt]
      · simp [RequestOp.effect, ← gone]
  | some prev =>
      have there := World.plain_of_present found
      refine ⟨_, _, _, (alone_bind_of (alone_deleteKey (alone_delete_present found))).trans rfl, ?_,
        ?_, by omega, ready.write (by omega) _⟩
      · have named := getLatestTxn_key found
        simp only [ResponseOp.plain, RequestOp.respond, there, prevKvsOf, Option.map_some,
          Option.toList_some]
        cases request.prevKv
        · rfl
        · simp [toProtoKV, KeyValue.plain, KV.plain, named, boolToInt]
      · exact (delete_writes ready (by omega) found).1

end Handlers

end SpannerEtcd
