import SpannerEtcd.Server.TxnPaths

/-!
# Every operation of the non-atomic path

An operation of `executeOps` reads at a revision, writes a key that it may
have to find first, or deletes a range of keys.  Alone, it is refused or takes
effect according to the horizon and the map of live entries.
-/

namespace SpannerEtcd

open VersionedLog

/-! ## What any call does -/

section Calls

variable {supply : Nat → CommitTs} {count bound : Nat} {world : World} {Result : Type}

theorem World.write_grows (world : World) (op : WriteOp) (ts : CommitTs) :
    world.db.kv <+: (world.write op ts).db.kv ∧
      (world.write op ts).db.kvRev = world.db.kvRev := by
  unfold World.write
  obtain same | ⟨inserts, _, committed⟩ := op.apply_cases world.db ts
  · rw [same]
    exact ⟨List.prefix_rfl, rfl⟩
  · rw [committed]
    exact ⟨List.prefix_append .., rfl⟩

theorem count_le_alone (program : Call Result) :
    count ≤ (alone supply program count world).2.1 := by
  induction program generalizing count world with
  | ret result => exact le_refl count
  | observe next inductionHypothesis => exact inductionHypothesis world.db
  | act op next inductionHypothesis => exact (Nat.le_succ count).trans (inductionHypothesis _)

/-- What a call leaves of the world it started in. -/
structure Grows (supply : Nat → CommitTs) (bound : Nat) (world : World) (after : Nat)
    (final : World) : Prop where
  kept : world.db.kv <+: final.db.kv
  horizon : final.db.kvRev = world.db.kvRev
  ready : Ready supply after bound final

theorem alone_grows (program : Call Result) (ready : Ready supply count bound world)
    (enough : (alone supply program count world).2.1 ≤ bound) :
    Grows supply bound world (alone supply program count world).2.1
      (alone supply program count world).2.2 := by
  induction program generalizing count world with
  | ret result => exact ⟨List.prefix_rfl, rfl, ready⟩
  | observe next inductionHypothesis => exact inductionHypothesis world.db ready enough
  | act op next inductionHypothesis =>
      have spent : count + 1 ≤ bound := (count_le_alone _).trans enough
      obtain ⟨kept, horizon⟩ := world.write_grows op (supply count)
      have later := inductionHypothesis _ (ready.write spent op) enough
      exact ⟨kept.trans later.kept, later.horizon.trans horizon, later.ready⟩

end Calls

/-! ## What an operation does to the map -/

/-- The value and the lease that a put stores over the current entry. -/
def PutRequest.stored (request : PutRequest) : Option Plain → Plain
  | none => ⟨request.value, request.lease⟩
  | some current =>
      ⟨if request.ignoreValue then current.value else request.value,
        if request.ignoreLease then current.lease else request.lease⟩

/-- The loop over a listing goes on to this key. -/
def DeleteRangeRequest.reaches (request : DeleteRangeRequest) (key : Bytes) : Bool :=
  decide (request.rangeEnd = [0]) || decide (key < request.rangeEnd)

/-- The keys that a delete takes if they are live. -/
def DeleteRangeRequest.covers (request : DeleteRangeRequest) (key : Bytes) : Bool :=
  if request.rangeEnd = [] then decide (key = request.key)
  else
    inRange (rangeToPrefix request.key request.rangeEnd) request.key key && request.reaches key

/-- The error of an operation in its turn. -/
def RequestOp.refusal (db : DB) (map : PlainMap) : RequestOp → Option Code
  | .range request => if refusedAt db request.revision then some .outOfRange else none
  | .put request =>
      if (request.ignoreValue || request.ignoreLease) && (map request.key).isNone then
        some .notFound
      else none
  | .deleteRange _ => none
  | .unsupported => some .invalidArgument

def RequestOp.fullEffect (map : PlainMap) : RequestOp → PlainMap
  | .put request => Function.update map request.key (some (request.stored (map request.key)))
  | .deleteRange request => fun key => if request.covers key then none else map key
  | _ => map

/-- Every put commits a row, and so does a delete that finds a live key. -/
def RequestOp.Writes (map : PlainMap) : RequestOp → Prop
  | .put _ => True
  | .deleteRange request => ∃ key, request.covers key = true ∧ map key ≠ none
  | _ => False

theorem RequestOp.fullEffect_of_not_writes {map : PlainMap} {op : RequestOp}
    (silent : ¬op.Writes map) : op.fullEffect map = map := by
  cases op with
  | range request => rfl
  | unsupported => rfl
  | put request => exact absurd trivial silent
  | deleteRange request =>
      funext key
      simp only [RequestOp.fullEffect]
      split
      next covered =>
        by_contra live
        exact silent ⟨key, covered, fun absent => live absent.symm⟩
      next => rfl

def codeOf {Result : Type} : Except GrpcErr Result → Option Code
  | .ok _ => none
  | .error err => some err.code

/-- What comes of an operation: it is refused and changes nothing, or it takes
effect and says so. -/
structure RequestOp.Executed (op : RequestOp) (world : World) (reply : Except GrpcErr ResponseOp)
    (final : World) : Prop where
  refused : ∀ code, op.refusal world.db world.plain = some code →
    (∃ err, reply = .error err ∧ err.code = code) ∧ final = world
  accepted : op.refusal world.db world.plain = none →
    (∃ response, reply = .ok response) ∧ final.plain = op.fullEffect world.plain ∧
      (final.db.kv = world.db.kv ↔ ¬op.Writes world.plain)

/-! ## Reads -/

section Reads

variable {supply : Nat → CommitTs} {count : Nat} {world : World}

theorem alone_range_refused {request : RangeRequest}
    (refused : refusedAt world.db request.revision = true) :
    alone supply (range request) count world =
      (.error (toGRPCErr .compacted), count, world) := by
  unfold range
  split
  · rw [alone_bind_of (alone_getAt ..)]
    simp only [get, refused, if_true]
    rfl
  split
  · rw [alone_bind_of (alone_count ..)]
    simp only [SpannerEtcd.count, refused, if_true]
    rfl
  · rw [alone_bind_of (alone_list ..)]
    simp only [list, refused, if_true]
    rfl

theorem alone_range_accepted {request : RangeRequest}
    (accepted : refusedAt world.db request.revision = false) :
    ∃ response, alone supply (range request) count world = (.ok response, count, world) := by
  unfold range
  split
  · rw [alone_bind_of (alone_getAt ..)]
    simp only [get, accepted, Bool.false_eq_true, if_false]
    cases liveKV (latestRowAt world.db.kv request.key
      (revToTS (revCap request.revision (currentRevision world.db)))) with
    | none => exact ⟨_, rfl⟩
    | some kv =>
        dsimp only
        split
        · exact ⟨_, rfl⟩
        · exact ⟨_, rfl⟩
  split
  · rw [alone_bind_of (alone_count ..)]
    simp only [SpannerEtcd.count, accepted, Bool.false_eq_true, if_false]
    exact ⟨_, rfl⟩
  · rw [alone_bind_of (alone_list ..)]
    simp only [list, accepted, Bool.false_eq_true, if_false]
    exact ⟨_, rfl⟩

/-- The range of a transaction, as one call. -/
theorem alone_executeRange {request : RangeRequest} {reply : Except GrpcErr RangeResponse}
    {after : Nat} {final : World}
    (ran : alone supply (range request) count world = (reply, after, final)) :
    alone supply (executeOp (.range request)) count world =
      (reply.map fun response => .range (cutRange request response), after, final) :=
  (alone_bind_of ran).trans rfl

theorem range_executed (request : RangeRequest) :
    (RequestOp.range request).Executed world
      (alone supply (executeOp (.range request)) count world).1
      (alone supply (executeOp (.range request)) count world).2.2 := by
  cases refused : refusedAt world.db request.revision with
  | true =>
      rw [alone_executeRange (alone_range_refused refused)]
      refine ⟨fun code same => ?_, fun none => ?_⟩
      · simp only [RequestOp.refusal, refused, if_true, Option.some.injEq] at same
        exact ⟨⟨_, rfl, same⟩, rfl⟩
      · simp [RequestOp.refusal, refused] at none
  | false =>
      obtain ⟨response, read⟩ := alone_range_accepted refused
      rw [alone_executeRange read]
      refine ⟨fun code same => ?_, fun _ => ⟨⟨_, rfl⟩, rfl, ?_⟩⟩
      · simp [RequestOp.refusal, refused] at same
      · simp [RequestOp.Writes]

end Reads

/-! ## Writes of one key -/

section Writes

variable {supply : Nat → CommitTs} {count bound : Nat} {world : World}

theorem World.plain_eq_none_iff {key : Bytes} :
    world.plain key = none ↔ getLatestTxn world.db.kv key = none := by
  simp [World.plain, AbstractMap.plain]

theorem alone_putIgnoring_absent (inv : world.Inv) {request : PutRequest}
    (absent : getLatestTxn world.db.kv request.key = none) :
    alone supply (putIgnoring request) count world =
      (.error ⟨.notFound, .text "key not found"⟩, count, world) := by
  unfold putIgnoring
  rw [alone_bind_of (alone_get inv request.key), absent]
  rfl

theorem alone_putIgnoring_present (inv : world.Inv) {request : PutRequest} {prev : KV}
    (present : getLatestTxn world.db.kv request.key = some prev) :
    alone supply (putIgnoring request) count world =
      (.ok (putResponse request (tsToRev (supply count).ns) (some prev)), count + 1,
        world.write (.update request.key (request.stored (some prev.plain)).value prev.rev
          (request.stored (some prev.plain)).lease) (supply count)) := by
  unfold putIgnoring
  rw [alone_bind_of (alone_get inv request.key), present]
  dsimp only
  rw [alone_bind_of (alone_update _ _ present)]
  rfl

/-- The put of a transaction, as one call. -/
theorem alone_executePut {request : PutRequest} {reply : Except GrpcErr PutResponse} {after : Nat}
    {final : World} (ran : alone supply (executePut request) count world = (reply, after, final)) :
    alone supply (executeOp (.put request)) count world = (reply.map .put, after, final) :=
  (alone_bind_of ran).trans rfl

theorem PutRequest.stored_of_simple {request : PutRequest}
    (simple : (request.ignoreValue || request.ignoreLease) = false) (current : Option Plain) :
    request.stored current = ⟨request.value, request.lease⟩ := by
  simp only [Bool.or_eq_false_iff] at simple
  cases current <;> simp [PutRequest.stored, simple]

/-- The outcome of a put that was accepted and has written its key. -/
theorem RequestOp.Executed.of_put {request : PutRequest} {response : PutResponse} {final : World}
    (accepted : (RequestOp.put request).refusal world.db world.plain = none)
    (stored : final.plain =
      Function.update world.plain request.key (some (request.stored (world.plain request.key))))
    (written : final.db.kv ≠ world.db.kv) :
    (RequestOp.put request).Executed world (.ok (.put response)) final := by
  refine ⟨fun code refused => ?_, fun _ => ⟨⟨.put response, rfl⟩, stored, ?_⟩⟩
  · simp [accepted] at refused
  · simp [RequestOp.Writes, written]

theorem put_executed_simple (ready : Ready supply count bound world) {request : PutRequest}
    (simple : (request.ignoreValue || request.ignoreLease) = false)
    (enough : (alone supply (executeOp (.put request)) count world).2.1 ≤ bound) :
    (RequestOp.put request).Executed world
      (alone supply (executeOp (.put request)) count world).1
      (alone supply (executeOp (.put request)) count world).2.2 := by
  have accepted : (RequestOp.put request).refusal world.db world.plain = none := by
    simp [RequestOp.refusal, simple]
  have kept : executePut request = put request := if_neg (by simp [simple])
  have stores := request.stored_of_simple simple (world.plain request.key)
  cases found : getLatestTxn world.db.kv request.key with
  | none =>
      have ran : alone supply (executePut request) count world = _ :=
        kept ▸ alone_put_absent found
      rw [alone_executePut ran] at enough ⊢
      obtain ⟨stored, written⟩ := create_writes ready enough request.value request.lease found
      exact .of_put accepted (stores ▸ stored) written
  | some prev =>
      have ran : alone supply (executePut request) count world = _ :=
        kept ▸ alone_put_present ready.inv found
      rw [alone_executePut ran] at enough ⊢
      -- the refused create has used up a timestamp
      have again : Ready supply (count + 1) bound world := by
        have written := ready.write (Nat.lt_of_succ_lt enough)
          (.create request.key request.value request.lease)
        rwa [World.write_create_present _ _ _ found] at written
      obtain ⟨stored, written⟩ := update_writes again enough request.value request.lease found
      exact .of_put accepted (stores ▸ stored) written

theorem put_executed_ignoring (ready : Ready supply count bound world) {request : PutRequest}
    (ignores : (request.ignoreValue || request.ignoreLease) = true)
    (enough : (alone supply (executeOp (.put request)) count world).2.1 ≤ bound) :
    (RequestOp.put request).Executed world
      (alone supply (executeOp (.put request)) count world).1
      (alone supply (executeOp (.put request)) count world).2.2 := by
  have kept : executePut request = putIgnoring request := if_pos ignores
  cases found : getLatestTxn world.db.kv request.key with
  | none =>
      have ran : alone supply (executePut request) count world = _ :=
        kept ▸ alone_putIgnoring_absent ready.inv found
      have refused : (RequestOp.put request).refusal world.db world.plain = some .notFound := by
        simp [RequestOp.refusal, ignores, World.plain_eq_none_iff.mpr found]
      rw [alone_executePut ran]
      refine ⟨fun code same => ⟨⟨_, rfl, ?_⟩, rfl⟩, fun none => ?_⟩
      · exact Option.some.inj (refused.symm.trans same)
      · simp [refused] at none
  | some prev =>
      have ran : alone supply (executePut request) count world = _ :=
        kept ▸ alone_putIgnoring_present ready.inv found
      have there := World.plain_of_present found
      have accepted : (RequestOp.put request).refusal world.db world.plain = none := by
        simp [RequestOp.refusal, there]
      rw [alone_executePut ran] at enough ⊢
      obtain ⟨stored, written⟩ := update_writes ready enough
        (request.stored (some prev.plain)).value (request.stored (some prev.plain)).lease found
      refine .of_put accepted ?_ written
      rw [there]
      exact stored

end Writes

/-! ## Deletes -/

section Deletes

variable {supply : Nat → CommitTs} {count bound : Nat} {world : World}

/-- The outcome of a delete: what it covers is gone, and there is a new row
exactly if something was there. -/
theorem RequestOp.Executed.of_deleteRange {request : DeleteRangeRequest}
    {response : DeleteRangeResponse} {final : World}
    (removed : final.plain = fun key => if request.covers key then none else world.plain key)
    (written : final.db.kv = world.db.kv ↔
      ∀ key, request.covers key = true → world.plain key = none) :
    (RequestOp.deleteRange request).Executed world (.ok (.deleteRange response)) final := by
  refine ⟨fun code refused => ?_, fun _ => ⟨⟨_, rfl⟩, removed, ?_⟩⟩
  · cases refused
  · rw [written]
    simp [RequestOp.Writes]

theorem deleteKey_executed (ready : Ready supply count bound world) {request : DeleteRangeRequest}
    (single : request.rangeEnd = [])
    (enough : (alone supply (executeOp (.deleteRange request)) count world).2.1 ≤ bound) :
    (RequestOp.deleteRange request).Executed world
      (alone supply (executeOp (.deleteRange request)) count world).1
      (alone supply (executeOp (.deleteRange request)) count world).2.2 := by
  have covers : ∀ key, request.covers key = decide (key = request.key) :=
    fun key => if_pos single
  rw [executeOp_deleteRange (by simp [RequestOp.complex, single])] at enough ⊢
  cases found : getLatestTxn world.db.kv request.key with
  | none =>
      have absent := World.plain_eq_none_iff.mpr found
      rw [alone_bind_of (alone_deleteKey (alone_delete_absent found))]
      refine .of_deleteRange ?_ ?_
      · funext key
        by_cases same : key = request.key
        · simp [covers, same, absent]
        · simp [covers, same]
      · simp [covers, absent]
  | some prev =>
      rw [alone_bind_of (alone_deleteKey (alone_delete_present found))] at enough ⊢
      obtain ⟨removed, written⟩ := delete_writes ready enough found
      refine .of_deleteRange ?_ ?_
      · refine removed.trans ?_
        funext key
        by_cases same : key = request.key
        · simp [covers, same]
        · simp [covers, same]
      · simp [covers, written, World.plain_of_present found]

theorem DeleteRangeRequest.reaches_eq_false_iff {request : DeleteRangeRequest} {key : Bytes} :
    request.reaches key = false ↔ request.rangeEnd ≠ [0] ∧ request.rangeEnd ≤ key := by
  simp [DeleteRangeRequest.reaches]

/-- What the loop has deleted of a listing, in the end. -/
structure Deleted (request : DeleteRangeRequest) (kvs : List KV) (world final : World) : Prop where
  removed : ∀ key, final.plain key =
    if request.reaches key ∧ key ∈ kvs.map KV.key then none else world.plain key
  written : final.db.kv = world.db.kv ↔ ∀ kv ∈ kvs, request.reaches kv.key = false

/-- What a range delete of a transaction takes of a listing. -/
def DeleteRangeRequest.taken (request : DeleteRangeRequest) (kvs : List KV) : List KV :=
  kvs.takeWhile fun kv => request.reaches kv.key

theorem DeleteRangeRequest.taken_cons_of_reaches {request : DeleteRangeRequest} {kv : KV}
    {rest : List KV} (reached : request.reaches kv.key = true) :
    request.taken (kv :: rest) = kv :: request.taken rest :=
  List.takeWhile_cons_of_pos reached

theorem DeleteRangeRequest.taken_cons_of_not_reaches {request : DeleteRangeRequest} {kv : KV}
    {rest : List KV} (unreached : request.reaches kv.key = false) :
    request.taken (kv :: rest) = [] :=
  List.takeWhile_cons_of_neg (by simp [unreached])

theorem DeleteRangeRequest.mem_taken {request : DeleteRangeRequest} {kvs : List KV}
    (ascending : kvs.Pairwise fun first second => first.key < second.key) {kv : KV} :
    kv ∈ request.taken kvs ↔ kv ∈ kvs ∧ request.reaches kv.key = true := by
  induction kvs with
  | nil => simp [taken]
  | cons first rest inductionHypothesis =>
      obtain ⟨before, ascendingRest⟩ := List.pairwise_cons.mp ascending
      cases reached : request.reaches first.key with
      | true =>
          rw [taken_cons_of_reaches reached, List.mem_cons, List.mem_cons,
            inductionHypothesis ascendingRest]
          constructor
          · rintro (rfl | found)
            · exact ⟨.inl rfl, reached⟩
            · exact ⟨.inr found.1, found.2⟩
          · rintro ⟨rfl | found, reaches⟩
            · exact .inl rfl
            · exact .inr ⟨found, reaches⟩
      | false =>
          have ends := DeleteRangeRequest.reaches_eq_false_iff.mp reached
          rw [taken_cons_of_not_reaches reached]
          -- the keys that follow are larger still
          simp only [List.not_mem_nil, false_iff, not_and, Bool.not_eq_true,
            DeleteRangeRequest.reaches_eq_false_iff]
          intro membership
          obtain rfl | later := List.mem_cons.mp membership
          · exact ends
          · exact ⟨ends.1, ends.2.trans (le_of_lt (before kv later))⟩

theorem DeleteRangeRequest.mem_taken_keys {request : DeleteRangeRequest} {kvs : List KV}
    (ascending : kvs.Pairwise fun first second => first.key < second.key) {key : Bytes} :
    key ∈ (request.taken kvs).map KV.key ↔
      request.reaches key = true ∧ key ∈ kvs.map KV.key := by
  simp only [List.mem_map, mem_taken ascending]
  constructor
  · intro found
    obtain ⟨kv, ⟨membership, reached⟩, rfl⟩ := found
    exact ⟨reached, kv, membership, rfl⟩
  · intro found
    obtain ⟨reached, kv, membership, rfl⟩ := found
    exact ⟨kv, ⟨membership, reached⟩, rfl⟩

/-- The newest rows of the keys are tombstones now, those of all others are
as before. -/
structure Tombstoned (keys : List Bytes) (world final : World) : Prop where
  gone : ∀ key ∈ keys, ∃ row, latestRow final.db.kv key = some row ∧ row.deleted = true
  kept : ∀ key ∉ keys, latestRow final.db.kv key = latestRow world.db.kv key

theorem Tombstoned.nil (world : World) : Tombstoned [] world world :=
  ⟨by simp, fun _ _ => rfl⟩

theorem Tombstoned.trans {first rest : List Bytes} {middle final : World}
    (before : Tombstoned first world middle) (after : Tombstoned rest middle final) :
    Tombstoned (first ++ rest) world final := by
  constructor
  · intro key membership
    by_cases later : key ∈ rest
    · exact after.gone key later
    · rw [after.kept key later]
      exact before.gone key ((List.mem_append.mp membership).resolve_right later)
  · intro key missing
    rw [List.mem_append, not_or] at missing
    rw [after.kept key missing.2, before.kept key missing.1]

theorem Tombstoned.getLatestTxn_eq {keys : List Bytes} {final : World}
    (tombstoned : Tombstoned keys world final) (key : Bytes) :
    getLatestTxn final.db.kv key = if key ∈ keys then none else getLatestTxn world.db.kv key := by
  split
  next membership =>
    obtain ⟨row, found, deleted⟩ := tombstoned.gone key membership
    simp [getLatestTxn, found, liveKV_some, deleted]
  next missing => rw [getLatestTxn, tombstoned.kept key missing, getLatestTxn]

theorem delete_tombstones (ready : Ready supply count bound world) (room : count < bound)
    {key : Bytes} {prev : KV} (present : getLatestTxn world.db.kv key = some prev) :
    Tombstoned [key] world (world.write (.delete key 0) (supply count)) := by
  have applied : (world.write (.delete key 0) (supply count)).db =
      world.db.commit (supply count) [tombstoneInsert key prev] := by
    simp only [World.write, WriteOp.apply, delete_of_match (supply count) none present (.inl rfl)]
  have later := ready.ahead count (le_refl count) room
  constructor
  · intro other membership
    obtain rfl := List.mem_singleton.mp membership
    obtain ⟨id, found⟩ := commit_latestRow_new ready.inv later
      (.singleton (.tombstone other prev present)) (List.mem_singleton_self _)
    exact ⟨_, applied ▸ found, rfl⟩
  · intro other different
    rw [applied]
    apply commit_latestRow_other
    intro insert membership same
    obtain rfl := List.mem_singleton.mp membership
    exact different (List.mem_singleton.mpr same.symm)

theorem alone_deleteListed {kvs : List KV} (ready : Ready supply count bound world)
    (unrepeated : (kvs.map KV.key).Nodup)
    (live : ∀ kv ∈ kvs, getLatestTxn world.db.kv kv.key ≠ none) (prevKv : Bool) (done : Deletions)
    (enough : (alone supply (deleteListed prevKv done kvs) count world).2.1 ≤ bound) :
    (alone supply (deleteListed prevKv done kvs) count world).1.deleted =
        done.deleted + kvs.length ∧
      Tombstoned (kvs.map KV.key) world
        (alone supply (deleteListed prevKv done kvs) count world).2.2 := by
  induction kvs generalizing count world done with
  | nil => exact ⟨by simp [deleteListed], .nil world⟩
  | cons kv rest inductionHypothesis =>
      obtain ⟨first, others⟩ := List.forall_mem_cons.mp live
      obtain ⟨prev, present⟩ := Option.ne_none_iff_exists'.mp first
      rw [List.map_cons, List.nodup_cons] at unrepeated
      have unfolded : alone supply (deleteListed prevKv done (kv :: rest)) count world =
          alone supply (deleteListed prevKv
            (done.add prevKv ⟨tsToRev (supply count).ns, some prev, true⟩) rest) (count + 1)
              (world.write (.delete kv.key 0) (supply count)) :=
        alone_bind_of (alone_delete_present present)
      rw [unfolded] at enough ⊢
      have spent : count + 1 ≤ bound := (count_le_alone _).trans enough
      have deleted := delete_tombstones ready spent present
      have stillLive : ∀ other ∈ rest, getLatestTxn
          (world.write (.delete kv.key 0) (supply count)).db.kv other.key ≠ none := by
        intro other membership
        have different : other.key ∉ [kv.key] := by
          intro same
          rw [← List.mem_singleton.mp same] at unrepeated
          exact unrepeated.1 (List.mem_map_of_mem membership)
        rw [deleted.getLatestTxn_eq, if_neg different]
        exact others other membership
      obtain ⟨number, tombstoned⟩ := inductionHypothesis
        (ready.write spent (.delete kv.key 0)) unrepeated.2 stillLive _ enough
      refine ⟨?_, deleted.trans tombstoned⟩
      rw [number]
      simp only [Deletions.add, if_true, List.length_cons, Nat.cast_succ]
      omega

theorem alone_delete_ok (supply : Nat → CommitTs) (count : Nat) (world : World) (key : Bytes) :
    ∃ result after final,
      alone supply (Store.delete key 0) count world = (.ok result, after, final) := by
  cases found : getLatestTxn world.db.kv key with
  | none => exact ⟨_, _, _, alone_delete_absent found⟩
  | some prev => exact ⟨_, _, _, alone_delete_present found⟩

/-- Alone, the loop of a transaction is the one of the bare call over the keys
up to the end of the range. -/
theorem alone_deleteInRange (request : DeleteRangeRequest) (kvs : List KV) (done : Deletions) :
    alone supply (deleteInRange request done kvs) count world =
      (.ok (alone supply (deleteListed request.prevKv done (request.taken kvs)) count world).1,
        (alone supply (deleteListed request.prevKv done (request.taken kvs)) count world).2) := by
  induction kvs generalizing count world done with
  | nil => rfl
  | cons kv rest inductionHypothesis =>
      cases reached : request.reaches kv.key with
      | false =>
          have ended : deleteInRange request done (kv :: rest) = return .ok done :=
            if_pos (DeleteRangeRequest.reaches_eq_false_iff.mp reached)
          rw [ended, DeleteRangeRequest.taken_cons_of_not_reaches reached]
          rfl
      | true =>
          have continues : ¬(request.rangeEnd ≠ [0] ∧ request.rangeEnd ≤ kv.key) := by
            rw [← DeleteRangeRequest.reaches_eq_false_iff, reached]
            simp
          obtain ⟨result, after, final, deleted⟩ := alone_delete_ok supply count world kv.key
          rw [DeleteRangeRequest.taken_cons_of_reaches reached, deleteInRange, if_neg continues,
            deleteListed, alone_bind_of deleted, alone_bind_of deleted]
          exact inductionHypothesis _

/-- Alone, a listing at the current revision has the live entries of the
range, in order. -/
theorem alone_list_current (supply : Nat → CommitTs) (count : Nat) (inv : world.Inv)
    (pre startKey : Bytes) :
    ∃ currentRev compactRev kvs,
      alone supply (Store.list pre startKey 0 0) count world =
        ((currentRev, compactRev, .ok kvs), count, world) ∧
      IsListing world.db.kv pre startKey kvs := by
  have cap : revToTS (revCap 0 (currentRevision world.db)) = currentRevision world.db :=
    revToTS_of_one_le (one_le_currentRevision world.db)
  refine ⟨_, _, _, alone_list pre startKey 0 0, ?_⟩
  refine isListing_of_listRows inv fun key _ => ?_
  rw [cap]
  exact latestRowAt_current inv inv (.refl world) fun row => newest_mem

theorem IsListing.mem_keys_iff {rows : List Row} {pre startKey : Bytes} {kvs : List KV}
    (listing : IsListing rows pre startKey kvs) {key : Bytes} :
    key ∈ kvs.map KV.key ↔ inRange pre startKey key = true ∧ keyExistsTxn rows key = true := by
  rw [keyExistsTxn_eq_isSome, Option.isSome_iff_exists, List.mem_map]
  constructor
  · intro listed
    obtain ⟨kv, membership, rfl⟩ := listed
    obtain ⟨matching, present⟩ := (listing.mem_iff kv).mp membership
    exact ⟨matching, kv, present⟩
  · intro found
    obtain ⟨matching, kv, present⟩ := found
    have named : kv.key = key := getLatestTxn_key present
    exact ⟨kv, (listing.mem_iff kv).mpr (named ▸ ⟨matching, present⟩), named⟩

theorem IsListing.mem_keys {pre startKey : Bytes} {kvs : List KV}
    (listing : IsListing world.db.kv pre startKey kvs) {key : Bytes} :
    key ∈ kvs.map KV.key ↔ inRange pre startKey key = true ∧ world.plain key ≠ none := by
  rw [listing.mem_keys_iff, keyExistsTxn_eq_isSome, Option.isSome_iff_ne_none]
  exact and_congr_right fun _ => World.plain_eq_none_iff.not.symm

theorem IsListing.nodup_keys {rows : List Row} {pre startKey : Bytes} {kvs : List KV}
    (listing : IsListing rows pre startKey kvs) : (kvs.map KV.key).Nodup :=
  List.pairwise_map.mpr (listing.ascending.imp fun below => below.ne)

theorem IsListing.live {rows : List Row} {pre startKey : Bytes} {kvs : List KV}
    (listing : IsListing rows pre startKey kvs) {kv : KV} (membership : kv ∈ kvs) :
    getLatestTxn rows kv.key ≠ none := by
  simp [((listing.mem_iff kv).mp membership).2]

/-- What a call has used once it is through with its first part. -/
theorem alone_bind_spent {Result Other : Type} {program : Call Result}
    {next : Result → Call Other}
    (enough : (alone supply (program >>= next) count world).2.1 ≤ bound) :
    (alone supply program count world).2.1 ≤ bound := by
  rw [alone_bind] at enough
  exact (count_le_alone _).trans enough

theorem alone_deletionsResponse (done : Deletions) :
    ∃ response, alone supply (deletionsResponse done) count world = (response, count, world) ∧
      response.deleted = done.deleted := by
  obtain ⟨current, read⟩ := alone_revisionOrCurrent supply done.lastRev
  exact ⟨_, alone_bind_of read, rfl⟩

theorem executeOp_deleteRangeFailFast {request : DeleteRangeRequest}
    (ranged : request.rangeEnd ≠ []) :
    executeOp (.deleteRange request) =
      (do return (← deleteRangeFailFast request).map .deleteRange) := by
  have kept : executeDeleteRange request = deleteRangeFailFast request := if_neg ranged
  rw [← kept]
  rfl

theorem alone_deleteRangeFailFast (ready : Ready supply count bound world)
    (request : DeleteRangeRequest)
    (enough : (alone supply (deleteRangeFailFast request) count world).2.1 ≤ bound) :
    ∃ kvs response after final,
      IsListing world.db.kv (rangeToPrefix request.key request.rangeEnd) request.key kvs ∧
      alone supply (deleteRangeFailFast request) count world = (.ok response, after, final) ∧
      response.deleted = (request.taken kvs).length ∧
      Tombstoned ((request.taken kvs).map KV.key) world final ∧
      (request.taken kvs = [] → final = world) := by
  obtain ⟨currentRev, compactRev, kvs, listed, listing⟩ := alone_list_current supply count ready.inv
    (rangeToPrefix request.key request.rangeEnd) request.key
  unfold deleteRangeFailFast at enough ⊢
  rw [alone_bind_of listed] at enough ⊢
  have spent := alone_bind_spent enough
  rw [alone_deleteInRange] at spent
  have unrepeated : ((request.taken kvs).map KV.key).Nodup :=
    listing.nodup_keys.sublist ((List.takeWhile_sublist _).map _)
  have live : ∀ kv ∈ request.taken kvs, getLatestTxn world.db.kv kv.key ≠ none :=
    fun kv membership => listing.live (List.takeWhile_subset _ membership)
  obtain ⟨number, tombstoned⟩ := alone_deleteListed ready unrepeated live request.prevKv {} spent
  rw [alone_bind, alone_deleteInRange]
  generalize ran : alone supply (deleteListed request.prevKv {} (request.taken kvs)) count world =
    outcome at number tombstoned ⊢
  obtain ⟨finished, after, final⟩ := outcome
  obtain ⟨response, responded, deleted⟩ : ∃ response, alone supply (deletionsResponse finished)
      after final = (response, after, final) ∧ response.deleted = finished.deleted :=
    alone_deletionsResponse finished
  refine ⟨kvs, response, _, _, listing, alone_bind_of responded, ?_, tombstoned, ?_⟩
  · rw [deleted, number]
    simp
  · intro nothing
    rw [nothing] at ran
    cases ran
    rfl

theorem Deleted.of_tombstoned {request : DeleteRangeRequest} {pre startKey : Bytes} {kvs : List KV}
    {final : World} (listing : IsListing world.db.kv pre startKey kvs)
    (tombstoned : Tombstoned ((request.taken kvs).map KV.key) world final)
    (nothing : request.taken kvs = [] → final = world) : Deleted request kvs world final := by
  have mem_taken : ∀ kv, kv ∈ request.taken kvs ↔ kv ∈ kvs ∧ request.reaches kv.key = true :=
    fun kv => DeleteRangeRequest.mem_taken listing.ascending
  constructor
  · intro key
    simp only [World.plain, AbstractMap.plain, tombstoned.getLatestTxn_eq,
      DeleteRangeRequest.mem_taken_keys listing.ascending]
    split <;> rfl
  · have unreached : (∀ kv ∈ kvs, request.reaches kv.key = false) ↔ request.taken kvs = [] := by
      simp [List.eq_nil_iff_forall_not_mem, mem_taken]
    rw [unreached]
    constructor
    · intro same
      rw [List.eq_nil_iff_forall_not_mem]
      intro kv membership
      have gone := tombstoned.getLatestTxn_eq kv.key
      rw [same, if_pos (List.mem_map_of_mem membership)] at gone
      exact listing.live ((mem_taken kv).mp membership).1 gone
    · intro none
      rw [nothing none]

theorem deleteRangeFailFast_executed (ready : Ready supply count bound world)
    {request : DeleteRangeRequest} (ranged : request.rangeEnd ≠ [])
    (enough : (alone supply (executeOp (.deleteRange request)) count world).2.1 ≤ bound) :
    (RequestOp.deleteRange request).Executed world
      (alone supply (executeOp (.deleteRange request)) count world).1
      (alone supply (executeOp (.deleteRange request)) count world).2.2 := by
  rw [executeOp_deleteRangeFailFast ranged] at enough ⊢
  obtain ⟨kvs, response, after, final, listing, ran, _, tombstoned, nothing⟩ :=
    alone_deleteRangeFailFast ready request (alone_bind_spent enough)
  have deleted : Deleted request kvs world final := .of_tombstoned listing tombstoned nothing
  have covers : ∀ key, request.covers key = (inRange (rangeToPrefix request.key request.rangeEnd)
      request.key key && request.reaches key) := fun key => if_neg ranged
  have removed : final.plain = fun key =>
      if request.covers key then none else world.plain key := by
    funext key
    simp only [deleted.removed key, listing.mem_keys, covers]
    cases inRange (rangeToPrefix request.key request.rangeEnd) request.key key <;>
      cases request.reaches key <;> cases world.plain key <;> simp
  have written : final.db.kv = world.db.kv ↔
      ∀ key, request.covers key = true → world.plain key = none := by
    have keys : (∀ kv ∈ kvs, request.reaches kv.key = false) ↔
        ∀ key ∈ kvs.map KV.key, request.reaches key = false := by
      simp only [List.forall_mem_map]
    rw [deleted.written, keys]
    refine forall_congr' fun key => ?_
    rw [listing.mem_keys, covers]
    cases inRange (rangeToPrefix request.key request.rangeEnd) request.key key <;>
      cases request.reaches key <;> cases world.plain key <;> simp
  rw [alone_bind_of ran]
  exact .of_deleteRange removed written

end Deletes

/-! ## The operations of a branch -/

section Branches

variable {supply : Nat → CommitTs} {count bound : Nat} {world : World}

theorem executeOp_executed (ready : Ready supply count bound world) (op : RequestOp)
    (enough : (alone supply (executeOp op) count world).2.1 ≤ bound) :
    op.Executed world (alone supply (executeOp op) count world).1
      (alone supply (executeOp op) count world).2.2 := by
  cases op with
  | range request => exact range_executed request
  | put request =>
      cases ignores : request.ignoreValue || request.ignoreLease with
      | false => exact put_executed_simple ready ignores enough
      | true => exact put_executed_ignoring ready ignores enough
  | deleteRange request =>
      by_cases single : request.rangeEnd = []
      · exact deleteKey_executed ready single enough
      · exact deleteRangeFailFast_executed ready single enough
  | unsupported =>
      refine ⟨fun code same => ⟨⟨_, rfl, Option.some.inj same⟩, rfl⟩, fun accepted => ?_⟩
      cases accepted

end Branches

end SpannerEtcd
