import SpannerEtcd.Store.System

/-!
# The invariant of the store

Two facts carry everything else.  The history of every key is a chain: each
row records the row it was written over.  And deletion only ever removes a
row that some newer row of its key supersedes, so the newest row of every key
stays in the table and the transactions read the same entries from the table
as they would from the whole history.
-/

namespace SpannerEtcd

open VersionedLog

/-! ## The effect of one step -/

/-- What a step can do to the log.  This is wider than the code: a compactor
may scan with any target, whatever it stands at, and return any part of a
batch. -/
inductive Effect (world next : World) : Prop where
  | commit (ts : CommitTs) (inserts : List KvInsert)
      (later : world.db.clock < ts.ns)
      (writeSet : WriteSet world.db.kv inserts)
      (db : next.db = world.db.commit ts inserts)
      (history : next.history =
        world.history ++ committedRows ts.ns world.db.nextId inserts)
      (compactors : next.compactors = world.compactors)
  | control
      (kv : next.db.kv = world.db.kv)
      (nextId : next.db.nextId = world.db.nextId)
      (clock : next.db.clock = world.db.clock)
      (history : next.history = world.history)
      (batches : ∀ compactor targetRev ids,
        next.compactors compactor = .scanned targetRev ids →
          world.compactors compactor = .scanned targetRev ids ∨
            IsScan world.db.kv (revToTS targetRev) ids)
  | deletion (compactor : Nat) (targetRev : Int) (ids : List Nat)
      (scanned : world.compactors compactor = .scanned targetRev ids)
      (db : next.db = deleteIds world.db ids)
      (history : next.history = world.history)
      (batches : ∀ other otherRev otherIds,
        next.compactors other = .scanned otherRev otherIds →
          world.compactors other = .scanned otherRev otherIds)

theorem setCompactor_batches (world : World) {compactor : Nat} {state : Compactor}
    (unscanned : ∀ targetRev ids, state ≠ .scanned targetRev ids)
    {other : Nat} {targetRev : Int} {ids : List Nat}
    (scanned : (world.setCompactor compactor state).compactors other =
      .scanned targetRev ids) :
    world.compactors other = .scanned targetRev ids := by
  by_cases same : other = compactor
  · subst same
    simp only [World.setCompactor, Function.update_self] at scanned
    exact absurd scanned (unscanned targetRev ids)
  · simpa [World.setCompactor, Function.update_of_ne same] using scanned

theorem recordCompactRev_kv (db : DB) (targetRev : Int) :
    (recordCompactRev db targetRev).kv = db.kv ∧
      (recordCompactRev db targetRev).nextId = db.nextId ∧
      (recordCompactRev db targetRev).clock = db.clock := by
  unfold recordCompactRev
  cases db.kvRev with
  | none => simp
  | some existing => dsimp only; split <;> simp

theorem seedCompactRev_kv (db : DB) :
    (seedCompactRev db).kv = db.kv ∧ (seedCompactRev db).nextId = db.nextId ∧
      (seedCompactRev db).clock = db.clock := by
  unfold seedCompactRev
  split <;> simp

theorem afterBatch_cases (targetRev : Int) (ids : List Nat) :
    afterBatch targetRev ids = .idle ∨ afterBatch targetRev ids = .deleting targetRev := by
  unfold afterBatch
  split
  · exact .inl rfl
  · exact .inr rfl

theorem afterBatch_unscanned (targetRev : Int) (ids : List Nat) (otherRev : Int)
    (otherIds : List Nat) : afterBatch targetRev ids ≠ .scanned otherRev otherIds := by
  rcases afterBatch_cases targetRev ids with idle | more
  · simp [idle]
  · simp [more]

theorem Effect.of_setCompactor {world : World} {db : DB} {compactor : Nat} {state : Compactor}
    (same : db.kv = world.db.kv ∧ db.nextId = world.db.nextId ∧ db.clock = world.db.clock)
    (unscanned : ∀ targetRev ids, state ≠ .scanned targetRev ids) :
    Effect world ({ world with db := db }.setCompactor compactor state) := by
  refine .control same.1 same.2.1 same.2.2 rfl ?_
  intro other targetRev ids scanned
  exact .inl (setCompactor_batches { world with db := db } unscanned scanned)

theorem Effect.of_compactorMove {world : World} {compactor : Nat} {action : Action} {db : DB}
    {state : Compactor}
    (move : CompactorMove world.db compactor action (world.compactors compactor) db state) :
    Effect world ({ world with db := db }.setCompactor compactor state) := by
  have unchanged : world.db.kv = world.db.kv ∧ world.db.nextId = world.db.nextId ∧
      world.db.clock = world.db.clock := ⟨rfl, rfl, rfl⟩
  generalize standing : world.compactors compactor = before at move
  cases move with
  | record range => exact .of_setCompactor (recordCompactRev_kv _ _) (by simp)
  | effective readOk => exact .of_setCompactor unchanged (by simp)
  | autoTick age notNegative range written old => exact .of_setCompactor unchanged (by simp)
  | autoExisting readOk => exact .of_setCompactor unchanged (by simp)
  | autoRecord => exact .of_setCompactor (recordCompactRev_kv _ _) (by simp)
  | scanNothing batch => exact .of_setCompactor unchanged (by simp)
  | @scan targetRev ids batch =>
      refine .control rfl rfl rfl rfl ?_
      intro other otherRev otherIds scanned
      by_cases same : other = compactor
      · subst same
        simp only [World.setCompactor, Function.update_self, Compactor.scanned.injEq] at scanned
        exact .inr (scanned.1 ▸ scanned.2 ▸ batch.isScan)
      · simp only [World.setCompactor, Function.update_of_ne same] at scanned
        exact .inl scanned
  | @delete targetRev ids =>
      refine .deletion compactor targetRev ids standing rfl rfl ?_
      intro other otherRev otherIds scanned
      exact setCompactor_batches { world with db := deleteIds world.db ids }
        (afterBatch_unscanned targetRev ids) scanned
  | giveUp state => exact .of_setCompactor unchanged (by simp)

theorem World.step_effect {world next : World} {action : Action}
    (stepped : world.step action = some next) : Effect world next := by
  cases World.step_move stepped with
  | write op ts later =>
      rcases op.apply_cases world.db ts with same | ⟨inserts, writeSet, committed⟩
      · exact .control (by simp [same]) (by simp [same]) (by simp [same])
          (by simp [same]) (fun _ _ _ scanned => .inl scanned)
      · refine .commit ts inserts later writeSet committed ?_ rfl
        simp [committed, DB.commit]
  | seed =>
      obtain ⟨kv, nextId, clock⟩ := seedCompactRev_kv world.db
      exact .control kv nextId clock rfl (fun _ _ _ scanned => .inl scanned)
  | compactor compactor move => exact .of_compactorMove move

/-! ## The invariant -/

def Superseded (rows : List Row) (row : Row) : Prop :=
  ∃ newer ∈ rows, newer.key = row.key ∧ row.rev < newer.rev

/-- The row of the same key that directly precedes this one. -/
def predecessor (rows : List Row) (row : Row) : Option Row :=
  newest Row.key Row.rev (fun rev => decide (rev < row.rev)) rows row.key

structure Begins (row : Row) : Prop where
  created : row.created = true
  deleted : row.deleted = false
  createRevision : row.createRevision = some row.rev
  prevRevision : row.prevRevision = none
  oldValue : row.oldValue = none

structure Continues (before row : Row) : Prop where
  created : row.created = false
  createRevision : row.createRevision = before.createRevision
  prevRevision : row.prevRevision = some before.rev
  oldValue : row.oldValue = before.value

/-- The columns of a row agree with the row that precedes it. -/
inductive Linked (rows : List Row) (row : Row) : Prop where
  | first (alone : predecessor rows row = none) (begins : Begins row)
  | again (before : Row) (found : predecessor rows row = some before)
      (gone : before.deleted = true) (begins : Begins row)
  | next (before : Row) (found : predecessor rows row = some before)
      (live : before.deleted = false) (continues : Continues before row)
      (tombstone : row.deleted = true → row.value = none ∧ row.leaseId = 0)

structure World.Inv (world : World) : Prop where
  started : 1 ≤ world.db.clock
  exact : ∀ row ∈ world.history, Exact row.rev
  bounded : ∀ row ∈ world.history, row.rev ≤ world.db.clock
  numbered : ∀ row ∈ world.history, row.id < world.db.nextId
  ids : (world.history.map Row.id).Nodup
  distinct : world.history.Pairwise fun first second =>
    ¬(first.key = second.key ∧ first.rev = second.rev)
  stored : world.db.kv.Sublist world.history
  retained : ∀ row ∈ world.history, row ∉ world.db.kv → Superseded world.history row
  pending : ∀ compactor targetRev ids, world.compactors compactor = .scanned targetRev ids →
    ∀ id ∈ ids, ∃ row ∈ world.history, row.id = id ∧ Superseded world.history row
  createExact : ∀ row ∈ world.history, ∃ ts, row.createRevision = some ts ∧ Exact ts
  linked : ∀ row ∈ world.history, Linked world.history row

theorem distinct_of_pairwise {rows : List Row}
    (distinct : rows.Pairwise fun first second =>
      ¬(first.key = second.key ∧ first.rev = second.rev)) :
    Distinct Row.key Row.rev rows := by
  induction rows with
  | nil => intro first membership; simp at membership
  | cons head rest inductionHypothesis =>
      obtain ⟨headDistinct, restDistinct⟩ := List.pairwise_cons.mp distinct
      intro first firstMembership second secondMembership sameKey sameRev
      rcases List.mem_cons.mp firstMembership with rfl | firstRest <;>
        rcases List.mem_cons.mp secondMembership with rfl | secondRest
      · rfl
      · exact absurd ⟨sameKey, sameRev⟩ (headDistinct second secondRest)
      · exact absurd ⟨sameKey.symm, sameRev.symm⟩ (headDistinct first firstRest)
      · exact inductionHypothesis restDistinct first firstRest second secondRest sameKey sameRev

theorem Superseded.append {rows : List Row} {row : Row} (superseded : Superseded rows row)
    (added : List Row) : Superseded (rows ++ added) row := by
  obtain ⟨newer, membership, sameKey, above⟩ := superseded
  exact ⟨newer, List.mem_append_left added membership, sameKey, above⟩

namespace World.Inv

variable {world : World} (inv : world.Inv)

include inv

theorem distinctRows : Distinct Row.key Row.rev world.history :=
  distinct_of_pairwise inv.distinct

theorem mem_history {row : Row} (membership : row ∈ world.db.kv) : row ∈ world.history :=
  inv.stored.subset membership

theorem storedExact : ∀ row ∈ world.db.kv, Exact row.rev :=
  fun row membership => inv.exact row (inv.mem_history membership)

theorem storedDistinct : Distinct Row.key Row.rev world.db.kv :=
  inv.distinctRows.mono fun _ => inv.mem_history

theorem storedNodup : world.db.kv.Nodup :=
  (inv.ids.of_map Row.id).sublist inv.stored

/-- Transactions find the same newest row in the table as in the history. -/
theorem latestRow_eq (key : Bytes) :
    latestRow world.db.kv key = latestRow world.history key := by
  apply newest_eq_of_retained inv.distinctRows
  · exact fun row membership _ => inv.mem_history membership
  · intro row membership sameKey _ missing
    obtain ⟨newer, newerMembership, newerKey, above⟩ := inv.retained row membership missing
    exact ⟨newer, newerMembership, newerKey.trans sameKey, rfl, above⟩

theorem getLatestTxn_eq (key : Bytes) :
    getLatestTxn world.db.kv key = getLatestTxn world.history key := by
  simp only [getLatestTxn, inv.latestRow_eq key]

theorem getLatestTxn_of_history {next : World} (nextInv : next.Inv)
    (same : next.history = world.history) :
    getLatestTxn next.db.kv = getLatestTxn world.db.kv := by
  funext key
  rw [nextInv.getLatestTxn_eq, inv.getLatestTxn_eq, same]

end World.Inv

theorem World.init_inv : World.init.Inv where
  started := by simp [World.init, DB.empty]
  exact := by simp [World.init]
  bounded := by simp [World.init]
  numbered := by simp [World.init]
  ids := by simp [World.init]
  distinct := by simp [World.init]
  stored := by simp [World.init, DB.empty]
  retained := by simp [World.init]
  pending := by simp [World.init]
  createExact := by simp [World.init]
  linked := by simp [World.init]

/-! ## Commits keep the invariant -/

theorem predecessor_append_old {rows added : List Row} {row : Row}
    (newer : ∀ other ∈ added, row.rev ≤ other.rev) :
    predecessor (rows ++ added) row = predecessor rows row := by
  apply newest_append_of_hidden
  intro other membership _
  simpa using newer other membership

theorem predecessor_append_new {rows added : List Row} {row : Row} {commit : Int}
    (rowRev : row.rev = commit) (old : ∀ other ∈ rows, other.rev < commit)
    (new : ∀ other ∈ added, other.rev = commit) :
    predecessor (rows ++ added) row = latestRow rows row.key := by
  have hidden : predecessor (rows ++ added) row = predecessor rows row :=
    predecessor_append_old fun other membership => by rw [rowRev, new other membership]
  rw [hidden]
  apply newest_congr
  intro other membership _
  simp [rowRev, old other membership]

theorem latestRow_of_getLatestTxn_none {rows : List Row} {key : Bytes}
    (absent : getLatestTxn rows key = none) :
    latestRow rows key = none ∨
      ∃ before, latestRow rows key = some before ∧ before.deleted = true := by
  unfold getLatestTxn at absent
  cases found : latestRow rows key with
  | none => exact .inl rfl
  | some before =>
      refine .inr ⟨before, rfl, ?_⟩
      rw [found, liveKV_some] at absent
      by_contra live
      simp [live] at absent

theorem latestRow_of_getLatestTxn_some {rows : List Row} {key : Bytes} {prev : KV}
    (present : getLatestTxn rows key = some prev) :
    ∃ before, latestRow rows key = some before ∧ before.deleted = false ∧
      scanKV before = prev :=
  liveKV_eq_some_iff.mp present

theorem revToTS_createRevision {row : Row} {ts : Int}
    (stored : row.createRevision = some ts) (exact : Exact ts) :
    some (revToTS (scanKV row).createRevision) = row.createRevision := by
  simp only [scanKV, stored, nullTimeToRev, revToTS_tsToRev exact]

theorem revToTS_rev {row : Row} (exact : Exact row.rev) :
    revToTS (scanKV row).rev = row.rev := by
  simp only [scanKV, revToTS_tsToRev exact]

/-- A committed row is linked to the newest row its transaction read. -/
theorem linked_of_writes {rows history : List Row} {insert : KvInsert} {id : Nat} {commit : Int}
    (writes : Writes rows insert)
    (preceding : predecessor history (insert.toRow id commit) = latestRow rows insert.key)
    (exact : ∀ row ∈ rows, Exact row.rev)
    (createExact : ∀ row ∈ rows, ∃ ts, row.createRevision = some ts ∧ Exact ts) :
    Linked history (insert.toRow id commit) := by
  cases writes with
  | create key value leaseID absent =>
      rcases latestRow_of_getLatestTxn_none absent with nothing | ⟨before, found, gone⟩
      · exact .first (preceding.trans nothing) ⟨rfl, rfl, rfl, rfl, rfl⟩
      · exact .again before (preceding.trans found) gone ⟨rfl, rfl, rfl, rfl, rfl⟩
  | update key value leaseID prev present =>
      obtain ⟨before, found, live, rfl⟩ := latestRow_of_getLatestTxn_some present
      obtain ⟨ts, createdAt, tsExact⟩ := createExact before (newest_mem found)
      refine .next before (preceding.trans found) live ⟨rfl, ?_, ?_, rfl⟩ (fun h => nomatch h)
      · exact revToTS_createRevision createdAt tsExact
      · exact congrArg some (revToTS_rev (exact before (newest_mem found)))
  | tombstone key prev present =>
      obtain ⟨before, found, live, rfl⟩ := latestRow_of_getLatestTxn_some present
      obtain ⟨ts, createdAt, tsExact⟩ := createExact before (newest_mem found)
      refine .next before (preceding.trans found) live ⟨rfl, ?_, ?_, rfl⟩ (fun _ => ⟨rfl, rfl⟩)
      · exact revToTS_createRevision createdAt tsExact
      · exact congrArg some (revToTS_rev (exact before (newest_mem found)))

theorem createExact_of_writes {rows : List Row} {insert : KvInsert} {id : Nat} {commit : Int}
    (writes : Writes rows insert) (commitExact : Exact commit)
    (createExact : ∀ row ∈ rows, ∃ ts, row.createRevision = some ts ∧ Exact ts) :
    ∃ ts, (insert.toRow id commit).createRevision = some ts ∧ Exact ts := by
  cases writes with
  | create key value leaseID absent => exact ⟨commit, rfl, commitExact⟩
  | update key value leaseID prev present =>
      obtain ⟨before, found, live, rfl⟩ := latestRow_of_getLatestTxn_some present
      obtain ⟨ts, createdAt, tsExact⟩ := createExact before (newest_mem found)
      exact ⟨ts, (revToTS_createRevision createdAt tsExact).trans createdAt, tsExact⟩
  | tombstone key prev present =>
      obtain ⟨before, found, live, rfl⟩ := latestRow_of_getLatestTxn_some present
      obtain ⟨ts, createdAt, tsExact⟩ := createExact before (newest_mem found)
      exact ⟨ts, (revToTS_createRevision createdAt tsExact).trans createdAt, tsExact⟩

theorem committedRows_ids (commit : Int) (id : Nat) (inserts : List KvInsert) :
    (committedRows commit id inserts).map Row.id = List.range' id inserts.length := by
  induction inserts generalizing id with
  | nil => rfl
  | cons insert rest inductionHypothesis =>
      simp [committedRows, inductionHypothesis, List.range'_succ, KvInsert.toRow]

theorem committedRows_keys (commit : Int) (id : Nat) (inserts : List KvInsert) :
    (committedRows commit id inserts).map Row.key = inserts.map KvInsert.key := by
  induction inserts generalizing id with
  | nil => rfl
  | cons insert rest inductionHypothesis =>
      simp [committedRows, inductionHypothesis, KvInsert.toRow]

theorem pairwise_of_keys_nodup {rows : List Row} (distinct : (rows.map Row.key).Nodup) :
    rows.Pairwise fun first second => ¬(first.key = second.key ∧ first.rev = second.rev) :=
  (List.pairwise_map.mp distinct).imp fun different same => different same.1

theorem Linked.append {rows added : List Row} {row : Row} (linked : Linked rows row)
    (newer : ∀ other ∈ added, row.rev ≤ other.rev) : Linked (rows ++ added) row := by
  have unaffected : predecessor (rows ++ added) row = predecessor rows row :=
    predecessor_append_old newer
  cases linked with
  | first alone begins => exact .first (unaffected.trans alone) begins
  | again before found gone begins =>
      exact .again before (unaffected.trans found) gone begins
  | next before found live continues tombstone =>
      exact .next before (unaffected.trans found) live continues tombstone

theorem World.Inv.commit {world next : World} (inv : world.Inv) {ts : CommitTs}
    {inserts : List KvInsert} (later : world.db.clock < ts.ns)
    (writeSet : WriteSet world.db.kv inserts)
    (db : next.db = world.db.commit ts inserts)
    (history : next.history =
      world.history ++ committedRows ts.ns world.db.nextId inserts)
    (compactors : next.compactors = world.compactors) : next.Inv := by
  have added : ∀ row ∈ committedRows ts.ns world.db.nextId inserts,
      ∃ insert id, Writes world.db.kv insert ∧ row = insert.toRow id ts.ns ∧
        id < world.db.nextId + inserts.length := by
    intro row membership
    obtain ⟨insert, insertMembership, offset, bound, equality⟩ := mem_committedRows membership
    exact ⟨insert, _, writeSet.writes insert insertMembership, equality, by omega⟩
  have older : ∀ row ∈ world.history, row.rev < ts.ns :=
    fun row membership => lt_of_le_of_lt (inv.bounded row membership) later
  have storedCreateExact : ∀ row ∈ world.db.kv, ∃ ts, row.createRevision = some ts ∧ Exact ts :=
    fun row membership => inv.createExact row (inv.mem_history membership)
  have nextKv : next.db.kv = world.db.kv ++ committedRows ts.ns world.db.nextId inserts := by
    rw [db]; rfl
  refine
    { started := ?started, exact := ?exact, bounded := ?bounded, numbered := ?numbered
      ids := ?ids, distinct := ?distinct, stored := ?stored, retained := ?retained
      pending := ?pending, createExact := ?createExact, linked := ?linked }
  case started =>
    rw [db]
    exact le_of_lt (lt_of_le_of_lt inv.started later)
  case exact =>
    rw [history]
    refine List.forall_mem_append.mpr ⟨inv.exact, fun row new => ?_⟩
    rw [committedRows_rev new]
    exact ts.exact
  case bounded =>
    rw [history, db]
    exact List.forall_mem_append.mpr
      ⟨fun row old => le_of_lt (older row old), fun row new => le_of_eq (committedRows_rev new)⟩
  case numbered =>
    rw [history, db]
    refine List.forall_mem_append.mpr ⟨fun row old => ?_, fun row new => ?_⟩
    · exact lt_of_lt_of_le (inv.numbered row old) (Nat.le_add_right _ _)
    · obtain ⟨insert, id, _, rfl, bound⟩ := added row new
      exact bound
  case ids =>
    rw [history, List.map_append, committedRows_ids]
    refine List.nodup_append.mpr ⟨inv.ids, List.nodup_range', ?_⟩
    intro id old other new equality
    obtain ⟨row, membership, rfl⟩ := List.mem_map.mp old
    have below := inv.numbered row membership
    rw [List.mem_range'_1] at new
    omega
  case distinct =>
    rw [history]
    refine List.pairwise_append.mpr ⟨inv.distinct, ?_, ?_⟩
    · exact pairwise_of_keys_nodup (by rw [committedRows_keys]; exact writeSet.keys)
    · intro old oldMembership new newMembership same
      have below := older old oldMembership
      have commit := committedRows_rev newMembership
      omega
  case stored =>
    rw [nextKv, history]
    exact inv.stored.append (List.Sublist.refl _)
  case retained =>
    rw [nextKv, history]
    refine List.forall_mem_append.mpr ⟨fun row old missing => ?_, fun row new missing => ?_⟩
    · exact (inv.retained row old fun kept => missing (List.mem_append_left _ kept)).append _
    · exact absurd (List.mem_append_right _ new) missing
  case pending =>
    rw [history, compactors]
    intro compactor targetRev ids scanned id inBatch
    obtain ⟨row, membership, rowId, superseded⟩ :=
      inv.pending compactor targetRev ids scanned id inBatch
    exact ⟨row, List.mem_append_left _ membership, rowId, superseded.append _⟩
  case createExact =>
    rw [history]
    refine List.forall_mem_append.mpr ⟨inv.createExact, fun row new => ?_⟩
    obtain ⟨insert, id, writes, rfl, _⟩ := added row new
    exact createExact_of_writes writes ts.exact storedCreateExact
  case linked =>
    rw [history]
    refine List.forall_mem_append.mpr ⟨fun row old => ?_, fun row new => ?_⟩
    · refine (inv.linked row old).append fun other new => ?_
      rw [committedRows_rev new]
      exact le_of_lt (older row old)
    · obtain ⟨insert, id, writes, rfl, _⟩ := added row new
      refine linked_of_writes writes ?_ inv.storedExact storedCreateExact
      rw [inv.latestRow_eq]
      exact predecessor_append_new rfl older fun other => committedRows_rev

/-! ## Compaction keeps the invariant -/

theorem World.Inv.id_injective {world : World} (inv : world.Inv) {first second : Row}
    (firstMembership : first ∈ world.history) (secondMembership : second ∈ world.history)
    (same : first.id = second.id) : first = second :=
  List.inj_on_of_nodup_map inv.ids firstMembership secondMembership same

theorem World.Inv.batch_superseded {world : World} (inv : world.Inv) {targetTS : Int}
    {ids : List Nat} (scan : IsScan world.db.kv targetTS ids) {id : Nat} (inBatch : id ∈ ids) :
    ∃ row ∈ world.history, row.id = id ∧ Superseded world.history row := by
  obtain ⟨row, chosen, rowId⟩ := List.mem_map.mp (scan.1 id inBatch)
  obtain ⟨membership, isEligible⟩ := List.mem_filter.mp chosen
  simp only [eligible, Bool.and_eq_true, List.any_eq_true, decide_eq_true_eq] at isEligible
  obtain ⟨newer, newerMembership, sameKey, above⟩ := isEligible.2
  exact ⟨row, inv.mem_history membership, rowId, newer, inv.mem_history newerMembership,
    sameKey, above⟩

theorem World.Inv.control {world next : World} (inv : world.Inv)
    (kv : next.db.kv = world.db.kv) (nextId : next.db.nextId = world.db.nextId)
    (clock : world.db.clock ≤ next.db.clock) (history : next.history = world.history)
    (batches : ∀ compactor targetRev ids,
      next.compactors compactor = .scanned targetRev ids →
        world.compactors compactor = .scanned targetRev ids ∨
          IsScan world.db.kv (revToTS targetRev) ids) : next.Inv where
  started := inv.started.trans clock
  exact := history ▸ inv.exact
  bounded := by
    rw [history]
    exact fun row membership => (inv.bounded row membership).trans clock
  numbered := by rw [history, nextId]; exact inv.numbered
  ids := history ▸ inv.ids
  distinct := history ▸ inv.distinct
  stored := by rw [history, kv]; exact inv.stored
  retained := by rw [history, kv]; exact inv.retained
  pending := by
    rw [history]
    intro compactor targetRev ids scanned id inBatch
    rcases batches compactor targetRev ids scanned with before | scan
    · exact inv.pending compactor targetRev ids before id inBatch
    · exact inv.batch_superseded scan inBatch
  createExact := history ▸ inv.createExact
  linked := history ▸ inv.linked

theorem World.Inv.deletion {world next : World} (inv : world.Inv) {compactor : Nat}
    {targetRev : Int} {ids : List Nat}
    (scanned : world.compactors compactor = .scanned targetRev ids)
    (db : next.db = deleteIds world.db ids) (history : next.history = world.history)
    (batches : ∀ other otherRev otherIds,
      next.compactors other = .scanned otherRev otherIds →
        world.compactors other = .scanned otherRev otherIds) : next.Inv where
  started := by rw [db]; exact inv.started
  exact := history ▸ inv.exact
  bounded := by rw [history, db]; exact inv.bounded
  numbered := by rw [history, db]; exact inv.numbered
  ids := history ▸ inv.ids
  distinct := history ▸ inv.distinct
  stored := by
    rw [history, db]
    exact List.filter_sublist.trans inv.stored
  retained := by
    rw [history, db]
    intro row membership missing
    by_cases kept : row ∈ world.db.kv
    · have inBatch : row.id ∈ ids := by
        by_contra outside
        exact missing (List.mem_filter.mpr ⟨kept, by simpa using outside⟩)
      obtain ⟨other, otherMembership, sameId, superseded⟩ :=
        inv.pending compactor targetRev ids scanned row.id inBatch
      rwa [inv.id_injective otherMembership membership sameId] at superseded
    · exact inv.retained row membership kept
  pending := by
    rw [history]
    intro other otherRev otherIds otherScanned
    exact inv.pending other otherRev otherIds (batches other otherRev otherIds otherScanned)
  createExact := history ▸ inv.createExact
  linked := history ▸ inv.linked

theorem World.Inv.effect {world next : World} (effect : Effect world next)
    (inv : world.Inv) : next.Inv := by
  rcases effect with
    ⟨ts, inserts, later, writeSet, db, history, compactors⟩ |
    ⟨kv, nextId, clock, history, batches⟩ |
    ⟨compactor, targetRev, ids, scanned, db, history, batches⟩
  · exact inv.commit later writeSet db history compactors
  · exact inv.control kv nextId clock.ge history batches
  · exact inv.deletion scanned db history batches

theorem World.Inv.step {world next : World} {action : Action}
    (stepped : world.step action = some next) (inv : world.Inv) : next.Inv :=
  inv.effect (World.step_effect stepped)

theorem World.Inv.reaches {world next : World} (inv : world.Inv)
    (reached : Runs.Reaches World.step world next) : next.Inv :=
  reached.invariant (fun _ _ _ stepped => World.Inv.step stepped) inv

/-! ## The history only grows -/

/-- Later rows are appended, and they are newer than everything before. -/
structure Extends (world next : World) : Prop where
  history : ∃ added, next.history = world.history ++ added ∧
    ∀ row ∈ added, world.db.clock < row.rev
  clock : world.db.clock ≤ next.db.clock

theorem Extends.refl (world : World) : Extends world world :=
  ⟨⟨[], by simp, by simp⟩, le_refl _⟩

theorem Extends.trans {first second third : World} (before : Extends first second)
    (after : Extends second third) : Extends first third := by
  obtain ⟨⟨left, leftHistory, leftNewer⟩, leftClock⟩ := before
  obtain ⟨⟨right, rightHistory, rightNewer⟩, rightClock⟩ := after
  refine ⟨⟨left ++ right, by rw [rightHistory, leftHistory, List.append_assoc], ?_⟩,
    leftClock.trans rightClock⟩
  intro row membership
  rcases List.mem_append.mp membership with old | new
  · exact leftNewer row old
  · exact leftClock.trans_lt (rightNewer row new)

theorem Extends.mem_history {world next : World} (extended : Extends world next) {row : Row}
    (membership : row ∈ world.history) : row ∈ next.history := by
  obtain ⟨added, grown, _⟩ := extended.history
  rw [grown]
  exact List.mem_append_left added membership

/-- A row no newer than the clock was there already. -/
theorem Extends.mem_of_old {world next : World} (extended : Extends world next) {row : Row}
    (membership : row ∈ next.history) (old : row.rev ≤ world.db.clock) :
    row ∈ world.history := by
  obtain ⟨added, grown, newer⟩ := extended.history
  rw [grown] at membership
  rcases List.mem_append.mp membership with before | new
  · exact before
  · exact absurd (newer row new) (not_lt.mpr old)

/-- The rows that a step or a run adds to the log. -/
def addedRows (before after : World) : List Row := after.history.drop before.history.length

theorem Extends.history_eq {world next : World} (extended : Extends world next) :
    next.history = world.history ++ addedRows world next := by
  obtain ⟨added, grown, _⟩ := extended.history
  simp [addedRows, grown]

theorem Effect.extends {world next : World} (effect : Effect world next) :
    Extends world next := by
  cases effect with
  | commit ts inserts later writeSet db history compactors =>
      refine ⟨⟨_, history, ?_⟩, ?_⟩
      · intro row membership
        rw [committedRows_rev membership]
        exact later
      · rw [db]
        exact le_of_lt later
  | control kv nextId clock history batches =>
      exact ⟨⟨[], by simpa using history, by simp⟩, le_of_eq clock.symm⟩
  | deletion compactor targetRev ids scanned db history batches =>
      refine ⟨⟨[], by simpa using history, by simp⟩, ?_⟩
      rw [db]
      exact le_refl _

theorem Effect.mem_kv_of_new {world next : World} (effect : Effect world next) {row : Row}
    (membership : row ∈ next.history) (new : row ∉ world.history) : row ∈ next.db.kv := by
  cases effect with
  | commit ts inserts later writeSet db history compactors =>
      rw [history, List.mem_append] at membership
      rw [db]
      exact List.mem_append_right _ (membership.resolve_left new)
  | control kv nextId clock history batches => exact absurd (history ▸ membership) new
  | deletion compactor targetRev ids scanned db history batches =>
      exact absurd (history ▸ membership) new

/-- Every run of the system is a chain of effects. -/
theorem effects_of_reaches {world next : World}
    (reached : Runs.Reaches World.step world next) :
    Relation.ReflTransGen Effect world next := by
  apply reached.chain
  intro state action later stepped
  exact World.step_effect stepped

theorem extends_of_effects {world next : World}
    (effects : Relation.ReflTransGen Effect world next) : Extends world next := by
  induction effects with
  | refl => exact .refl world
  | tail _ effect inductionHypothesis => exact inductionHypothesis.trans effect.extends

theorem extends_of_reaches {world next : World}
    (reached : Runs.Reaches World.step world next) : Extends world next :=
  extends_of_effects (effects_of_reaches reached)

/-- A key that was live and no longer is has been deleted in between. -/
theorem World.Inv.deleted_between {world next : World} (inv : world.Inv) (nextInv : next.Inv)
    (extended : Extends world next) {key : Bytes} {kv : KV}
    (present : getLatestTxn world.db.kv key = some kv)
    (absent : getLatestTxn next.db.kv key = none) :
    ∃ row ∈ addedRows world next, row.key = key ∧ row.deleted = true := by
  rw [inv.getLatestTxn_eq] at present
  rw [nextInv.getLatestTxn_eq] at absent
  obtain ⟨old, oldFound, oldLive, _⟩ := latestRow_of_getLatestTxn_some present
  rcases latestRow_of_getLatestTxn_none absent with none | ⟨row, found, gone⟩
  · have hidden := newest_eq_none_iff.mp none old (extended.mem_history (newest_mem oldFound))
      (newest_key oldFound)
    simp at hidden
  · rw [latestRow, extended.history_eq] at found
    rcases newest_append_cases (extended.history_eq ▸ nextInv.distinctRows) found with new | same
    · exact ⟨row, new, newest_key found, gone⟩
    · have sameRow : old = row := Option.some.inj (oldFound.symm.trans same)
      rw [← sameRow, oldLive] at gone
      cases gone

theorem Reachable.inv {world : World} (reachable : Reachable world) : world.Inv :=
  World.init_inv.reaches reachable

end SpannerEtcd
