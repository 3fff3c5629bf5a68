import SpannerEtcd.Lib.Paging
import SpannerEtcd.Server.RangeDeletes

/-!
# The keys of a prefix in a transaction

A range that ends at its start with the last byte incremented holds the keys
with a prefix.  The query takes one byte less as the prefix; a transaction
drops what the query selects behind the end of the range, a range by a filter
and a delete by leaving its loop.
-/

namespace SpannerEtcd

open VersionedLog

/-! ## The interval of a prefix -/

theorem IsPrefixRange.within_iff {key rangeEnd other : Bytes}
    (ranged : IsPrefixRange key rangeEnd) : Within key rangeEnd other ↔ key <+: other := by
  have notToEnd := ranged.bounded.2
  obtain ⟨front, byte, below, rfl, rfl⟩ := ranged
  rw [Within, or_iff_right notToEnd]
  exact (PrefixRange.isPrefix_iff_between (byte_covBy_iff.mpr ⟨below, rfl⟩) front 0).symm

theorem IsPrefixRange.rangeToPrefix_eq {key rangeEnd : Bytes}
    (ranged : IsPrefixRange key rangeEnd) : rangeToPrefix key rangeEnd = key.dropLast := by
  obtain ⟨bounded, notToEnd⟩ := ranged.bounded
  obtain ⟨front, byte, _, rfl, rfl⟩ := ranged
  simp [rangeToPrefix, notToEnd]

theorem Literal.of_isPrefix {pre key : Bytes} (literal : Literal key) (begins : pre <+: key) :
    Literal pre :=
  fun byte membership => literal byte (begins.subset membership)

/-- The shortened prefix still begins every literal key of the range, and the
range cuts off what else it begins. -/
theorem IsPrefixRange.selects_iff {key rangeEnd other : Bytes}
    (ranged : IsPrefixRange key rangeEnd) (literal : Literal other) :
    selects key rangeEnd other = true ∧ other < rangeEnd ↔ key <+: other := by
  rw [← ranged.within_iff]
  constructor
  · intro found
    exact ⟨le_of_selects found.1, .inr found.2⟩
  · intro within
    have begins := ranged.within_iff.mp within
    have shorter : key.dropLast <+: other := (List.dropLast_prefix key).trans begins
    refine ⟨?_, within.2.resolve_left ranged.bounded.2⟩
    simp only [selects, inRange, ranged.rangeToPrefix_eq, Bool.and_eq_true, decide_eq_true_eq,
      like_likePrefix_of_literal (literal.of_isPrefix shorter)]
    exact ⟨shorter, within.1⟩

/-! ## The operations -/

/-- What a range over a prefix should return: the live keys with the prefix in
order, cut off at the limit unless that is 0, and their number. -/
def ListsPrefix (pre : Bytes) (limit : Int) (world : World) (response : RangeResponse) : Prop :=
  ∃ keys : List Bytes, keys.Pairwise (· < ·) ∧
    (∀ key, key ∈ keys ↔ pre <+: key ∧ keyExistsTxn world.db.kv key = true) ∧
    response.keys = (if limit = 0 then keys else keys.take limit.toNat) ∧
    response.count = response.keys.length

section

variable {world : World} {supply : Nat → CommitTs} {count bound : Nat}

theorem World.Inv.storedAt_current (inv : world.Inv) (key : Bytes) :
    world.storedAt 0 key = getLatestTxn world.db.kv key := by
  have cap : readCap world.db 0 = currentRevision world.db :=
    revToTS_of_one_le (one_le_currentRevision world.db)
  rw [World.storedAt, cap, latestRowAt_current inv inv (.refl world) fun row => newest_mem]
  rfl

theorem limitClause_filter {limit : Int} {keys : List Bytes} (ascending : keys.Pairwise (· < ·))
    (stop : Bytes) :
    (limitClause limit keys).filter (fun key => decide (key < stop)) =
      limitClause limit (keys.filter fun key => decide (key < stop)) := by
  rcases le_or_gt limit 0 with unlimited | limited
  · rw [limitClause_of_nonpos unlimited, limitClause_of_nonpos unlimited]
  · rw [limitClause_of_pos limited, limitClause_of_pos limited]
    refine Paging.filter_take _ (ascending.imp fun before below => ?_)
    simp only [decide_eq_true_eq] at below ⊢
    exact before.trans below

theorem executeRange_listsPrefix (inv : world.Inv)
    (literal : ∀ row ∈ world.db.kv, Literal row.key) {request : RangeRequest}
    (ranged : IsPrefixRange request.key request.rangeEnd) (limited : 0 ≤ request.limit)
    (current : request.revision = 0) (listing : request.countOnly = false) :
    ∃ response, alone supply (executeOp (.range request)) count world =
        (.ok (.range response), count, world) ∧
      ListsPrefix request.key request.limit world response := by
  have answered : refusedAt world.db request.revision = false :=
    refusedAt_of_readable (.inl current)
  obtain ⟨response, ran, keys, number⟩ := alone_executeRange_listed ranged listing answered
  have ascending : ((request.rows world.db).map Row.key).Pairwise (· < ·) :=
    RangeRequest.rows_ascending inv
  rw [limitClause_filter ascending] at keys
  refine ⟨response, ran, _, ascending.filter fun key => decide (key < request.rangeEnd), ?_, ?_,
    number⟩
  · intro key
    rw [List.mem_filter, RangeRequest.mem_rows_keys inv, current, inv.storedAt_current,
      ← keyExistsTxn_eq_isSome, decide_eq_true_eq, and_right_comm]
    refine and_congr_left fun live => ?_
    obtain ⟨row, membership, rfl⟩ := exists_row_of_keyExistsTxn live
    exact ranged.selects_iff (literal row membership)
  · rw [keys]
    split_ifs with unlimited
    · exact limitClause_of_nonpos unlimited.le
    · exact limitClause_of_pos (lt_of_le_of_ne limited (Ne.symm unlimited))

theorem executeDeleteRange_deletesPrefix (ready : Ready supply count bound world)
    (literal : ∀ row ∈ world.db.kv, Literal row.key) {request : DeleteRangeRequest}
    (ranged : IsPrefixRange request.key request.rangeEnd)
    (enough : (alone supply (executeOp (.deleteRange request)) count world).2.1 ≤ bound) :
    ∃ response after final, alone supply (executeOp (.deleteRange request)) count world =
        (.ok (.deleteRange response), after, final) ∧
      DeletesLive (request.key <+: ·) world response final := by
  obtain ⟨bounded, notToEnd⟩ := ranged.bounded
  rw [executeOp_deleteRangeFailFast bounded] at enough ⊢
  obtain ⟨kvs, response, after, final, listing, ran, number, tombstoned, _⟩ :=
    alone_deleteRangeFailFast ready request (alone_bind_spent enough)
  rw [alone_bind_of ran]
  refine ⟨response, after, final, rfl, _, ?_, ?_, tombstoned, ?_⟩
  · exact listing.nodup_keys.sublist ((List.takeWhile_sublist _).map _)
  · intro key
    rw [DeleteRangeRequest.mem_taken_keys listing.ascending, listing.mem_keys_iff, ← and_assoc]
    refine and_congr_left fun live => ?_
    obtain ⟨row, membership, rfl⟩ := exists_row_of_keyExistsTxn live
    have reached : request.reaches row.key = true ↔ row.key < request.rangeEnd := by
      simp [DeleteRangeRequest.reaches, notToEnd]
    rw [reached, and_comm]
    exact ranged.selects_iff (literal row membership)
  · rw [number, List.length_map]

/-- Over literal keys, a range or a delete of a prefix in a transaction is
exact: it returns or deletes the live keys with the prefix and no others. -/
theorem txn_prefix_ops_exact (reachable : Reachable world) (supply : Nat → CommitTs)
    (literal : ∀ row ∈ world.db.kv, Literal row.key) {key rangeEnd : Bytes}
    (ranged : IsPrefixRange key rangeEnd) :
    (∀ limit keysOnly, 0 ≤ limit →
      ∃ response, alone supply (executeOp (.range ⟨key, rangeEnd, limit, 0, keysOnly, false⟩)) 0
          world = (.ok (.range response), 0, world) ∧
        ListsPrefix key limit world response) ∧
    ∀ prevKv,
      (∀ i < (alone supply (executeOp (.deleteRange ⟨key, rangeEnd, prevKv⟩)) 0 world).2.1,
        world.db.clock < (supply i).ns) →
      (∀ j < (alone supply (executeOp (.deleteRange ⟨key, rangeEnd, prevKv⟩)) 0 world).2.1,
        ∀ i < j, (supply i).ns < (supply j).ns) →
      ∃ response after final,
        alone supply (executeOp (.deleteRange ⟨key, rangeEnd, prevKv⟩)) 0 world =
          (.ok (.deleteRange response), after, final) ∧
        DeletesLive (key <+: ·) world response final := by
  have inv := reachable.inv
  constructor
  · intro limit keysOnly limited
    exact executeRange_listsPrefix inv literal ranged limited rfl rfl
  · intro prevKv ahead ordered
    have ready : Ready supply 0
        (alone supply (executeOp (.deleteRange ⟨key, rangeEnd, prevKv⟩)) 0 world).2.1 world :=
      .of_supply inv ahead ordered
    exact executeDeleteRange_deletesPrefix ready literal ranged (le_refl _)

end

set_option maxRecDepth 2000 in
/-- With a neighbour at the end of the range, the first key of the prefix is
returned, and only the keys of the prefix are deleted. -/
theorem neighbours_prefix_ops_exact :
    (∃ response, alone deleting
          (executeOp (.range ⟨ascii "a/", ascii "a0", 1, 0, false, false⟩)) 0 neighboursWorld =
        (.ok (.range response), 0, neighboursWorld) ∧
      ListsPrefix (ascii "a/") 1 neighboursWorld response) ∧
    ∃ response after final,
      alone deleting (executeOp (.deleteRange (deleteRangeRequest (ascii "a/") (ascii "a0")))) 0
          neighboursWorld = (.ok (.deleteRange response), after, final) ∧
        DeletesLive (ascii "a/" <+: ·) neighboursWorld response final := by
  have literal : ∀ row ∈ neighboursWorld.db.kv, Literal row.key := by decide
  have exact := txn_prefix_ops_exact neighbours_reachable deleting literal directory_isPrefixRange
  exact ⟨exact.1 1 false (by decide), exact.2 false (by decide) (by decide)⟩

end SpannerEtcd
