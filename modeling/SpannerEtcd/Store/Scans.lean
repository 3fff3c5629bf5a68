import SpannerEtcd.Store.CurrentReads
import SpannerEtcd.Store.Like

/-!
# Point reads and scans

`Get` takes the newest row of one key, `List` and `Count` join every key with
its greatest revision and drop the tombstones afterwards.  On one state they
see the same entries.
-/

namespace SpannerEtcd

open VersionedLog

/-- The timestamp up to which a read at `revision` sees rows. -/
def readCap (db : DB) (revision : Int) : Int := revToTS (revCap revision (currentRevision db))

section
variable {db : DB} {revision : Int}

theorem refusedAt_of_readable (readable : revision = 0 ∨ compactRevision db < revision) :
    refusedAt db revision = false := by
  simp only [refusedAt, Bool.and_eq_false_iff, decide_eq_false_iff_not]
  omega

theorem get_answered (answered : refusedAt db revision = false) (key : Bytes) :
    (get db db db key revision).2 =
      .ok (liveKV (latestRowAt db.kv key (readCap db revision))) := by
  simp only [get, answered, Bool.false_eq_true, if_false, readCap]

theorem list_answered (answered : refusedAt db revision = false) (pre startKey : Bytes)
    (limit : Int) :
    (list db db db pre startKey limit revision).2.2 =
      .ok (limitClause limit
        ((listRows db.kv pre startKey (readCap db revision)).map scanKV)) := by
  simp only [list, answered, Bool.false_eq_true, if_false, readCap, limitClause_map]

theorem count_answered (answered : refusedAt db revision = false) (pre startKey : Bytes) :
    (count db db db pre startKey revision).2 =
      .ok (listRows db.kv pre startKey (readCap db revision)).length := by
  simp only [count, answered, Bool.false_eq_true, if_false, readCap, listRows,
    List.length_insertionSort]

end

/-- The entries that point reads find among the keys with a prefix, from a
start key on, in the order of the keys. -/
structure PointReads (db : DB) (pre startKey : Bytes) (revision : Int) (kvs : List KV) : Prop where
  ascending : kvs.Pairwise fun first second => first.key < second.key
  mem_iff : ∀ kv, kv ∈ kvs ↔
    ∃ key, pre <+: key ∧ startKey ≤ key ∧ (get db db db key revision).2 = .ok (some kv)

theorem pointReads_of_listRows {world : World} (inv : world.Inv) {pre : Bytes}
    (literal : Literal pre) (startKey : Bytes) {revision : Int}
    (answered : refusedAt world.db revision = false) :
    PointReads world.db pre startKey revision
      ((listRows world.db.kv pre startKey (readCap world.db revision)).map scanKV) := by
  constructor
  · rw [List.pairwise_map]
    exact listRows_pairwise inv.storedDistinct inv.storedNodup pre startKey _
  · intro kv
    simp only [List.mem_map, mem_listRows_iff inv.storedDistinct, inRange, Bool.and_eq_true,
      decide_eq_true_eq, like_likePrefix_of_literal literal, get_answered answered,
      Except.ok.injEq, liveKV_eq_some_iff]
    constructor
    · intro listed
      obtain ⟨row, ⟨inside, found, live⟩, shown⟩ := listed
      exact ⟨row.key, inside.1, inside.2, row, found, live, shown⟩
    · intro read
      obtain ⟨key, begins, above, row, found, live, shown⟩ := read
      have named : row.key = key := newest_key found
      subst named
      exact ⟨row, ⟨⟨begins, above⟩, found, live⟩, shown⟩

/-- On any reachable state, `List` without a limit returns the entries that
point reads find, `Count` returns their number and a limit cuts them off. -/
theorem scans_agree_with_point_reads {world : World} (reachable : Reachable world) {pre : Bytes}
    (literal : Literal pre) (startKey : Bytes) {revision : Int}
    (readable : revision = 0 ∨ compactRevision world.db < revision) :
    ∃ kvs, PointReads world.db pre startKey revision kvs ∧
      (list world.db world.db world.db pre startKey 0 revision).2.2 = .ok kvs ∧
      (count world.db world.db world.db pre startKey revision).2 = .ok kvs.length ∧
      ∀ limit, 0 < limit →
        (list world.db world.db world.db pre startKey limit revision).2.2 =
          .ok (kvs.take limit.toNat) := by
  have answered := refusedAt_of_readable readable
  refine ⟨_, pointReads_of_listRows reachable.inv literal startKey answered, ?_, ?_, ?_⟩
  · exact list_answered answered pre startKey 0
  · rw [count_answered answered, List.length_map]
  · intro limit positive
    rw [list_answered answered, limitClause_of_pos positive]

set_option maxRecDepth 2000 in
/-- Above the horizon of a compacted log. -/
theorem compactedWorld_scans_agree :
    compactRevision compactedWorld.db = 6 ∧
      ∃ kvs, kvs.map KV.value = [some (ascii "w")] ∧
        PointReads compactedWorld.db (ascii "k") [] 7 kvs ∧
        (count compactedWorld.db compactedWorld.db compactedWorld.db (ascii "k") [] 7).2 =
          .ok kvs.length := by
  have reachable : Reachable compactedWorld := ⟨compactedRun, rfl⟩
  have literal : Literal (ascii "k") := by decide
  have readable : (7 : Int) = 0 ∨ compactRevision compactedWorld.db < 7 := by decide
  obtain ⟨kvs, reads, listed, counted, _⟩ :=
    scans_agree_with_point_reads reachable literal [] readable
  refine ⟨rfl, kvs, ?_, reads, counted⟩
  cases listed
  rfl

end SpannerEtcd
