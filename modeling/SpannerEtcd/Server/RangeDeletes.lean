import SpannerEtcd.Server.RangeReads

/-!
# Range deletes

The bare `DeleteRange` deletes every key that the query for its range
selects, as if they all lay in the range.
-/

namespace SpannerEtcd

/-- What a range delete should come to: the wanted live keys get tombstones,
their number is reported, and every other key keeps its newest row. -/
def DeletesLive (wanted : Bytes → Prop) (world : World) (response : DeleteRangeResponse)
    (final : World) : Prop :=
  ∃ keys : List Bytes, keys.Nodup ∧
    (∀ key, key ∈ keys ↔ wanted key ∧ keyExistsTxn world.db.kv key = true) ∧
    Tombstoned keys world final ∧ response.deleted = keys.length

/-- The bare call deletes the live keys of its interval. -/
def DeleteRangeExact (supply : Nat → CommitTs) (world : World) (request : DeleteRangeRequest) :
    Prop :=
  ∃ response after final,
    alone supply (deleteRange request) 0 world = (.ok response, after, final) ∧
      DeletesLive (Within request.key request.rangeEnd) world response final

/-- The query selects of the live keys just those in the interval. -/
structure DeleteRangeRequest.Faithful (world : World) (request : DeleteRangeRequest) : Prop where
  beyond : ∀ row ∈ world.db.kv, keyExistsTxn world.db.kv row.key = true →
    selects request.key request.rangeEnd row.key = true →
      request.rangeEnd = [0] ∨ row.key < request.rangeEnd
  missed : ∀ row ∈ world.db.kv, keyExistsTxn world.db.kv row.key = true →
    Within request.key request.rangeEnd row.key →
      selects request.key request.rangeEnd row.key = true

theorem exists_row_of_keyExistsTxn {rows : List Row} {key : Bytes}
    (live : keyExistsTxn rows key = true) : ∃ row ∈ rows, row.key = key := by
  rw [keyExistsTxn_eq_isSome, Option.isSome_iff_exists] at live
  obtain ⟨kv, present⟩ := live
  obtain ⟨row, found, _, _⟩ := latestRow_of_getLatestTxn_some present
  exact ⟨row, VersionedLog.newest_mem found, VersionedLog.newest_key found⟩

theorem DeleteRangeRequest.faithful_iff {world : World} {request : DeleteRangeRequest} :
    request.Faithful world ↔ ∀ key, keyExistsTxn world.db.kv key = true →
      (selects request.key request.rangeEnd key = true ↔
        Within request.key request.rangeEnd key) := by
  constructor
  · intro faithful key live
    obtain ⟨row, membership, rfl⟩ := exists_row_of_keyExistsTxn live
    constructor
    · intro selected
      exact ⟨le_of_selects selected, faithful.beyond row membership live selected⟩
    · exact faithful.missed row membership live
  · intro same
    refine ⟨fun row _ live selected => ?_, fun row _ live within => ?_⟩
    · exact ((same row.key live).mp selected).2
    · exact (same row.key live).mpr within

/-- The live keys that have got a tombstone are determined by the outcome. -/
theorem Tombstoned.mem_iff_of_live {world final : World} {keys others : List Bytes}
    (first : Tombstoned keys world final) (second : Tombstoned others world final) {key : Bytes}
    (live : keyExistsTxn world.db.kv key = true) : key ∈ keys ↔ key ∈ others := by
  rw [keyExistsTxn_eq_isSome, Option.isSome_iff_ne_none] at live
  have one := first.getLatestTxn_eq key
  have other := second.getLatestTxn_eq key
  rw [one] at other
  by_cases inKeys : key ∈ keys <;> by_cases inOthers : key ∈ others
  · exact iff_of_true inKeys inOthers
  · rw [if_pos inKeys, if_neg inOthers] at other
    exact absurd other.symm live
  · rw [if_neg inKeys, if_pos inOthers] at other
    exact absurd other live
  · exact iff_of_false inKeys inOthers

section

variable {world : World} {supply : Nat → CommitTs} {count bound : Nat}
  {request : DeleteRangeRequest}

theorem alone_deleteRange (ready : Ready supply count bound world) (ranged : request.rangeEnd ≠ [])
    (enough : (alone supply (deleteRange request) count world).2.1 ≤ bound) :
    ∃ kvs response after final,
      IsListing world.db.kv (rangeToPrefix request.key request.rangeEnd) request.key kvs ∧
      alone supply (deleteRange request) count world = (.ok response, after, final) ∧
      response.deleted = kvs.length ∧ Tombstoned (kvs.map KV.key) world final := by
  obtain ⟨currentRev, compactRev, kvs, listed, listing⟩ := alone_list_current supply count ready.inv
    (rangeToPrefix request.key request.rangeEnd) request.key
  unfold deleteRange at enough ⊢
  rw [if_neg ranged, alone_bind_of listed] at enough ⊢
  obtain ⟨number, tombstoned⟩ := alone_deleteListed ready listing.nodup_keys
    (fun kv => listing.live) request.prevKv {} (alone_bind_spent enough)
  rw [alone_bind]
  generalize alone supply (deleteListed request.prevKv {} kvs) count world = outcome
    at number tombstoned ⊢
  obtain ⟨finished, after, final⟩ := outcome
  obtain ⟨response, responded, deleted⟩ : ∃ response, alone supply (deletionsResponse finished)
      after final = (response, after, final) ∧ response.deleted = finished.deleted :=
    alone_deletionsResponse finished
  refine ⟨kvs, response, _, _, listing, alone_bind_of responded, ?_, tombstoned⟩
  rw [deleted, number]
  simp

/-- With commit timestamps ahead of the clock and in order, a bare range
delete is exact if and only if its query is faithful. -/
theorem delete_range_exact_iff (reachable : Reachable world) (ranged : request.rangeEnd ≠ [])
    (ahead : ∀ i < (alone supply (deleteRange request) 0 world).2.1, world.db.clock < (supply i).ns)
    (ordered : ∀ j < (alone supply (deleteRange request) 0 world).2.1, ∀ i < j,
      (supply i).ns < (supply j).ns) :
    DeleteRangeExact supply world request ↔ request.Faithful world := by
  have ready : Ready supply 0 (alone supply (deleteRange request) 0 world).2.1 world :=
    .of_supply reachable.inv ahead ordered
  obtain ⟨kvs, response, after, final, listing, ran, number, tombstoned⟩ :=
    alone_deleteRange ready ranged (le_refl _)
  rw [DeleteRangeRequest.faithful_iff]
  constructor
  · intro exact key live
    obtain ⟨_, _, _, same, keys, _, mem_iff, others, _⟩ := exact
    cases ran.symm.trans same
    have taken := tombstoned.mem_iff_of_live others live
    rw [listing.mem_keys_iff, mem_iff] at taken
    simp only [live, and_true] at taken
    exact taken
  · intro same
    refine ⟨response, after, final, ran, kvs.map KV.key, listing.nodup_keys, ?_, tombstoned, ?_⟩
    · intro key
      rw [listing.mem_keys_iff]
      exact and_congr_left fun live => same key live
    · rw [number, List.length_map]

end

def deleteRangeRequest (key rangeEnd : Bytes) : DeleteRangeRequest :=
  { key := key, rangeEnd := rangeEnd, prevKv := false }

/-- The commit timestamps of deletes in the worlds of three keys. -/
def deleting : Nat → CommitTs
  | 0 => 8
  | 1 => 9
  | _ => 10

/-- Nothing lives next to the keys below `a/`. -/
theorem threeKeys_delete_exact :
    DeleteRangeExact deleting threeKeysWorld (deleteRangeRequest (ascii "a/") (ascii "a0")) := by
  refine (delete_range_exact_iff threeKeys_reachable (by decide) ?_ ?_).mpr ⟨?_, ?_⟩
  · decide
  · decide
  · decide
  · decide

/-- The delete of all keys with prefix `a/` takes `a0` as well, and says so. -/
theorem delete_range_takes_end :
    Reachable neighboursWorld ∧ ∃ response after final,
      alone deleting (deleteRange (deleteRangeRequest (ascii "a/") (ascii "a0"))) 0
        neighboursWorld = (.ok response, after, final) ∧
      response.deleted = 2 ∧ keyExistsTxn neighboursWorld.db.kv (ascii "a0") = true ∧
      keyExistsTxn final.db.kv (ascii "a0") = false ∧
      ¬DeleteRangeExact deleting neighboursWorld
        (deleteRangeRequest (ascii "a/") (ascii "a0")) := by
  refine ⟨neighbours_reachable, _, _, _, rfl, rfl, by decide, by decide, fun exact => ?_⟩
  obtain ⟨response, after, final, ran, keys, _, mem_iff, tombstoned, _⟩ := exact
  cases ran
  have outside : ascii "a0" ∉ keys := by
    rw [mem_iff]
    decide
  have kept := tombstoned.kept _ outside
  revert kept
  decide

end SpannerEtcd
