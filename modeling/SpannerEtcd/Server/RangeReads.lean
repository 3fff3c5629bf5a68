import SpannerEtcd.Lib.PrefixRange
import SpannerEtcd.Lib.Utf8
import SpannerEtcd.Server.Execution
import SpannerEtcd.Server.Pagination
import SpannerEtcd.Store.Scans

/-!
# Range reads

A range request asks for an interval of keys.  `Range` turns it into a `LIKE`
pattern and a lower bound, and nothing cuts the listing off at the end of the
interval.  A transaction does that for the keys that it returns, but not for
their number when only that is asked for.

Keys are bytes on the wire and text in the table.  The prefix that
`rangeToPrefix` cuts off can end inside a character, and such a text cannot be
the parameter of a query.
-/

namespace SpannerEtcd

open VersionedLog

/-- The keys from `key` up to `rangeEnd`; a single zero byte stands for no
end. -/
def Within (key rangeEnd other : Bytes) : Prop :=
  key ≤ other ∧ (rangeEnd = [0] ∨ other < rangeEnd)

instance (key rangeEnd other : Bytes) : Decidable (Within key rangeEnd other) :=
  inferInstanceAs (Decidable (_ ∧ (_ ∨ _)))

/-- The query for a range selects the key. -/
def selects (key rangeEnd other : Bytes) : Bool :=
  inRange (rangeToPrefix key rangeEnd) key other

/-- The entry of a key at a revision, by everything that was committed. -/
def World.committedAt (world : World) (revision : Int) (key : Bytes) : Option KV :=
  liveKV (latestRowAt world.history key (readCap world.db revision))

/-- The same entry, by the rows that compaction has left. -/
def World.storedAt (world : World) (revision : Int) (key : Bytes) : Option KV :=
  liveKV (latestRowAt world.db.kv key (readCap world.db revision))

/-! ## What a range request returns -/

section

variable {world : World} {supply : Nat → CommitTs} {count : Nat} {request : RangeRequest}

/-- The rows behind the answer to a range request without a limit. -/
def RangeRequest.rows (request : RangeRequest) (db : DB) : List Row :=
  listRows db.kv (rangeToPrefix request.key request.rangeEnd) request.key
    (readCap db request.revision)

theorem RangeRequest.rows_ascending (inv : world.Inv) :
    ((request.rows world.db).map Row.key).Pairwise (· < ·) := by
  rw [List.pairwise_map]
  exact listRows_pairwise inv.storedDistinct inv.storedNodup _ _ _

theorem RangeRequest.mem_rows_keys (inv : world.Inv) {key : Bytes} :
    key ∈ (request.rows world.db).map Row.key ↔
      selects request.key request.rangeEnd key = true ∧
        (world.storedAt request.revision key).isSome = true := by
  simp only [RangeRequest.rows, List.mem_map, mem_listRows_iff inv.storedDistinct, World.storedAt,
    Option.isSome_iff_exists, liveKV_eq_some_iff]
  constructor
  · intro listed
    obtain ⟨row, ⟨inside, found, live⟩, rfl⟩ := listed
    exact ⟨inside, scanKV row, row, found, live, rfl⟩
  · intro stored
    obtain ⟨inside, kv, row, found, live, _⟩ := stored
    have named : row.key = key := newest_key found
    subst named
    exact ⟨row, ⟨inside, found, live⟩, rfl⟩

theorem alone_range_listed (ranged : request.rangeEnd ≠ []) (listing : request.countOnly = false)
    (answered : refusedAt world.db request.revision = false) :
    ∃ response, alone supply (range request) count world = (.ok response, count, world) ∧
      response.keys = limitClause request.limit ((request.rows world.db).map Row.key) ∧
      response.count = response.keys.length := by
  unfold range
  rw [if_neg ranged, if_neg (by simp [listing]), alone_bind_of (alone_list ..)]
  simp only [list, answered, Bool.false_eq_true, if_false]
  refine ⟨_, rfl, ?_, ?_⟩
  · have keys : ∀ rows : List Row, ((rows.map scanKV).map fun kv =>
        if request.keysOnly then ⟨kv.key, none, 0, 0, 0, 0⟩ else toProtoKV kv).map KeyValue.key =
          rows.map Row.key := by
      intro rows
      rw [List.map_map, List.map_map]
      refine List.map_congr_left fun row _ => ?_
      simp only [Function.comp_apply]
      split <;> rfl
    rw [RangeResponse.keys, keys, limitClause_map]
    rfl
  · simp [RangeResponse.keys]

theorem alone_range_counted (ranged : request.rangeEnd ≠ []) (counting : request.countOnly = true)
    (answered : refusedAt world.db request.revision = false) :
    ∃ response, alone supply (range request) count world = (.ok response, count, world) ∧
      response.count = (request.rows world.db).length := by
  have counted : (SpannerEtcd.count world.db world.db world.db
      (rangeToPrefix request.key request.rangeEnd) request.key request.revision).2 = _ :=
    count_answered answered _ _
  unfold range
  rw [if_neg ranged, if_pos counting, alone_bind_of (alone_count ..)]
  generalize SpannerEtcd.count world.db world.db world.db
    (rangeToPrefix request.key request.rangeEnd) request.key request.revision = result at counted ⊢
  obtain ⟨currentRev, number⟩ := result
  subst counted
  exact ⟨_, rfl, rfl⟩

end

/-! ## The bare call -/

/-- The parameters of type `STRING` of the query for a request. -/
def RangeRequest.parameters (request : RangeRequest) : List Bytes :=
  if request.rangeEnd = [] then [request.key]
  else [likePrefix (rangeToPrefix request.key request.rangeEnd), request.key]

/-- The query for the request can be sent. -/
def RangeRequest.isText (request : RangeRequest) : Bool := request.parameters.all Utf8.valid

/-- The error of a query that could not be sent. -/
def RangeRequest.unsent (request : RangeRequest) : StoreErr :=
  if request.rangeEnd = [] then .queryFailed "get" request.key
  else .queryFailed (if request.countOnly then "count" else "list")
    (rangeToPrefix request.key request.rangeEnd)

/-- What `Range` answers while nobody writes.  The query comes last, after the
check of the revision, and fails if one of its parameters is not a text. -/
def World.answer (world : World) (supply : Nat → CommitTs) (request : RangeRequest) :
    Except GrpcErr RangeResponse :=
  match world.serve supply request with
  | .error err => .error err
  | .ok response => if request.isText then .ok response else .error (toGRPCErr request.unsent)

/-- The call returns the keys of the interval that are live at its revision,
in order, and their number; with `CountOnly` it returns the same number. -/
def RangeExact (supply : Nat → CommitTs) (world : World) (request : RangeRequest) : Prop :=
  ∃ listed counted, world.answer supply { request with countOnly := false } = .ok listed ∧
    world.answer supply { request with countOnly := true } = .ok counted ∧
    listed.keys.Pairwise (· < ·) ∧
    (∀ key, key ∈ listed.keys ↔ Within request.key request.rangeEnd key ∧
      (world.committedAt request.revision key).isSome = true) ∧
    listed.count = listed.keys.length ∧ counted.count = listed.count

/-- No live key that the query selects lies at or behind the end of the
interval. -/
def RangeRequest.NothingBeyond (world : World) (request : RangeRequest) : Prop :=
  ∀ row ∈ world.db.kv, selects request.key request.rangeEnd row.key = true →
    (world.storedAt request.revision row.key).isSome = true →
    request.rangeEnd = [0] ∨ row.key < request.rangeEnd

instance (world : World) (request : RangeRequest) : Decidable (request.NothingBeyond world) :=
  inferInstanceAs (Decidable (∀ row ∈ world.db.kv, _))

/-- The query selects of the live keys just those in the interval, and the
rows that compaction has left show them as they were committed. -/
structure RangeRequest.Faithful (world : World) (request : RangeRequest) : Prop where
  beyond : request.NothingBeyond world
  missed : ∀ row ∈ world.history, Within request.key request.rangeEnd row.key →
    (world.committedAt request.revision row.key).isSome = true →
      selects request.key request.rangeEnd row.key = true
  kept : ∀ row ∈ world.history, Within request.key request.rangeEnd row.key →
    selects request.key request.rangeEnd row.key = true →
      ((world.storedAt request.revision row.key).isSome = true ↔
        (world.committedAt request.revision row.key).isSome = true)

theorem exists_row_of_live {rows : List Row} {key : Bytes} {cap : Int}
    (live : (liveKV (latestRowAt rows key cap)).isSome = true) : ∃ row ∈ rows, row.key = key := by
  obtain ⟨kv, found⟩ := Option.isSome_iff_exists.mp live
  obtain ⟨row, newestRow, _, _⟩ := liveKV_eq_some_iff.mp found
  exact ⟨row, newest_mem newestRow, newest_key newestRow⟩

theorem le_of_selects {key rangeEnd other : Bytes} (selected : selects key rangeEnd other = true) :
    key ≤ other := by
  simp only [selects, inRange, Bool.and_eq_true, decide_eq_true_eq] at selected
  exact selected.2

theorem RangeRequest.faithful_iff {world : World} (inv : world.Inv) {request : RangeRequest} :
    request.Faithful world ↔ ∀ key,
      (selects request.key request.rangeEnd key = true ∧
          (world.storedAt request.revision key).isSome = true ↔
        Within request.key request.rangeEnd key ∧
          (world.committedAt request.revision key).isSome = true) := by
  constructor
  · intro faithful key
    constructor
    · intro found
      obtain ⟨selected, stored⟩ := found
      obtain ⟨row, membership, rfl⟩ := exists_row_of_live stored
      have within := And.intro (le_of_selects selected)
        (faithful.beyond row membership selected stored)
      exact ⟨within, (faithful.kept row (inv.mem_history membership) within selected).mp stored⟩
    · intro wanted
      obtain ⟨within, committed⟩ := wanted
      obtain ⟨row, membership, rfl⟩ := exists_row_of_live committed
      have selected := faithful.missed row membership within committed
      exact ⟨selected, (faithful.kept row membership within selected).mpr committed⟩
  · intro same
    refine ⟨fun row _ selected stored => ?_, fun row _ within committed => ?_,
      fun row _ within selected => ?_⟩
    · exact ((same row.key).mp ⟨selected, stored⟩).1.2
    · exact ((same row.key).mpr ⟨within, committed⟩).1
    · exact ⟨fun stored => ((same row.key).mp ⟨selected, stored⟩).2,
        fun committed => ((same row.key).mpr ⟨within, committed⟩).2⟩

theorem World.answer_of_isText {world : World} {supply : Nat → CommitTs} {request : RangeRequest}
    (text : request.isText = true) : world.answer supply request = world.serve supply request := by
  unfold World.answer
  cases world.serve supply request with
  | error err => rfl
  | ok response => exact if_pos text

theorem World.isText_of_answer {world : World} {supply : Nat → CommitTs} {request : RangeRequest}
    {response : RangeResponse} (answered : world.answer supply request = .ok response) :
    request.isText = true := by
  unfold World.answer at answered
  cases served : world.serve supply request with
  | error err =>
      rw [served] at answered
      cases answered
  | ok found =>
      simp only [served] at answered
      by_contra broken
      rw [if_neg broken] at answered
      cases answered

/-- For a key that is a text the query fails exactly if `rangeToPrefix` cuts the
key inside its last character. -/
theorem RangeRequest.isText_iff {request : RangeRequest} (ranged : request.rangeEnd ≠ [])
    (text : Utf8.valid request.key = true) :
    request.isText = true ↔
      (rangeToPrefix request.key request.rangeEnd = request.key.dropLast →
        ∀ byte ∈ request.key.getLast?, byte < 0x80) := by
  have pattern : request.isText = true ↔
      Utf8.valid (rangeToPrefix request.key request.rangeEnd) = true := by
    have percent : (37 : Byte) < 0x80 := by decide
    simp only [isText, parameters, if_neg ranged, List.all_cons, List.all_nil, text, Bool.and_true,
      likePrefix, Utf8.valid_concat_of_lt percent]
  rw [pattern]
  rcases List.eq_nil_or_concat' request.key with empty | ⟨front, byte, key⟩
  · simp [empty, rangeToPrefix, Utf8.valid, Utf8.Expected.tails]
  · rw [key] at text ⊢
    rw [List.dropLast_concat, List.getLast?_concat]
    simp only [Option.mem_some_iff, forall_eq']
    by_cases cut : rangeToPrefix (front ++ [byte]) request.rangeEnd = front
    · simpa [cut] using Utf8.valid_front_iff text
    · refine iff_of_true ?_ fun same => absurd same cut
      unfold rangeToPrefix at cut ⊢
      split_ifs at cut ⊢ with toEnd begins
      · rfl
      · rw [List.dropLast_concat] at cut
        exact absurd rfl cut
      · exact text

/-- A range read without a limit, at the current revision or above the
horizon, is exact if and only if its query can be sent and is faithful. -/
theorem range_exact_iff {world : World} (reachable : Reachable world) (supply : Nat → CommitTs)
    {request : RangeRequest} (ranged : request.rangeEnd ≠ []) (unlimited : request.limit = 0)
    (readable : request.revision = 0 ∨ compactRevision world.db < request.revision) :
    RangeExact supply world request ↔ request.isText = true ∧ request.Faithful world := by
  by_cases text : request.isText = true
  case neg =>
    refine iff_of_false ?_ fun both => text both.1
    rintro ⟨listed, counted, answered, _⟩
    have sent : { request with countOnly := false }.isText = true :=
      World.isText_of_answer answered
    exact text sent
  have asked : ∀ counting, world.answer supply { request with countOnly := counting } =
      world.serve supply { request with countOnly := counting } :=
    fun _ => World.answer_of_isText text
  have inv := reachable.inv
  have answered := refusedAt_of_readable readable
  obtain ⟨listed, served, keys, number⟩ : ∃ response,
      alone supply (range { request with countOnly := false }) 0 world = (.ok response, 0, world) ∧
        response.keys = limitClause request.limit ((request.rows world.db).map Row.key) ∧
        response.count = response.keys.length :=
    alone_range_listed ranged rfl answered
  obtain ⟨counted, servedCount, count⟩ : ∃ response,
      alone supply (range { request with countOnly := true }) 0 world = (.ok response, 0, world) ∧
        response.count = (request.rows world.db).length :=
    alone_range_counted ranged rfl answered
  rw [unlimited, limitClause_of_nonpos le_rfl] at keys
  have ascending : ((request.rows world.db).map Row.key).Pairwise (· < ·) :=
    RangeRequest.rows_ascending inv
  rw [RangeRequest.faithful_iff inv]
  simp only [RangeExact, asked, text, World.serve, served, servedCount, Except.ok.injEq,
    exists_and_left, exists_eq_left', keys, ascending, number, count, List.length_map, true_and,
    and_true, RangeRequest.mem_rows_keys inv]

def rangeRequest (key rangeEnd : Bytes) : RangeRequest :=
  { key := key, rangeEnd := rangeEnd, limit := 0, revision := 0, keysOnly := false,
    countOnly := false }

/-- Nothing lives next to the keys below `a/`. -/
theorem threeKeys_range_exact :
    RangeExact (fun _ => 8) threeKeysWorld (rangeRequest (ascii "a/") (ascii "a0")) := by
  refine (range_exact_iff threeKeys_reachable _ (by decide) rfl (.inl rfl)).mpr ⟨?_, ?_, ?_, ?_⟩
  · decide
  · decide
  · decide
  · decide

/-- Keys in a directory, at the end of its range and elsewhere. -/
def neighboursRun : List Action :=
  [.write (.create (ascii "a/1") (some (ascii "v")) 0) 5,
    .write (.create (ascii "a0") (some (ascii "v")) 0) 6,
    .write (.create (ascii "b") (some (ascii "v")) 0) 7]

def neighboursWorld : World := (Runs.run World.step World.init neighboursRun).getD World.init

theorem neighbours_reachable : Reachable neighboursWorld := ⟨neighboursRun, rfl⟩

/-- The letters é and ê. -/
def accented : Bytes × Bytes := ([0xC3, 0xA9], [0xC3, 0xAA])

/-- The range from `a/` to `a0` is read as the keys with prefix `a`, so `a0`
is returned and counted; the range from `a/` to `c/` is read as the keys with
prefix `a/`, so `b` is lost; and the range from é to ê is not read at all,
since the prefix would be the first byte of é. -/
theorem range_reads_pattern :
    Reachable neighboursWorld ∧
      ((neighboursWorld.answer (fun _ => 8) (rangeRequest (ascii "a/") (ascii "a0"))).map
        RangeResponse.keys).toOption = some [ascii "a/1", ascii "a0"] ∧
      ¬RangeExact (fun _ => 8) neighboursWorld (rangeRequest (ascii "a/") (ascii "a0")) ∧
      ((neighboursWorld.answer (fun _ => 8) (rangeRequest (ascii "a/") (ascii "c/"))).map
        RangeResponse.keys).toOption = some [ascii "a/1"] ∧
      ¬RangeExact (fun _ => 8) neighboursWorld (rangeRequest (ascii "a/") (ascii "c/")) ∧
      neighboursWorld.answer (fun _ => 8) (rangeRequest accented.1 accented.2) =
        .error ⟨.internal, .errorOf (.queryFailed "list" [0xC3])⟩ ∧
      ¬RangeExact (fun _ => 8) neighboursWorld (rangeRequest accented.1 accented.2) := by
  refine ⟨neighbours_reachable, by decide, fun exact => ?_, by decide, fun exact => ?_, rfl,
    fun exact => ?_⟩
  · obtain ⟨listed, _, served, _, _, mem_iff, _⟩ := exact
    have returned : ascii "a0" ∈ listed.keys := by
      cases served
      decide
    exact absurd ((mem_iff _).mp returned).1 (by decide)
  · obtain ⟨listed, _, served, _, _, mem_iff, _⟩ := exact
    have lost : ascii "b" ∉ listed.keys := by
      cases served
      decide
    exact lost ((mem_iff _).mpr (by decide))
  · obtain ⟨listed, _, answered, _⟩ := exact
    cases answered

/-! ## In a transaction -/

/-- The end of the range is its start with the last byte incremented. -/
def IsPrefixRange (key rangeEnd : Bytes) : Prop :=
  ∃ front byte, byte < 255 ∧ key = front ++ [byte] ∧ rangeEnd = front ++ [byte + 1]

theorem IsPrefixRange.bounded {key rangeEnd : Bytes} (ranged : IsPrefixRange key rangeEnd) :
    rangeEnd ≠ [] ∧ rangeEnd ≠ [0] := by
  obtain ⟨front, byte, below, _, rfl⟩ := ranged
  refine ⟨by simp, fun zero => ?_⟩
  have covers := (byte_covBy_iff.mpr ⟨below, rfl⟩).lt
  have last := congrArg List.getLast? zero
  rw [List.getLast?_concat] at last
  rw [Option.some.inj last] at covers
  exact absurd covers (Fin.not_lt_zero byte)

section

variable {world : World} {supply : Nat → CommitTs} {count : Nat} {request : RangeRequest}

theorem alone_executeRange_listed (ranged : IsPrefixRange request.key request.rangeEnd)
    (listing : request.countOnly = false)
    (answered : refusedAt world.db request.revision = false) :
    ∃ response, alone supply (executeOp (.range request)) count world =
        (.ok (.range response), count, world) ∧
      response.keys = (limitClause request.limit ((request.rows world.db).map Row.key)).filter
        (fun key => decide (key < request.rangeEnd)) ∧
      response.count = response.keys.length := by
  obtain ⟨bounded, notToEnd⟩ := ranged.bounded
  obtain ⟨response, served, keys, _⟩ := alone_range_listed bounded listing answered
  refine ⟨_, alone_executeRange served, ?_⟩
  unfold cutRange
  rw [if_pos ⟨bounded, notToEnd, listing⟩, ← keys]
  simp only [RangeResponse.keys, List.length_map, List.filter_map, Function.comp_def, and_self]

theorem alone_executeRange_counted (ranged : request.rangeEnd ≠ [])
    (counting : request.countOnly = true)
    (answered : refusedAt world.db request.revision = false) :
    ∃ response, alone supply (executeOp (.range request)) count world =
        (.ok (.range response), count, world) ∧
      response.count = (request.rows world.db).length := by
  obtain ⟨response, served, number⟩ := alone_range_counted ranged counting answered
  have whole : cutRange request response = response := if_neg (by simp [counting])
  exact ⟨_, alone_executeRange served, (congrArg RangeResponse.count whole).trans number⟩

end

/-- The number that a transaction returns for the range is that of the
key-values which it returns. -/
def CountsAgree (supply : Nat → CommitTs) (world : World) (request : RangeRequest) : Prop :=
  ∀ counted listed,
    (alone supply (executeOp (.range { request with countOnly := true })) 0 world).1 =
      .ok (.range counted) →
    (alone supply (executeOp (.range { request with countOnly := false })) 0 world).1 =
      .ok (.range listed) →
    counted.count = listed.kvs.length

section

variable {world : World} {supply : Nat → CommitTs} {request : RangeRequest}

theorem countsAgree_of_refused (refused : refusedAt world.db request.revision = true) :
    CountsAgree supply world request := by
  intro counted listed served
  have ran : alone supply (range { request with countOnly := true }) 0 world = _ :=
    alone_range_refused refused
  rw [alone_executeRange ran] at served
  cases served

/-- Inside a transaction the number of keys of a prefix agrees with the keys
themselves exactly if the request is refused or no live key that its query
selects lies behind the prefix. -/
theorem counts_agree_iff (reachable : Reachable world) (supply : Nat → CommitTs)
    (ranged : IsPrefixRange request.key request.rangeEnd) (unlimited : request.limit = 0) :
    CountsAgree supply world request ↔
      refusedAt world.db request.revision = true ∨ request.NothingBeyond world := by
  have inv := reachable.inv
  obtain ⟨bounded, notToEnd⟩ := ranged.bounded
  cases refused : refusedAt world.db request.revision with
  | true => exact iff_of_true (countsAgree_of_refused refused) (.inl rfl)
  | false =>
      obtain ⟨listed, served, keys, _⟩ : ∃ response, alone supply
          (executeOp (.range { request with countOnly := false })) 0 world =
            (.ok (.range response), 0, world) ∧
          response.keys = (limitClause request.limit ((request.rows world.db).map Row.key)).filter
            (fun key => decide (key < request.rangeEnd)) ∧
          response.count = response.keys.length :=
        alone_executeRange_listed ranged rfl refused
      obtain ⟨counted, servedCount, number⟩ : ∃ response, alone supply
          (executeOp (.range { request with countOnly := true })) 0 world =
            (.ok (.range response), 0, world) ∧
          response.count = (request.rows world.db).length :=
        alone_executeRange_counted bounded rfl refused
      have shown : listed.kvs.length = listed.keys.length := (List.length_map ..).symm
      have agree : CountsAgree supply world request ↔ ((request.rows world.db).length : Int) =
          listed.kvs.length := by
        simp [CountsAgree, served, servedCount, number]
      rw [unlimited, limitClause_of_nonpos le_rfl] at keys
      rw [agree, shown, keys, ← List.length_map Row.key, Nat.cast_inj, eq_comm,
        List.length_filter_eq_length_iff]
      simp only [decide_eq_true_eq, RangeRequest.mem_rows_keys inv, Bool.false_eq_true, false_or]
      constructor
      · intro below row _ selected stored
        exact .inr (below row.key ⟨selected, stored⟩)
      · intro nothing key found
        obtain ⟨row, membership, rfl⟩ := exists_row_of_live found.2
        exact (nothing row membership found.1 found.2).resolve_left notToEnd

end

theorem directory_isPrefixRange : IsPrefixRange (ascii "a/") (ascii "a0") :=
  ⟨ascii "a", 47, by decide, by decide, by decide⟩

theorem threeKeys_counts_agree :
    CountsAgree (fun _ => 8) threeKeysWorld (rangeRequest (ascii "a/") (ascii "a0")) := by
  exact (counts_agree_iff threeKeys_reachable _ directory_isPrefixRange rfl).mpr (.inr (by decide))

/-- One key-value is returned for `a/`, but two are counted. -/
theorem count_includes_end :
    Reachable neighboursWorld ∧ IsPrefixRange (ascii "a/") (ascii "a0") ∧
      ¬CountsAgree (fun _ => 8) neighboursWorld (rangeRequest (ascii "a/") (ascii "a0")) := by
  refine ⟨neighbours_reachable, directory_isPrefixRange, fun agree => ?_⟩
  have same := agree _ _ rfl rfl
  revert same
  decide

end SpannerEtcd
