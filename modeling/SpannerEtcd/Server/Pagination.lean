import SpannerEtcd.Server.Alone

/-!
# Pages of a range

A client reads a large range in pages: it asks with a limit and goes on
behind the last key for as long as the response says that there is more.
`Range` cuts the listing at the limit but never says so; the client stops
after the first page, and has everything only if that was all.
-/

namespace SpannerEtcd

open VersionedLog

def RangeResponse.keys (response : RangeResponse) : List Bytes := response.kvs.map KeyValue.key

/-- The loop of the client over a server that answers range requests. -/
def paginate (serve : RangeRequest → Except GrpcErr RangeResponse) :
    Nat → RangeRequest → Option (Except GrpcErr (List Bytes))
  | 0, _ => none
  | fuel + 1, request =>
      match serve request with
      | .error err => some (.error err)
      | .ok response =>
          match response.more, response.keys.getLast? with
          | true, some last =>
              (paginate serve fuel { request with key := last ++ [0] }).map fun later =>
                later.map (response.keys ++ ·)
          | _, _ => some (.ok response.keys)

/-- A server that nobody writes to meanwhile. -/
def World.serve (world : World) (supply : Nat → CommitTs) (request : RangeRequest) :
    Except GrpcErr RangeResponse :=
  (alone supply (range request) 0 world).1

/-- The loop ends, and with the keys of the range without a limit. -/
def PagesComplete (serve : RangeRequest → Except GrpcErr RangeResponse) (request : RangeRequest) :
    Prop :=
  ∃ enough, ∀ fuel ≥ enough, paginate serve fuel request =
    some ((serve { request with limit := 0 }).map RangeResponse.keys)

/-- The revision at which a request reads, as a timestamp. -/
def RangeRequest.cap (request : RangeRequest) (db : DB) : Int :=
  revToTS (revCap request.revision (currentRevision db))

/-- The keys that the query of a request selects and that are live at its
revision.  The pattern of `rangeToPrefix` can select keys outside the range and
miss keys in it. -/
def liveKeys (world : World) (request : RangeRequest) : List Bytes :=
  (world.db.kv.map Row.key).dedup.filter fun key =>
    inRange (rangeToPrefix request.key request.rangeEnd) request.key key &&
      (liveKV (latestRowAt world.db.kv key (request.cap world.db))).isSome

/-- No page is cut: the request is for a single key or a number, it is
refused, or its limit is enough for all live keys that its query selects. -/
def LimitSuffices (world : World) (request : RangeRequest) : Prop :=
  request.rangeEnd = [] ∨ request.countOnly = true ∨
    refusedAt world.db request.revision = true ∨
    ((liveKeys world request).length : Int) ≤ request.limit

instance (world : World) (request : RangeRequest) : Decidable (LimitSuffices world request) :=
  inferInstanceAs (Decidable (_ ∨ _ ∨ _ ∨ _))

/-! ## What a page holds -/

section
variable {world : World} {supply : Nat → CommitTs} {request : RangeRequest}

theorem serve_list (bounded : request.rangeEnd ≠ []) (keys : request.countOnly = false) :
    (world.serve supply request).map RangeResponse.keys =
      if refusedAt world.db request.revision then .error (toGRPCErr .compacted)
      else .ok (limitClause request.limit ((listRows world.db.kv
        (rangeToPrefix request.key request.rangeEnd) request.key (request.cap world.db)).map
          Row.key)) := by
  unfold World.serve range
  simp only [bounded, keys, if_false, Bool.false_eq_true]
  rw [alone_bind_of (alone_list ..)]
  by_cases refused : refusedAt world.db request.revision = true
  · simp only [list, refused, if_true]
    rfl
  · have key : (KeyValue.key ∘ (fun kv : KV =>
        if request.keysOnly then ⟨kv.key, none, 0, 0, 0, 0⟩ else toProtoKV kv) ∘ scanKV) =
        Row.key := by
      funext row
      simp only [Function.comp_apply]
      split <;> rfl
    simp only [list, refused, Bool.false_eq_true, if_false, alone_pure, Except.map,
      RangeResponse.keys, List.map_map, key, ← limitClause_map]
    rfl

theorem serve_more {response : RangeResponse} (served : world.serve supply request = .ok response) :
    response.more = false := by
  unfold World.serve range at served
  split at served
  · rw [alone_bind_of (alone_getAt ..)] at served
    split at served
    · cases served
    · split at served
      · cases served; rfl
      · cases served; rfl
    · cases served; rfl
  split at served
  · rw [alone_bind_of (alone_count ..)] at served
    split at served
    · cases served
    · cases served; rfl
  · rw [alone_bind_of (alone_list ..)] at served
    split at served
    · cases served
    · cases served; rfl

/-- The loop never gets past its first page. -/
theorem paginate_serve (fuel : Nat) :
    paginate (world.serve supply) (fuel + 1) request =
      some ((world.serve supply request).map RangeResponse.keys) := by
  cases served : world.serve supply request with
  | error err => simp [paginate, served, Except.map]
  | ok response => simp [paginate, served, serve_more served, Except.map]

theorem pagesComplete_iff :
    PagesComplete (world.serve supply) request ↔
      (world.serve supply request).map RangeResponse.keys =
        (world.serve supply { request with limit := 0 }).map RangeResponse.keys := by
  constructor
  · intro ⟨enough, complete⟩
    have page := complete (enough + 1) (Nat.le_succ enough)
    rwa [paginate_serve, Option.some.injEq] at page
  · intro same
    refine ⟨1, fun fuel positive => ?_⟩
    obtain ⟨before, rfl⟩ := Nat.exists_eq_add_of_le' positive
    rw [paginate_serve, same]

/-- The listing without a limit has one row for each live key of the range. -/
theorem listRows_length (inv : world.Inv) :
    (listRows world.db.kv (rangeToPrefix request.key request.rangeEnd) request.key
      (request.cap world.db)).length = (liveKeys world request).length := by
  have ascending := listRows_pairwise inv.storedDistinct inv.storedNodup
    (rangeToPrefix request.key request.rangeEnd) request.key (request.cap world.db)
  have listedOnce : ((listRows world.db.kv (rangeToPrefix request.key request.rangeEnd)
      request.key (request.cap world.db)).map Row.key).Nodup :=
    List.pairwise_map.mpr (ascending.imp fun below => below.ne)
  have liveOnce : (liveKeys world request).Nodup := (List.nodup_dedup _).filter _
  rw [← List.length_map Row.key]
  apply List.Perm.length_eq
  rw [List.perm_ext_iff_of_nodup listedOnce liveOnce]
  intro key
  simp only [liveKeys, List.mem_map, mem_listRows_iff inv.storedDistinct, List.mem_filter,
    List.mem_dedup, Bool.and_eq_true, Option.isSome_iff_exists, liveKV_eq_some_iff]
  constructor
  · intro ⟨row, ⟨inside, found, live⟩, same⟩
    subst same
    exact ⟨⟨row, newest_mem found, rfl⟩, inside, scanKV row, row, found, live, rfl⟩
  · intro ⟨_, inside, _, row, found, live, _⟩
    have same : row.key = key := newest_key found
    subst same
    exact ⟨row, ⟨inside, found, live⟩, rfl⟩

end

/-- Over a store that nobody writes to, the pages of a range hold all its
keys exactly if the first page already does. -/
theorem pages_complete_iff {world : World} (reachable : Reachable world)
    (supply : Nat → CommitTs) {request : RangeRequest} (limited : 1 ≤ request.limit) :
    PagesComplete (world.serve supply) request ↔ LimitSuffices world request := by
  rw [pagesComplete_iff]
  by_cases single : request.rangeEnd = []
  · refine iff_of_true ?_ (.inl single)
    simp only [World.serve, range, single, if_true]
  by_cases numbers : request.countOnly = true
  · refine iff_of_true ?_ (.inr (.inl numbers))
    simp only [World.serve, range, single, numbers, if_true, if_false]
  rw [Bool.not_eq_true] at numbers
  have unlimited : (world.serve supply { request with limit := 0 }).map RangeResponse.keys =
      if refusedAt world.db request.revision then .error (toGRPCErr .compacted)
      else .ok ((listRows world.db.kv (rangeToPrefix request.key request.rangeEnd) request.key
        (request.cap world.db)).map Row.key) :=
    serve_list single numbers
  rw [serve_list single numbers, unlimited]
  by_cases refused : refusedAt world.db request.revision = true
  · exact iff_of_true (by simp [refused]) (.inr (.inr (.inl refused)))
  · have positive : 0 < request.limit := by omega
    have whole : (listRows world.db.kv (rangeToPrefix request.key request.rangeEnd) request.key
        (request.cap world.db)).length = (liveKeys world request).length :=
      listRows_length reachable.inv
    simp only [refused, Bool.false_eq_true, if_false, Except.ok.injEq,
      limitClause_of_pos positive, List.take_eq_self_iff, List.length_map, whole, LimitSuffices,
      single, numbers, false_or]
    omega

/-- Three keys below `a/`. -/
def threeKeysRun : List Action :=
  [.write (.create (ascii "a/1") (some (ascii "v")) 0) 5,
    .write (.create (ascii "a/2") (some (ascii "v")) 0) 6,
    .write (.create (ascii "a/3") (some (ascii "v")) 0) 7]

def threeKeysWorld : World := (Runs.run World.step World.init threeKeysRun).getD World.init

theorem threeKeys_reachable : Reachable threeKeysWorld := ⟨threeKeysRun, rfl⟩

def pageRequest (limit : Int) : RangeRequest :=
  { key := ascii "a/", rangeEnd := ascii "a0", limit := limit, revision := 0, keysOnly := false,
    countOnly := false }

theorem limit_of_three_suffices :
    (liveKeys threeKeysWorld (pageRequest 3)).length = 3 ∧
      PagesComplete (threeKeysWorld.serve fun _ => 8) (pageRequest 3) := by
  have limited : 1 ≤ (pageRequest 3).limit := by decide
  have enough : LimitSuffices threeKeysWorld (pageRequest 3) := by decide
  exact ⟨by decide, (pages_complete_iff threeKeys_reachable _ limited).mpr enough⟩

/-- With a limit of two the client stops after two of the three keys. -/
theorem limit_of_two_loses_key :
    ((threeKeysWorld.serve (fun _ => 8) (pageRequest 0)).map RangeResponse.keys).toOption =
        some [ascii "a/1", ascii "a/2", ascii "a/3"] ∧
      (paginate (threeKeysWorld.serve fun _ => 8) 10 (pageRequest 2)).map Except.toOption =
        some (some [ascii "a/1", ascii "a/2"]) ∧
      ¬PagesComplete (threeKeysWorld.serve fun _ => 8) (pageRequest 2) := by
  refine ⟨by decide, by decide, fun complete => ?_⟩
  have same := congrArg Except.toOption (pagesComplete_iff.mp complete)
  exact absurd same (by decide)

end SpannerEtcd
