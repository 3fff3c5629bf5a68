import SpannerEtcd.Server.Isolation

/-!
# What a range delete reports

`DeleteRange` lists the keys and then deletes them one by one, each in a
transaction of its own, while other clients go on writing.  It goes on when one
of the transactions fails.  The response is an account of the tombstones that
the call itself has committed.
-/

namespace SpannerEtcd

open VersionedLog Program

/-! ## The rows of a call -/

/-- The rows that an access has added. -/
def accessRows (access : World × World) : List Row :=
  access.2.history.drop access.1.history.length

def ownRows (accesses : List (World × World)) : List Row := accesses.flatMap accessRows

/-- The entries in whose place the rows have come, as a response shows them. -/
def replacedEntries (accesses : List (World × World)) : List KeyValue :=
  accesses.flatMap fun access =>
    (accessRows access).filterMap fun row => (getLatestTxn access.1.db.kv row.key).map toProtoKV

theorem accessRows_of_commit {before after : World} {row : Row}
    (committed : after.history = before.history ++ [row]) : accessRows (before, after) = [row] := by
  simp [accessRows, committed]

theorem ownRows_append (first second : List (World × World)) :
    ownRows (first ++ second) = ownRows first ++ ownRows second :=
  List.flatMap_append

theorem replacedEntries_append (first second : List (World × World)) :
    replacedEntries (first ++ second) = replacedEntries first ++ replacedEntries second :=
  List.flatMap_append

theorem ownRows_of_reads {accesses : List (World × World)}
    (reads : ∀ access ∈ accesses, access.2 = access.1) :
    ownRows accesses = [] ∧ replacedEntries accesses = [] := by
  have nothing : ∀ access ∈ accesses, accessRows access = [] := by
    intro access membership
    simp [accessRows, reads access membership]
  constructor
  · exact List.flatMap_eq_nil_iff.mpr nothing
  · apply List.flatMap_eq_nil_iff.mpr
    intro access membership
    rw [nothing access membership]
    rfl

/-! ## One delete -/

/-- The answer of a transaction that has failed in the storage. -/
def WriteOp.refused (err : StoreErr) : (op : WriteOp) → op.Answer
  | .create _ _ _ => .error err
  | .update _ _ _ _ => .error err
  | .delete _ _ => .error err
  | .deleteIfLease _ _ => .error err
  | .atomicTxn _ _ _ => .error err

/-- Others spare the keys, and of the own transactions some fail without an
effect. -/
def World.failing (keys : Set Bytes) (faults : WriteOp → Bool) :
    Program.Environment World DB WriteOp.Answer where
  later := (World.sparing keys).later
  view := World.environment.view
  performs world op answer next :=
    if faults op then next = world ∧ ∃ err, answer = op.refused err
    else World.environment.performs world op answer next
  trans := (World.sparing keys).trans

section Delete

variable {keys : Set Bytes} {faults : WriteOp → Bool} {key : Bytes} {start finish : World}

/-- The delete finds an entry and commits a tombstone, or it finds none, or the
transaction fails. -/
inductive DeleteRuns (keys : Set Bytes) (faults : WriteOp → Bool) (key : Bytes)
    (start finish : World) : List (World × World) → Except StoreErr CasResult → Prop where
  | hit {before : World} {prev : KV} {ts : CommitTs} (allowed : faults (.delete key 0) = false)
      (passed : (World.sparing keys).later start before)
      (stepped : before.step (.write (.delete key 0) ts) = some finish)
      (found : getLatestTxn before.db.kv key = some prev)
      (committed : finish.history = before.history ++
        [(tombstoneInsert key prev).toRow before.db.nextId ts.ns]) :
      DeleteRuns keys faults key start finish [(before, finish)]
        (.ok ⟨ts.ns, some prev, true⟩)
  | miss {before : World} {rev : Int} {accesses : List (World × World)}
      (passed : (World.sparing keys).later start before)
      (passedAgain : (World.sparing keys).later before finish)
      (absent : getLatestTxn before.db.kv key = none) (rows : ownRows accesses = [])
      (entries : replacedEntries accesses = []) :
      DeleteRuns keys faults key start finish accesses (.ok ⟨rev, none, false⟩)
  | failed {err : StoreErr} {accesses : List (World × World)}
      (fault : faults (.delete key 0) = true) (passed : (World.sparing keys).later start finish)
      (rows : ownRows accesses = []) (entries : replacedEntries accesses = []) :
      DeleteRuns keys faults key start finish accesses (.error err)

theorem delete_interleaved {accesses : List (World × World)} {result : Except StoreErr CasResult}
    (ran : Interleaved (World.failing keys faults) (Store.delete key 0) start accesses finish
      result) :
    DeleteRuns keys faults key start finish accesses result := by
  cases ran with
  | @act _ _ _ before _ _ _ _ _ passed performed rest =>
      by_cases fault : faults (.delete key 0) = true
      · simp only [World.failing, fault, if_true] at performed
        obtain ⟨rfl, err, rfl⟩ := performed
        cases rest with
        | ret =>
            have reads : ∀ access ∈ [(finish, finish)], access.2 = access.1 := by simp
            obtain ⟨rows, entries⟩ := ownRows_of_reads reads
            exact .failed fault passed rows entries
      · simp only [World.failing, fault, Bool.false_eq_true, if_false] at performed
        obtain ⟨ts, stepped, rfl⟩ := performed
        obtain ⟨later, rfl⟩ := step_write_eq stepped
        cases found : getLatestTxn before.db.kv key with
        | none =>
            have answered := delete_of_absent ts none 0 found
            rw [World.write_delete_absent ts found] at rest ⊢
            simp only [WriteOp.answer, answered] at rest
            cases rest with
            | observe passedAgain rest =>
                cases rest with
                | ret =>
                    have reads : ∀ access ∈ [(before, before), (finish, finish)],
                        access.2 = access.1 := by simp
                    obtain ⟨rows, entries⟩ := ownRows_of_reads reads
                    exact .miss passed passedAgain found rows entries
        | some prev =>
            have done := delete_of_match ts none found (.inl rfl)
            simp only [WriteOp.answer, done, tsToRev_of_exact ts.exact] at rest
            cases rest with
            | ret =>
                refine .hit (Bool.eq_false_iff.mpr fault) passed stepped found ?_
                simp [World.write, WriteOp.apply, done, DB.commit, committedRows]

end Delete

/-! ## The loop -/

/-- The loop over `kvs` has gone on from `done` to `result`. -/
structure DeletesAccounted (prevKv : Bool) (kvs : List KV) (accesses : List (World × World))
    (done result : Deletions) : Prop where
  deleted : result.deleted = done.deleted + (ownRows accesses).length
  prevKvs : result.prevKvs = done.prevKvs ++ if prevKv then replacedEntries accesses else []
  lastRev : result.lastRev = ((ownRows accesses).getLast?.map Row.rev).getD done.lastRev
  ordered : ((ownRows accesses).map Row.key).Sublist (kvs.map KV.key)
  tombstones : ∀ row ∈ ownRows accesses, row.deleted = true ∧ 0 < row.rev

section DeletesAccounted

variable {prevKv : Bool} {kv : KV} {kvs : List KV} {accesses : List (World × World)}
  {done result : Deletions}

/-- A delete that found an entry. -/
theorem DeletesAccounted.hit {before middle : World} {prev : KV} {rev : Int} {row : Row}
    (accounted : DeletesAccounted prevKv kvs accesses (done.add prevKv ⟨rev, some prev, true⟩)
      result)
    (committed : middle.history = before.history ++ [row]) (named : row.key = kv.key)
    (dated : row.rev = rev) (tombstone : row.deleted = true ∧ 0 < row.rev)
    (found : getLatestTxn before.db.kv kv.key = some prev) :
    DeletesAccounted prevKv (kv :: kvs) ((before, middle) :: accesses) done result := by
  have added := accessRows_of_commit committed
  have rows : ownRows ((before, middle) :: accesses) = row :: ownRows accesses := by
    simp [ownRows, added]
  have entries : replacedEntries ((before, middle) :: accesses) =
      toProtoKV prev :: replacedEntries accesses := by
    simp [replacedEntries, added, named, found]
  obtain ⟨deleted, prevKvs, lastRev, ordered, tombstones⟩ := accounted
  constructor
  · rw [deleted, rows, List.length_cons]
    simp only [Deletions.add, if_true]
    push_cast
    omega
  · rw [prevKvs, entries]
    cases prevKv <;> simp [Deletions.add, prevKvsOf]
  · rw [lastRev, rows, List.getLast?_cons]
    cases (ownRows accesses).getLast? <;> simp [Deletions.add, dated]
  · rw [rows, List.map_cons, List.map_cons, named]
    exact ordered.cons_cons kv.key
  · rw [rows]
    exact List.forall_mem_cons.mpr ⟨tombstone, tombstones⟩

/-- A delete that found nothing, or has failed. -/
theorem DeletesAccounted.skip {own : List (World × World)} (rows : ownRows own = [])
    (entries : replacedEntries own = [])
    (accounted : DeletesAccounted prevKv kvs accesses done result) :
    DeletesAccounted prevKv (kv :: kvs) (own ++ accesses) done result := by
  obtain ⟨deleted, prevKvs, lastRev, ordered, tombstones⟩ := accounted
  have allRows : ownRows (own ++ accesses) = ownRows accesses := by
    rw [ownRows_append, rows, List.nil_append]
  have allEntries : replacedEntries (own ++ accesses) = replacedEntries accesses := by
    rw [replacedEntries_append, entries, List.nil_append]
  constructor
  · rw [allRows, deleted]
  · rw [allEntries, prevKvs]
  · rw [allRows, lastRev]
  · rw [allRows]
    exact ordered.cons kv.key
  · rw [allRows]
    exact tombstones

end DeletesAccounted

/-- The map without the listed keys whose delete does not fail. -/
def without (faults : WriteOp → Bool) (listed : List Bytes) (map : PlainMap) : PlainMap :=
  fun key => if listed.contains key && !faults (.delete key 0) then none else map key

theorem deleteListed_interleaved {keys : Set Bytes} {faults : WriteOp → Bool} {map : PlainMap}
    {prevKv : Bool} {kvs : List KV} {done result : Deletions} {start finish : World}
    (agrees : Agrees keys map start) (live : ∀ kv ∈ kvs, kv.key ∈ keys → (map kv.key).isSome)
    (distinct : (kvs.map KV.key).Nodup) {accesses : List (World × World)}
    (ran : Interleaved (World.failing keys faults) (deleteListed prevKv done kvs) start accesses
      finish result) :
    DeletesAccounted prevKv kvs accesses done result ∧
      Agrees keys (without faults (kvs.map KV.key) map) finish := by
  induction kvs generalizing map done start accesses with
  | nil =>
      cases ran with
      | ret =>
          refine ⟨⟨?_, ?_, rfl, .slnil, by simp [ownRows]⟩, ?_⟩
          · simp [ownRows]
          · simp [replacedEntries]
          · have whole : without faults [] map = map := by
              funext key
              simp [without]
            exact whole.symm ▸ agrees
  | cons kv rest inductionHypothesis =>
      obtain ⟨unlisted, distinctRest⟩ := List.nodup_cons.mp distinct
      obtain ⟨liveFirst, liveRest⟩ := List.forall_mem_cons.mp live
      obtain ⟨own, others, middle, reply, rfl, deleting, ran⟩ := ran.of_bind
      cases delete_interleaved deleting with
      | @hit before prev ts allowed passed stepped found committed =>
          have present := agrees.later passed
          obtain ⟨later, rfl⟩ := step_write_eq stepped
          have written := (delete_writes (ready_once present.inv later) Nat.one_pos found).1
          have gone : Agrees keys (Function.update map kv.key none) _ :=
            present.update (present.inv.step stepped) written
          have liveLater : ∀ other ∈ rest, other.key ∈ keys →
              (Function.update map kv.key none other.key).isSome := by
            intro other membership spared
            have different : other.key ≠ kv.key := by
              intro same
              exact unlisted (same ▸ List.mem_map_of_mem membership)
            rw [Function.update_of_ne different]
            exact liveRest other membership spared
          obtain ⟨accounted, left⟩ := inductionHypothesis gone liveLater distinctRest ran
          have positive : 0 < ts.ns := by
            have := ts.exact.1
            omega
          refine ⟨accounted.hit committed rfl rfl ⟨rfl, positive⟩ found, left.inv, ?_⟩
          intro key spared
          rw [left.shown key spared]
          by_cases same : key = kv.key
          · simp [without, same, allowed]
          · simp [without, same]
      | @miss before rev _ passed passedAgain absent rows entries =>
          have present := agrees.later passed
          have foreign : kv.key ∉ keys := by
            intro spared
            have shown := present.plain_eq spared
            rw [absent] at shown
            have some := liveFirst spared
            simp [← shown] at some
          have unchanged : done.add prevKv ⟨rev, none, false⟩ = done := if_neg (by simp)
          dsimp only at ran
          rw [unchanged] at ran
          obtain ⟨accounted, left⟩ :=
            inductionHypothesis (present.later passedAgain) liveRest distinctRest ran
          refine ⟨accounted.skip rows entries, left.inv, ?_⟩
          intro key spared
          have different : key ≠ kv.key := fun same => foreign (same ▸ spared)
          rw [left.shown key spared]
          simp [without, different]
      | failed fault passed rows entries =>
          obtain ⟨accounted, left⟩ :=
            inductionHypothesis (agrees.later passed) liveRest distinctRest ran
          refine ⟨accounted.skip rows entries, left.inv, ?_⟩
          intro key spared
          rw [left.shown key spared]
          by_cases same : key = kv.key
          · simp [without, same, fault]
          · simp [without, same]

/-! ## The call -/

/-- The keys of the range, as far as the call can tell: `List` has a prefix and
a first key. -/
def DeleteRangeRequest.lists (request : DeleteRangeRequest) (key : Bytes) : Bool :=
  inRange (rangeToPrefix request.key request.rangeEnd) request.key key

/-- The rows that the call tombstones, and what it tells of them. -/
structure DeletesReported (request : DeleteRangeRequest) (accesses : List (World × World))
    (response : DeleteRangeResponse) : Prop where
  tombstones : ∀ row ∈ ownRows accesses, row.deleted = true ∧ request.lists row.key = true
  ascending : (ownRows accesses).Pairwise fun first second => first.key < second.key
  deleted : response.deleted = (ownRows accesses).length
  prevKvs : response.prevKvs = if request.prevKv then replacedEntries accesses else []
  revision : ∀ row, (ownRows accesses).getLast? = some row → response.header.revision = row.rev

theorem DeletesReported.congr {request : DeleteRangeRequest}
    {accesses others : List (World × World)} {response : DeleteRangeResponse}
    (reported : DeletesReported request accesses response)
    (rows : ownRows others = ownRows accesses)
    (entries : replacedEntries others = replacedEntries accesses) :
    DeletesReported request others response := by
  obtain ⟨tombstones, ascending, deleted, prevKvs, revision⟩ := reported
  rw [← rows] at tombstones ascending deleted revision
  rw [← entries] at prevKvs
  exact ⟨tombstones, ascending, deleted, prevKvs, revision⟩

theorem deletionsResponse_interleaved {keys : Set Bytes} {faults : WriteOp → Bool}
    {done : Deletions} {start finish : World} {accesses : List (World × World)}
    {response : DeleteRangeResponse}
    (ran : Interleaved (World.failing keys faults) (deletionsResponse done) start accesses finish
      response) :
    (∀ access ∈ accesses, access.2 = access.1) ∧
      (start = finish ∨ (World.sparing keys).later start finish) ∧
      response.deleted = done.deleted ∧ response.prevKvs = done.prevKvs ∧
      (done.lastRev ≠ 0 → response.header.revision = done.lastRev) := by
  unfold deletionsResponse revisionOrCurrent at ran
  by_cases nothing : done.lastRev = 0
  · rw [if_pos nothing] at ran
    cases ran with
    | observe passed rest =>
        cases rest with
        | ret => exact ⟨by simp, .inr passed, rfl, rfl, fun known => absurd nothing known⟩
  · rw [if_neg nothing] at ran
    cases ran with
    | ret => exact ⟨by simp, .inl rfl, rfl, rfl, fun _ => rfl⟩

/-- What is listed, and that of the spared keys it is what is there. -/
structure Listed (keys : Set Bytes) (request : DeleteRangeRequest) (map : PlainMap)
    (rows : List Row) : Prop where
  ascending : rows.Pairwise fun first second => first.key < second.key
  within : ∀ row ∈ rows, request.lists row.key = true
  member : ∀ key ∈ keys,
    (key ∈ rows.map Row.key ↔ request.lists key = true ∧ (map key).isSome)

section Call

variable {keys : Set Bytes} {faults : WriteOp → Bool} {request : DeleteRangeRequest}
  {start before middle finish : World}

theorem plain_isSome_iff {world : World} (inv : world.Inv) {key : Bytes} :
    (world.plain key).isSome ↔
      ∃ row, latestRow world.history key = some row ∧ row.deleted = false := by
  unfold World.plain AbstractMap.plain
  rw [Option.isSome_map, inv.getLatestTxn_eq, Option.isSome_iff_exists]
  constructor
  · rintro ⟨kv, found⟩
    obtain ⟨row, latest, live, _⟩ := latestRow_of_getLatestTxn_some found
    exact ⟨row, latest, live⟩
  · rintro ⟨row, latest, live⟩
    exact ⟨scanKV row, liveKV_eq_some_iff.mpr ⟨row, latest, live, rfl⟩⟩

theorem listed_quiet (inv : start.Inv) (passed : (World.sparing keys).later start before)
    (passedAgain : (World.sparing keys).later before middle) :
    Listed keys request start.plain (listRows middle.db.kv
      (rangeToPrefix request.key request.rangeEnd) request.key (currentRevision before.db)) := by
  have beforeInv := inv.reaches passed.1.2
  have middleInv := beforeInv.reaches passedAgain.1.2
  refine ⟨listRows_pairwise middleInv.storedDistinct middleInv.storedNodup _ _ _, ?_, ?_⟩
  · intro row member
    exact ((mem_listRows_iff middleInv.storedDistinct).mp member).1
  · intro key spared
    have quiet : Quiet start middle key := (passed.2 key spared).trans (passedAgain.2 key spared)
    have read := quiet.read beforeInv middleInv (extends_of_reaches passed.1.2)
      (extends_of_reaches passedAgain.1.2) (.refl middle)
    have present : (start.plain key).isSome ↔
        ∃ row, latestRow middle.history key = some row ∧ row.deleted = false := by
      rw [plain_isSome_iff inv, show latestRow start.history key = latestRow middle.history key
        from quiet]
    rw [present, List.mem_map]
    constructor
    · rintro ⟨row, listed, rfl⟩
      obtain ⟨within, found, live⟩ := (mem_listRows_iff middleInv.storedDistinct).mp listed
      exact ⟨within, row, read.symm.trans found, live⟩
    · rintro ⟨within, row, found, live⟩
      obtain rfl := newest_key found
      exact ⟨row, (mem_listRows_iff middleInv.storedDistinct).mpr
        ⟨within, read.trans found, live⟩, rfl⟩

/-- The deletes of the listed keys and the response. -/
theorem deleteRows_interleaved {map : PlainMap} {rows : List Row}
    (listed : Listed keys request map rows) (agrees : Agrees keys map middle)
    {accesses : List (World × World)} {reply : Except GrpcErr DeleteRangeResponse}
    (ran : Interleaved (World.failing keys faults) (do
      let done ← deleteListed request.prevKv {} (rows.map scanKV)
      let response ← deletionsResponse done
      return .ok response) middle accesses finish reply) :
    ∃ response, reply = .ok response ∧ DeletesReported request accesses response ∧
      ∀ key ∈ keys, finish.plain key =
        if request.lists key ∧ faults (.delete key 0) = false then none else map key := by
  obtain ⟨deletes, others, last, done, rfl, deleting, ran⟩ := ran.of_bind
  obtain ⟨reads, none, reached, response, rfl, reporting, ran⟩ := ran.of_bind
  have named : (rows.map scanKV).map KV.key = rows.map Row.key := by
    rw [List.map_map]
    rfl
  have distinct : ((rows.map scanKV).map KV.key).Nodup := by
    rw [named]
    exact (List.pairwise_map.mpr listed.ascending).imp fun below => below.ne
  have live : ∀ kv ∈ rows.map scanKV, kv.key ∈ keys → (map kv.key).isSome := by
    intro kv membership spared
    have inRows : kv.key ∈ rows.map Row.key := named ▸ List.mem_map_of_mem membership
    exact ((listed.member kv.key spared).mp inRows).2
  obtain ⟨accounted, left⟩ := deleteListed_interleaved agrees live distinct deleting
  obtain ⟨readOnly, passed, deleted, prevKvs, revision⟩ := deletionsResponse_interleaved reporting
  obtain ⟨noRows, noEntries⟩ := ownRows_of_reads readOnly
  cases ran with
  | ret =>
      have ordered : ((ownRows deletes).map Row.key).Sublist (rows.map Row.key) :=
        named ▸ accounted.ordered
      have reported : DeletesReported request deletes response := by
        refine ⟨?_, ?_, ?_, ?_, ?_⟩
        · intro row membership
          obtain ⟨other, listedRow, sameKey⟩ :=
            List.mem_map.mp (ordered.subset (List.mem_map_of_mem membership))
          exact ⟨(accounted.tombstones row membership).1, sameKey ▸ listed.within other listedRow⟩
        · exact List.pairwise_map.mp ((List.pairwise_map.mpr listed.ascending).sublist ordered)
        · rw [deleted, accounted.deleted]
          exact zero_add _
        · rw [prevKvs, accounted.prevKvs]
          rfl
        · intro row last
          have known : done.lastRev = row.rev := by
            rw [accounted.lastRev, last]
            rfl
          have positive := (accounted.tombstones row (List.mem_of_getLast? last)).2
          rw [revision (by omega), known]
      refine ⟨response, rfl, reported.congr ?_ ?_, ?_⟩
      · rw [ownRows_append, List.append_nil, noRows, List.append_nil]
      · rw [replacedEntries_append, List.append_nil, noEntries, List.append_nil]
      · have gone : Agrees keys (without faults (rows.map Row.key) map) finish := by
          rw [named] at left
          rcases passed with rfl | passed
          · exact left
          · exact left.later passed
        intro key spared
        rw [gone.shown key spared, without]
        have member := listed.member key spared
        by_cases within : request.lists key = true
        · cases shown : map key with
          | none => simp
          | some plain =>
              have inRows : (rows.map Row.key).contains key = true :=
                List.contains_iff_mem.mpr (member.mpr ⟨within, by simp [shown]⟩)
              simp only [inRows, within, Bool.true_and, true_and, Bool.not_eq_true']
        · have notIn : (rows.map Row.key).contains key = false := by
            rw [← Bool.not_eq_true, List.contains_iff_mem]
            exact fun inRows => within (member.mp inRows).1
          simp only [notIn, within, Bool.false_and, false_and, Bool.false_eq_true]

end Call

/-- However others interfere and whichever of its transactions fail, the response
tells what the call itself has deleted: the number of its tombstones, the
entries that they replace and the revision of the last one.  A key that nobody
else writes is gone if it was in the range that is listed and its delete did not
fail, and as before otherwise. -/
theorem delete_range_reports_own_deletes {keys : Set Bytes} {faults : WriteOp → Bool}
    {request : DeleteRangeRequest} (ranged : request.rangeEnd ≠ []) {start finish : World}
    (reachable : Reachable start) {accesses : List (World × World)}
    {reply : Except GrpcErr DeleteRangeResponse}
    (ran : Interleaved (World.failing keys faults) (deleteRange request) start accesses finish
      reply) :
    ∃ response, reply = .ok response ∧ DeletesReported request accesses response ∧
      ∀ key ∈ keys, finish.plain key =
        if request.lists key ∧ faults (.delete key 0) = false then none else start.plain key := by
  have inv := reachable.inv
  have agrees : Agrees keys start.plain start := ⟨inv, fun _ _ => rfl⟩
  unfold deleteRange at ran
  rw [if_neg ranged] at ran
  obtain ⟨reads, others, middle, result, rfl, listing, ran⟩ := ran.of_bind
  obtain ⟨before, compactRev, passed, passedAgain, readOnly, rfl⟩ := list_interleaved rfl listing
  rw [limitClause_of_nonpos le_rfl] at ran
  obtain ⟨response, replied, reported, left⟩ := deleteRows_interleaved
    (listed_quiet inv passed passedAgain) ((agrees.later passed).later passedAgain) ran
  obtain ⟨noRows, noEntries⟩ := ownRows_of_reads readOnly
  refine ⟨response, replied, reported.congr ?_ ?_, left⟩
  · rw [ownRows_append, noRows, List.nil_append]
  · rw [replacedEntries_append, noEntries, List.nil_append]

/-- Two keys with the prefix `p`. -/
def pairRun : List Action :=
  [.write (.create (ascii "pa") none 0) 5, .write (.create (ascii "pb") (some (ascii "v")) 0) 6]

def pairWorld : World := (Runs.run World.step World.init pairRun).getD World.init

/-- After the listing another client puts a key of its own. -/
def joinedWorld : World := pairWorld.write (.create (ascii "z") none 0) 7

def clearedWorld : World := joinedWorld.write (.delete (ascii "pb") 0) 9

def deletePair : DeleteRangeRequest :=
  { key := ascii "p", rangeEnd := ascii "q", prevKv := true }

def firstFails (op : WriteOp) : Bool :=
  match op with
  | .delete key _ => decide (key = ascii "pa")
  | _ => false

def pairKeys : Set Bytes := {key | key ≠ ascii "z"}

theorem deletePair_interleaved :
    Interleaved (World.failing pairKeys firstFails) (deleteRange deletePair) pairWorld
      [(pairWorld, pairWorld), (pairWorld, pairWorld), (pairWorld, pairWorld),
        (joinedWorld, joinedWorld), (joinedWorld, clearedWorld)] clearedWorld
      (.ok { header := header 9, deleted := 1
             prevKvs := [⟨ascii "pb", some (ascii "v"), 6, 6, 1, 0⟩] }) := by
  have reachable : Reachable pairWorld := ⟨pairRun, rfl⟩
  have passed : (World.failing pairKeys firstFails).later pairWorld pairWorld :=
    ⟨⟨reachable.inv, [], rfl⟩, fun _ _ => rfl⟩
  have joined : (World.failing pairKeys firstFails).later pairWorld joinedWorld := by
    refine ⟨⟨reachable.inv, [.write (.create (ascii "z") none 0) 7], rfl⟩, ?_⟩
    intro key spared
    apply Eq.symm
    apply newest_append_of_hidden
    rintro row (_ | ⟨_, ⟨⟩⟩) sameKey
    exact absurd sameKey.symm spared
  have joinedInv := reachable.inv.reaches joined.1.2
  have passedAgain : (World.failing pairKeys firstFails).later joinedWorld joinedWorld :=
    ⟨⟨joinedInv, [], rfl⟩, fun _ _ => rfl⟩
  have refused : (World.failing pairKeys firstFails).performs joinedWorld
      (.delete (ascii "pa") 0) (.error .compacted) joinedWorld := ⟨rfl, .compacted, rfl⟩
  have deleted : (World.failing pairKeys firstFails).performs joinedWorld
      (.delete (ascii "pb") 0)
      (.ok ⟨9, some ⟨ascii "pb", some (ascii "v"), none, 0, false, true, 6, 6, 0⟩, true⟩)
      clearedWorld := ⟨9, rfl, rfl⟩
  exact .observe passed (.observe passed (.observe passed (.act joined refused
    (.act passedAgain deleted (.ret _ _)))))

/-- One key is deleted, and the delete of the other has failed. -/
theorem deletePair_reports :
    ∃ response : DeleteRangeResponse, response.deleted = 1 ∧ response.header.revision = 9 ∧
      clearedWorld.plain (ascii "pb") = none ∧
      clearedWorld.plain (ascii "pa") = some ⟨none, 0⟩ := by
  obtain ⟨response, replied, reported, left⟩ := delete_range_reports_own_deletes (by decide)
    ⟨pairRun, rfl⟩ deletePair_interleaved
  refine ⟨response, reported.deleted.trans rfl, reported.revision _ rfl, ?_, ?_⟩
  · have spared : ascii "pb" ≠ ascii "z" := by decide
    exact (left (ascii "pb") spared).trans rfl
  · have spared : ascii "pa" ≠ ascii "z" := by decide
    exact (left (ascii "pa") spared).trans rfl

end SpannerEtcd
