import SpannerEtcd.Lib.LogReplay
import SpannerEtcd.Lib.PrefixRange
import SpannerEtcd.Store.CurrentReads
import SpannerEtcd.Watch.Subscribe

/-!
# A client that lists and then follows

A client that keeps a copy of the keys with a prefix lists them once and goes
on with pages of events above the revision that the listing reported, each page
above the last event of the one before, as `subscribe` replays them.  Every
call makes several reads at different times.  Between them a listing can lose
entries, a page can lack rows that were compacted away and rows can come twice.
None of this lasts once a page is served: what a listing or a page may lose was
superseded by a row above the revision from which the client goes on.  A page
that is refused, because that revision has been compacted away, changes nothing.
-/

namespace SpannerEtcd

open VersionedLog

/-! ## The client -/

/-- What the client does with an event. -/
def Event.apply (mirror : Bytes → Option KV) (event : Event) : Bytes → Option KV :=
  Function.update mirror event.kv.key
    (match event.type with
    | .put => some event.kv
    | .delete => none)

/-- The call of the client that is under way, with the snapshots it has read. -/
inductive FollowerCall where
  | idle
  | listing (revDb : DB)
  | listingChecked (revDb compactDb : DB)
  | paging (revDb : DB)
  | pagingChecked (revDb compactDb : DB)

structure Follower where
  world : World
  call : FollowerCall
  mirror : Bytes → Option KV
  replayRev : Int

def Follower.init : Follower :=
  { world := .init, call := .idle, mirror := fun _ => none, replayRev := 0 }

inductive FollowerAction where
  | store (action : Action)
  | list
  | page
  | readCompact
  | readList
  | readPage (order : List Row)

/-- `replayRev = events[len(events)-1].KV.Rev`, if there are events. -/
def lastRev (replayRev : Int) (events : List Event) : Int :=
  (events.getLast?.map fun event => event.kv.rev).getD replayRev

/-- The client keeps the keys with the prefix `pre` and asks for pages of
`limit` events. -/
def Follower.step (pre : Bytes) (limit : Int) (follower : Follower) :
    FollowerAction → Option Follower
  | .store action => (follower.world.step action).map fun world => { follower with world := world }
  | .list =>
      match follower.call with
      | .idle => some { follower with call := .listing follower.world.db }
      | _ => none
  | .page =>
      match follower.call with
      | .idle => some { follower with call := .paging follower.world.db }
      | _ => none
  | .readCompact =>
      match follower.call with
      | .listing revDb => some { follower with call := .listingChecked revDb follower.world.db }
      | .paging revDb => some { follower with call := .pagingChecked revDb follower.world.db }
      | _ => none
  | .readList =>
      match follower.call with
      | .listingChecked revDb compactDb =>
          match list revDb compactDb follower.world.db pre [] 0 0 with
          | (currentRev, _, .ok kvs) =>
              some { follower with
                call := .idle
                mirror := fun key => kvs.find? fun kv => decide (kv.key = key)
                replayRev := currentRev }
          | (_, _, .error _) => some { follower with call := .idle }
      | _ => none
  | .readPage order =>
      match follower.call with
      | .pagingChecked revDb compactDb =>
          if IsRevOrder (afterRows follower.world.db.kv pre (revToTS follower.replayRev)) order then
            match (after revDb compactDb order follower.replayRev limit).2 with
            | .ok events =>
                some { follower with
                  call := .idle
                  mirror := events.foldl Event.apply follower.mirror
                  replayRev := lastRev follower.replayRev events }
            | .error _ => some { follower with call := .idle }
          else none
      | _ => none

/-- The page does not end between two rows of one revision. -/
def Uncut (limit : Int) (order : List Row) : Prop :=
  ∀ first ∈ limitClause limit order, ∀ second ∈ order, second.rev = first.rev →
    second ∈ limitClause limit order

/-! ## What a step can be -/

inductive FollowerMove (pre : Bytes) (limit : Int) (follower : Follower) :
    FollowerAction → Follower → Prop where
  | store {action : Action} {world : World} (stepped : follower.world.step action = some world) :
      FollowerMove pre limit follower (.store action) { follower with world := world }
  | list : FollowerMove pre limit follower .list
      { follower with call := .listing follower.world.db }
  | page : FollowerMove pre limit follower .page
      { follower with call := .paging follower.world.db }
  | listCompact {revDb : DB} (calling : follower.call = .listing revDb) :
      FollowerMove pre limit follower .readCompact
        { follower with call := .listingChecked revDb follower.world.db }
  | pageCompact {revDb : DB} (calling : follower.call = .paging revDb) :
      FollowerMove pre limit follower .readCompact
        { follower with call := .pagingChecked revDb follower.world.db }
  | listed {revDb compactDb : DB} (calling : follower.call = .listingChecked revDb compactDb) :
      FollowerMove pre limit follower .readList
        { follower with
          call := .idle
          mirror := fun key => ((listRows follower.world.db.kv pre []
            (currentRevision revDb)).map scanKV).find? fun kv => decide (kv.key = key)
          replayRev := currentRevision revDb }
  | paged {revDb compactDb : DB} {order : List Row}
      (calling : follower.call = .pagingChecked revDb compactDb)
      (ordered : IsRevOrder
        (afterRows follower.world.db.kv pre (revToTS follower.replayRev)) order) :
      FollowerMove pre limit follower (.readPage order)
        { follower with
          call := .idle
          mirror := ((limitClause limit order).map rowEvent).foldl Event.apply follower.mirror
          replayRev := lastRev follower.replayRev ((limitClause limit order).map rowEvent) }
  | refused {order : List Row} :
      FollowerMove pre limit follower (.readPage order) { follower with call := .idle }

theorem Follower.step_move {pre : Bytes} {limit : Int} {follower next : Follower}
    {action : FollowerAction} (stepped : follower.step pre limit action = some next) :
    FollowerMove pre limit follower action next := by
  cases action with
  | store action =>
      obtain ⟨world, moved, rfl⟩ := Option.map_eq_some_iff.mp stepped
      exact .store moved
  | list =>
      cases calling : follower.call with
      | idle =>
          simp only [Follower.step, calling, Option.some.injEq] at stepped
          exact stepped ▸ .list
      | _ => simp [Follower.step, calling] at stepped
  | page =>
      cases calling : follower.call with
      | idle =>
          simp only [Follower.step, calling, Option.some.injEq] at stepped
          exact stepped ▸ .page
      | _ => simp [Follower.step, calling] at stepped
  | readCompact =>
      cases calling : follower.call with
      | listing revDb =>
          simp only [Follower.step, calling, Option.some.injEq] at stepped
          exact stepped ▸ .listCompact calling
      | paging revDb =>
          simp only [Follower.step, calling, Option.some.injEq] at stepped
          exact stepped ▸ .pageCompact calling
      | _ => simp [Follower.step, calling] at stepped
  | readList =>
      cases calling : follower.call with
      | listingChecked revDb compactDb =>
          -- a listing of the current state is never refused
          have answered : list revDb compactDb follower.world.db pre [] 0 0 =
              (currentRevision revDb, compactRevision compactDb,
                .ok ((listRows follower.world.db.kv pre []
                  (currentRevision revDb)).map scanKV)) := by
            simp [list, refusedAt, revCap, limitClause_of_nonpos,
              revToTS_of_one_le (one_le_currentRevision revDb)]
          simp only [Follower.step, calling, answered, Option.some.injEq] at stepped
          exact stepped ▸ .listed calling
      | _ => simp [Follower.step, calling] at stepped
  | readPage order =>
      cases calling : follower.call with
      | pagingChecked revDb compactDb =>
          simp only [Follower.step, calling, Option.ite_none_right_eq_some] at stepped
          obtain ⟨ordered, stepped⟩ := stepped
          unfold after at stepped
          dsimp only at stepped
          split at stepped
          next events answered =>
            split at answered
            next => simp at answered
            next =>
              obtain rfl := Except.ok.inj answered
              obtain rfl := Option.some.inj stepped
              exact .paged calling ordered
          next =>
            obtain rfl := Option.some.inj stepped
            exact .refused
      | _ => simp [Follower.step, calling] at stepped

/-! ## Listings -/

/-- A listing shows each key in its range as a point read does. -/
theorem find_listRows {rows : List Row} (distinct : Distinct Row.key Row.rev rows) {pre key : Bytes}
    (inside : inRange pre [] key = true) (cap : Int) :
    ((listRows rows pre [] cap).map scanKV).find? (fun kv => decide (kv.key = key)) =
      liveKV (latestRowAt rows key cap) := by
  have shows : ∀ kv ∈ (listRows rows pre [] cap).map scanKV, kv.key = key →
      liveKV (latestRowAt rows key cap) = some kv := by
    intro kv listed named
    obtain ⟨row, membership, rfl⟩ := List.mem_map.mp listed
    obtain ⟨_, found, live⟩ := (mem_listRows_iff distinct).mp membership
    obtain rfl : row.key = key := named
    exact liveKV_eq_some_iff.mpr ⟨row, found, live, rfl⟩
  cases shown : liveKV (latestRowAt rows key cap) with
  | none =>
      apply List.find?_eq_none.mpr
      intro kv listed
      simp only [decide_eq_true_eq]
      intro named
      rw [shows kv listed named] at shown
      cases shown
  | some kv =>
      obtain ⟨row, found, live, rfl⟩ := liveKV_eq_some_iff.mp shown
      obtain rfl : row.key = key := newest_key found
      have listed : scanKV row ∈ (listRows rows pre [] cap).map scanKV :=
        List.mem_map_of_mem ((mem_listRows_iff distinct).mpr ⟨inside, found, live⟩)
      have present : (((listRows rows pre [] cap).map scanKV).find?
          fun kv => decide (kv.key = row.key)).isSome = true := by
        apply List.find?_isSome.mpr
        exact ⟨scanKV row, listed, decide_eq_true rfl⟩
      obtain ⟨kv, isFirst⟩ := Option.isSome_iff_exists.mp present
      have named : kv.key = row.key := by simpa using List.find?_some isFirst
      rw [isFirst, ← shown, shows kv (List.mem_of_find?_eq_some isFirst) named]

/-! ## Pages -/

theorem foldl_apply_rowEvents (mirror : Bytes → Option KV) (rows : List Row) :
    (rows.map rowEvent).foldl Event.apply mirror =
      rows.foldl (LogReplay.apply Row.key fun row => liveKV (some row)) mirror := by
  rw [List.foldl_map]
  congr
  funext mirror row
  cases deleted : row.deleted <;>
    simp [Event.apply, rowEvent, LogReplay.apply, liveKV_some, scanKV, deleted]

/-- A page reaches up to the revision of its last row. -/
theorem mem_page_of_le {limit replayRev : Int} {order : List Row} {row : Row}
    (exact : ∀ row ∈ order, Exact row.rev)
    (ordered : order.Pairwise fun first second => first.rev ≤ second.rev)
    (uncut : Uncut limit order) (membership : row ∈ order) (above : replayRev < row.rev)
    (below : row.rev ≤ lastRev replayRev ((limitClause limit order).map rowEvent)) :
    row ∈ limitClause limit order := by
  obtain ⟨rest, parts⟩ := limitClause_isPrefix limit order
  rcases List.eq_nil_or_concat (limitClause limit order) with empty | ⟨front, last, page⟩
  · simp only [empty, lastRev, List.map_nil, List.getLast?_nil, Option.map_none,
      Option.getD_none] at below
    omega
  · have inPage : last ∈ limitClause limit order := by simp [page]
    have inOrder : last ∈ order := parts ▸ List.mem_append_left rest inPage
    have reaches : lastRev replayRev ((limitClause limit order).map rowEvent) = last.rev := by
      simp [page, lastRev, rowEvent, scanKV, tsToRev_of_exact (exact last inOrder)]
    rw [reaches] at below
    have halves : row ∈ limitClause limit order ++ rest := parts.symm ▸ membership
    rcases List.mem_append.mp halves with found | later
    · exact found
    · rw [← parts] at ordered
      have notAbove := (List.pairwise_append.mp ordered).2.2 last inPage row later
      exact uncut last inPage row membership (le_antisymm below notAbove)

/-! ## The invariant -/

/-- The client is settled up to a revision. -/
def Follower.SettledAt (pre : Bytes) (follower : Follower) (revision : Int) : Prop :=
  LogReplay.Settled Row.key Row.rev (fun row => liveKV (some row))
    (fun key => like (likePrefix pre) key = true) follower.world.history revision follower.mirror

/-- The snapshot from which a listing took the revision that it reports. -/
def FollowerCall.listed? : FollowerCall → Option DB
  | .listing revDb => some revDb
  | .listingChecked revDb _ => some revDb
  | .idle | .paging _ | .pagingChecked _ _ => none

structure Follower.Inv (pre : Bytes) (follower : Follower) : Prop where
  world : follower.world.Inv
  settled : follower.SettledAt pre follower.replayRev
  behind : follower.replayRev ≤ follower.world.db.clock
  listing : ∀ revDb, follower.call.listed? = some revDb →
    currentRevision revDb ≤ follower.world.db.clock

/-- The pages that the client reads end between two revisions. -/
def WholePages (limit : Int) (_ : Follower) : FollowerAction → Prop
  | .readPage order => Uncut limit order
  | _ => True

theorem Follower.init_inv (pre : Bytes) : Follower.init.Inv pre where
  world := World.init_inv
  settled := by
    constructor
    · intro key row _ found
      cases newest_mem found
    · exact fun _ _ _ => rfl
  behind := (by decide : (0 : Int) ≤ 1).trans World.init_inv.started
  listing := by simp [Follower.init, FollowerCall.listed?]

section Steps

variable {pre : Bytes} {limit : Int} {follower : Follower}

theorem Follower.Inv.store (inv : follower.Inv pre) {action : Action} {world : World}
    (stepped : follower.world.step action = some world) :
    Follower.Inv pre { follower with world := world } := by
  have extended := (World.step_effect stepped).extends
  have worldInv := inv.world.step stepped
  refine ⟨worldInv, ?_, inv.behind.trans extended.clock, ?_⟩
  · obtain ⟨added, grown, newer⟩ := extended.history
    have distinct := worldInv.distinctRows
    rw [grown] at distinct
    have settled := inv.settled.append distinct fun row new => inv.behind.trans_lt (newer row new)
    simpa only [SettledAt, grown] using settled
  · intro revDb read
    exact (inv.listing revDb read).trans extended.clock

/-- The entries that a listing shows wrongly have a row above its revision. -/
theorem Follower.Inv.listed (inv : follower.Inv pre) {revDb compactDb : DB}
    (calling : follower.call = .listingChecked revDb compactDb) :
    Follower.Inv pre
      { follower with
        call := .idle
        mirror := fun key => ((listRows follower.world.db.kv pre []
          (currentRevision revDb)).map scanKV).find? fun kv => decide (kv.key = key)
        replayRev := currentRevision revDb } := by
  have inside : ∀ key, like (likePrefix pre) key = true → inRange pre [] key = true := by
    intro key matched
    simp [inRange, matched, PrefixRange.nil_le]
  refine ⟨inv.world, ⟨?_, ?_⟩, ?_, by simp [FollowerCall.listed?]⟩
  · intro key row matched found below
    dsimp only
    rw [find_listRows inv.world.storedDistinct (inside key matched)]
    congr 1
    apply (newest_eq_some_iff inv.world.storedDistinct).mpr
    refine ⟨newest_key found, inv.world.newest_stored found, by simpa using below, ?_⟩
    intro other membership sameKey _
    exact newest_le found (inv.world.mem_history membership) (sameKey.trans (newest_key found)) rfl
  · intro key matched missing
    dsimp only
    rw [find_listRows inv.world.storedDistinct (inside key matched)]
    have nothing : latestRowAt follower.world.db.kv key (currentRevision revDb) = none := by
      apply newest_eq_none_iff.mpr
      intro row membership sameKey
      have hidden := newest_eq_none_iff.mp missing row (inv.world.mem_history membership) sameKey
      simp at hidden
    rw [nothing, liveKV_none]
  · exact inv.listing revDb (by rw [calling]; rfl)

/-- The rows of a query above `replayRev`. -/
theorem Follower.Inv.mem_order (inv : follower.Inv pre) {order : List Row}
    (ordered : IsRevOrder (afterRows follower.world.db.kv pre (revToTS follower.replayRev)) order)
    {row : Row} :
    row ∈ order ↔ row ∈ follower.world.db.kv ∧ like (likePrefix pre) row.key = true ∧
      follower.replayRev < row.rev := by
  rw [ordered.1.mem_iff]
  simp only [afterRows, List.mem_filter, Bool.and_eq_true, decide_eq_true_eq]
  refine and_congr_right fun membership => and_congr_right fun _ => ?_
  -- stored revisions lie above the epoch, where `revToTS` changes nothing
  have afterEpoch := (inv.world.storedExact row membership).1
  unfold revToTS
  split <;> omega

/-- A page settles the client up to a revision if it holds the rows up to there. -/
theorem Follower.Inv.settled_page (inv : follower.Inv pre) {order page : List Row} (next : Int)
    (ordered : IsRevOrder (afterRows follower.world.db.kv pre (revToTS follower.replayRev)) order)
    (front : page.Sublist order)
    (complete : ∀ row ∈ order, follower.replayRev < row.rev → row.rev ≤ next → row ∈ page) :
    LogReplay.Settled Row.key Row.rev (fun row => liveKV (some row))
      (fun key => like (likePrefix pre) key = true) follower.world.history next
      (page.foldl (LogReplay.apply Row.key fun row => liveKV (some row)) follower.mirror) := by
  have inOrder := fun row (membership : row ∈ page) =>
    (inv.mem_order ordered).mp (front.subset membership)
  apply inv.settled.page inv.world.distinctRows
  · exact fun row membership => inv.world.mem_history (inOrder row membership).1
  · exact fun row membership => (inOrder row membership).2.2
  · exact ordered.2.sublist front
  · intro key row matched found above below
    apply complete row _ above below
    apply (inv.mem_order ordered).mpr
    exact ⟨inv.world.newest_stored found, newest_key found ▸ matched, above⟩

theorem Follower.Inv.paged (inv : follower.Inv pre) {order : List Row}
    (ordered : IsRevOrder (afterRows follower.world.db.kv pre (revToTS follower.replayRev)) order)
    (uncut : Uncut limit order) :
    Follower.Inv pre
      { follower with
        call := .idle
        mirror := ((limitClause limit order).map rowEvent).foldl Event.apply follower.mirror
        replayRev := lastRev follower.replayRev ((limitClause limit order).map rowEvent) } := by
  have exact : ∀ row ∈ order, Exact row.rev := fun row membership =>
    inv.world.storedExact row ((inv.mem_order ordered).mp membership).1
  refine ⟨inv.world, ?_, ?_, by simp [FollowerCall.listed?]⟩
  · unfold SettledAt
    dsimp only
    rw [foldl_apply_rowEvents]
    apply inv.settled_page _ ordered (limitClause_sublist limit order)
    intro row membership above below
    exact mem_page_of_le exact ordered.2 uncut membership above below
  · dsimp only
    unfold lastRev
    cases last : ((limitClause limit order).map rowEvent).getLast? with
    | none => exact inv.behind
    | some event =>
        obtain ⟨row, inPage, rfl⟩ := List.mem_map.mp (List.mem_of_getLast? last)
        have membership := (limitClause_sublist limit order).subset inPage
        have stored := ((inv.mem_order ordered).mp membership).1
        have bounded := inv.world.bounded row (inv.world.mem_history stored)
        simpa [rowEvent, scanKV, tsToRev_of_exact (exact row membership)] using bounded

theorem Follower.Inv.step {next : Follower} {action : FollowerAction}
    (whole : WholePages limit follower action)
    (stepped : follower.step pre limit action = some next) (inv : follower.Inv pre) :
    next.Inv pre := by
  cases Follower.step_move stepped with
  | store moved => exact inv.store moved
  | list =>
      refine ⟨inv.world, inv.settled, inv.behind, ?_⟩
      rintro _ ⟨⟩
      exact inv.world.currentRevision_le_clock
  | page => exact ⟨inv.world, inv.settled, inv.behind, by simp [FollowerCall.listed?]⟩
  | listCompact calling =>
      refine ⟨inv.world, inv.settled, inv.behind, ?_⟩
      rintro _ ⟨⟩
      exact inv.listing _ (by rw [calling]; rfl)
  | pageCompact calling =>
      exact ⟨inv.world, inv.settled, inv.behind, by simp [FollowerCall.listed?]⟩
  | listed calling => exact inv.listed calling
  | paged calling ordered => exact inv.paged ordered whole
  | refused => exact ⟨inv.world, inv.settled, inv.behind, by simp [FollowerCall.listed?]⟩

end Steps

/-- A client that lists, and follows with pages that end between two revisions,
whatever is written and compacted between its reads: a key whose newest row is
not above the revision that the client has reached is shown as that row has it,
and as soon as a page is served and comes back short the client shows all keys
that its pattern matches as they are in the store. -/
theorem follower_mirrors_store {pre : Bytes} {limit : Int} {actions : List FollowerAction}
    {follower : Follower}
    (whole : Runs.Guarded (Follower.step pre limit) (WholePages limit) .init actions)
    (ran : Runs.run (Follower.step pre limit) .init actions = some follower) :
    (∀ key row, like (likePrefix pre) key = true →
      latestRow follower.world.history key = some row → row.rev ≤ follower.replayRev →
        follower.mirror key = liveKV (some row)) ∧
    ∀ revDb compactDb order events next,
      follower.call = .pagingChecked revDb compactDb →
      (after revDb compactDb order follower.replayRev limit).2 = .ok events →
      (limit ≤ 0 ∨ (events.length : Int) < limit) →
      follower.step pre limit (.readPage order) = some next →
        ∀ key, like (likePrefix pre) key = true →
          next.mirror key = getLatestTxn next.world.db.kv key := by
  have inv : follower.Inv pre := Runs.run_invariant_of_guarded
    (fun _ _ _ => Follower.Inv.step) whole ran (Follower.init_inv pre)
  refine ⟨fun key row => inv.settled.shown key row, ?_⟩
  intro revDb compactDb order events next calling answered short stepped key matched
  have served : events = order.map rowEvent := by
    unfold after at answered
    dsimp only at answered
    split at answered
    next => simp at answered
    next =>
      obtain rfl := Except.ok.inj answered
      rw [List.length_map] at short
      rw [limitClause_of_short short]
  simp only [Follower.step, calling, answered, Option.ite_none_right_eq_some,
    Option.some.injEq] at stepped
  obtain ⟨ordered, rfl⟩ := stepped
  have settled := inv.settled_page follower.world.db.clock ordered (.refl order)
    fun row membership _ _ => membership
  have shown := settled.exact inv.world.bounded matched
  rw [served, foldl_apply_rowEvents]
  dsimp only
  rw [shown, inv.world.getLatestTxn_eq]
  unfold getLatestTxn latestRow
  cases newest Row.key Row.rev (fun _ => true) follower.world.history key <;> rfl

/-- The key `a` is written; the client takes the revision for its listing; `a` is
written again and its first row, which the listing needs, is compacted away.
The listing is empty. -/
def emptyListing : List FollowerAction :=
  [.store (.write (.create (ascii "a") (some (ascii "u")) 0) 5), .list,
    .store (.write (.update (ascii "a") (some (ascii "v")) 5 0) 6), .store (.compact 0 5),
    .store (.effective 0 true), .store (.scan 0 [0]), .store (.deleteBatch 0),
    .readCompact, .readList, .page, .readCompact]

set_option maxRecDepth 2000 in
/-- One page later the client shows the key as it is. -/
theorem emptyListing_recovers :
    ∃ follower row, Runs.run (Follower.step [] pollBatchSize) .init emptyListing = some follower ∧
      follower.world.db.kv = [row] ∧ follower.mirror (ascii "a") = none ∧
      ∃ next, follower.step [] pollBatchSize (.readPage [row]) = some next ∧
        ∀ key, next.mirror key = getLatestTxn next.world.db.kv key := by
  have whole : Runs.Guarded (Follower.step [] pollBatchSize) (WholePages pollBatchSize) .init
      emptyListing := by
    apply Runs.Guarded.of_forall
    simp [emptyListing, WholePages]
  have run : ∃ follower row revDb compactDb events next,
      Runs.run (Follower.step [] pollBatchSize) .init emptyListing = some follower ∧
      follower.world.db.kv = [row] ∧ follower.mirror (ascii "a") = none ∧
      follower.call = .pagingChecked revDb compactDb ∧
      (after revDb compactDb [row] follower.replayRev pollBatchSize).2 = .ok events ∧
      (events.length : Int) < pollBatchSize ∧
      follower.step [] pollBatchSize (.readPage [row]) = some next :=
    ⟨_, _, _, _, _, _, rfl, rfl, rfl, rfl, rfl, by decide, rfl⟩
  obtain ⟨follower, row, revDb, compactDb, events, next, ran, left, lost, calling, answered, short,
    stepped⟩ := run
  refine ⟨follower, row, ran, left, lost, next, stepped, ?_⟩
  intro key
  exact (follower_mirrors_store whole ran).2 revDb compactDb [row] events next calling answered
    (.inr short) stepped key (like_likePrefix_nil key)

end SpannerEtcd
