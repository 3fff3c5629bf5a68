import SpannerEtcd.Watch.Subscribe

/-!
# The order of a subscription's events

A subscription whose live batches are all fresh receives its events with
non-decreasing revisions, none twice and none below its start revision.
-/

namespace SpannerEtcd

def stamp (event : Event) : Bytes × Int := (event.kv.key, event.kv.rev)

def rowStamp (row : Row) : Bytes × Int := (row.key, tsToRev row.rev)

def Ascending (stamps : List (Bytes × Int)) : Prop :=
  stamps.Pairwise fun first second => first.2 ≤ second.2 ∧ first ≠ second

/-- A batch that may come after the events sent so far. -/
structure Follows (startRev : Int) (sent batch : List Event) : Prop where
  ascending : Ascending (batch.map stamp)
  started : ∀ event ∈ batch, startRev ≤ event.kv.rev
  above : ∀ event ∈ batch, ∀ earlier ∈ sent, earlier.kv.rev < event.kv.rev

theorem Follows.nil (startRev : Int) (sent : List Event) : Follows startRev sent [] where
  ascending := .nil
  started := by simp
  above := by simp

theorem Follows.append {startRev : Int} {sent batch : List Event}
    (sound : Follows startRev [] sent) (follows : Follows startRev sent batch) :
    Follows startRev [] (sent ++ batch) where
  ascending := by
    rw [List.map_append]
    refine List.pairwise_append.mpr ⟨sound.ascending, follows.ascending, ?_⟩
    intro first firstMembership second secondMembership
    obtain ⟨earlier, inSent, rfl⟩ := List.mem_map.mp firstMembership
    obtain ⟨event, inBatch, rfl⟩ := List.mem_map.mp secondMembership
    have above := follows.above event inBatch earlier inSent
    refine ⟨above.le, fun same => ?_⟩
    have sameRev : earlier.kv.rev = event.kv.rev := congrArg Prod.snd same
    omega
  started := by
    intro event membership
    obtain inSent | inBatch := List.mem_append.mp membership
    · exact sound.started event inSent
    · exact follows.started event inBatch
  above := by simp

theorem Follows.rev_le_last {startRev : Int} {events : List Event} {last : Event}
    (sound : Follows startRev [] events) (ends : events.getLast? = some last) :
    ∀ event ∈ events, event.kv.rev ≤ last.kv.rev := by
  obtain ⟨before, rfl⟩ := List.getLast?_eq_some_iff.mp ends
  intro event membership
  obtain earlier | final := List.mem_append.mp membership
  · have ordered := sound.ascending
    rw [List.map_append] at ordered
    exact ((List.pairwise_append.mp ordered).2.2 (stamp event) (List.mem_map_of_mem earlier)
      (stamp last) (by simp)).1
  · rw [List.mem_singleton.mp final]

/-! ## Batches of committed rows -/

section
variable {world : World} (inv : world.Inv)
include inv

theorem rowStamps_ascending {rows : List Row} (committed : ∀ row ∈ rows, row ∈ world.history)
    (sorted : rows.Pairwise fun first second => first.rev ≤ second.rev) (nodup : rows.Nodup) :
    Ascending (rows.map rowStamp) := by
  refine List.pairwise_map.mpr (List.Pairwise.imp_of_mem ?_ (sorted.and nodup))
  intro first second firstMembership secondMembership both
  have firstExact := tsToRev_of_exact (inv.exact first (committed first firstMembership))
  have secondExact := tsToRev_of_exact (inv.exact second (committed second secondMembership))
  refine ⟨?_, fun same => both.2 ?_⟩
  · simp only [rowStamp, firstExact, secondExact]
    exact both.1
  · simp only [rowStamp, firstExact, secondExact, Prod.mk.injEq] at same
    exact inv.distinctRows first (committed first firstMembership) second
      (committed second secondMembership) same.1 same.2

/-- A batch made of committed rows follows if those rows do. -/
theorem follows_of_rows {startRev : Int} {sent batch : List Event} {rows : List Row}
    (stamps : (batch.map stamp).Sublist (rows.map rowStamp))
    (committed : ∀ row ∈ rows, row ∈ world.history)
    (sorted : rows.Pairwise fun first second => first.rev ≤ second.rev) (nodup : rows.Nodup)
    (late : ∀ event ∈ batch, ∀ row ∈ rows, row.key = event.kv.key →
      startRev ≤ row.rev ∧ ∀ earlier ∈ sent, earlier.kv.rev < row.rev) :
    Follows startRev sent batch := by
  have source : ∀ event ∈ batch, ∃ row ∈ rows, row.key = event.kv.key ∧
      row.rev = event.kv.rev := by
    intro event membership
    obtain ⟨row, inRows, same⟩ :=
      List.mem_map.mp (stamps.subset (List.mem_map_of_mem membership))
    have exact := tsToRev_of_exact (inv.exact row (committed row inRows))
    simp only [rowStamp, stamp, exact, Prod.mk.injEq] at same
    exact ⟨row, inRows, same⟩
  refine ⟨(rowStamps_ascending inv committed sorted nodup).sublist stamps, ?_, ?_⟩
  · intro event membership
    obtain ⟨row, inRows, sameKey, sameRev⟩ := source event membership
    exact sameRev ▸ (late event membership row inRows sameKey).1
  · intro event membership
    obtain ⟨row, inRows, sameKey, sameRev⟩ := source event membership
    exact sameRev ▸ (late event membership row inRows sameKey).2

end

theorem stamp_normalize (event : Event) : stamp event.normalize = stamp event := rfl

theorem stamps_captured {runtime : Runtime} {rows : List Row} {gcv : Value}
    (emitted : ChangeRecord runtime rows gcv) :
    ((decodeRecord runtime gcv).events.map stamp).Sublist (rows.map rowStamp) := by
  have decoded := congrArg (List.map stamp) (decodeRecord_captured emitted)
  simp only [capturedEvents, List.map_map] at decoded
  have unstamped : stamp ∘ Event.normalize = stamp := funext stamp_normalize
  have ofRow : (stamp ∘ fun row => (capturedEvent row).normalize) = rowStamp := rfl
  rw [unstamped, ofRow] at decoded
  rw [decoded]
  exact List.filter_sublist.map rowStamp

/-! ## What every step keeps -/

def Replay.Ready (startRev : Int) (sent : List Event) : Replay → Prop
  | .starting => sent = []
  | .paging replayRev _ => startRev ≤ replayRev + 1 ∧ ∀ event ∈ sent, event.kv.rev ≤ replayRev
  | .sending _ events => Follows startRev sent events
  | _ => True

theorem Replay.ready_of_finished {replay : Replay} (finished : replay.finished = true)
    (startRev : Int) (sent : List Event) : replay.Ready startRev sent := by
  cases replay with
  | starting | paging | sending => cases finished
  | live | returning | draining | sentinel | ended => exact trivial

structure SubscribeSystem.Inv (sub : Subscription) (system : SubscribeSystem) : Prop where
  world : system.world.Inv
  sound : Follows sub.afterRev [] system.channel.sent
  ready : system.replay.Ready sub.afterRev system.channel.sent
  quiet : system.replay.finished = false → system.inFlight = []
  alone : system.inFlight.length ≤ 1
  flying : ∀ flight ∈ system.inFlight,
    Follows sub.afterRev system.channel.sent flight.matching

namespace SubscribeSystem

variable {sub : Subscription} {system : SubscribeSystem}

theorem subscribe_inv (sub : Subscription) {world : World} (inv : world.Inv) (pollRev : Int)
    (poll : AfterCall) : (subscribe world pollRev poll).Inv sub where
  world := inv
  sound := .nil _ _
  ready := rfl
  quiet _ := rfl
  alone := Nat.zero_le _
  flying := by simp [subscribe]

theorem Inv.setReplay (inv : system.Inv sub) {replay : Replay}
    (ready : replay.Ready sub.afterRev system.channel.sent)
    (unfinished : replay.finished = false → system.replay.finished = false) :
    Inv sub { system with replay := replay } where
  world := inv.world
  sound := inv.sound
  ready := ready
  quiet notFinished := inv.quiet (unfinished notFinished)
  alone := inv.alone
  flying := inv.flying

theorem Inv.land (inv : system.Inv sub) (producer : Producer) : (system.land producer).Inv sub where
  world := inv.world
  sound := inv.sound
  ready := inv.ready
  quiet notFinished := by simp [SubscribeSystem.land, inv.quiet notFinished]
  alone := (List.length_filter_le _ _).trans inv.alone
  flying flight membership := inv.flying flight (List.mem_filter.mp membership).1

theorem Inv.landed (inv : system.Inv sub) {producer : Producer} {flight : Flight}
    (found : system.flight producer = some flight) :
    flight ∈ system.inFlight ∧ (system.land producer).inFlight = [] := by
  have membership := flight_mem found
  have produced := flight_producer found
  refine ⟨membership, ?_⟩
  obtain ⟨only, single⟩ : ∃ only, system.inFlight = [only] :=
    List.length_eq_one_iff.mp
      (Nat.le_antisymm inv.alone (List.length_pos_of_mem membership))
  rw [single, List.mem_singleton] at membership
  simp [SubscribeSystem.land, single, ← membership, produced]

theorem Inv.finished_of_flight (inv : system.Inv sub) {flight : Flight}
    (membership : flight ∈ system.inFlight) : system.replay.finished = true := by
  cases finished : system.replay.finished with
  | true => rfl
  | false =>
      rw [inv.quiet finished] at membership
      cases membership

/-- With its replay finished and nothing in flight, a subscription may be sent
any batch that follows. -/
theorem Inv.send (inv : system.Inv sub) {batch : List Event} {replay : Replay}
    (follows : Follows sub.afterRev system.channel.sent batch) (landed : system.inFlight = [])
    (ready : replay.Ready sub.afterRev (system.channel.sent ++ batch)) :
    Inv sub { system with channel := system.channel.send batch, replay := replay } where
  world := inv.world
  sound := inv.sound.append follows
  ready := ready
  quiet _ := landed
  alone := inv.alone
  flying := by simp [landed]

theorem Inv.dispatch (inv : system.Inv sub) (producer : Producer) {events : List Event}
    {rows : List Row} (stamps : (events.map stamp).Sublist (rows.map rowStamp))
    (committed : ∀ row ∈ rows, row ∈ system.world.history)
    (sorted : rows.Pairwise fun first second => first.rev ≤ second.rev) (nodup : rows.Nodup)
    (fresh : Fresh sub system rows) :
    (system.dispatchEvents sub producer events).Inv sub := by
  let matching := events.filter fun event => sub.accepts event.kv.key
  have accepted : ∀ event ∈ matching, sub.accepts event.kv.key = true :=
    fun event membership => (List.mem_filter.mp membership).2
  have matchingStamps : (matching.map stamp).Sublist (rows.map rowStamp) :=
    (List.filter_sublist.map stamp).trans stamps
  have follows : Follows sub.afterRev system.channel.sent matching :=
    follows_of_rows inv.world matchingStamps committed sorted nodup
      fun event membership row inRows sameKey =>
        (fresh row inRows (sameKey ▸ accepted event membership)).2.2
  cases found : matching with
  | nil =>
      have unchanged : system.dispatchEvents sub producer events = system := by
        simp [dispatchEvents, show events.filter _ = [] from found]
      exact unchanged.symm ▸ inv
  | cons first rest =>
      have membership : first ∈ matching := found ▸ List.mem_cons_self
      obtain ⟨row, inRows, same⟩ :=
        List.mem_map.mp (matchingStamps.subset (List.mem_map_of_mem membership))
      have sameKey : row.key = first.kv.key := congrArg Prod.fst same
      obtain ⟨finished, landed, _⟩ := fresh row inRows (sameKey ▸ accepted first membership)
      have nothing : system.inFlight = [] := List.eq_nil_of_length_eq_zero landed
      have nonempty : (events.filter fun event => sub.accepts event.kv.key).isEmpty = false := by
        simp [show events.filter _ = first :: rest from found]
      simp only [dispatchEvents, nonempty, nothing, List.nil_append]
      exact {
        world := inv.world
        sound := inv.sound
        ready := inv.ready
        quiet := fun notFinished => absurd (finished.symm.trans notFinished) (by simp)
        alone := Nat.le_refl 1
        flying := fun flight inFlight => by
          rw [List.mem_singleton.mp inFlight]
          exact follows }

/-! ## The steps of the replay -/

theorem order_rows {world : World} (inv : world.Inv) {pre : Bytes} {afterRev : Int}
    {order : List Row} (ordered : IsRevOrder (afterRows world.db.kv pre (revToTS afterRev)) order) :
    (∀ row ∈ order, row ∈ world.history ∧ afterRev < row.rev) ∧
      (order.Pairwise fun first second => first.rev ≤ second.rev) ∧ order.Nodup := by
  refine ⟨?_, ordered.2, (ordered.1.nodup_iff).mpr (inv.storedNodup.filter _)⟩
  intro row membership
  have selected := List.mem_filter.mp (ordered.1.mem_iff.mp membership)
  have late : revToTS afterRev < row.rev := by
    simp only [Bool.and_eq_true, decide_eq_true_eq] at selected
    exact selected.2.2
  refine ⟨inv.mem_history selected.1, ?_⟩
  unfold revToTS at late
  split at late <;> omega

theorem page_stamps (order : List Row) (limit : Int) :
    (((limitClause limit order).map rowEvent).map stamp).Sublist (order.map rowStamp) := by
  rw [List.map_map]
  exact (limitClause_sublist limit order).map rowStamp

theorem Inv.replayQuery (inv : system.Inv sub) {replayRev : Int} {call : AfterCall}
    (paging : system.replay = .paging replayRev call) {order : List Row} (revDb compactDb : DB)
    (ordered : IsRevOrder (afterRows system.world.db.kv sub.pre (revToTS replayRev)) order) :
    Inv sub { system with
      replay := afterPage replayRev (after revDb compactDb order replayRev pollBatchSize).2 } := by
  have ready := inv.ready
  rw [paging] at ready
  have notFinished : system.replay.finished = false := by rw [paging]; rfl
  obtain ⟨rows, sorted, nodup⟩ := order_rows inv.world ordered
  refine inv.setReplay ?_ fun _ => notFinished
  unfold after
  split
  · exact trivial
  · simp only [afterPage]
    split
    · exact trivial
    · refine follows_of_rows inv.world (page_stamps order pollBatchSize)
        (fun row membership => (rows row membership).1) sorted nodup ?_
      intro event _ row inRows _
      have late := (rows row inRows).2
      have started := ready.1
      refine ⟨by omega, fun earlier inSent => ?_⟩
      have before := ready.2 earlier inSent
      omega

theorem afterSend_cases (replayRev : Int) (events : List Event) :
    ((events.length : Int) < pollBatchSize ∧ afterSend replayRev events = .live) ∨
      ¬(events.length : Int) < pollBatchSize ∧ ∃ last, events.getLast? = some last ∧
        afterSend replayRev events = .paging last.kv.rev .idle := by
  by_cases partialPage : (events.length : Int) < pollBatchSize
  · exact .inl ⟨partialPage, if_pos partialPage⟩
  · refine .inr ⟨partialPage, ?_⟩
    cases ends : events.getLast? with
    | none =>
        rw [List.getLast?_eq_none_iff.mp ends] at partialPage
        exact absurd (by decide) partialPage
    | some last =>
        refine ⟨last, rfl, ?_⟩
        simp only [afterSend, if_neg partialPage, ends, Option.map_some, Option.getD_some]

theorem ready_afterSend {startRev : Int} {sent events : List Event}
    (sound : Follows startRev [] (sent ++ events)) {replay : Replay}
    (next : replay = .live ∨ ∃ last, events.getLast? = some last ∧
      replay = .paging last.kv.rev .idle) :
    replay.Ready startRev (sent ++ events) := by
  obtain rfl | ⟨last, ends, rfl⟩ := next
  · exact trivial
  · have lastOfAll : (sent ++ events).getLast? = some last := by
      rw [List.getLast?_append, ends]
      rfl
    have started := sound.started last (List.mem_of_getLast? lastOfAll)
    exact ⟨by omega, sound.rev_le_last lastOfAll⟩

theorem Inv.replaySend (inv : system.Inv sub) {replayRev : Int} {events : List Event}
    (sending : system.replay = .sending replayRev events) :
    Inv sub { system with
      channel := system.channel.send events
      replay := afterSend replayRev events } := by
  have follows := inv.ready
  rw [sending] at follows
  have landed : system.inFlight = [] := inv.quiet (by rw [sending]; rfl)
  have next := (afterSend_cases replayRev events).imp And.right And.right
  generalize afterSend replayRev events = replay at next ⊢
  exact inv.send follows landed (ready_afterSend (inv.sound.append follows) next)

/-! ## The steps of the producers -/

theorem doPoll_stamps (revDb compactDb : DB) (order : List Row) (lastRev : Int) :
    ((doPoll revDb compactDb order lastRev).1.map stamp).Sublist (order.map rowStamp) := by
  by_cases refused : lastRev > 0 ∧ lastRev < compactRevision compactDb
  · simp [doPoll, after, refused]
  · simpa only [doPoll, after, if_neg refused] using page_stamps order pollBatchSize

theorem Inv.pollQuery (inv : system.Inv sub) {order : List Row} (revDb compactDb : DB)
    (ordered : IsRevOrder (afterRows system.world.db.kv [] (revToTS system.pollRev)) order)
    (fresh : Fresh sub system order) (curRev : Int) :
    Inv sub ({ system with poll := .idle, pollRev := curRev }.dispatchEvents sub .pollLoop
      (doPoll revDb compactDb order system.pollRev).1) := by
  obtain ⟨rows, sorted, nodup⟩ := order_rows inv.world ordered
  have resting : Inv sub { system with poll := .idle, pollRev := curRev } :=
    { inv with }
  exact resting.dispatch .pollLoop (doPoll_stamps revDb compactDb order system.pollRev)
    (fun row membership => (rows row membership).1) sorted nodup fresh

theorem Inv.check (inv : system.Inv sub) {producer : Producer} {flight : Flight}
    (found : system.flight producer = some flight) :
    Inv sub { system.land producer with
      inFlight := (system.land producer).inFlight ++ [{ flight with cleared := true }] } := by
  obtain ⟨membership, landed⟩ := inv.landed found
  have follows := inv.flying flight membership
  have finished := inv.finished_of_flight membership
  rw [landed]
  exact
    { world := inv.world
      sound := inv.sound
      ready := inv.ready
      quiet := fun notFinished => absurd (finished.symm.trans notFinished) (by simp)
      alone := Nat.le_refl 1
      flying := fun other inFlight => by
        rw [List.mem_singleton.mp inFlight]
        exact follows }

theorem Inv.offer (inv : system.Inv sub) {producer : Producer} {flight : Flight}
    (found : system.flight producer = some flight) :
    Inv sub { system.land producer with channel := system.channel.send flight.matching } := by
  obtain ⟨membership, landed⟩ := inv.landed found
  have finished := inv.finished_of_flight membership
  exact (inv.land producer).send (inv.flying flight membership) landed
    (Replay.ready_of_finished finished _ _)

theorem Inv.stop (inv : system.Inv sub) {replay : Replay} (finished : replay.finished = true) :
    Inv sub { system with replay := replay } :=
  inv.setReplay (Replay.ready_of_finished finished _ _)
    fun notFinished => absurd (finished.symm.trans notFinished) (by simp)

theorem Inv.setChannel (inv : system.Inv sub) {channel : Channel Event}
    (same : channel.sent = system.channel.sent) : Inv sub { system with channel := channel } where
  world := inv.world
  sound := by rw [same]; exact inv.sound
  ready := by rw [same]; exact inv.ready
  quiet := inv.quiet
  alone := inv.alone
  flying := by rw [same]; exact inv.flying

theorem Inv.startPaging (inv : system.Inv sub) (starting : system.replay = .starting) :
    Inv sub { system with replay := .paging (sub.afterRev - 1) .idle } := by
  have ready := inv.ready
  rw [starting] at ready
  have nothingSent : system.channel.sent = [] := ready
  refine inv.setReplay ⟨by omega, by simp [nothingSent]⟩ fun _ => ?_
  rw [starting]
  rfl

theorem Inv.replayRead (inv : system.Inv sub) {replayRev : Int} {call : AfterCall}
    (paging : system.replay = .paging replayRev call) (read : AfterCall) :
    Inv sub { system with replay := .paging replayRev read } := by
  have ready := inv.ready
  rw [paging] at ready
  refine inv.setReplay ready fun _ => ?_
  rw [paging]
  rfl

theorem Inv.step {runtime : Runtime} {action : SubscribeAction} {next : SubscribeSystem}
    (delivered : Delivered runtime system action) (onlyFresh : OnlyFresh sub system action)
    (stepped : system.step runtime sub action = some next) (inv : system.Inv sub) :
    next.Inv sub := by
  cases step_move stepped with
  | other worldStep => exact { inv with world := World.Inv.step worldStep inv.world }
  | startLive | startRefused | replayFail | replayDone | drained | timeOut =>
      exact inv.stop rfl
  | startPaging starting past above => exact inv.startPaging starting
  | replayRead paging reads => exact inv.replayRead paging _
  | replayQuery paging ordered => exact inv.replayQuery paging _ _ ordered
  | replaySend sending room => exact inv.replaySend sending
  | cancel | pollFail | pollRead => exact { inv with }
  | close returning =>
      have stopped : Inv sub { system with replay := .draining } := inv.stop rfl
      exact { stopped with }
  | discard draining discarded => exact inv.setChannel (Channel.discard_sent discarded)
  | sendSentinel drained room =>
      have sentinelSent : Inv sub { system with channel := system.channel.send [] } :=
        inv.setChannel (by simp)
      exact sentinelSent.stop rfl
  | pollQuery reading ordered => exact inv.pollQuery _ _ ordered onlyFresh _
  | capture rows landed =>
      obtain ⟨emitted, committed, sorted, nodup⟩ := delivered
      exact inv.dispatch _ (stamps_captured emitted) committed sorted nodup onlyFresh
  | @skip producer flight found unchecked closed => exact inv.land producer
  | check found unchecked serving => exact inv.check found
  | offer found cleared room => exact inv.offer found
  | @drop producer flight found cleared full => exact { inv.land producer with }
  | receive received => exact inv.setChannel (Channel.receive_sent received)

theorem Inv.run {runtime : Runtime} {actions : List SubscribeAction} {finish : SubscribeSystem}
    (delivered : Runs.Guarded (SubscribeSystem.step runtime sub) (Delivered runtime) system actions)
    (onlyFresh : Runs.Guarded (SubscribeSystem.step runtime sub) (OnlyFresh sub) system actions)
    (ran : Runs.run (SubscribeSystem.step runtime sub) system actions = some finish)
    (inv : system.Inv sub) : finish.Inv sub :=
  Runs.run_invariant_of_guarded
    (fun _ _ _ condition stepped inv => Inv.step condition.1 condition.2 stepped inv)
    (delivered.and onlyFresh) ran inv

end SubscribeSystem

theorem ascending_iff (stamps : List (Bytes × Int)) :
    Ascending stamps ↔ (stamps.Pairwise fun first second => first.2 ≤ second.2) ∧ stamps.Nodup :=
  List.pairwise_and_iff

/-- In every run in which the live batches for a subscription are fresh, it
receives its events in the order of their revisions, none of them twice, and
none below its start revision. -/
theorem subscriber_receives_in_order {runtime : Runtime} {sub : Subscription} {world : World}
    (reachable : Reachable world) (pollRev : Int) (poll : AfterCall)
    {actions : List SubscribeAction} {system : SubscribeSystem}
    (ran : Runs.run (SubscribeSystem.step runtime sub)
      (SubscribeSystem.subscribe world pollRev poll) actions = some system)
    (delivered : Runs.Guarded (SubscribeSystem.step runtime sub) (Delivered runtime)
      (SubscribeSystem.subscribe world pollRev poll) actions)
    (onlyFresh : Runs.Guarded (SubscribeSystem.step runtime sub) (OnlyFresh sub)
      (SubscribeSystem.subscribe world pollRev poll) actions) :
    ((system.channel.received.map stamp).Pairwise fun first second => first.2 ≤ second.2) ∧
      (system.channel.received.map stamp).Nodup ∧
      ∀ event ∈ system.channel.received, sub.afterRev ≤ event.kv.rev := by
  have inv := SubscribeSystem.Inv.run delivered onlyFresh ran
    (SubscribeSystem.subscribe_inv sub reachable.inv pollRev poll)
  have received := system.channel.received_sublist
  have ascending := inv.sound.ascending.sublist (received.map stamp)
  obtain ⟨sorted, nodup⟩ := (ascending_iff _).mp ascending
  exact ⟨sorted, nodup,
    fun event membership => inv.sound.started event (received.subset membership)⟩

def subscriptionToK : Subscription := { pre := ascii "k", afterRev := 5 }

/-- The row of the deletion in `lifetimeRun`. -/
def tombstoneRow : Row :=
  { id := 2, rev := 7, key := ascii "k", value := none, oldValue := some (ascii "w"),
    leaseId := 0, deleted := true, created := false, createRevision := some 5,
    prevRevision := some 6 }

def tombstoneJSON : Bytes :=
  123 :: (ascii "\"rev\":\"1970-01-01T00:00:00.000000007Z\",\"key\":\"k\"," ++
    ascii "\"value\":null,\"old_value\":\"dw==\",\"lease_id\":\"0\",\"deleted\":true," ++
    ascii "\"created\":false,\"create_revision\":\"1970-01-01T00:00:00.000000005Z\"," ++
    ascii "\"prev_revision\":\"1970-01-01T00:00:00.000000006Z\"\x7d")

def tombstoneRuntime : Runtime :=
  runtimeOf tombstoneJSON (rowObject nanoText (ascii "0") tombstoneRow)

def tombstoneRecord : Value := insertRecord (nanoText 7) tombstoneJSON

/-- The creation is replayed, the update polled, and the deletion captured. -/
def orderedRun : List SubscribeAction :=
  [.start, .replayRead, .replayRead, .replayQuery [createdRow], .replaySend, .receive,
    .other (.write (.update (ascii "k") (some (ascii "w")) 5 0) 6),
    .pollRead, .pollRead, .pollQuery [updatedRow], .check .pollLoop, .offer .pollLoop, .receive,
    .other (.write (.delete (ascii "k") 0) 7),
    .capture 0 [tombstoneRow] tombstoneRecord, .check (.partition 0), .offer (.partition 0),
    .receive]

def orderedSystem : SubscribeSystem :=
  (Runs.run (SubscribeSystem.step tombstoneRuntime subscriptionToK)
    (.subscribe createdWorld 5 .idle) orderedRun).getD (.subscribe createdWorld 5 .idle)

theorem tombstoneRecord_emitted : ChangeRecord tombstoneRuntime [tombstoneRow] tombstoneRecord := by
  have captured : NewRow tombstoneRow (rowObject nanoText (ascii "0") tombstoneRow) :=
    rowObject_newRow (nanoText_denotes 7) (by rintro _ ⟨⟩; exact nanoText_denotes 5)
      (by rintro _ ⟨⟩; exact nanoText_denotes 6) (by decide) (Decimal.numeral_digit 0)
  exact insertRecord_changeRecord (nanoText_denotes 7) rfl captured

set_option maxRecDepth 2000 in
theorem orderedSystem_in_order :
    orderedSystem.channel.received.map stamp =
        [(ascii "k", 5), (ascii "k", 6), (ascii "k", 7)] ∧
      (orderedSystem.channel.received.map stamp).Nodup := by
  have ran : Runs.run (SubscribeSystem.step tombstoneRuntime subscriptionToK)
      (.subscribe createdWorld 5 .idle) orderedRun = some orderedSystem := rfl
  have wellFormed :
      ∀ action ∈ orderedRun, SubscribeSystem → WellFormed tombstoneRuntime action := by
    simp [orderedRun, WellFormed, tombstoneRecord_emitted]
  have delivered : Runs.Guarded (SubscribeSystem.step tombstoneRuntime subscriptionToK)
      (Delivered tombstoneRuntime) (.subscribe createdWorld 5 .idle) orderedRun :=
    (Runs.Guarded.of_forall wellFormed).and (by decide)
  exact ⟨rfl, (subscriber_receives_in_order createdWorld_reachable 5 .idle ran delivered
    (by decide)).2.1⟩

/-- The poll loop delivers an event before the replay has begun. -/
def repeatedRun : List SubscribeAction :=
  [.pollRead, .pollRead, .pollQuery [createdRow], .check .pollLoop, .offer .pollLoop, .start,
    .replayRead, .replayRead, .replayQuery [createdRow], .replaySend, .receive, .receive]

theorem replay_repeats_polled_event :
    ∃ runtime sub world pollRev poll actions system, Reachable world ∧ 0 < sub.afterRev ∧
      Runs.run (SubscribeSystem.step runtime sub) (SubscribeSystem.subscribe world pollRev poll)
        actions = some system ∧
      Runs.Guarded (SubscribeSystem.step runtime sub) (Delivered runtime)
        (SubscribeSystem.subscribe world pollRev poll) actions ∧
      ¬(system.channel.received.map stamp).Nodup := by
  have wellFormed :
      ∀ action ∈ repeatedRun, SubscribeSystem → WellFormed tombstoneRuntime action := by
    simp [repeatedRun, WellFormed]
  exact ⟨tombstoneRuntime, subscriptionToK, createdWorld, 1, .idle, repeatedRun, _,
    createdWorld_reachable, by decide, rfl, (Runs.Guarded.of_forall wellFormed).and (by decide),
    by decide⟩

end SpannerEtcd
