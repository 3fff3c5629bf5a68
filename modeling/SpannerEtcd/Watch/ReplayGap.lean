import SpannerEtcd.Store.Retention
import SpannerEtcd.Watch.PrefixFilter
import SpannerEtcd.Watch.SubscriberOrder

/-!
# Between replay and live delivery

A subscription is registered before its replay queries the log, so a row that
a dispatch has passed by was committed early enough for the replay to find it,
and a row that the replay misses is dispatched to the registered subscriber.
This holds of the rows that the query of the replay selects; the query hands
the prefix to `LIKE`, while a dispatch compares it with the key.

The trace keeps the events that each producer is dispatching, and the stamps
of all events whose dispatch is over.
-/

namespace SpannerEtcd

structure Traced where
  system : SubscribeSystem
  pending : Producer → List (Bytes × Int)
  dispatched : List (Bytes × Int)

namespace Traced

/-- The rows of `earlier` were dispatched before the registration. -/
def subscribe (world : World) (pollRev : Int) (poll : AfterCall) (earlier : List Row) : Traced :=
  { system := .subscribe world pollRev poll
    pending := fun _ => []
    dispatched := earlier.map rowStamp }

/-- The call of `dispatchEvents` is over when the subscription has no batch of
the producer in flight. -/
def settle (traced : Traced) (producer : Producer) : Traced :=
  match traced.system.flight producer with
  | some _ => traced
  | none => { traced with dispatched := traced.dispatched ++ traced.pending producer }

def handOver (traced : Traced) (next : SubscribeSystem) (producer : Producer)
    (events : List Event) : Traced :=
  settle
    { traced with
      system := next
      pending := Function.update traced.pending producer (events.map stamp) }
    producer

def record (runtime : Runtime) (traced : Traced) (action : SubscribeAction)
    (next : SubscribeSystem) : Traced :=
  match action with
  | .pollQuery order =>
      match traced.system.poll with
      | .horizonRead revDb compactDb =>
          traced.handOver next .pollLoop (doPoll revDb compactDb order traced.system.pollRev).1
      | _ => { traced with system := next }
  | .capture number _ gcv =>
      traced.handOver next (.partition number) (decodeRecord runtime gcv).events
  | .check producer | .offer producer => settle { traced with system := next } producer
  | _ => { traced with system := next }

def step (runtime : Runtime) (sub : Subscription) (traced : Traced) (action : SubscribeAction) :
    Option Traced :=
  (traced.system.step runtime sub action).map (traced.record runtime action)

/-- Every row that is due and whose dispatch is over has been sent. -/
def Complete (sub : Subscription) (traced : Traced) : Prop :=
  ∀ row ∈ traced.system.world.history, sub.accepts row.key = true →
    sub.afterRev ≤ tsToRev row.rev → rowStamp row ∈ traced.dispatched →
    rowStamp row ∈ traced.system.channel.sent.map stamp

end Traced

def World.DistinctRevisions (world : World) : Prop :=
  ∀ first ∈ world.history, ∀ second ∈ world.history, first.rev = second.rev → first = second

instance (world : World) : Decidable world.DistinctRevisions :=
  inferInstanceAs (Decidable (∀ first ∈ world.history, ∀ second ∈ world.history, _))

/-- Distinct rows have distinct revisions, no rows are deleted, and a batch
that is offered finds room. -/
def Smooth (traced : Traced) (action : SubscribeAction) : Prop :=
  traced.system.world.DistinctRevisions ∧
    match action with
    | .other (.deleteBatch _) => False
    | .offer _ => traced.system.channel.queue.length < subChannelDepth
    | _ => True

instance (traced : Traced) (action : SubscribeAction) : Decidable (Smooth traced action) :=
  match action with
  | .other (.deleteBatch _) => inferInstanceAs (Decidable (_ ∧ False))
  | .offer _ => inferInstanceAs (Decidable (_ ∧ _ < _))
  | .other (.write _ _) | .other .seed | .other (.compact _ _) | .other (.effective _ _)
  | .other (.autoTick _ _) | .other (.autoExisting _ _) | .other (.autoRecord _)
  | .other (.scan _ _) | .other (.giveUp _) | .start | .replayRead | .replayQuery _ | .replaySend
  | .replayFail | .replayDone | .cancel | .close | .drain | .sendSentinel _ | .pollRead
  | .pollQuery _ | .pollFail | .capture _ _ _ | .check _ | .receive =>
      inferInstanceAs (Decidable (_ ∧ True))

/-! ## What every step keeps -/

/-- The goroutine has marked the subscription closed. -/
def Replay.torn : Replay → Bool
  | .draining | .sentinel | .ended => true
  | _ => false

/-- How far the replay has brought the wanted rows.  A row that is on no page
yet comes after the last row of a full page. -/
def Replay.Covers (wanted : Row → Prop) (sent : List Event) : Replay → Prop
  | .paging replayRev _ =>
      ∀ row, wanted row → row.rev ≤ replayRev → rowStamp row ∈ sent.map stamp
  | .sending _ events =>
      ∀ row, wanted row → rowStamp row ∈ (sent ++ events).map stamp ∨
        ¬(events.length : Int) < pollBatchSize ∧
          ∀ last, events.getLast? = some last → last.kv.rev < row.rev
  | .live => ∀ row, wanted row → rowStamp row ∈ sent.map stamp
  | _ => True

/-- What was dispatched has been sent, or is left to the replay. -/
structure Traced.Inv (sub : Subscription) (wanted : Row → Prop) (traced : Traced) : Prop where
  world : traced.system.world.Inv
  stored : ∀ row, wanted row → row ∈ traced.system.world.db.kv
  closing : traced.system.closed = true → traced.system.replay.torn = true
  polling : ∀ flight ∈ traced.system.inFlight, flight.producer = .pollLoop →
    traced.system.poll = .idle
  flying : ∀ flight ∈ traced.system.inFlight, ∀ mark ∈ traced.pending flight.producer,
    sub.accepts mark.1 = true → mark ∈ flight.matching.map stamp
  delivered : traced.system.closed = false → ∀ mark ∈ traced.dispatched,
    sub.accepts mark.1 = true → sub.afterRev ≤ mark.2 →
      mark ∈ traced.system.channel.sent.map stamp ∨ ∃ row, wanted row ∧ rowStamp row = mark
  replayed : traced.system.replay.Covers wanted traced.system.channel.sent

theorem Replay.Covers.mono {wanted : Row → Prop} {sent more : List Event} {replay : Replay}
    (grows : sent ⊆ more) (covers : replay.Covers wanted sent) : replay.Covers wanted more := by
  have stamps := List.map_subset stamp grows
  cases replay with
  | paging replayRev call => exact fun row isWanted below => stamps (covers row isWanted below)
  | sending replayRev events =>
      intro row isWanted
      refine (covers row isWanted).imp_left fun found => ?_
      rw [List.map_append, List.mem_append] at found ⊢
      exact found.imp_left fun earlier => stamps earlier
  | live => exact fun row isWanted => stamps (covers row isWanted)
  | starting | returning | draining | sentinel | ended => trivial

namespace Traced.Inv

variable {sub : Subscription} {wanted : Row → Prop} {traced : Traced}
  (inv : traced.Inv sub wanted)

include inv

theorem setReplay {replay : Replay} (covers : replay.Covers wanted traced.system.channel.sent)
    (torn : traced.system.replay.torn = true → replay.torn = true) :
    Traced.Inv sub wanted
      { traced with system := { traced.system with replay := replay } } :=
  { inv with
    closing := fun closed => torn (inv.closing closed)
    replayed := covers }

/-- What has been sent stays sent. -/
theorem setChannel {channel : Channel Event} (grows : traced.system.channel.sent ⊆ channel.sent) :
    Traced.Inv sub wanted
      { traced with system := { traced.system with channel := channel } } := by
  refine { inv with delivered := ?_, replayed := inv.replayed.mono grows }
  intro serving mark membership accepted due
  have before := inv.delivered serving mark membership accepted due
  exact before.imp_left fun sent => List.map_subset stamp grows sent

/-- A dispatch of the producer that leaves nothing behind is over. -/
theorem land (producer : Producer)
    (settled : traced.system.closed = false → ∀ mark ∈ traced.pending producer,
      sub.accepts mark.1 = true → mark ∈ traced.system.channel.sent.map stamp) :
    Traced.Inv sub wanted
      (settle { traced with system := traced.system.land producer } producer) := by
  simp only [settle, SubscribeSystem.land_flight]
  refine { inv with polling := ?_, flying := ?_, delivered := ?_ }
  · exact fun flight membership => inv.polling flight (List.mem_of_mem_filter membership)
  · exact fun flight membership => inv.flying flight (List.mem_of_mem_filter membership)
  · intro serving mark membership accepted due
    obtain before | now := List.mem_append.mp membership
    · exact inv.delivered serving mark before accepted due
    · exact .inl (settled serving mark now accepted)

theorem handOver {producer : Producer} (landed : traced.system.flight producer = none)
    (idle : producer = .pollLoop → traced.system.poll = .idle) (events : List Event) :
    Traced.Inv sub wanted
      (traced.handOver (traced.system.dispatchEvents sub producer events) producer events) := by
  have others : ∀ flight ∈ traced.system.inFlight,
      ∀ mark ∈ Function.update traced.pending producer (events.map stamp) flight.producer,
        sub.accepts mark.1 = true → mark ∈ flight.matching.map stamp := by
    intro flight membership
    rw [Function.update_of_ne (SubscribeSystem.flight_eq_none.mp landed flight membership)]
    exact inv.flying flight membership
  have matched : ∀ mark ∈ events.map stamp, sub.accepts mark.1 = true →
      mark ∈ (events.filter fun event => sub.accepts event.kv.key).map stamp := by
    intro mark membership accepted
    obtain ⟨event, inEvents, rfl⟩ := List.mem_map.mp membership
    exact List.mem_map_of_mem (List.mem_filter.mpr ⟨inEvents, accepted⟩)
  unfold Traced.handOver SubscribeSystem.dispatchEvents
  dsimp only
  split
  next nothing =>
    -- no event is for the subscription, and the dispatch is over at once
    rw [List.isEmpty_iff.mp nothing] at matched
    simp only [settle, landed, Function.update_self]
    refine { inv with flying := others, delivered := ?_ }
    intro serving mark membership accepted due
    obtain before | now := List.mem_append.mp membership
    · exact inv.delivered serving mark before accepted due
    · exact absurd (matched mark now accepted) List.not_mem_nil
  next =>
    have found := SubscribeSystem.flight_append traced.system
      ⟨producer, events.filter fun event => sub.accepts event.kv.key, false⟩ landed
    simp only [settle, found]
    refine { inv with polling := ?_, flying := ?_ }
    · exact List.forall_mem_append.mpr ⟨inv.polling, List.forall_mem_singleton.mpr idle⟩
    · refine List.forall_mem_append.mpr ⟨others, List.forall_mem_singleton.mpr ?_⟩
      simp only [Function.update_self]
      exact matched

/-- The batch goes on being in flight. -/
theorem check {producer : Producer} {flight : Flight}
    (found : traced.system.flight producer = some flight) :
    Traced.Inv sub wanted (settle
      { traced with
        system := { traced.system.land producer with
          inFlight :=
            (traced.system.land producer).inFlight ++ [{ flight with cleared := true }] } }
      producer) := by
  have membership := SubscribeSystem.flight_mem found
  obtain rfl := SubscribeSystem.flight_producer found
  have still := SubscribeSystem.flight_append (traced.system.land flight.producer)
    { flight with cleared := true } (SubscribeSystem.land_flight _)
  simp only [settle, still]
  refine { inv with polling := ?_, flying := ?_ }
  · refine List.forall_mem_append.mpr ⟨?_, List.forall_mem_singleton.mpr ?_⟩
    · exact fun other inFlight => inv.polling other (List.mem_of_mem_filter inFlight)
    · exact inv.polling flight membership
  · refine List.forall_mem_append.mpr ⟨?_, List.forall_mem_singleton.mpr ?_⟩
    · exact fun other inFlight => inv.flying other (List.mem_of_mem_filter inFlight)
    · exact inv.flying flight membership

theorem offer {producer : Producer} {flight : Flight}
    (found : traced.system.flight producer = some flight) :
    Traced.Inv sub wanted (settle
      { traced with
        system := { traced.system.land producer with
          channel := traced.system.channel.send flight.matching } }
      producer) := by
  have grows : traced.system.channel.sent ⊆ (traced.system.channel.send flight.matching).sent :=
    List.subset_append_left _ _
  refine (inv.setChannel grows).land producer fun _ mark membership accepted => ?_
  obtain rfl := SubscribeSystem.flight_producer found
  have matched := inv.flying flight (SubscribeSystem.flight_mem found) mark membership accepted
  simp only [Channel.send_sent, List.map_append, List.mem_append]
  exact .inr matched

end Traced.Inv

/-! ## The steps of the replay -/

/-- A row above the cursor is on the page of the replay, or comes after it. -/
theorem mem_page_or_later {world : World} (inv : world.Inv)
    (distinct : world.DistinctRevisions) {pre : Bytes} {replayRev : Int} {order : List Row}
    (ordered : IsRevOrder (afterRows world.db.kv pre (revToTS replayRev)) order) {row : Row}
    (stored : row ∈ world.db.kv) (selected : like (likePrefix pre) row.key = true)
    (above : replayRev < row.rev) :
    row ∈ order.take pollBatchSize.toNat ∨
      (order.take pollBatchSize.toNat).length = pollBatchSize.toNat ∧
        ∃ last, (order.take pollBatchSize.toNat).getLast? = some last ∧ last.rev < row.rev := by
  obtain ⟨committed, sorted, nodup⟩ := SubscribeSystem.order_rows inv ordered
  have ascending : order.Pairwise fun first second => first.rev < second.rev := by
    refine List.Pairwise.imp_of_mem ?_ (sorted.and nodup)
    intro first second firstMembership secondMembership both
    refine lt_of_le_of_ne both.1 fun same => both.2 ?_
    exact distinct first (committed first firstMembership).1 second
      (committed second secondMembership).1 same
  have late : revToTS replayRev < row.rev := by
    have afterEpoch := (inv.storedExact row stored).1
    unfold revToTS
    split <;> omega
  have queried : row ∈ order :=
    ordered.1.mem_iff.mpr (List.mem_filter.mpr ⟨stored, by simp [selected, late]⟩)
  exact Paging.mem_take_or_last_lt (by decide) ascending queried

namespace Traced.Inv

variable {sub : Subscription} {wanted : Row → Prop} {traced : Traced}
  (inv : traced.Inv sub wanted)

include inv

/-- A page together with what was sent before it. -/
theorem page {replayRev : Int} {call : AfterCall} {order : List Row}
    (selected : ∀ row, wanted row → like (likePrefix sub.pre) row.key = true)
    (distinct : traced.system.world.DistinctRevisions)
    (paging : traced.system.replay = .paging replayRev call)
    (ordered : IsRevOrder (afterRows traced.system.world.db.kv sub.pre (revToTS replayRev)) order)
    {row : Row} (isWanted : wanted row) :
    rowStamp row ∈ (traced.system.channel.sent ++
        (order.take pollBatchSize.toNat).map rowEvent).map stamp ∨
      ¬(((order.take pollBatchSize.toNat).map rowEvent).length : Int) < pollBatchSize ∧
        ∀ last, ((order.take pollBatchSize.toNat).map rowEvent).getLast? = some last →
          last.kv.rev < row.rev := by
  have covered := inv.replayed
  rw [paging] at covered
  rw [List.map_append, List.mem_append]
  obtain low | above := le_or_gt row.rev replayRev
  · exact .inl (.inl (covered row isWanted low))
  · have stored := inv.stored row isWanted
    obtain taken | later := mem_page_or_later inv.world distinct ordered stored
      (selected row isWanted) above
    · exact .inl (.inr (List.mem_map_of_mem (List.mem_map_of_mem taken)))
    · obtain ⟨full, lastRow, ends, before⟩ := later
      refine .inr ⟨by rw [List.length_map, full]; decide, fun last lastEvent => ?_⟩
      rw [List.getLast?_map, ends, Option.map_some, Option.some.injEq] at lastEvent
      have inOrder := List.mem_of_mem_take (List.mem_of_getLast? ends)
      have committed := (SubscribeSystem.order_rows inv.world ordered).1 lastRow inOrder
      have exact := tsToRev_of_exact (inv.world.exact lastRow committed.1)
      rw [← lastEvent]
      change tsToRev lastRow.rev < row.rev
      omega

theorem replayQuery {replayRev : Int} {call : AfterCall} {order : List Row}
    (selected : ∀ row, wanted row → like (likePrefix sub.pre) row.key = true)
    (distinct : traced.system.world.DistinctRevisions)
    (paging : traced.system.replay = .paging replayRev call)
    (ordered : IsRevOrder (afterRows traced.system.world.db.kv sub.pre (revToTS replayRev)) order)
    (revDb compactDb : DB) :
    Traced.Inv sub wanted
      { traced with
        system := { traced.system with
          replay := afterPage replayRev
            (after revDb compactDb order replayRev pollBatchSize).2 } } := by
  have pages := fun row (isWanted : wanted row) =>
    inv.page selected distinct paging ordered isWanted
  refine inv.setReplay ?_ (by rw [paging]; nofun)
  unfold after
  split
  · trivial
  · simp only [afterPage, limitClause_pollBatchSize]
    split
    next nothing =>
      -- an empty page is not full, so everything has been sent
      rw [List.isEmpty_iff.mp nothing, List.append_nil] at pages
      intro row isWanted
      exact (pages row isWanted).resolve_right fun later => later.1 (by decide)
    next =>
      intro row isWanted
      exact pages row isWanted

theorem replaySend {replayRev : Int} {events : List Event}
    (sending : traced.system.replay = .sending replayRev events) :
    Traced.Inv sub wanted
      { traced with
        system := { traced.system with
          channel := traced.system.channel.send events
          replay := afterSend replayRev events } } := by
  have covered := inv.replayed
  rw [sending] at covered
  have grows : traced.system.channel.sent ⊆ (traced.system.channel.send events).sent :=
    List.subset_append_left _ _
  have next := SubscribeSystem.afterSend_cases replayRev events
  generalize afterSend replayRev events = replay at next ⊢
  refine (inv.setChannel grows).setReplay ?_ (by simp only [sending]; nofun)
  obtain ⟨short, rfl⟩ | ⟨_, last, ends, rfl⟩ := next
  · intro row isWanted
    exact (covered row isWanted).resolve_right fun later => later.1 short
  · intro row isWanted low
    refine (covered row isWanted).resolve_right fun later => ?_
    have above := later.2 last ends
    omega

theorem close :
    Traced.Inv sub wanted
      { traced with
        system := { traced.system with replay := .draining, closed := true, canceled := true } } :=
  { inv with closing := fun _ => rfl, delivered := nofun, replayed := trivial }

theorem setWorld {action : Action} {world : World}
    (stepped : traced.system.world.step action = some world)
    (keeps : ∀ compactor, action ≠ .deleteBatch compactor) :
    Traced.Inv sub wanted { traced with system := { traced.system with world := world } } := by
  refine { inv with world := inv.world.step stepped, stored := fun row isWanted => ?_ }
  by_contra missing
  obtain ⟨compactor, deletes, _⟩ := step_deletes stepped (inv.stored row isWanted) missing
  exact keeps compactor deletes

theorem setPoll {poll : AfterCall} (pollRev : Int)
    (rests : poll = .idle ∨ traced.system.flight .pollLoop = none) :
    Traced.Inv sub wanted
      { traced with system := { traced.system with poll := poll, pollRev := pollRev } } := by
  refine { inv with polling := fun flight membership produced => ?_ }
  obtain idle | landed := rests
  · exact idle
  · exact absurd produced (SubscribeSystem.flight_eq_none.mp landed flight membership)

end Traced.Inv

theorem Traced.Inv.step {runtime : Runtime} {sub : Subscription} {wanted : Row → Prop}
    (past : 0 < sub.afterRev)
    (selected : ∀ row, wanted row → like (likePrefix sub.pre) row.key = true)
    (due : ∀ row, wanted row → sub.afterRev ≤ row.rev)
    {traced next : Traced} {action : SubscribeAction} (smooth : Smooth traced action)
    (stepped : traced.step runtime sub action = some next) (inv : traced.Inv sub wanted) :
    next.Inv sub wanted := by
  obtain ⟨system, moved, rfl⟩ := Option.map_eq_some_iff.mp stepped
  cases SubscribeSystem.step_move moved with
  | @other action world worldStep =>
      refine inv.setWorld worldStep fun compactor deletes => ?_
      rw [deletes] at smooth
      exact smooth.2
  | startLive starting fromNow => omega
  | startRefused starting => exact inv.setReplay trivial (by rw [starting]; nofun)
  | startPaging starting =>
      refine inv.setReplay (fun row isWanted low => ?_) (by rw [starting]; nofun)
      have late := due row isWanted
      omega
  | replayRead paging =>
      have covered := inv.replayed
      rw [paging] at covered
      exact inv.setReplay covered (by rw [paging]; nofun)
  | replayQuery paging ordered => exact inv.replayQuery selected smooth.1 paging ordered _ _
  | replaySend sending => exact inv.replaySend sending
  | replayFail failing =>
      refine inv.setReplay trivial ?_
      obtain starting | ⟨replayRev, call, paging⟩ := failing
      · rw [starting]
        nofun
      · rw [paging]
        nofun
  | replayDone canceled serving =>
      refine inv.setReplay trivial ?_
      obtain ⟨replayRev, events, sending⟩ | live := serving
      · rw [sending]
        nofun
      · rw [live]
        nofun
  | cancel => exact { inv with }
  | close => exact inv.close
  | discard draining discarded =>
      exact inv.setChannel (Channel.discard_sent discarded ▸ List.Subset.refl _)
  | drained => exact inv.setReplay trivial fun _ => rfl
  | sendSentinel =>
      have grows : traced.system.channel.sent ⊆ (traced.system.channel.send []).sent :=
        List.subset_append_left _ _
      exact (inv.setChannel grows).setReplay trivial fun _ => rfl
  | timeOut => exact inv.setReplay trivial fun _ => rfl
  | pollRead landed => exact inv.setPoll _ (.inr landed)
  | @pollQuery revDb compactDb order reading ordered =>
      simp only [record, reading]
      have landed : traced.system.flight .pollLoop = none := by
        rw [SubscribeSystem.flight_eq_none]
        intro flight membership produced
        have idle := inv.polling flight membership produced
        rw [reading] at idle
        cases idle
      have resting := inv.setPoll (doPoll revDb compactDb order traced.system.pollRev).2 (.inl rfl)
      exact resting.handOver landed (fun _ => rfl) _
  | pollFail => exact inv.setPoll _ (.inl rfl)
  | capture rows landed => exact inv.handOver landed nofun _
  | @skip producer flight found unchecked closed =>
      refine inv.land producer fun serving => ?_
      rw [closed] at serving
      cases serving
  | check found => exact inv.check found
  | offer found => exact inv.offer found
  | drop found cleared full => exact absurd smooth.2 full
  | receive received =>
      exact inv.setChannel (Channel.receive_sent received ▸ List.Subset.refl _)

theorem Traced.subscribe_inv {sub : Subscription} {wanted : Row → Prop} {world : World}
    (inv : world.Inv) (stored : ∀ row, wanted row → row ∈ world.db.kv) (pollRev : Int)
    (poll : AfterCall) {earlier : List Row}
    (known : ∀ row ∈ earlier, sub.accepts row.key = true → sub.afterRev ≤ tsToRev row.rev →
      wanted row) :
    (Traced.subscribe world pollRev poll earlier).Inv sub wanted where
  world := inv
  stored := stored
  closing := nofun
  polling := nofun
  flying := nofun
  delivered := by
    intro _ mark membership accepted due
    obtain ⟨row, inEarlier, rfl⟩ := List.mem_map.mp membership
    exact .inr ⟨row, known row inEarlier accepted due, rfl⟩
  replayed := trivial

/-- A live subscription has nothing left to the replay. -/
theorem Traced.Inv.complete {sub : Subscription} {wanted : Row → Prop} {traced : Traced}
    (inv : traced.Inv sub wanted) (live : traced.system.replay = .live) : traced.Complete sub := by
  have serving : traced.system.closed = false := by
    cases closed : traced.system.closed with
    | false => rfl
    | true =>
        have torn := inv.closing closed
        rw [live] at torn
        cases torn
  have covered := inv.replayed
  rw [live] at covered
  intro row _ accepted due dispatched
  obtain sent | ⟨other, isWanted, same⟩ := inv.delivered serving _ dispatched accepted due
  · exact sent
  · rw [← same]
    exact covered other isWanted

/-! ## Every run -/

/-- No run of a subscription above the horizon leaves a gap. -/
def LeavesNoGap (runtime : Runtime) (sub : Subscription) : Prop :=
  ∀ world pollRev poll earlier actions traced, Reachable world →
    ¬(compactRevision world.db > 1 ∧ sub.afterRev ≤ compactRevision world.db) →
    (∀ row ∈ earlier, row ∈ world.history) →
    Runs.Guarded (Traced.step runtime sub) Smooth
      (.subscribe world pollRev poll earlier) actions →
    Runs.run (Traced.step runtime sub) (.subscribe world pollRev poll earlier) actions =
      some traced →
    traced.system.replay = .live → traced.Complete sub

/-- The query of the replay selects every key that a dispatch accepts. -/
def Subscription.Selects (sub : Subscription) : Prop :=
  ∀ key, sub.accepts key = true → like (likePrefix sub.pre) key = true

theorem Subscription.Selects.leavesNoGap {sub : Subscription} (selects : sub.Selects)
    (past : 0 < sub.afterRev) (runtime : Runtime) : LeavesNoGap runtime sub := by
  intro world pollRev poll earlier actions traced reachable above committed smooth ran live
  let wanted (row : Row) : Prop :=
    row ∈ world.history ∧ sub.accepts row.key = true ∧ sub.afterRev ≤ row.rev
  have consistent := reachable.consistent
  have stored : ∀ row, wanted row → row ∈ world.db.kv := by
    intro row isWanted
    have afterEpoch := (consistent.inv.exact row isWanted.1).1
    have late := isWanted.2.2
    exact consistent.mem_kv isWanted.1 (by omega)
  have known : ∀ row ∈ earlier, sub.accepts row.key = true → sub.afterRev ≤ tsToRev row.rev →
      wanted row := by
    intro row membership accepted due
    rw [tsToRev_of_exact (consistent.inv.exact row (committed row membership))] at due
    exact ⟨committed row membership, accepted, due⟩
  have preserved : ∀ state action next, Smooth state action →
      Traced.step runtime sub state action = some next → state.Inv sub wanted →
        next.Inv sub wanted :=
    fun _ _ _ => Traced.Inv.step past (fun row isWanted => selects row.key isWanted.2.1)
      fun _ isWanted => isWanted.2.2
  exact (Runs.run_invariant_of_guarded preserved smooth ran
    (Traced.subscribe_inv consistent.inv stored pollRev poll known)).complete live

/-- The row of a key that is created first of all. -/
def firstRow (key : Bytes) (ts : CommitTs) : Row := (createInsert key none 0).toRow 0 ts.ns

def firstWorld (key : Bytes) (ts : CommitTs) : World :=
  { World.init with
    db := World.init.db.commit ts [createInsert key none 0]
    history := [firstRow key ts] }

theorem firstWorld_reachable (key : Bytes) (ts : CommitTs) : Reachable (firstWorld key ts) := by
  have created : World.init.step (.write (.create key none 0) ts) = some (firstWorld key ts) :=
    if_pos ts.afterEpoch
  exact .single created

theorem firstWorld_distinctRevisions (key : Bytes) (ts : CommitTs) :
    (firstWorld key ts).DistinctRevisions := by
  have committed : (firstWorld key ts).history = [firstRow key ts] := rfl
  simp [World.DistinctRevisions, committed]

/-- The poll loop has passed the row when the subscription is registered, and
the query of the replay selects nothing. -/
theorem unselected_replay (runtime : Runtime) {sub : Subscription} (past : 0 < sub.afterRev)
    {key : Bytes} (unselected : like (likePrefix sub.pre) key = false) (ts : CommitTs) :
    let start := Traced.subscribe (firstWorld key ts) ts.ns .idle [firstRow key ts]
    let actions := [.start, .replayRead, .replayRead, .replayQuery []]
    Runs.Guarded (Traced.step runtime sub) Smooth start actions ∧
      Runs.run (Traced.step runtime sub) start actions =
        some { start with system := { start.system with replay := .live } } := by
  have distinct := firstWorld_distinctRevisions key ts
  have horizon : compactRevision (firstWorld key ts).db = 1 := rfl
  have nothing : afterRows (firstWorld key ts).db.kv sub.pre (revToTS (sub.afterRev - 1)) = [] := by
    have stored : (firstWorld key ts).db.kv = [firstRow key ts] := rfl
    have sameKey : (firstRow key ts).key = key := rfl
    simp [afterRows, stored, sameKey, unselected]
  have ordered : IsRevOrder [] [] := by decide
  have accepted : ¬(1 < sub.afterRev ∧ sub.afterRev ≤ 1) := by omega
  simp [Runs.Guarded, Smooth, Runs.run, Traced.step, Traced.subscribe, SubscribeSystem.subscribe,
    SubscribeSystem.step, AfterCall.read, Traced.record, past.ne', horizon, nothing, ordered,
    accepted, distinct, after, afterPage, limitClause_pollBatchSize, Channel.empty]

theorem LeavesNoGap.selects {runtime : Runtime} {sub : Subscription}
    (noGap : LeavesNoGap runtime sub) (past : 0 < sub.afterRev) (range : sub.afterRev < 2 ^ 63) :
    sub.Selects := by
  intro key accepted
  by_contra unselected
  let ts : CommitTs :=
    { ns := max sub.afterRev 2, afterEpoch := by omega, fitsInt64 := by omega }
  obtain ⟨smooth, ran⟩ :=
    unselected_replay runtime past (Bool.eq_false_of_not_eq_true unselected) ts
  have committed : firstRow key ts ∈ (firstWorld key ts).history := List.mem_singleton_self _
  have above : ¬(compactRevision (firstWorld key ts).db > 1 ∧
      sub.afterRev ≤ compactRevision (firstWorld key ts).db) := by
    have horizon : compactRevision (firstWorld key ts).db = 1 := rfl
    omega
  have complete := noGap _ _ _ _ _ _ (firstWorld_reachable key ts) above
    (List.forall_mem_singleton.mpr committed) smooth ran rfl
  have due : sub.afterRev ≤ tsToRev (firstRow key ts).rev := by
    have revision : tsToRev (firstRow key ts).rev = max sub.afterRev 2 := tsToRev_of_exact ts.exact
    rw [revision]
    exact le_max_left _ _
  have sent := complete (firstRow key ts) committed accepted due (List.mem_singleton_self _)
  exact absurd sent List.not_mem_nil

/-- A subscription above the horizon is sent every row that is due and whose
dispatch has taken place, whenever the row was committed, exactly if the query
of its replay selects every key that a dispatch accepts. -/
theorem no_gap_iff_replay_selects (runtime : Runtime) {sub : Subscription}
    (past : 0 < sub.afterRev) (range : sub.afterRev < 2 ^ 63) :
    LeavesNoGap runtime sub ↔ sub.Selects := by
  constructor
  · exact fun noGap => noGap.selects past range
  · exact fun selects => selects.leavesNoGap past runtime

theorem Subscription.selects_of_literal {sub : Subscription} (literal : Literal sub.pre) :
    sub.Selects := by
  intro key accepted
  rw [accepts_iff_isPrefix, literal.trimPercent] at accepted
  exact (like_likePrefix_of_literal literal key).mpr accepted

/-- An update is committed and polled between the start of the replay and its
query. -/
def racingRun : List SubscribeAction :=
  [.start, .replayRead, .replayRead,
    .other (.write (.update (ascii "k") (some (ascii "w")) 5 0) 6),
    .pollRead, .pollRead, .pollQuery [updatedRow], .check .pollLoop, .offer .pollLoop,
    .replayQuery [createdRow, updatedRow], .replaySend]

def racingEnd : Traced :=
  (Runs.run (Traced.step tombstoneRuntime subscriptionToK)
    (.subscribe createdWorld 5 .idle [createdRow]) racingRun).getD
    (.subscribe createdWorld 5 .idle [createdRow])

set_option maxRecDepth 2000 in
theorem racingEnd_complete :
    racingEnd.dispatched = [(ascii "k", 5), (ascii "k", 6)] ∧
      racingEnd.Complete subscriptionToK := by
  have ran : Runs.run (Traced.step tombstoneRuntime subscriptionToK)
      (.subscribe createdWorld 5 .idle [createdRow]) racingRun = some racingEnd := rfl
  have selects : subscriptionToK.Selects := Subscription.selects_of_literal (by decide)
  have noGap := (no_gap_iff_replay_selects tombstoneRuntime (by decide) (by decide)).mpr selects
  exact ⟨rfl, noGap createdWorld 5 .idle [createdRow] racingRun racingEnd
    createdWorld_reachable (by decide) (by decide) (by decide) ran rfl⟩

/-- A key that begins with a backslash was created and dispatched before a
subscription to the backslash.  The pattern of the replay is an escaped `%`, so
the row is not replayed, and it is never dispatched again. -/
theorem backslash_prefix_leaves_gap :
    ∃ runtime sub world pollRev poll earlier actions traced, Reachable world ∧
      0 < sub.afterRev ∧
      ¬(compactRevision world.db > 1 ∧ sub.afterRev ≤ compactRevision world.db) ∧
      (∀ row ∈ earlier, row ∈ world.history) ∧
      Runs.Guarded (Traced.step runtime sub) Smooth
        (.subscribe world pollRev poll earlier) actions ∧
      Runs.run (Traced.step runtime sub) (.subscribe world pollRev poll earlier) actions =
        some traced ∧
      traced.system.replay = .live ∧ traced.system.canceled = false ∧
      (∀ row ∈ traced.system.world.history, rowStamp row ∈ traced.dispatched) ∧
      ¬traced.Complete sub := by
  let sub : Subscription := { pre := ascii "\\", afterRev := 5 }
  let key := ascii "\\x"
  obtain ⟨smooth, ran⟩ := unselected_replay tombstoneRuntime
    (show 0 < sub.afterRev by decide) (show like (likePrefix sub.pre) key = false by decide) 5
  refine ⟨tombstoneRuntime, sub, firstWorld key 5, _, .idle, _, _, _, firstWorld_reachable key 5,
    by decide, by decide, by decide, smooth, ran, rfl, rfl, by decide, ?_⟩
  intro complete
  have sent := complete (firstRow key 5) (by decide) (by decide) (by decide) (by decide)
  exact absurd sent List.not_mem_nil

end SpannerEtcd
