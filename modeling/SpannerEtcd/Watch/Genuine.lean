import SpannerEtcd.Watch.Projection

/-!
# What the channel of a subscriber holds

An event reaches a subscriber on a page of its replay, from the poll loop or
from a record of the change stream.  On every way it is the event of a
committed row, and what was sent stays in the channel until the reader takes it
or the subscription is torn down.
-/

namespace SpannerEtcd

/-! ## Events of committed rows -/

/-- The event is that of the row.  A record of the change stream leaves out the
old value, and nil and empty byte strings are not told apart. -/
def Event.Tells (event : Event) (row : Row) : Prop :=
  event.normalize = (rowEvent row).normalize ∨ event.normalize = (capturedEvent row).normalize

theorem Event.Tells.key {event : Event} {row : Row} (tells : event.Tells row) :
    event.kv.key = row.key := by
  rcases tells with same | same
  · exact congrArg (fun event : Event => event.kv.key) same
  · exact congrArg (fun event : Event => event.kv.key) same

theorem Event.Tells.rev {event : Event} {row : Row} (tells : event.Tells row) :
    event.kv.rev = tsToRev row.rev := by
  rcases tells with same | same
  · exact congrArg (fun event : Event => event.kv.rev) same
  · exact congrArg (fun event : Event => event.kv.rev) same

/-- The keys that a dispatch or the query of the replay selects. -/
def Subscription.Wants (sub : Subscription) (key : Bytes) : Prop :=
  sub.accepts key = true ∨ like (likePrefix sub.pre) key = true

def Subscription.Sees (sub : Subscription) (history : List Row) (event : Event) : Prop :=
  ∃ row ∈ history, sub.Wants row.key ∧ event.Tells row

theorem tells_of_page {order : List Row} (limit : Int) :
    ∀ event ∈ (limitClause limit order).map rowEvent, ∃ row ∈ order, event.Tells row := by
  intro event membership
  obtain ⟨row, selected, rfl⟩ := List.mem_map.mp membership
  exact ⟨row, (limitClause_sublist limit order).subset selected, .inl rfl⟩

theorem tells_of_polled {revDb compactDb : DB} {order : List Row} {lastRev : Int} :
    ∀ event ∈ (doPoll revDb compactDb order lastRev).1, ∃ row ∈ order, event.Tells row := by
  unfold doPoll after
  by_cases refused : lastRev > 0 ∧ lastRev < compactRevision compactDb
  · simp [refused]
  · simpa only [if_neg refused] using tells_of_page pollBatchSize

theorem tells_of_captured {runtime : Runtime} {rows : List Row} {gcv : Value}
    (emitted : ChangeRecord runtime rows gcv) :
    ∀ event ∈ (decodeRecord runtime gcv).events, ∃ row ∈ rows, event.Tells row := by
  intro event membership
  have decoded : event.normalize ∈ capturedEvents rows := by
    rw [← decodeRecord_captured emitted]
    exact List.mem_map_of_mem membership
  obtain ⟨row, selected, same⟩ := List.mem_map.mp decoded
  exact ⟨row, (List.mem_filter.mp selected).1, .inr same.symm⟩

/-! ## One subscriber -/

theorem Subscription.Sees.mono {sub : Subscription} {history later : List Row} {event : Event}
    (seen : sub.Sees history event) (extended : ∀ row ∈ history, row ∈ later) :
    sub.Sees later event := by
  obtain ⟨row, committed, wanted, tells⟩ := seen
  exact ⟨row, extended row committed, wanted, tells⟩

/-- Everything on its way to the reader is the event of a committed row, and
until the goroutine has torn the subscription down, nothing of it is lost. -/
structure Subscriber.Holds (history : List Row) (subscriber : Subscriber) : Prop where
  sent : ∀ event ∈ subscriber.channel.sent, subscriber.sub.Sees history event
  replaying : ∀ replayRev events, subscriber.replay = .sending replayRev events →
    ∀ event ∈ events, subscriber.sub.Sees history event
  kept : subscriber.replay.torn = false →
    subscriber.channel.received ++ subscriber.channel.queue.flatten = subscriber.channel.sent

/-- No page waits for room in the channel. -/
def Replay.silent : Replay → Bool
  | .sending _ _ => false
  | .starting | .paging _ _ | .live | .returning | .draining | .sentinel | .ended => true

namespace Subscriber.Holds

variable {history : List Row} {subscriber : Subscriber}

theorem new (history : List Row) (sub : Subscription) : (Subscriber.new sub).Holds history where
  sent := List.forall_mem_nil _
  replaying := by rintro _ _ ⟨⟩
  kept := fun _ => rfl

theorem mono (holds : subscriber.Holds history) {later : List Row}
    (extended : ∀ row ∈ history, row ∈ later) : subscriber.Holds later where
  sent := by
    intro event membership
    exact (holds.sent event membership).mono extended
  replaying := by
    intro replayRev events sending event membership
    exact (holds.replaying replayRev events sending event membership).mono extended
  kept := holds.kept

/-- The goroutine goes on with nothing to send. -/
theorem setReplay (holds : subscriber.Holds history) (replay : Replay) (closed canceled : Bool)
    (silent : replay.silent = true)
    (forward : replay.torn = true ∨ subscriber.replay.torn = false) :
    Subscriber.Holds history
      { subscriber with replay := replay, closed := closed, canceled := canceled } where
  sent := holds.sent
  replaying := by
    intro replayRev events sending
    rw [show replay = _ from sending] at silent
    cases silent
  kept := by
    intro untorn
    rcases forward with torn | untornBefore
    · cases untorn.symm.trans torn
    · exact holds.kept untornBefore

theorem send (holds : subscriber.Holds history) {batch : List Event}
    (seen : ∀ event ∈ batch, subscriber.sub.Sees history event) :
    Subscriber.Holds history { subscriber with channel := subscriber.channel.send batch } where
  sent := List.forall_mem_append.mpr ⟨holds.sent, seen⟩
  replaying := holds.replaying
  kept := by
    intro untorn
    have kept := holds.kept untorn
    simp [Channel.send, ← kept]

theorem afterSend_silent (replayRev : Int) (events : List Event) :
    (afterSend replayRev events).silent = true := by
  unfold afterSend
  split_ifs <;> rfl

/-- A page of the replay. -/
theorem replayQuery {world : World} (inv : world.Inv) (holds : subscriber.Holds world.history)
    {replayRev : Int} {call : AfterCall} {order : List Row} (revDb compactDb : DB)
    (paging : subscriber.replay = .paging replayRev call)
    (ordered : IsRevOrder (afterRows world.db.kv subscriber.sub.pre (revToTS replayRev)) order) :
    Subscriber.Holds world.history
      { subscriber with
        replay :=
          afterPage replayRev (after revDb compactDb order replayRev pollBatchSize).2 } where
  sent := holds.sent
  replaying := by
    intro rev events sending event membership
    have page : ∃ row ∈ order, event.Tells row := by
      unfold after at sending
      split at sending
      · cases sending
      · simp only [afterPage] at sending
        split at sending
        · cases sending
        · cases sending
          exact tells_of_page pollBatchSize event membership
    obtain ⟨row, selected, tells⟩ := page
    have stored := List.mem_filter.mp (ordered.1.mem_iff.mp selected)
    rw [Bool.and_eq_true] at stored
    exact ⟨row, inv.mem_history stored.1, .inr stored.2.1, tells⟩
  kept := fun _ => holds.kept (by rw [paging]; rfl)

/-- A step of the goroutine, of its context or of the reader. -/
theorem own {runtime : Runtime} {fan : FanOut} (inv : fan.world.Inv)
    (holds : subscriber.Holds fan.world.history) {action : SubscribeAction}
    (own : action.own = true) {after : SubscribeSystem}
    (move : SubscribeMove runtime subscriber.sub (fan.view subscriber) action after) :
    (subscriber.put after).Holds fan.world.history := by
  have untorn : ∀ {replay : Replay}, subscriber.replay = replay → replay.torn = false →
      subscriber.replay.torn = false := fun standing => standing ▸ id
  cases move with
  | startLive starting => exact holds.setReplay _ _ _ rfl (.inr (untorn starting rfl))
  | startRefused starting => exact holds.setReplay _ _ _ rfl (.inr (untorn starting rfl))
  | startPaging starting => exact holds.setReplay _ _ _ rfl (.inr (untorn starting rfl))
  | replayRead paging => exact holds.setReplay _ _ _ rfl (.inr (untorn paging rfl))
  | replayQuery paging ordered => exact replayQuery inv holds _ _ paging ordered
  | @replaySend replayRev events sending room =>
      have silent := afterSend_silent replayRev events
      generalize afterSend replayRev events = replay at silent
      exact (holds.send (holds.replaying replayRev events sending)).setReplay replay _ _ silent
        (.inr (untorn sending rfl))
  | replayFail failing =>
      obtain starting | ⟨replayRev, call, paging⟩ := failing
      · exact holds.setReplay _ _ _ rfl (.inr (untorn starting rfl))
      · exact holds.setReplay _ _ _ rfl (.inr (untorn paging rfl))
  | replayDone canceled serving =>
      obtain ⟨replayRev, events, sending⟩ | live := serving
      · exact holds.setReplay _ _ _ rfl (.inr (untorn sending rfl))
      · exact holds.setReplay _ _ _ rfl (.inr (untorn live rfl))
  | cancel => exact ⟨holds.sent, holds.replaying, holds.kept⟩
  | close => exact holds.setReplay _ _ _ rfl (.inl rfl)
  | discard draining discarded =>
      have sent := Channel.discard_sent discarded
      have torn : subscriber.replay.torn = true := by
        rw [show subscriber.replay = _ from draining]
        rfl
      refine ⟨sent.symm ▸ holds.sent, holds.replaying, fun untornNow => ?_⟩
      cases torn.symm.trans untornNow
  | drained draining => exact holds.setReplay _ _ _ rfl (.inl rfl)
  | sendSentinel drained room =>
      exact (holds.send (List.forall_mem_nil _)).setReplay _ _ _ rfl (.inl rfl)
  | timeOut drained => exact holds.setReplay _ _ _ rfl (.inl rfl)
  | receive received =>
      obtain ⟨batch, queued, taken⟩ := Channel.receive_received received
      have sent := Channel.receive_sent received
      refine ⟨sent.symm ▸ holds.sent, holds.replaying, fun untornNow => ?_⟩
      have kept := holds.kept untornNow
      rw [show subscriber.channel.queue = _ from queued, List.flatten_cons, ← List.append_assoc]
        at kept
      exact (congrArg (· ++ _) taken).trans (kept.trans sent.symm)
  | other | pollRead | pollQuery | pollFail | capture | skip | check | offer | drop => cases own

end Subscriber.Holds

/-! ## The whole watcher -/

structure FanOut.Genuine (fan : FanOut) : Prop where
  reachable : Reachable fan.world
  dispatched : ∀ producer dispatch, fan.dispatches producer = some dispatch →
    ∀ event ∈ dispatch.events, ∃ row ∈ fan.world.history, event.Tells row
  holds : ∀ subscriber ∈ fan.registered, subscriber.Holds fan.world.history

namespace FanOut.Genuine

variable {runtime : Runtime} {fan next : FanOut}

theorem init {world : World} (reachable : Reachable world) (pollRev : Int) :
    (FanOut.init world pollRev).Genuine where
  reachable := reachable
  dispatched := by rintro _ _ ⟨⟩
  holds := List.forall_mem_nil _

theorem set (genuine : fan.Genuine) (id : Nat) {changed : Subscriber}
    (holds : changed.Holds fan.world.history) :
    { fan with registered := fan.registered.set id changed }.Genuine where
  reachable := genuine.reachable
  dispatched := genuine.dispatched
  holds := by
    intro subscriber membership
    rcases List.mem_or_eq_of_mem_set membership with before | rfl
    · exact genuine.holds subscriber before
    · exact holds

theorem serve (genuine : fan.Genuine) (producer : Producer) {dispatch : Option Dispatch}
    (tells : ∀ serving ∈ dispatch, ∀ event ∈ serving.events,
      ∃ row ∈ fan.world.history, event.Tells row) :
    (fan.serve producer dispatch).Genuine where
  reachable := genuine.reachable
  dispatched := by
    intro other standing found
    rcases eq_or_ne other producer with rfl | different
    · simp only [FanOut.serve, Function.update_self] at found
      exact tells standing found
    · simp only [FanOut.serve, Function.update_of_ne different] at found
      exact genuine.dispatched other standing found
  holds := genuine.holds

theorem serving (genuine : fan.Genuine) (producer : Producer) {events : List Event}
    (subs : List Nat) (tells : ∀ event ∈ events, ∃ row ∈ fan.world.history, event.Tells row) :
    (fan.serve producer (Dispatch.serving events subs)).Genuine := by
  apply genuine.serve producer
  intro serving found
  unfold Dispatch.serving at found
  split_ifs at found
  · cases found
  · cases found
    exact tells

theorem dispatchEvents (genuine : fan.Genuine) (producer : Producer) {events : List Event}
    (tells : ∀ event ∈ events, ∃ row ∈ fan.world.history, event.Tells row) :
    (fan.dispatchEvents producer events).Genuine := by
  unfold FanOut.dispatchEvents
  split_ifs
  · exact genuine
  · exact genuine.serving producer _ tells

theorem other (genuine : fan.Genuine) {action : Action} {world : World}
    (stepped : fan.world.step action = some world) : { fan with world := world }.Genuine where
  reachable := genuine.reachable.trans (.single stepped)
  dispatched := by
    intro producer dispatch dispatching event membership
    obtain ⟨row, committed, tells⟩ :=
      genuine.dispatched producer dispatch dispatching event membership
    exact ⟨row, (World.step_effect stepped).extends.mem_history committed, tells⟩
  holds := fun subscriber membership => (genuine.holds subscriber membership).mono
    fun _ committed => (World.step_effect stepped).extends.mem_history committed

theorem move (genuine : fan.Genuine) {action : FanOutAction}
    (met : fan.Delivered runtime action) (move : FanOutMove runtime fan action next) :
    next.Genuine := by
  have inv := genuine.reachable.inv
  cases move with
  | other stepped => exact genuine.other stepped
  | subscribe sub =>
      refine ⟨genuine.reachable, genuine.dispatched, ?_⟩
      exact List.forall_mem_append.mpr
        ⟨genuine.holds, List.forall_mem_singleton.mpr (.new _ sub)⟩
  | @own id subscriber action after found permitted stepped =>
      have holds := genuine.holds subscriber (List.mem_of_getElem? found)
      exact genuine.set id (holds.own inv (own_of_permits permitted)
        (SubscribeSystem.step_move stepped))
  | removeSub | pollRead | pollFail => exact ⟨genuine.reachable, genuine.dispatched, genuine.holds⟩
  | @pollQuery revDb compactDb order reading landed ordered =>
      have polled : { fan with
          poll := .idle
          pollRev := (doPoll revDb compactDb order fan.pollRev).2 }.Genuine :=
        ⟨genuine.reachable, genuine.dispatched, genuine.holds⟩
      refine polled.dispatchEvents .pollLoop fun event membership => ?_
      obtain ⟨row, selected, tells⟩ := tells_of_polled event membership
      exact ⟨row, ((SubscribeSystem.order_rows inv ordered).1 row selected).1, tells⟩
  | capture rows landed =>
      refine genuine.dispatchEvents _ fun event membership => ?_
      obtain ⟨row, selected, tells⟩ := tells_of_captured met.1 event membership
      exact ⟨row, met.2.1 row selected, tells⟩
  | pass serving found skipped =>
      exact genuine.serving _ _ (genuine.dispatched _ _ serving)
  | clear serving found wanted unclosed =>
      have tells := genuine.dispatched _ _ serving
      apply genuine.serve
      rintro _ ⟨⟩
      exact tells
  | @offer producer events id rest subscriber serving found room =>
      have tells := genuine.dispatched _ _ serving
      have seen : ∀ event ∈ subscriber.sub.matching events,
          subscriber.sub.Sees fan.world.history event := by
        intro event membership
        obtain ⟨inEvents, accepted⟩ := List.mem_filter.mp membership
        obtain ⟨row, committed, told⟩ := tells event inEvents
        exact ⟨row, committed, .inl (told.key ▸ accepted), told⟩
      have holds := genuine.holds subscriber (List.mem_of_getElem? found)
      exact (genuine.serving producer rest tells).set id (holds.send seen)
  | @drop producer events id rest subscriber serving found full =>
      have tells := genuine.dispatched _ _ serving
      have holds := genuine.holds subscriber (List.mem_of_getElem? found)
      exact (genuine.serving producer rest tells).set id ⟨holds.sent, holds.replaying, holds.kept⟩

end FanOut.Genuine

end SpannerEtcd
