import SpannerEtcd.Lib.Progress
import SpannerEtcd.Lib.SharedSlice
import SpannerEtcd.Watch.ReplayGap

/-!
# All subscribers of a watcher

The poll loop and the partition readers share one list of subscribers.
`dispatchEvents` copies the list and then serves the subscribers one after the
other, while they register and remove themselves.  No subscriber can make a
dispatch wait.
-/

namespace SpannerEtcd

structure Subscriber where
  sub : Subscription
  replay : Replay
  channel : Channel Event
  closed : Bool
  canceled : Bool

def Subscriber.new (sub : Subscription) : Subscriber :=
  { sub := sub, replay := .starting, channel := .empty, closed := false, canceled := false }

def Subscription.matching (sub : Subscription) (events : List Event) : List Event :=
  events.filter fun event => sub.accepts event.kv.key

/-- A call of `dispatchEvents`.  The first of the copied subscribers is being
served; it is cleared once its closed flag has been found unset. -/
structure Dispatch where
  events : List Event
  subs : List Nat
  cleared : Bool

/-- The loop of `dispatchEvents` ends with the last subscriber. -/
def Dispatch.serving (events : List Event) (subs : List Nat) : Option Dispatch :=
  if subs.isEmpty then none else some ⟨events, subs, false⟩

/-- Subscribers are pointers into `registered`; `subscribers` is the slice that
the lock of the watcher guards. -/
structure FanOut where
  world : World
  pollRev : Int
  poll : AfterCall
  registered : List Subscriber
  subscribers : SharedSlice Nat
  dispatches : Producer → Option Dispatch

def FanOut.init (world : World) (pollRev : Int) : FanOut :=
  { world := world, pollRev := pollRev, poll := .idle, registered := [], subscribers := .empty
    dispatches := fun _ => none }

def FanOut.serve (fan : FanOut) (producer : Producer) (dispatch : Option Dispatch) : FanOut :=
  { fan with dispatches := Function.update fan.dispatches producer dispatch }

def FanOut.dispatchEvents (fan : FanOut) (producer : Producer) (events : List Event) : FanOut :=
  if events.isEmpty then fan
  else fan.serve producer (Dispatch.serving events fan.subscribers.toList)

/-- Steps of the goroutine of one subscriber, of its context and of the reader
of its channel. -/
def SubscribeAction.own : SubscribeAction → Bool
  | .start | .replayRead | .replayQuery _ | .replaySend | .replayFail | .replayDone | .cancel
  | .close | .drain | .sendSentinel _ | .receive => true
  | .other _ | .pollRead | .pollQuery _ | .pollFail | .capture _ _ _ | .check _ | .offer _ => false

/-- The goroutine drains its channel after it has removed its subscriber. -/
def FanOut.permits (fan : FanOut) (id : Nat) : SubscribeAction → Bool
  | .drain => !fan.subscribers.toList.contains id
  | action => action.own

/-- What a subscriber's own goroutine sees. -/
def FanOut.view (fan : FanOut) (subscriber : Subscriber) : SubscribeSystem :=
  { world := fan.world, pollRev := fan.pollRev, poll := fan.poll, replay := subscriber.replay
    inFlight := [], channel := subscriber.channel, closed := subscriber.closed
    canceled := subscriber.canceled }

def Subscriber.put (subscriber : Subscriber) (system : SubscribeSystem) : Subscriber :=
  { sub := subscriber.sub, replay := system.replay, channel := system.channel
    closed := system.closed, canceled := system.canceled }

inductive FanOutAction where
  | other (action : Action)
  | subscribe (sub : Subscription)
  | own (id : Nat) (action : SubscribeAction)
  | removeSub (id : Nat)
  | pollRead
  | pollQuery (order : List Row)
  | pollFail
  | capture (partition : Nat) (rows : List Row) (gcv : Value)
  /-- The next subscriber of a dispatch: its filter and its closed flag. -/
  | visit (producer : Producer)
  | offer (producer : Producer)

def FanOut.step (runtime : Runtime) (fan : FanOut) : FanOutAction → Option FanOut
  | .other action => (fan.world.step action).map fun next => { fan with world := next }
  | .subscribe sub =>
      some { fan with
        registered := fan.registered ++ [.new sub]
        subscribers := fan.subscribers.append fan.registered.length }
  | .own id action =>
      match fan.registered[id]? with
      | some subscriber =>
          if fan.permits id action then
            ((fan.view subscriber).step runtime subscriber.sub action).map fun next =>
              { fan with registered := fan.registered.set id (subscriber.put next) }
          else none
      | none => none
  | .removeSub id =>
      match fan.registered[id]? with
      | some { replay := .draining, .. } =>
          if fan.subscribers.toList.contains id then
            some { fan with
              subscribers := fan.subscribers.filterInPlace fun other => other ≠ id }
          else none
      | _ => none
  | .pollRead =>
      if (fan.dispatches .pollLoop).isSome then none
      else (fan.poll.read fan.world.db).map fun next => { fan with poll := next }
  | .pollQuery order =>
      match fan.poll with
      | .horizonRead revDb compactDb =>
          if (fan.dispatches .pollLoop).isSome then none
          else if IsRevOrder (afterRows fan.world.db.kv [] (revToTS fan.pollRev)) order then
            let (events, curRev) := doPoll revDb compactDb order fan.pollRev
            some ({ fan with poll := .idle, pollRev := curRev }.dispatchEvents .pollLoop events)
          else none
      | _ => none
  | .pollFail => some { fan with poll := .idle }
  | .capture partition _ gcv =>
      if (fan.dispatches (.partition partition)).isSome then none
      else some (fan.dispatchEvents (.partition partition) (decodeRecord runtime gcv).events)
  | .visit producer =>
      match fan.dispatches producer with
      | some ⟨events, id :: rest, false⟩ =>
          match fan.registered[id]? with
          | some subscriber =>
              if (subscriber.sub.matching events).isEmpty || subscriber.closed then
                some (fan.serve producer (Dispatch.serving events rest))
              else some (fan.serve producer (some ⟨events, id :: rest, true⟩))
          | none => none
      | _ => none
  | .offer producer =>
      match fan.dispatches producer with
      | some ⟨events, id :: rest, true⟩ =>
          match fan.registered[id]? with
          | some subscriber =>
              let served :=
                if subscriber.channel.queue.length < subChannelDepth then
                  { subscriber with
                    channel := subscriber.channel.send (subscriber.sub.matching events) }
                else { subscriber with canceled := true }
              some { fan.serve producer (Dispatch.serving events rest) with
                registered := fan.registered.set id served }
          | none => none
      | _ => none

section
variable {runtime : Runtime} {fan next : FanOut}

/-! ## What a step can be -/

inductive FanOutMove (runtime : Runtime) (fan : FanOut) : FanOutAction → FanOut → Prop where
  | other {action : Action} {world : World} (stepped : fan.world.step action = some world) :
      FanOutMove runtime fan (.other action) { fan with world := world }
  | subscribe (sub : Subscription) :
      FanOutMove runtime fan (.subscribe sub)
        { fan with
          registered := fan.registered ++ [.new sub]
          subscribers := fan.subscribers.append fan.registered.length }
  | own {id : Nat} {subscriber : Subscriber} {action : SubscribeAction} {after : SubscribeSystem}
      (found : fan.registered[id]? = some subscriber) (permitted : fan.permits id action = true)
      (stepped : (fan.view subscriber).step runtime subscriber.sub action = some after) :
      FanOutMove runtime fan (.own id action)
        { fan with registered := fan.registered.set id (subscriber.put after) }
  | removeSub {id : Nat} {subscriber : Subscriber}
      (found : fan.registered[id]? = some subscriber) (draining : subscriber.replay = .draining) :
      FanOutMove runtime fan (.removeSub id)
        { fan with subscribers := fan.subscribers.filterInPlace fun other => other ≠ id }
  | pollRead {read : AfterCall} (landed : fan.dispatches .pollLoop = none)
      (reads : fan.poll.read fan.world.db = some read) :
      FanOutMove runtime fan .pollRead { fan with poll := read }
  | pollQuery {revDb compactDb : DB} {order : List Row}
      (reading : fan.poll = .horizonRead revDb compactDb)
      (landed : fan.dispatches .pollLoop = none)
      (ordered : IsRevOrder (afterRows fan.world.db.kv [] (revToTS fan.pollRev)) order) :
      FanOutMove runtime fan (.pollQuery order)
        ({ fan with
          poll := .idle
          pollRev := (doPoll revDb compactDb order fan.pollRev).2 }.dispatchEvents .pollLoop
            (doPoll revDb compactDb order fan.pollRev).1)
  | pollFail : FanOutMove runtime fan .pollFail { fan with poll := .idle }
  | capture {number : Nat} (rows : List Row) {gcv : Value}
      (landed : fan.dispatches (.partition number) = none) :
      FanOutMove runtime fan (.capture number rows gcv)
        (fan.dispatchEvents (.partition number) (decodeRecord runtime gcv).events)
  | pass {producer : Producer} {events : List Event} {id : Nat} {rest : List Nat}
      {subscriber : Subscriber}
      (serving : fan.dispatches producer = some ⟨events, id :: rest, false⟩)
      (found : fan.registered[id]? = some subscriber)
      (skipped : subscriber.sub.matching events = [] ∨ subscriber.closed = true) :
      FanOutMove runtime fan (.visit producer)
        (fan.serve producer (Dispatch.serving events rest))
  | clear {producer : Producer} {events : List Event} {id : Nat} {rest : List Nat}
      {subscriber : Subscriber}
      (serving : fan.dispatches producer = some ⟨events, id :: rest, false⟩)
      (found : fan.registered[id]? = some subscriber)
      (wanted : subscriber.sub.matching events ≠ []) (unclosed : subscriber.closed = false) :
      FanOutMove runtime fan (.visit producer)
        (fan.serve producer (some ⟨events, id :: rest, true⟩))
  | offer {producer : Producer} {events : List Event} {id : Nat} {rest : List Nat}
      {subscriber : Subscriber}
      (serving : fan.dispatches producer = some ⟨events, id :: rest, true⟩)
      (found : fan.registered[id]? = some subscriber)
      (room : subscriber.channel.queue.length < subChannelDepth) :
      FanOutMove runtime fan (.offer producer)
        { fan.serve producer (Dispatch.serving events rest) with
          registered := fan.registered.set id
            { subscriber with
              channel := subscriber.channel.send (subscriber.sub.matching events) } }
  | drop {producer : Producer} {events : List Event} {id : Nat} {rest : List Nat}
      {subscriber : Subscriber}
      (serving : fan.dispatches producer = some ⟨events, id :: rest, true⟩)
      (found : fan.registered[id]? = some subscriber)
      (full : ¬subscriber.channel.queue.length < subChannelDepth) :
      FanOutMove runtime fan (.offer producer)
        { fan.serve producer (Dispatch.serving events rest) with
          registered := fan.registered.set id { subscriber with canceled := true } }

namespace FanOut

theorem step_move {action : FanOutAction} (stepped : fan.step runtime action = some next) :
    FanOutMove runtime fan action next := by
  cases action with
  | other action =>
    obtain ⟨world, moved, rfl⟩ := Option.map_eq_some_iff.mp stepped
    exact .other moved
  | subscribe sub =>
    obtain rfl := Option.some.inj stepped
    exact .subscribe sub
  | own id action =>
    simp only [step] at stepped
    split at stepped
    next subscriber found =>
      split_ifs at stepped with permitted
      obtain ⟨after, moved, rfl⟩ := Option.map_eq_some_iff.mp stepped
      exact .own found permitted moved
    next => cases stepped
  | removeSub id =>
    simp only [step] at stepped
    split at stepped
    next found =>
      split_ifs at stepped with listed
      obtain rfl := Option.some.inj stepped
      exact .removeSub found rfl
    next => cases stepped
  | pollRead =>
    simp only [step] at stepped
    split_ifs at stepped with busy
    obtain ⟨read, reads, rfl⟩ := Option.map_eq_some_iff.mp stepped
    exact .pollRead (Option.not_isSome_iff_eq_none.mp busy) reads
  | pollQuery order =>
    simp only [step] at stepped
    split at stepped
    next revDb compactDb reading =>
      split_ifs at stepped with busy ordered
      obtain rfl := Option.some.inj stepped
      exact .pollQuery reading (Option.not_isSome_iff_eq_none.mp busy) ordered
    next => cases stepped
  | pollFail =>
    obtain rfl := Option.some.inj stepped
    exact .pollFail
  | capture number rows gcv =>
    simp only [step] at stepped
    split_ifs at stepped with busy
    obtain rfl := Option.some.inj stepped
    exact .capture rows (Option.not_isSome_iff_eq_none.mp busy)
  | visit producer =>
    simp only [step] at stepped
    split at stepped
    next events id rest serving =>
      split at stepped
      next subscriber found =>
        split_ifs at stepped with skipped
        all_goals obtain rfl := Option.some.inj stepped
        · exact .pass serving found (by simpa using skipped)
        · simp only [Bool.or_eq_true, List.isEmpty_iff, not_or, Bool.not_eq_true] at skipped
          exact .clear serving found skipped.1 skipped.2
      next => cases stepped
    next => cases stepped
  | offer producer =>
    simp only [step] at stepped
    split at stepped
    next events id rest serving =>
      split at stepped
      next subscriber found =>
        obtain rfl := Option.some.inj stepped
        split_ifs with room
        · exact .offer serving found room
        · exact .drop serving found room
      next => cases stepped
    next => cases stepped

end FanOut

/-! ## The goroutine of one subscriber -/

/-- It neither sees nor changes the batches on their way. -/
theorem SubscribeSystem.step_own {sub : Subscription} {system : SubscribeSystem}
    {action : SubscribeAction} (flights : List Flight) (own : action.own = true) :
    { system with inFlight := flights }.step runtime sub action =
      (system.step runtime sub action).map fun after => { after with inFlight := flights } := by
  cases action with
  | start | replayQuery | replaySend | replayFail | replayDone | close | sendSentinel =>
    simp only [step]
    split <;> (try split_ifs) <;> simp only [Option.map_some, Option.map_none]
  | replayRead =>
    simp only [step]
    split <;> simp only [Option.map_map, Function.comp_def, Option.map_none]
  | cancel => rfl
  | drain =>
    simp only [step]
    split
    · split <;> rfl
    · rfl
  | receive => simp only [step, Option.map_map, Function.comp_def]
  | other | pollRead | pollQuery | pollFail | capture | check | offer => cases own

/-- What the goroutine leaves alone, and what it never takes back. -/
structure SubscribeSystem.OwnStep (system after : SubscribeSystem) : Prop where
  world : after.world = system.world
  pollRev : after.pollRev = system.pollRev
  poll : after.poll = system.poll
  closed : system.closed = true → after.closed = true
  torn : (system.replay.torn = true → system.closed = true) →
    after.replay.torn = true → after.closed = true

theorem torn_afterPage (replayRev : Int) (page : Except StoreErr (List Event)) :
    (afterPage replayRev page).torn = false := by
  unfold afterPage
  split
  · rfl
  · split_ifs <;> rfl

theorem torn_afterSend (replayRev : Int) (events : List Event) :
    (afterSend replayRev events).torn = false := by
  unfold afterSend
  split_ifs <;> rfl

theorem SubscribeMove.ownStep {sub : Subscription} {system after : SubscribeSystem}
    {action : SubscribeAction} (move : SubscribeMove runtime sub system action after)
    (own : action.own = true) : system.OwnStep after := by
  cases move with
  | startLive | startRefused | startPaging | replayRead | replayFail | replayDone =>
    exact ⟨rfl, rfl, rfl, id, fun _ torn => by cases torn⟩
  | replayQuery =>
    exact ⟨rfl, rfl, rfl, id, fun _ torn => by simp [torn_afterPage] at torn⟩
  | replaySend =>
    exact ⟨rfl, rfl, rfl, id, fun _ torn => by simp [torn_afterSend] at torn⟩
  | cancel | discard | receive => exact ⟨rfl, rfl, rfl, id, id⟩
  | close => exact ⟨rfl, rfl, rfl, fun _ => rfl, fun _ _ => rfl⟩
  | drained draining => exact ⟨rfl, rfl, rfl, id, fun torn _ => torn (by rw [draining]; rfl)⟩
  | sendSentinel drained _ | timeOut drained =>
    exact ⟨rfl, rfl, rfl, id, fun torn _ => torn (by rw [drained]; rfl)⟩
  | other | pollRead | pollQuery | pollFail | capture | skip | check | offer | drop => cases own

/-! ## The copy of a dispatch -/

namespace Dispatch

/-- A dispatch serves known subscribers, each one once, and clears those that
want some of its events. -/
structure Valid (registered : List Subscriber) (dispatch : Dispatch) : Prop where
  unfinished : dispatch.subs ≠ []
  once : dispatch.subs.Nodup
  known : ∀ id ∈ dispatch.subs, id < registered.length
  wanted : dispatch.cleared = true → ∀ id ∈ dispatch.subs.head?, ∀ subscriber,
    registered[id]? = some subscriber → subscriber.sub.matching dispatch.events ≠ []

variable {registered : List Subscriber} {dispatch : Dispatch}

theorem valid_serving {events : List Event} {subs : List Nat} (once : subs.Nodup)
    (known : ∀ id ∈ subs, id < registered.length) :
    ∀ serving ∈ Dispatch.serving events subs, serving.Valid registered := by
  intro serving found
  unfold Dispatch.serving at found
  split_ifs at found with nothing
  · cases found
  · cases found
    exact ⟨by simpa using nothing, once, known, by rintro ⟨⟩⟩

theorem Valid.set (valid : dispatch.Valid registered) {id : Nat} {subscriber changed : Subscriber}
    (found : registered[id]? = some subscriber) (sub : changed.sub = subscriber.sub) :
    dispatch.Valid (registered.set id changed) where
  unfinished := valid.unfinished
  once := valid.once
  known := by simpa using valid.known
  wanted := by
    intro cleared other head standing foundOther
    rw [List.getElem?_set] at foundOther
    split_ifs at foundOther with same inside
    · cases foundOther
      rw [sub]
      exact valid.wanted cleared other head subscriber (same ▸ found)
    · exact valid.wanted cleared other head standing foundOther

theorem Valid.append (valid : dispatch.Valid registered) (subscriber : Subscriber) :
    dispatch.Valid (registered ++ [subscriber]) where
  unfinished := valid.unfinished
  once := valid.once
  known := by
    intro id membership
    rw [List.length_append]
    exact Nat.lt_add_right _ (valid.known id membership)
  wanted := by
    intro cleared id head standing found
    rw [List.getElem?_append_left (valid.known id (List.mem_of_mem_head? head))] at found
    exact valid.wanted cleared id head standing found

end Dispatch

namespace FanOut

theorem own_of_permits {id : Nat} {action : SubscribeAction}
    (permitted : fan.permits id action = true) : action.own = true := by
  cases action <;> first | rfl | exact permitted

/-! ## The list of subscribers -/

/-- A subscriber is listed until it has removed itself, which it does after it
was marked closed. -/
structure Inv (fan : FanOut) : Prop where
  once : fan.subscribers.toList.Nodup
  known : ∀ id ∈ fan.subscribers.toList, id < fan.registered.length
  torn : ∀ (id : Nat) (subscriber : Subscriber), fan.registered[id]? = some subscriber →
    subscriber.replay.torn = true → subscriber.closed = true
  removed : ∀ (id : Nat) (subscriber : Subscriber), fan.registered[id]? = some subscriber →
    id ∉ fan.subscribers.toList → subscriber.closed = true
  dispatches : ∀ producer dispatch, fan.dispatches producer = some dispatch →
    dispatch.Valid fan.registered

theorem inv_init (world : World) (pollRev : Int) : (init world pollRev).Inv where
  once := by simp [init]
  known := by simp [init]
  torn := by simp [init]
  removed := by simp [init]
  dispatches := by simp [init]

/-- One subscriber changes, in a way that a subscriber can. -/
theorem Inv.set (inv : fan.Inv) {id : Nat} {subscriber changed : Subscriber}
    (found : fan.registered[id]? = some subscriber) (sub : changed.sub = subscriber.sub)
    (closed : subscriber.closed = true → changed.closed = true)
    (torn : (subscriber.replay.torn = true → subscriber.closed = true) →
      changed.replay.torn = true → changed.closed = true) :
    { fan with registered := fan.registered.set id changed }.Inv where
  once := inv.once
  known := by simpa using inv.known
  torn := by
    intro other standing foundOther
    rw [List.getElem?_set] at foundOther
    split_ifs at foundOther with same inside
    · cases foundOther
      exact torn (inv.torn id subscriber found)
    · exact inv.torn other standing foundOther
  removed := by
    intro other standing foundOther gone
    rw [List.getElem?_set] at foundOther
    split_ifs at foundOther with same inside
    · cases foundOther
      exact closed (inv.removed id subscriber found (same ▸ gone))
    · exact inv.removed other standing foundOther gone
  dispatches := fun producer dispatch dispatching =>
    (inv.dispatches producer dispatch dispatching).set found sub

theorem Inv.serve (inv : fan.Inv) (producer : Producer) {dispatch : Option Dispatch}
    (valid : ∀ serving ∈ dispatch, serving.Valid fan.registered) :
    (fan.serve producer dispatch).Inv where
  once := inv.once
  known := inv.known
  torn := inv.torn
  removed := inv.removed
  dispatches := by
    intro other standing found
    rcases eq_or_ne other producer with rfl | different
    · simp only [FanOut.serve, Function.update_self] at found
      exact valid standing found
    · simp only [FanOut.serve, Function.update_of_ne different] at found
      exact inv.dispatches other standing found

theorem Inv.dispatchEvents (inv : fan.Inv) (producer : Producer) (events : List Event) :
    (fan.dispatchEvents producer events).Inv := by
  unfold FanOut.dispatchEvents
  split_ifs
  · exact inv
  · exact inv.serve producer (Dispatch.valid_serving inv.once inv.known)

theorem Inv.advance (inv : fan.Inv) {producer : Producer} {events : List Event} {id : Nat}
    {rest : List Nat} {cleared : Bool}
    (serving : fan.dispatches producer = some ⟨events, id :: rest, cleared⟩) :
    (fan.serve producer (Dispatch.serving events rest)).Inv := by
  have valid := inv.dispatches producer _ serving
  exact inv.serve producer (Dispatch.valid_serving (List.nodup_cons.mp valid.once).2
    fun other membership => valid.known other (List.mem_cons_of_mem id membership))

theorem Inv.subscribe (inv : fan.Inv) (sub : Subscription) :
    { fan with
      registered := fan.registered ++ [Subscriber.new sub]
      subscribers := fan.subscribers.append fan.registered.length }.Inv where
  once := by
    rw [SharedSlice.toList_append, ← List.concat_eq_append]
    exact inv.once.concat fun membership => lt_irrefl _ (inv.known _ membership)
  known := by
    intro id membership
    simp only [SharedSlice.toList_append, List.mem_append, List.mem_singleton] at membership
    rw [List.length_append, List.length_singleton]
    rcases membership with old | rfl
    · exact Nat.lt_succ_of_lt (inv.known id old)
    · exact Nat.lt_succ_self _
  torn := by
    intro id subscriber found torn
    rw [List.getElem?_append] at found
    split_ifs at found with inside
    · exact inv.torn id subscriber found torn
    · cases List.mem_singleton.mp (List.mem_of_getElem? found)
      cases torn
  removed := by
    intro id subscriber found gone
    simp only [SharedSlice.toList_append, List.mem_append, List.mem_singleton, not_or] at gone
    rw [List.getElem?_append] at found
    split_ifs at found with inside
    · exact inv.removed id subscriber found gone.1
    · have last := (List.getElem?_eq_some_iff.mp found).1
      rw [List.length_singleton] at last
      omega
  dispatches := fun producer dispatch dispatching =>
    (inv.dispatches producer dispatch dispatching).append _

theorem Inv.removeSub (inv : fan.Inv) {id : Nat} {subscriber : Subscriber}
    (found : fan.registered[id]? = some subscriber) (draining : subscriber.replay = .draining) :
    { fan with subscribers := fan.subscribers.filterInPlace fun other => other ≠ id }.Inv where
  once := by simpa using inv.once.filter _
  known := by
    intro other membership
    simp only [SharedSlice.toList_filterInPlace, List.mem_filter] at membership
    exact inv.known other membership.1
  torn := inv.torn
  removed := by
    intro other standing foundOther gone
    simp only [SharedSlice.toList_filterInPlace, List.mem_filter, decide_eq_true_eq, not_and,
      not_not] at gone
    by_cases listed : other ∈ fan.subscribers.toList
    · cases gone listed
      cases found.symm.trans foundOther
      exact inv.torn _ _ found (by rw [draining]; rfl)
    · exact inv.removed other standing foundOther listed
  dispatches := inv.dispatches

theorem Inv.move (inv : fan.Inv) {action : FanOutAction}
    (move : FanOutMove runtime fan action next) : next.Inv := by
  cases move with
  | other | pollRead | pollFail =>
    exact ⟨inv.once, inv.known, inv.torn, inv.removed, inv.dispatches⟩
  | subscribe sub => exact inv.subscribe sub
  | own found permitted stepped =>
    have kept := (SubscribeSystem.step_move stepped).ownStep (own_of_permits permitted)
    exact inv.set found rfl kept.closed kept.torn
  | removeSub found draining => exact inv.removeSub found draining
  | @pollQuery revDb compactDb order reading landed ordered =>
    have polled : { fan with
        poll := .idle
        pollRev := (doPoll revDb compactDb order fan.pollRev).2 }.Inv :=
      ⟨inv.once, inv.known, inv.torn, inv.removed, inv.dispatches⟩
    exact polled.dispatchEvents _ _
  | capture rows landed => exact inv.dispatchEvents _ _
  | pass serving found skipped => exact inv.advance serving
  | @clear producer events id rest subscriber serving found wanted unclosed =>
    have valid := inv.dispatches producer _ serving
    apply inv.serve producer
    rintro _ ⟨⟩
    refine ⟨valid.unfinished, valid.once, valid.known, ?_⟩
    rintro - _ ⟨⟩ standing foundHere
    cases found.symm.trans foundHere
    exact wanted
  | offer serving found room => exact (inv.advance serving).set found rfl id id
  | drop serving found full => exact (inv.advance serving).set found rfl id id

theorem Inv.run (inv : fan.Inv) {actions : List FanOutAction}
    (ran : Runs.run (FanOut.step runtime) fan actions = some next) : next.Inv :=
  Runs.run_invariant (fun _ _ _ stepped standing => standing.move (step_move stepped)) ran inv

end FanOut

/-! ## A dispatch never waits -/

def FanOutAction.serves (producer : Producer) : FanOutAction → Bool
  | .visit server | .offer server => server = producer
  | _ => false

/-- Each subscriber takes at most a visit and an offer. -/
def Dispatch.work (dispatch : Dispatch) : Nat :=
  2 * dispatch.subs.length - if dispatch.cleared then 1 else 0

namespace FanOut

def work (fan : FanOut) (producer : Producer) : Nat :=
  (fan.dispatches producer).elim 0 Dispatch.work

theorem work_serving (events : List Event) (subs : List Nat) :
    (Dispatch.serving events subs).elim 0 Dispatch.work = 2 * subs.length := by
  unfold Dispatch.serving
  split_ifs with nothing
  · simp [List.isEmpty_iff.mp nothing]
  · rfl

theorem work_serve (producer : Producer) (dispatch : Option Dispatch) :
    (fan.serve producer dispatch).work producer = dispatch.elim 0 Dispatch.work := by
  simp [work, serve]

theorem work_serve_of_ne {producer other : Producer} (dispatch : Option Dispatch)
    (different : other ≠ producer) :
    (fan.serve producer dispatch).work other = fan.work other := by
  simp [work, serve, Function.update_of_ne different]

theorem work_dispatchEvents {producer other : Producer} (events : List Event)
    (different : other ≠ producer) :
    (fan.dispatchEvents producer events).work other = fan.work other := by
  unfold dispatchEvents
  split_ifs
  · rfl
  · exact work_serve_of_ne _ different

/-- The price of a step of a producer, paid by the producer that takes it. -/
theorem work_pays {producer other : Producer} {dispatch : Dispatch} {after : Option Dispatch}
    (serving : fan.dispatches other = some dispatch)
    (pays : after.elim 0 Dispatch.work + 1 ≤ dispatch.work) :
    (fan.serve other after).work producer + (if decide (other = producer) then 1 else 0) ≤
      fan.work producer := by
  rcases eq_or_ne producer other with rfl | different
  · rw [work_serve, work, serving]
    simpa using pays
  · rw [work_serve_of_ne _ different, if_neg (by simpa using different.symm)]
    exact le_refl _

theorem work_spent {action : FanOutAction} {producer : Producer}
    (move : FanOutMove runtime fan action next) (unfinished : fan.dispatches producer ≠ none) :
    next.work producer + (if action.serves producer then 1 else 0) ≤ fan.work producer := by
  cases move with
  | other | subscribe | own | removeSub | pollRead | pollFail => exact le_refl _
  | pollQuery reading landed ordered =>
    exact (work_dispatchEvents _ (by rintro rfl; exact unfinished landed)).le
  | capture rows landed =>
    exact (work_dispatchEvents _ (by rintro rfl; exact unfinished landed)).le
  | pass serving found skipped =>
    apply work_pays serving
    rw [work_serving]
    simp only [Dispatch.work, List.length_cons, Bool.false_eq_true, if_false]
    omega
  | clear serving found wanted unclosed =>
    apply work_pays serving
    simp only [Option.elim_some, Dispatch.work, List.length_cons, Bool.false_eq_true, if_false,
      if_true]
    omega
  | offer serving found _ | drop serving found _ =>
    apply work_pays serving
    rw [work_serving]
    simp only [Dispatch.work, List.length_cons, if_true]
    omega

theorem drains (runtime : Runtime) (producer : Producer) :
    Progress.Drains (FanOut.step runtime) Inv (FanOutAction.serves producer)
      (fun fan => fan.dispatches producer = none) (fun fan => fan.work producer) where
  kept := fun _ _ _ stepped inv => inv.move (step_move stepped)
  positive := by
    intro fan inv unfinished
    obtain ⟨dispatch, dispatching⟩ := Option.ne_none_iff_exists'.mp unfinished
    have some := List.length_pos_of_ne_nil (inv.dispatches producer dispatch dispatching).unfinished
    simp only [work, dispatching, Option.elim_some, Dispatch.work]
    split_ifs <;> omega
  spends := fun _ _ _ _ unfinished stepped => work_spent (step_move stepped) unfinished

/-- The producer can always go on with its next subscriber. -/
theorem Inv.serves (inv : fan.Inv) {producer : Producer}
    (unfinished : fan.dispatches producer ≠ none) :
    (fan.step runtime (.visit producer)).isSome = true ∨
      (fan.step runtime (.offer producer)).isSome = true := by
  obtain ⟨⟨events, subs, cleared⟩, dispatching⟩ := Option.ne_none_iff_exists'.mp unfinished
  have valid := inv.dispatches producer _ dispatching
  obtain ⟨head, rest, rfl⟩ := List.exists_cons_of_ne_nil valid.unfinished
  have inside : head < fan.registered.length := valid.known head List.mem_cons_self
  have found := List.getElem?_eq_getElem inside
  cases cleared with
  | false =>
    refine .inl ?_
    simp only [step, dispatching, found]
    split_ifs <;> rfl
  | true =>
    refine .inr ?_
    simp only [step, dispatching, found]
    rfl

end FanOut

/-- No subscriber can hold a dispatch up: its producer can always take a step,
and two of its steps for each of the copied subscribers end the dispatch,
whatever the subscribers and the other producers do in between. -/
theorem dispatches_never_wait {world : World} {pollRev : Int} {before : List FanOutAction}
    {producer : Producer} {dispatch : Dispatch}
    (started : Runs.run (FanOut.step runtime) (.init world pollRev) before = some fan)
    (dispatching : fan.dispatches producer = some dispatch) :
    ((fan.step runtime (.visit producer)).isSome = true ∨
        (fan.step runtime (.offer producer)).isSome = true) ∧
      ∀ actions final, Runs.run (FanOut.step runtime) fan actions = some final →
        2 * dispatch.subs.length ≤ actions.countP (FanOutAction.serves producer) →
          ∃ state ∈ Runs.visited (FanOut.step runtime) fan actions,
            state.dispatches producer = none := by
  have inv : fan.Inv := (FanOut.inv_init world pollRev).run started
  refine ⟨inv.serves (by simp [dispatching]), fun actions final ran enough => ?_⟩
  apply (FanOut.drains runtime producer).reached ran inv
  refine le_trans ?_ enough
  simp only [FanOut.work, dispatching, Option.elim_some, Dispatch.work]
  exact Nat.sub_le _ _

end

/-- Two subscribers wait for one key, and the poll loop finds an event on it. -/
def twoSubscribers : List FanOutAction :=
  [.subscribe subscriptionToK, .subscribe subscriptionToK, .pollRead, .pollRead,
    .pollQuery [createdRow]]

theorem twoSubscribers_served :
    ∃ fan dispatch, Runs.run (FanOut.step tombstoneRuntime) (.init createdWorld 1) twoSubscribers =
        some fan ∧
      fan.dispatches .pollLoop = some dispatch ∧ dispatch.subs = [0, 1] ∧
      ∀ actions final, Runs.run (FanOut.step tombstoneRuntime) fan actions = some final →
        4 ≤ actions.countP (FanOutAction.serves .pollLoop) →
          ∃ state ∈ Runs.visited (FanOut.step tombstoneRuntime) fan actions,
            state.dispatches .pollLoop = none := by
  have started : ∃ fan dispatch,
      Runs.run (FanOut.step tombstoneRuntime) (.init createdWorld 1) twoSubscribers = some fan ∧
        fan.dispatches .pollLoop = some dispatch ∧ dispatch.subs = [0, 1] := ⟨_, _, rfl, rfl, rfl⟩
  obtain ⟨fan, dispatch, ran, dispatching, subs⟩ := started
  have waits := (dispatches_never_wait ran dispatching).2
  rw [subs] at waits
  exact ⟨fan, dispatch, ran, dispatching, subs, waits⟩

end SpannerEtcd
