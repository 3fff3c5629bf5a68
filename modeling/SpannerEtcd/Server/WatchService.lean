import SpannerEtcd.Server.WatchStream
import SpannerEtcd.Watch.Genuine

/-!
# The watch service

Every watch of every stream has a goroutine that calls `Watch` of the store and
then reads the channel of its subscriber.  Here the streams are put together
with the watcher that serves them: the batches that a watch takes are those of
its channel, and the revisions it tells are read from the database.
-/

namespace SpannerEtcd

/-- Watches are numbered within their streams.  `eventCh` has the subscriber
whose channel a watch reads, once its goroutine has called `Watch`. -/
structure WatchService where
  fan : FanOut
  streams : List WatchSystem
  eventCh : Nat × Nat → Option Nat

/-- The steps that the store takes by itself. -/
def FanOutAction.ofStore : FanOutAction → Bool
  | .subscribe _ | .own _ .receive | .own _ .cancel => false
  | _ => true

inductive ServiceAction where
  | store (action : FanOutAction)
  | connect
  | stream (n : Nat) (action : WatchAction)
  /-- `watchLoop` calls `Watch`. -/
  | subscribe (n number : Nat)
  /-- The context of the subscription follows `stdCtx`. -/
  | cancel (n number : Nat)
  | take (n number : Nat) (readOk : Bool)
  | tick (n number : Nat) (readOk : Bool)

namespace WatchService

def init (world : World) (pollRev : Int) : WatchService :=
  { fan := .init world pollRev, streams := [], eventCh := fun _ => none }

def watcher (service : WatchService) (n number : Nat) : Option Watcher :=
  (service.streams[n]?).bind fun system => system.watchers[number]?

def setStream (service : WatchService) (n : Nat) (system : WatchSystem) : WatchService :=
  { service with streams := service.streams.set n system }

/-- A watch leaves its loop only after it has called `Watch`; what it takes and
tells comes from the store. -/
def permits (service : WatchService) (n : Nat) : WatchAction → Bool
  | .watcher _ (.publish _) | .watcher _ (.take _) | .watcher _ (.tick _) => false
  | .watcher number .leave => (service.eventCh (n, number)).isSome
  | _ => true

/-- `rev, _ := ...`: a read that fails leaves zero. -/
def readOrZero (readOk : Bool) (rev : Int) : Int := if readOk then rev else 0

/-- The next batch of a channel. -/
def nextBatch (service : WatchService) (id : Nat) : Option (List Event) :=
  (service.fan.registered[id]?).bind fun subscriber => subscriber.channel.queue.head?

def step (runtime : Runtime) (service : WatchService) : ServiceAction → Option WatchService
  | .store action =>
      if action.ofStore then
        (service.fan.step runtime action).map fun fan => { service with fan := fan }
      else none
  | .connect => some { service with streams := service.streams ++ [.opened] }
  | .stream n action =>
      if service.permits n action then
        (service.streams[n]?).bind fun system =>
          (system.step action).map fun next => service.setStream n next
      else none
  | .subscribe n number =>
      match service.watcher n number, service.eventCh (n, number) with
      | some watcher, none =>
          if watcher.loop = .unstarted then none
          else (service.fan.step runtime (.subscribe watcher.subscription)).map fun fan =>
            { service with
              fan := fan
              eventCh := Function.update service.eventCh (n, number)
                (some service.fan.registered.length) }
      | _, _ => none
  | .cancel n number =>
      match service.watcher n number, service.eventCh (n, number) with
      | some watcher, some id =>
          if watcher.stopped then
            (service.fan.step runtime (.own id .cancel)).map fun fan => { service with fan := fan }
          else none
      | _, _ => none
  | .take n number readOk =>
      match service.streams[n]?, service.eventCh (n, number) with
      | some system, some id =>
          (service.nextBatch id).bind fun batch =>
            (service.fan.step runtime (.own id .receive)).bind fun fan =>
              (Runs.run WatchSystem.step system
                [.watcher number (.publish batch),
                  .watcher number (.take (readOrZero readOk (compactRevision fan.world.db)))]).map
                fun next => { service.setStream n next with fan := fan }
      | _, _ => none
  | .tick n number readOk =>
      match service.streams[n]?, service.eventCh (n, number) with
      | some system, some _ =>
          let curRev := readOrZero readOk (currentRevision service.fan.world.db)
          (system.step (.watcher number (.tick curRev))).map fun next => service.setStream n next
      | _, _ => none

end WatchService

/-! ## What a step of a stream can change -/

/-- What becomes of the watches and of the responses that were queued. -/
inductive StreamChange (system next : WatchSystem) : WatchAction → Prop where
  | quiet {action : WatchAction} (watchers : next.watchers = system.watchers)
      (sent : next.respCh.sent = system.respCh.sent) (nextID : next.nextID = system.nextID)
      (handler : next.handler = system.handler ∨ ∀ number, next.handler ≠ .creating number) :
      StreamChange system next action
  | created (request : WatchCreateRequest)
      (watchers : next.watchers = system.watchers ++
        [{ id := system.nextID, subscription := request.subscription, eventCh := []
           stopped := false, loop := .unstarted }])
      (sent : next.respCh.sent = system.respCh.sent)
      (nextID : next.nextID = wrapInt64 (system.nextID + 1))
      (handled : system.handler = .draining (.create request))
      (handler : next.handler = .creating system.watchers.length) :
      StreamChange system next .handle
  | started {number : Nat} {watcher : Watcher} (creating : system.handler = .creating number)
      (found : system.watchers[number]? = some watcher)
      (watchers : next.watchers =
        system.watchers.set number { watcher with loop := .selecting })
      (sent : next.respCh.sent = system.respCh.sent ++
        [{ header := header 0, watchId := watcher.id, created := true }])
      (nextID : next.nextID = system.nextID) (handler : next.handler = .selecting) :
      StreamChange system next .respond
  | answered (id : Int) (watchers : next.watchers = system.watchers)
      (sent : next.respCh.sent = system.respCh.sent ++
        [{ header := header 0, watchId := id, canceled := true }])
      (nextID : next.nextID = system.nextID) (handler : next.handler = .selecting) :
      StreamChange system next .respond
  | moved {number : Nat} {action : WatcherAction} {watcher after : Watcher}
      {effect : WatcherEffect} {canceled room : Bool}
      (found : system.watchers[number]? = some watcher)
      (stepped : watcher.step canceled room action = some (after, effect))
      (watchers : next.watchers = system.watchers.set number after)
      (sent : next.respCh.sent = system.respCh.sent ++ effect.responses)
      (nextID : next.nextID = system.nextID) (handler : next.handler = system.handler) :
      StreamChange system next (.watcher number action)

namespace WatchSystem

theorem cancelWatch_change (system : WatchSystem) (id : Int) :
    (system.cancelWatch id).watchers = system.watchers ∧
      (system.cancelWatch id).respCh = system.respCh ∧
      (system.cancelWatch id).nextID = system.nextID ∧
      (system.cancelWatch id).handler = system.handler := by
  unfold cancelWatch
  split <;> exact ⟨rfl, rfl, rfl, rfl⟩

theorem apply_change (system : WatchSystem) (number : Nat) (watcher : Watcher)
    (effect : WatcherEffect) :
    (system.apply number watcher effect).watchers = system.watchers.set number watcher ∧
      (system.apply number watcher effect).respCh.sent =
        system.respCh.sent ++ effect.responses ∧
      (system.apply number watcher effect).nextID = system.nextID ∧
      (system.apply number watcher effect).handler = system.handler := by
  cases effect with
  | respond response => exact ⟨rfl, rfl, rfl, rfl⟩
  | none | report => exact ⟨rfl, (List.append_nil _).symm, rfl, rfl⟩

theorem step_change {system next : WatchSystem} {action : WatchAction}
    (stepped : system.step action = some next) : StreamChange system next action := by
  cases action with
  | finish =>
      obtain rfl := Option.some.inj stepped
      exact .quiet rfl rfl rfl (.inl rfl)
  | receive result =>
      simp only [WatchSystem.step] at stepped
      split at stepped
      all_goals first | (cases stepped; done) | obtain rfl := Option.some.inj stepped
      all_goals exact .quiet rfl rfl rfl (.inr (by rintro _ ⟨⟩))
  | reap =>
      simp only [WatchSystem.step] at stepped
      split at stepped
      next id rest selecting queued =>
        obtain rfl := Option.some.inj stepped
        obtain ⟨watchers, respCh, nextID, handler⟩ := cancelWatch_change system id
        exact .quiet watchers (congrArg Channel.sent respCh) nextID (.inl handler)
      next request id rest draining queued =>
        obtain rfl := Option.some.inj stepped
        obtain ⟨watchers, respCh, nextID, handler⟩ := cancelWatch_change system id
        exact .quiet watchers (congrArg Channel.sent respCh) nextID (.inl handler)
      next => cases stepped
  | handle =>
      simp only [WatchSystem.step] at stepped
      split at stepped
      next request draining drained =>
        obtain rfl := Option.some.inj stepped
        cases request with
        | create request => exact .created request rfl rfl rfl draining rfl
        | cancel id =>
            obtain ⟨watchers, respCh, nextID, -⟩ := cancelWatch_change system id
            exact .quiet watchers (congrArg Channel.sent respCh) nextID (.inr (by rintro _ ⟨⟩))
        | other => exact .quiet rfl rfl rfl (.inr (by rintro _ ⟨⟩))
      next => cases stepped
  | respond =>
      simp only [WatchSystem.step, Option.ite_none_right_eq_some, WatchSystem.respond] at stepped
      obtain ⟨-, responded⟩ := stepped
      split at responded
      next number creating =>
        obtain ⟨watcher, found, rfl⟩ := Option.map_eq_some_iff.mp responded
        exact .started creating found rfl rfl rfl rfl
      next id canceling =>
        obtain rfl := Option.some.inj responded
        exact .answered id rfl rfl rfl rfl
      next => cases responded
  | abandon =>
      simp only [WatchSystem.step, Option.ite_none_right_eq_some] at stepped
      obtain ⟨-, stepped⟩ := stepped
      split at stepped
      all_goals first | (cases stepped; done) | obtain rfl := Option.some.inj stepped
      all_goals exact .quiet rfl rfl rfl (.inr (by rintro _ ⟨⟩))
  | transmit ok =>
      simp only [WatchSystem.step, Option.ite_none_right_eq_some] at stepped
      obtain ⟨respCh, received, rfl⟩ := Option.map_eq_some_iff.mp stepped.2
      have sent := Channel.receive_sent received
      cases ok with
      | true => exact .quiet rfl sent rfl (.inl rfl)
      | false => exact .quiet rfl sent rfl (.inl rfl)
  | stopSending | inherit number =>
      simp only [WatchSystem.step, Option.ite_none_right_eq_some, Option.some.injEq] at stepped
      obtain ⟨-, rfl⟩ := stepped
      exact .quiet rfl rfl rfl (.inl rfl)
  | watcher number action =>
      obtain ⟨watcher, found, moved⟩ := Option.bind_eq_some_iff.mp stepped
      obtain ⟨outcome, watcherStep, rfl⟩ := Option.map_eq_some_iff.mp moved
      obtain ⟨watchers, sent, nextID, handler⟩ :=
        apply_change system number outcome.1 outcome.2
      exact .moved found watcherStep watchers sent nextID handler

end WatchSystem

/-! ## What a step of the service can be -/

inductive ServiceMove (runtime : Runtime) (service : WatchService) :
    ServiceAction → WatchService → Prop where
  | store {action : FanOutAction} {fan : FanOut} (own : action.ofStore = true)
      (moved : service.fan.step runtime action = some fan) :
      ServiceMove runtime service (.store action) { service with fan := fan }
  | connect :
      ServiceMove runtime service .connect
        { service with streams := service.streams ++ [.opened] }
  | stream {n : Nat} {action : WatchAction} {system next : WatchSystem}
      (permitted : service.permits n action = true) (found : service.streams[n]? = some system)
      (stepped : system.step action = some next) :
      ServiceMove runtime service (.stream n action) (service.setStream n next)
  | subscribe {n number : Nat} {system : WatchSystem} {watcher : Watcher}
      (found : service.streams[n]? = some system)
      (watching : system.watchers[number]? = some watcher)
      (unattached : service.eventCh (n, number) = none) (started : watcher.loop ≠ .unstarted) :
      ServiceMove runtime service (.subscribe n number)
        { service with
          fan := { service.fan with
            registered := service.fan.registered ++ [.new watcher.subscription]
            subscribers := service.fan.subscribers.append service.fan.registered.length }
          eventCh := Function.update service.eventCh (n, number)
            (some service.fan.registered.length) }
  | cancel {n number id : Nat} {fan : FanOut} (attached : service.eventCh (n, number) = some id)
      (moved : service.fan.step runtime (.own id .cancel) = some fan) :
      ServiceMove runtime service (.cancel n number) { service with fan := fan }
  | take {n number id : Nat} {readOk : Bool} {system next : WatchSystem}
      {subscriber : Subscriber} {batch : List Event} {channel : Channel Event}
      (found : service.streams[n]? = some system)
      (attached : service.eventCh (n, number) = some id)
      (subscribed : service.fan.registered[id]? = some subscriber)
      (received : subscriber.channel.receive = some channel)
      (taken : channel.received = subscriber.channel.received ++ batch)
      (ran : Runs.run WatchSystem.step system
        [.watcher number (.publish batch),
          .watcher number (.take (WatchService.readOrZero readOk
            (compactRevision service.fan.world.db)))] = some next) :
      ServiceMove runtime service (.take n number readOk)
        { service.setStream n next with
          fan := { service.fan with
            registered := service.fan.registered.set id { subscriber with channel := channel } } }
  | tick {n number id : Nat} {readOk : Bool} {system next : WatchSystem}
      (found : service.streams[n]? = some system)
      (attached : service.eventCh (n, number) = some id)
      (stepped : system.step (.watcher number (.tick (WatchService.readOrZero readOk
        (currentRevision service.fan.world.db)))) = some next) :
      ServiceMove runtime service (.tick n number readOk) (service.setStream n next)

namespace WatchService

theorem step_move {runtime : Runtime} {service next : WatchService} {action : ServiceAction}
    (stepped : service.step runtime action = some next) :
    ServiceMove runtime service action next := by
  cases action with
  | store action =>
      simp only [step, Option.ite_none_right_eq_some] at stepped
      obtain ⟨own, stepped⟩ := stepped
      obtain ⟨fan, moved, rfl⟩ := Option.map_eq_some_iff.mp stepped
      exact .store own moved
  | connect =>
      obtain rfl := Option.some.inj stepped
      exact .connect
  | stream n action =>
      simp only [step, Option.ite_none_right_eq_some] at stepped
      obtain ⟨permitted, stepped⟩ := stepped
      obtain ⟨system, found, stepped⟩ := Option.bind_eq_some_iff.mp stepped
      obtain ⟨after, moved, rfl⟩ := Option.map_eq_some_iff.mp stepped
      exact .stream permitted found moved
  | subscribe n number =>
      simp only [step] at stepped
      split at stepped
      next watcher watching unattached =>
        obtain ⟨system, found, watching⟩ := Option.bind_eq_some_iff.mp watching
        split_ifs at stepped with unstarted
        obtain ⟨fan, moved, rfl⟩ := Option.map_eq_some_iff.mp stepped
        obtain rfl := Option.some.inj moved
        exact .subscribe found watching unattached unstarted
      next => cases stepped
  | cancel n number =>
      simp only [step] at stepped
      split at stepped
      next watcher id watching attached =>
        split_ifs at stepped
        obtain ⟨fan, moved, rfl⟩ := Option.map_eq_some_iff.mp stepped
        exact .cancel attached moved
      next => cases stepped
  | take n number readOk =>
      simp only [step] at stepped
      split at stepped
      next system id found attached =>
        obtain ⟨batch, head, stepped⟩ := Option.bind_eq_some_iff.mp stepped
        obtain ⟨fan, moved, stepped⟩ := Option.bind_eq_some_iff.mp stepped
        obtain ⟨after, ran, rfl⟩ := Option.map_eq_some_iff.mp stepped
        obtain ⟨subscriber, subscribed, head⟩ := Option.bind_eq_some_iff.mp head
        cases FanOut.step_move moved with
        | own same permitted receives =>
            cases same.symm.trans subscribed
            cases SubscribeSystem.step_move receives with
            | receive received =>
                obtain ⟨other, queued, taken⟩ := Channel.receive_received received
                rw [show subscriber.channel.queue = _ from queued, List.head?_cons,
                  Option.some.injEq] at head
                exact .take found attached subscribed received (head ▸ taken) ran
      next => cases stepped
  | tick n number readOk =>
      simp only [step] at stepped
      split at stepped
      next system id found attached =>
        obtain ⟨after, moved, rfl⟩ := Option.map_eq_some_iff.mp stepped
        exact .tick found attached moved
      next => cases stepped

end WatchService

/-! ## Watches and their subscribers -/

/-- The steps of a watch that need nothing from the store. -/
def WatcherAction.inner : WatcherAction → Bool
  | .publish _ | .take _ | .tick _ => false
  | .stop | .send | .leave | .report => true

/-- The steps that leave the queue of the watch alone. -/
def WatcherAction.unread : WatcherAction → Bool
  | .publish _ | .take _ => false
  | .tick _ | .stop | .send | .leave | .report => true

theorem WatcherAction.unread_of_inner {action : WatcherAction} (inner : action.inner = true) :
    action.unread = true := by
  cases action <;> first | rfl | cases inner

/-- The loop holds nothing that it has yet to send. -/
def WatchLoop.free : WatchLoop → Bool
  | .sending _ _ | .canceling _ => false
  | .unstarted | .selecting | .reporting | .ended | .left => true

/-- What a watch is, wherever its loop stands. -/
def Watcher.identity (watcher : Watcher) : Int × Subscription := (watcher.id, watcher.subscription)

section Kept

variable {canceled room : Bool} {watcher after : Watcher} {action : WatcherAction}
  {effect : WatcherEffect}

theorem Watcher.step_kept
    (stepped : watcher.step canceled room action = some (after, effect)) :
    after.identity = watcher.identity := by
  cases action with
  | stop | publish =>
      simp only [Watcher.step, Option.ite_none_right_eq_some, Option.some.injEq,
        Prod.mk.injEq] at stepped
      obtain ⟨-, rfl, -⟩ := stepped
      rfl
  | take | tick | report =>
      simp only [Watcher.step] at stepped
      split at stepped
      · obtain ⟨rfl, -⟩ := Prod.mk.inj (Option.some.inj stepped)
        rfl
      · cases stepped
  | send | leave =>
      simp only [Watcher.step] at stepped
      split at stepped
      all_goals try split at stepped
      all_goals first | (cases stepped; done) | cases stepped
      all_goals rfl

theorem Watcher.step_unread (unread : action.unread = true)
    (stepped : watcher.step canceled room action = some (after, effect)) :
    after.eventCh = watcher.eventCh := by
  cases action with
  | stop =>
      simp only [Watcher.step, Option.ite_none_right_eq_some, Option.some.injEq,
        Prod.mk.injEq] at stepped
      obtain ⟨-, rfl, -⟩ := stepped
      rfl
  | tick | report =>
      simp only [Watcher.step] at stepped
      split at stepped
      · obtain ⟨rfl, -⟩ := Prod.mk.inj (Option.some.inj stepped)
        rfl
      · cases stepped
  | send | leave =>
      simp only [Watcher.step] at stepped
      split at stepped
      all_goals try split at stepped
      all_goals first | (cases stepped; done) | cases stepped
      all_goals rfl
  | publish | take => cases unread

theorem Watcher.step_inner (inner : action.inner = true)
    (stepped : watcher.step canceled room action = some (after, effect)) :
    after.loop = watcher.loop ∨ after.loop.free = true := by
  cases action with
  | stop =>
      simp only [Watcher.step, Option.ite_none_right_eq_some, Option.some.injEq,
        Prod.mk.injEq] at stepped
      obtain ⟨-, rfl, -⟩ := stepped
      exact .inl rfl
  | report =>
      simp only [Watcher.step] at stepped
      split at stepped
      · obtain ⟨rfl, -⟩ := Prod.mk.inj (Option.some.inj stepped)
        exact .inr rfl
      · cases stepped
  | send | leave =>
      simp only [Watcher.step] at stepped
      split at stepped
      all_goals try split at stepped
      all_goals first | (cases stepped; done) | cases stepped
      all_goals exact .inr rfl
  | publish | take | tick => cases inner

theorem Watcher.step_tick {curRev : Int}
    (stepped : watcher.step canceled room (.tick curRev) = some (after, effect)) :
    watcher.loop = .selecting ∧ after = { watcher with loop := .sending curRev [] } ∧
      effect = .none := by
  simp only [Watcher.step] at stepped
  split at stepped
  next selecting =>
    obtain ⟨rfl, rfl⟩ := Prod.mk.inj (Option.some.inj stepped)
    exact ⟨selecting, rfl, rfl⟩
  next => cases stepped

end Kept

/-- A watch whose own queue is empty takes just what is published to it. -/
theorem WatchSystem.take_change {system next : WatchSystem} {number : Nat} {batch : List Event}
    {compactRev : Int} {watcher : Watcher} (found : system.watchers[number]? = some watcher)
    (idle : watcher.eventCh = [])
    (ran : Runs.run WatchSystem.step system
      [.watcher number (.publish batch), .watcher number (.take compactRev)] = some next) :
    watcher.loop = .selecting ∧
      next.watchers =
        system.watchers.set number { watcher with loop := .taken batch compactRev } ∧
      next.respCh = system.respCh ∧ next.nextID = system.nextID ∧
      next.handler = system.handler := by
  obtain ⟨middle, published, ran⟩ := Runs.run_cons_eq_some.mp ran
  obtain ⟨last, took, ran⟩ := Runs.run_cons_eq_some.mp ran
  obtain rfl := Option.some.inj ran
  obtain ⟨bound, -⟩ := List.getElem?_eq_some_iff.mp found
  simp only [WatchSystem.step, found, Option.bind_some, Watcher.step, idle, List.nil_append,
    List.length_nil] at published
  split_ifs at published with room
  · obtain rfl := Option.some.inj published
    simp only [WatchSystem.step, WatchSystem.apply, List.getElem?_set_self bound,
      Option.bind_some, Watcher.step] at took
    cases standing : watcher.loop with
    | selecting =>
        simp only [standing, Option.map_some, Option.some.injEq] at took
        subst took
        refine ⟨rfl, ?_, rfl, rfl, rfl⟩
        simp only [List.set_set, ← idle]
    | unstarted | sending | canceling | reporting | ended | left =>
        simp [standing] at took
  · cases published

/-- When an item is replaced by one that looks the same, every item is still
there by its looks. -/
theorem exists_getElem?_set {Item View : Type*} (view : Item → View) {items : List Item}
    {index other : Nat} {item old new : Item} (found : items[index]? = some item)
    (foundOther : items[other]? = some old) (kept : view new = view old) :
    ∃ after, (items.set other new)[index]? = some after ∧ view after = view item := by
  obtain ⟨bound, -⟩ := List.getElem?_eq_some_iff.mp found
  rcases eq_or_ne other index with rfl | different
  · cases found.symm.trans foundOther
    exact ⟨new, List.getElem?_set_self bound, kept⟩
  · exact ⟨item, (List.getElem?_set_ne different).trans found, rfl⟩

theorem StreamChange.kept {system next : WatchSystem} {action : WatchAction}
    (change : StreamChange system next action) {number : Nat} {watcher : Watcher}
    (found : system.watchers[number]? = some watcher) :
    ∃ after, next.watchers[number]? = some after ∧ after.identity = watcher.identity := by
  cases change with
  | quiet watchers | answered id watchers => exact ⟨watcher, watchers ▸ found, rfl⟩
  | created request watchers =>
      obtain ⟨bound, -⟩ := List.getElem?_eq_some_iff.mp found
      exact ⟨watcher, watchers ▸ (List.getElem?_append_left bound).trans found, rfl⟩
  | started creating foundOther watchers =>
      rw [watchers]
      exact exists_getElem?_set Watcher.identity found foundOther rfl
  | moved foundOther stepped watchers =>
      rw [watchers]
      exact exists_getElem?_set Watcher.identity found foundOther (Watcher.step_kept stepped)

theorem FanOutMove.kept {runtime : Runtime} {fan next : FanOut} {action : FanOutAction}
    (move : FanOutMove runtime fan action next) {id : Nat} {subscriber : Subscriber}
    (found : fan.registered[id]? = some subscriber) :
    ∃ after, next.registered[id]? = some after ∧ after.sub = subscriber.sub := by
  cases move with
  | other | removeSub | pollRead | pollFail | pass | clear => exact ⟨subscriber, found, rfl⟩
  | subscribe sub =>
      obtain ⟨bound, -⟩ := List.getElem?_eq_some_iff.mp found
      exact ⟨subscriber, (List.getElem?_append_left bound).trans found, rfl⟩
  | pollQuery | capture =>
      refine ⟨subscriber, ?_, rfl⟩
      unfold FanOut.dispatchEvents
      split_ifs <;> exact found
  | own foundOther | offer serving foundOther | drop serving foundOther =>
      exact exists_getElem?_set Subscriber.sub found foundOther rfl

namespace WatchService

variable {runtime : Runtime} {service next : WatchService}

theorem inner_of_permits {n number : Nat} {action : WatcherAction}
    (permitted : service.permits n (.watcher number action) = true) : action.inner = true := by
  cases action <;> first | rfl | exact permitted

/-- A watch reads the channel of a subscriber with its own subscription. -/
structure Inv (service : WatchService) : Prop where
  attached : ∀ n number id, service.eventCh (n, number) = some id →
    ∃ system watcher subscriber, service.streams[n]? = some system ∧
      system.watchers[number]? = some watcher ∧
      service.fan.registered[id]? = some subscriber ∧ subscriber.sub = watcher.subscription
  idle : ∀ system ∈ service.streams, ∀ watcher ∈ system.watchers, watcher.eventCh = []

theorem Inv.init (world : World) (pollRev : Int) : (init world pollRev).Inv where
  attached := by rintro _ _ _ ⟨⟩
  idle := List.forall_mem_nil _

theorem Inv.setFan (inv : service.Inv) {fan : FanOut}
    (kept : ∀ (id : Nat) (subscriber : Subscriber),
      service.fan.registered[id]? = some subscriber →
        ∃ after, fan.registered[id]? = some after ∧ after.sub = subscriber.sub) :
    { service with fan := fan }.Inv where
  attached := by
    intro n number id linked
    obtain ⟨system, watcher, subscriber, found, watching, subscribed, same⟩ :=
      inv.attached n number id linked
    obtain ⟨after, foundAfter, sameSub⟩ := kept id subscriber subscribed
    exact ⟨system, watcher, after, found, watching, foundAfter, sameSub.trans same⟩
  idle := inv.idle

theorem Inv.setStream (inv : service.Inv) {n : Nat} {system after : WatchSystem}
    (found : service.streams[n]? = some system)
    (kept : ∀ (number : Nat) (watcher : Watcher), system.watchers[number]? = some watcher →
      ∃ same, after.watchers[number]? = some same ∧ same.identity = watcher.identity)
    (idle : ∀ watcher ∈ after.watchers, watcher.eventCh = []) :
    (service.setStream n after).Inv where
  attached := by
    intro other number id linked
    obtain ⟨standing, watcher, subscriber, foundOther, watching, subscribed, same⟩ :=
      inv.attached other number id linked
    rcases eq_or_ne n other with rfl | different
    · cases found.symm.trans foundOther
      obtain ⟨bound, -⟩ := List.getElem?_eq_some_iff.mp found
      obtain ⟨watcherAfter, watchingAfter, sameIdentity⟩ := kept number watcher watching
      have sameSub := congrArg Prod.snd sameIdentity
      exact ⟨after, watcherAfter, subscriber, List.getElem?_set_self bound, watchingAfter,
        subscribed, same.trans sameSub.symm⟩
    · exact ⟨standing, watcher, subscriber, (List.getElem?_set_ne different).trans foundOther,
        watching, subscribed, same⟩
  idle := by
    intro standing membership
    rcases List.mem_or_eq_of_mem_set membership with before | rfl
    · exact inv.idle standing before
    · exact idle

theorem Inv.connect (inv : service.Inv) :
    { service with streams := service.streams ++ [WatchSystem.opened] }.Inv where
  attached := by
    intro n number id linked
    obtain ⟨system, watcher, subscriber, found, rest⟩ := inv.attached n number id linked
    obtain ⟨bound, -⟩ := List.getElem?_eq_some_iff.mp found
    exact ⟨system, watcher, subscriber, (List.getElem?_append_left bound).trans found, rest⟩
  idle := List.forall_mem_append.mpr ⟨inv.idle, List.forall_mem_singleton.mpr (by rintro _ ⟨⟩)⟩

theorem Inv.subscribe (inv : service.Inv) {n number : Nat} {system : WatchSystem}
    {watcher : Watcher} (found : service.streams[n]? = some system)
    (watching : system.watchers[number]? = some watcher) {subscribers : SharedSlice Nat} :
    Inv { service with
      fan := { service.fan with
        registered := service.fan.registered ++ [.new watcher.subscription]
        subscribers := subscribers }
      eventCh := Function.update service.eventCh (n, number)
        (some service.fan.registered.length) } := by
  refine ⟨?_, inv.idle⟩
  intro other another id linked
  rcases eq_or_ne (other, another) (n, number) with same | different
  · obtain ⟨rfl, rfl⟩ := Prod.mk.inj same
    simp only [Function.update_self, Option.some.injEq] at linked
    subst linked
    exact ⟨system, watcher, _, found, watching, List.getElem?_concat_length, rfl⟩
  · simp only [Function.update_of_ne different] at linked
    obtain ⟨standing, another, subscriber, foundOther, watchingOther, subscribed, same⟩ :=
      inv.attached other another id linked
    obtain ⟨bound, -⟩ := List.getElem?_eq_some_iff.mp subscribed
    exact ⟨standing, another, subscriber, foundOther, watchingOther,
      (List.getElem?_append_left bound).trans subscribed, same⟩

theorem idle_of_change {system after : WatchSystem} {action : WatchAction}
    (idle : ∀ watcher ∈ system.watchers, watcher.eventCh = [])
    (unread : ∀ number inner, action = .watcher number inner → inner.unread = true)
    (change : StreamChange system after action) :
    ∀ watcher ∈ after.watchers, watcher.eventCh = [] := by
  have set : ∀ {number : Nat} {old new : Watcher}, system.watchers[number]? = some old →
      after.watchers = system.watchers.set number new → new.eventCh = old.eventCh →
      ∀ watcher ∈ after.watchers, watcher.eventCh = [] := by
    intro number old new found watchers same watcher membership
    rw [watchers] at membership
    rcases List.mem_or_eq_of_mem_set membership with before | rfl
    · exact idle watcher before
    · exact same.trans (idle old (List.mem_of_getElem? found))
  cases change with
  | quiet watchers | answered id watchers => exact watchers ▸ idle
  | created request watchers =>
      rw [watchers]
      exact List.forall_mem_append.mpr ⟨idle, List.forall_mem_singleton.mpr rfl⟩
  | started creating found watchers => exact set found watchers rfl
  | moved found stepped watchers =>
      exact set found watchers (Watcher.step_unread (unread _ _ rfl) stepped)

theorem Inv.changed (inv : service.Inv) {n : Nat} {system after : WatchSystem}
    {action : WatchAction} (found : service.streams[n]? = some system)
    (unread : ∀ number inner, action = .watcher number inner → inner.unread = true)
    (stepped : system.step action = some after) : (service.setStream n after).Inv := by
  have change := WatchSystem.step_change stepped
  exact inv.setStream found (fun _ _ => change.kept)
    (idle_of_change (inv.idle system (List.mem_of_getElem? found)) unread change)

theorem Inv.move (inv : service.Inv) {action : ServiceAction}
    (move : ServiceMove runtime service action next) : next.Inv := by
  cases move with
  | store own moved => exact inv.setFan fun _ _ => (FanOut.step_move moved).kept
  | connect => exact inv.connect
  | stream permitted found stepped =>
      refine inv.changed found ?_ stepped
      rintro number inner rfl
      exact WatcherAction.unread_of_inner (inner_of_permits permitted)
  | subscribe found watching => exact inv.subscribe found watching
  | cancel attached moved => exact inv.setFan fun _ _ => (FanOut.step_move moved).kept
  | @take n number id readOk system after subscriber batch channel found attached subscribed
      received taken ran =>
      obtain ⟨standing, watcher, _, foundHere, watching, _, _⟩ := inv.attached n number id attached
      cases found.symm.trans foundHere
      have idle := inv.idle system (List.mem_of_getElem? found)
      obtain ⟨-, watchers, -⟩ := WatchSystem.take_change watching
        (idle watcher (List.mem_of_getElem? watching)) ran
      have taking : (service.setStream n after).Inv := by
        apply inv.setStream found
        · intro other another foundOther
          rw [watchers]
          exact exists_getElem?_set Watcher.identity foundOther watching rfl
        · intro another membership
          rw [watchers] at membership
          rcases List.mem_or_eq_of_mem_set membership with before | rfl
          · exact idle another before
          · exact idle watcher (List.mem_of_getElem? watching)
      exact taking.setFan fun _ _ foundOther =>
        exists_getElem?_set Subscriber.sub foundOther subscribed rfl
  | tick found attached stepped =>
      refine inv.changed found ?_ stepped
      rintro number inner ⟨⟩
      rfl

/-! ## The watcher of the service -/

/-- What Spanner promises of the change stream. -/
def Delivered (runtime : Runtime) (service : WatchService) : ServiceAction → Prop
  | .store action => service.fan.Delivered runtime action
  | _ => True

theorem fan_move {action : ServiceAction} (met : service.Delivered runtime action)
    (move : ServiceMove runtime service action next) :
    next.fan = service.fan ∨ ∃ step, FanOutMove runtime service.fan step next.fan ∧
      service.fan.Delivered runtime step := by
  cases move with
  | store own moved => exact .inr ⟨_, FanOut.step_move moved, met⟩
  | connect | stream | tick => exact .inl rfl
  | subscribe => exact .inr ⟨_, .subscribe _, trivial⟩
  | cancel attached moved => exact .inr ⟨_, FanOut.step_move moved, trivial⟩
  | @take _ _ id _ _ _ subscriber _ channel _ _ subscribed received =>
      have stepped : (service.fan.view subscriber).step runtime subscriber.sub .receive =
          some { service.fan.view subscriber with channel := channel } := by
        simp [SubscribeSystem.step, FanOut.view, received]
      exact .inr ⟨_, .own subscribed rfl stepped, trivial⟩

theorem genuine_move {action : ServiceAction} (genuine : service.fan.Genuine)
    (met : service.Delivered runtime action) (move : ServiceMove runtime service action next) :
    next.fan.Genuine := by
  obtain same | ⟨step, moved, delivered⟩ := fan_move met move
  · rw [same]
    exact genuine
  · exact genuine.move delivered moved

end WatchService

end SpannerEtcd
