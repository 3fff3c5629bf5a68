import SpannerEtcd.Lib.Simulation
import SpannerEtcd.Watch.FanOut

/-!
# One of many subscribers

Seen from one subscriber, the watcher behaves as if this subscriber were the
only one.  A dispatch that serves several subscribers is a batch in flight for
each of them; a dispatch whose copy no longer lists the subscriber is one that
finds it closed.
-/

namespace SpannerEtcd

section
variable {runtime : Runtime} {fan next : FanOut}

/-! ## Batches of other producers -/

namespace SubscribeSystem

variable {system : SubscribeSystem} {producer other : Producer}

theorem flight_land_of_ne (different : other ≠ producer) :
    (system.land producer).flight other = system.flight other := by
  unfold flight land
  rw [List.find?_filter]
  congr 1
  funext flight
  by_cases same : flight.producer = other <;> simp [same, different]

theorem flight_append_of_ne {flight : Flight} (different : other ≠ flight.producer) :
    { system with inFlight := system.inFlight ++ [flight] }.flight other = system.flight other := by
  unfold SubscribeSystem.flight
  simp [List.find?_append, different.symm]

theorem step_check_closed {sub : Subscription} {flight : Flight}
    (found : system.flight producer = some flight) (unchecked : flight.cleared = false)
    (closed : system.closed = true) :
    system.step runtime sub (.check producer) = some (system.land producer) := by
  simp [step, found, unchecked, closed]

theorem step_check_open {sub : Subscription} {flight : Flight}
    (found : system.flight producer = some flight) (unchecked : flight.cleared = false)
    (serving : system.closed = false) :
    system.step runtime sub (.check producer) =
      some { system.land producer with
        inFlight := (system.land producer).inFlight ++ [{ flight with cleared := true }] } := by
  simp [step, found, unchecked, serving]

theorem step_offer {sub : Subscription} {flight : Flight}
    (found : system.flight producer = some flight) (cleared : flight.cleared = true) :
    system.step runtime sub (.offer producer) =
      if system.channel.queue.length < subChannelDepth then
        some { system.land producer with channel := system.channel.send flight.matching }
      else some { system.land producer with canceled := true } := by
  simp [step, found, cleared]

end SubscribeSystem

namespace FanOut

/-! ## The watcher as one subscriber sees it -/

/-- The batch that a dispatch still holds for a subscriber. -/
def pending (fan : FanOut) (id : Nat) (sub : Subscription) (producer : Producer) : Option Flight :=
  (fan.dispatches producer).bind fun dispatch =>
    if dispatch.subs.contains id && !(sub.matching dispatch.events).isEmpty then
      some ⟨producer, sub.matching dispatch.events,
        dispatch.cleared && dispatch.subs.head? == some id⟩
    else none

structure Shows (fan : FanOut) (id : Nat) (sub : Subscription) (system : SubscribeSystem) :
    Prop where
  world : system.world = fan.world
  pollRev : system.pollRev = fan.pollRev
  poll : system.poll = fan.poll
  self : fan.registered[id]? =
    some ⟨sub, system.replay, system.channel, system.closed, system.canceled⟩
  flights : ∀ producer, system.flight producer = fan.pending id sub producer

theorem pending_eq_none_of_landed {id : Nat} {sub : Subscription} {producer : Producer}
    (landed : fan.dispatches producer = none) : fan.pending id sub producer = none := by
  simp [pending, landed]

theorem pending_serve_of_ne {id : Nat} {sub : Subscription} {producer other : Producer}
    (dispatch : Option Dispatch) (different : other ≠ producer) :
    (fan.serve producer dispatch).pending id sub other = fan.pending id sub other := by
  simp [pending, serve, Function.update_of_ne different]

theorem pending_serving {id : Nat} {sub : Subscription} {producer : Producer}
    (events : List Event) (subs : List Nat) :
    (fan.serve producer (Dispatch.serving events subs)).pending id sub producer =
      if id ∈ subs ∧ sub.matching events ≠ [] then some ⟨producer, sub.matching events, false⟩
      else none := by
  unfold pending serve Dispatch.serving
  cases subs <;> simp

theorem pending_head {id : Nat} {sub : Subscription} {producer : Producer} {events : List Event}
    {rest : List Nat} {cleared : Bool}
    (serving : fan.dispatches producer = some ⟨events, id :: rest, cleared⟩)
    (wanted : sub.matching events ≠ []) :
    fan.pending id sub producer = some ⟨producer, sub.matching events, cleared⟩ := by
  simp [pending, serving, wanted]

theorem pending_tail {id head : Nat} {sub : Subscription} {producer : Producer}
    {events : List Event} {rest : List Nat} {cleared : Bool}
    (serving : fan.dispatches producer = some ⟨events, head :: rest, cleared⟩)
    (different : head ≠ id) :
    fan.pending id sub producer =
      if id ∈ rest ∧ sub.matching events ≠ [] then some ⟨producer, sub.matching events, false⟩
      else none := by
  have unlike : (head == id) = false := beq_false_of_ne different
  simp [pending, serving, different.symm, unlike]

/-- The records of the change stream have the documented form and report
committed rows in the order of their commits, none twice. -/
def Delivered (runtime : Runtime) (fan : FanOut) : FanOutAction → Prop
  | .capture _ rows gcv =>
      ChangeRecord runtime rows gcv ∧ (∀ row ∈ rows, row ∈ fan.world.history) ∧
        (rows.Pairwise fun first second => first.rev ≤ second.rev) ∧ rows.Nodup
  | _ => True

/-- The steps with which one subscription answers a step of the watcher. -/
def Answered (runtime : Runtime) (id : Nat) (sub : Subscription) (system : SubscribeSystem)
    (next : FanOut) : Prop :=
  ∃ own after, Runs.run (SubscribeSystem.step runtime sub) system own = some after ∧
    Runs.Guarded (SubscribeSystem.step runtime sub) (SpannerEtcd.Delivered runtime) system own ∧
    next.Shows id sub after

section
variable {id : Nat} {sub : Subscription} {system after : SubscribeSystem}

theorem Shows.silent (shows : next.Shows id sub system) : Answered runtime id sub system next :=
  ⟨[], system, rfl, trivial, shows⟩

theorem Answered.cons {action : SubscribeAction}
    (stepped : system.step runtime sub action = some after)
    (met : SpannerEtcd.Delivered runtime system action)
    (answered : Answered runtime id sub after next) : Answered runtime id sub system next := by
  obtain ⟨own, finish, ran, guarded, shows⟩ := answered
  exact ⟨action :: own, finish, Runs.run_cons_eq_some.mpr ⟨after, stepped, ran⟩,
    (Runs.guarded_cons stepped).mpr ⟨met, guarded⟩, shows⟩

theorem Shows.single {action : SubscribeAction}
    (stepped : system.step runtime sub action = some after)
    (met : SpannerEtcd.Delivered runtime system action) (shows : next.Shows id sub after) :
    Answered runtime id sub system next :=
  .cons stepped met shows.silent

/-- A producer turns to other subscribers, and only its batch changes. -/
theorem Shows.serve (shows : fan.Shows id sub system) (producer : Producer)
    (dispatch : Option Dispatch) (flights : List Flight)
    (others : ∀ other ≠ producer,
      { system with inFlight := flights }.flight other = system.flight other)
    (flight : { system with inFlight := flights }.flight producer =
      (fan.serve producer dispatch).pending id sub producer) :
    (fan.serve producer dispatch).Shows id sub { system with inFlight := flights } := by
  refine ⟨shows.world, shows.pollRev, shows.poll, shows.self, fun other => ?_⟩
  rcases eq_or_ne other producer with rfl | different
  · exact flight
  · rw [others other different, pending_serve_of_ne _ different, shows.flights other]

/-- A new dispatch flies to a listed subscriber.  A removed subscriber is not in
the copy; its subscription takes the batch up and finds itself closed. -/
theorem Shows.dispatchEvents (inv : fan.Inv) (shows : fan.Shows id sub system)
    {producer : Producer} (landed : fan.dispatches producer = none) (events : List Event) :
    Answered runtime id sub (system.dispatchEvents sub producer events)
      (fan.dispatchEvents producer events) := by
  have nothing : system.flight producer = none :=
    (shows.flights producer).trans (pending_eq_none_of_landed landed)
  have ignored (unwanted : sub.matching events = []) :
      system.dispatchEvents sub producer events = system := by
    unfold SubscribeSystem.dispatchEvents
    rw [show events.filter (fun event => sub.accepts event.kv.key) = [] from unwanted]
    rfl
  by_cases empty : events = []
  · rw [ignored (by rw [empty]; rfl), FanOut.dispatchEvents, if_pos (by simp [empty])]
    exact shows.silent
  rw [FanOut.dispatchEvents, if_neg (by simp [empty])]
  by_cases unwanted : sub.matching events = []
  · rw [ignored unwanted]
    apply Shows.silent
    apply shows.serve producer _ system.inFlight (fun _ _ => rfl)
    rw [pending_serving, if_neg (fun wanted => wanted.2 unwanted)]
    exact nothing
  have flies : system.dispatchEvents sub producer events =
      { system with
        inFlight := system.inFlight ++ [⟨producer, sub.matching events, false⟩] } := by
    unfold SubscribeSystem.dispatchEvents
    exact if_neg fun empty => unwanted (List.isEmpty_iff.mp empty)
  rw [flies]
  have flight := SubscribeSystem.flight_append system ⟨producer, sub.matching events, false⟩ nothing
  have others (other : Producer) (different : other ≠ producer) :
      { system with
        inFlight := system.inFlight ++ [Flight.mk producer (sub.matching events) false] }.flight
          other = system.flight other :=
    SubscribeSystem.flight_append_of_ne different
  by_cases listed : id ∈ fan.subscribers.toList
  · apply Shows.silent
    apply shows.serve producer _ _ others
    rw [pending_serving, if_pos ⟨listed, unwanted⟩]
    exact flight
  · have closed : system.closed = true := inv.removed id _ shows.self listed
    apply Shows.single (SubscribeSystem.step_check_closed flight rfl closed) ⟨trivial, trivial⟩
    apply shows.serve producer _ _
    · intro other different
      exact (SubscribeSystem.flight_land_of_ne different).trans (others other different)
    · rw [pending_serving, if_neg (fun wanted => listed wanted.1)]
      exact SubscribeSystem.land_flight producer

theorem Shows.view (shows : fan.Shows id sub system) :
    fan.view ⟨sub, system.replay, system.channel, system.closed, system.canceled⟩ =
      { system with inFlight := [] } := by
  simp only [FanOut.view, shows.world, shows.pollRev, shows.poll]

/-- A step of another subscriber. -/
theorem Shows.set (shows : fan.Shows id sub system) {other : Nat} (different : other ≠ id)
    (changed : Subscriber) :
    { fan with registered := fan.registered.set other changed }.Shows id sub system :=
  ⟨shows.world, shows.pollRev, shows.poll,
    (List.getElem?_set_ne different).trans shows.self, shows.flights⟩

theorem Shows.own (shows : fan.Shows id sub system) {action : SubscribeAction}
    (own : action.own = true)
    (stepped : (fan.view ⟨sub, system.replay, system.channel, system.closed,
      system.canceled⟩).step runtime sub action = some after) :
    Answered runtime id sub system { fan with
      registered := fan.registered.set id
        ⟨sub, after.replay, after.channel, after.closed, after.canceled⟩ } := by
  have kept := (SubscribeSystem.step_move stepped).ownStep own
  have moved :
      system.step runtime sub action = some { after with inFlight := system.inFlight } := by
    have framed : system.step runtime sub action = _ :=
      @SubscribeSystem.step_own runtime sub { system with inFlight := [] } action
        system.inFlight own
    rw [framed, ← shows.view, stepped]
    rfl
  have met : SpannerEtcd.Delivered runtime system action := by
    cases action <;> first | exact ⟨trivial, trivial⟩ | cases own
  have inside := (List.getElem?_eq_some_iff.mp shows.self).1
  exact Shows.single moved met ⟨kept.world, kept.pollRev, kept.poll,
    List.getElem?_set_self inside, shows.flights⟩

/-- The subscriber is passed over.  Either nothing flew to it, or its batch finds
it closed. -/
theorem Shows.pass (inv : fan.Inv) (shows : fan.Shows id sub system) {producer : Producer}
    {events : List Event} {rest : List Nat}
    (serving : fan.dispatches producer = some ⟨events, id :: rest, false⟩)
    (skipped : sub.matching events = [] ∨ system.closed = true) :
    Answered runtime id sub system (fan.serve producer (Dispatch.serving events rest)) := by
  have gone : id ∉ rest := (List.nodup_cons.mp (inv.dispatches producer _ serving).once).1
  have landed : (fan.serve producer (Dispatch.serving events rest)).pending id sub producer =
      none := by
    rw [pending_serving, if_neg (fun wanted => gone wanted.1)]
  by_cases unwanted : sub.matching events = []
  · apply Shows.silent
    apply shows.serve producer _ system.inFlight (fun _ _ => rfl)
    rw [landed]
    refine (shows.flights producer).trans ?_
    simp [pending, serving, unwanted]
  · have flight := (shows.flights producer).trans (pending_head serving unwanted)
    have closed := skipped.resolve_left unwanted
    apply Shows.single (SubscribeSystem.step_check_closed flight rfl closed) ⟨trivial, trivial⟩
    apply shows.serve producer _ _ (fun _ different => SubscribeSystem.flight_land_of_ne different)
    rw [landed]
    exact SubscribeSystem.land_flight producer

theorem Shows.clear (shows : fan.Shows id sub system) {producer : Producer} {events : List Event}
    {rest : List Nat} (serving : fan.dispatches producer = some ⟨events, id :: rest, false⟩)
    (wanted : sub.matching events ≠ []) (unclosed : system.closed = false) :
    Answered runtime id sub system (fan.serve producer (some ⟨events, id :: rest, true⟩)) := by
  have flight := (shows.flights producer).trans (pending_head serving wanted)
  apply Shows.single (SubscribeSystem.step_check_open flight rfl unclosed) ⟨trivial, trivial⟩
  apply shows.serve producer _ _
  · intro other different
    exact (@SubscribeSystem.flight_append_of_ne (system.land producer) other
      ⟨producer, sub.matching events, true⟩ different).trans
        (SubscribeSystem.flight_land_of_ne different)
  · have serves : (fan.serve producer (some ⟨events, id :: rest, true⟩)).dispatches producer =
        some ⟨events, id :: rest, true⟩ := Function.update_self ..
    rw [pending_head serves wanted]
    exact SubscribeSystem.flight_append (system.land producer)
      ⟨producer, sub.matching events, true⟩ (SubscribeSystem.land_flight producer)

/-- The subscriber takes the batch, or is cancelled. -/
theorem Shows.offer (inv : fan.Inv) (shows : fan.Shows id sub system) {producer : Producer}
    {events : List Event} {rest : List Nat}
    (serving : fan.dispatches producer = some ⟨events, id :: rest, true⟩)
    {channel : Channel Event} {canceled : Bool}
    (offered : system.step runtime sub (.offer producer) =
      some { system.land producer with channel := channel, canceled := canceled }) :
    Answered runtime id sub system
      { fan.serve producer (Dispatch.serving events rest) with
        registered := fan.registered.set id
          ⟨sub, system.replay, channel, system.closed, canceled⟩ } := by
  have gone : id ∉ rest := (List.nodup_cons.mp (inv.dispatches producer _ serving).once).1
  have served : (fan.serve producer (Dispatch.serving events rest)).Shows id sub
      (system.land producer) := by
    apply shows.serve producer _ _ (fun _ different => SubscribeSystem.flight_land_of_ne different)
    rw [pending_serving, if_neg (fun wanted => gone wanted.1)]
    exact SubscribeSystem.land_flight producer
  have inside := (List.getElem?_eq_some_iff.mp shows.self).1
  exact Shows.single offered ⟨trivial, trivial⟩ ⟨served.world, served.pollRev, served.poll,
    List.getElem?_set_self inside, served.flights⟩

/-- A producer serves another subscriber. -/
theorem Shows.serve_other (shows : fan.Shows id sub system) {producer : Producer}
    {events : List Event} {head : Nat} {rest : List Nat} {cleared : Bool}
    (serving : fan.dispatches producer = some ⟨events, head :: rest, cleared⟩)
    (different : head ≠ id) :
    (fan.serve producer (Dispatch.serving events rest)).Shows id sub system := by
  apply shows.serve producer _ system.inFlight (fun _ _ => rfl)
  rw [pending_serving, ← pending_tail serving different]
  exact shows.flights producer

theorem Shows.move (inv : fan.Inv) (shows : fan.Shows id sub system) {action : FanOutAction}
    (met : fan.Delivered runtime action) (move : FanOutMove runtime fan action next) :
    Answered runtime id sub system next := by
  cases move with
  | @other action world stepped =>
    have moved : system.step runtime sub (.other action) = some { system with world := world } := by
      simp [SubscribeSystem.step, shows.world, stepped]
    exact Shows.single moved ⟨trivial, trivial⟩
      ⟨rfl, shows.pollRev, shows.poll, shows.self, shows.flights⟩
  | subscribe other =>
    have inside := (List.getElem?_eq_some_iff.mp shows.self).1
    exact Shows.silent ⟨shows.world, shows.pollRev, shows.poll,
      (List.getElem?_append_left inside).trans shows.self, shows.flights⟩
  | @own other subscriber action after found permitted stepped =>
    rcases eq_or_ne other id with rfl | different
    · cases found.symm.trans shows.self
      exact shows.own (own_of_permits permitted) stepped
    · exact (shows.set different _).silent
  | removeSub found draining =>
    exact Shows.silent ⟨shows.world, shows.pollRev, shows.poll, shows.self, shows.flights⟩
  | @pollRead read landed reads =>
    have idle := (shows.flights .pollLoop).trans (pending_eq_none_of_landed landed)
    have moved : system.step runtime sub .pollRead = some { system with poll := read } := by
      simp [SubscribeSystem.step, idle, shows.world, shows.poll, reads]
    exact Shows.single moved ⟨trivial, trivial⟩
      ⟨shows.world, shows.pollRev, rfl, shows.self, shows.flights⟩
  | @pollQuery revDb compactDb order reading landed ordered =>
    have polled : { fan with
        poll := .idle
        pollRev := (doPoll revDb compactDb order fan.pollRev).2 }.Shows id sub
        { system with
          poll := .idle
          pollRev := (doPoll revDb compactDb order fan.pollRev).2 } :=
      ⟨shows.world, rfl, rfl, shows.self, shows.flights⟩
    have moved : system.step runtime sub (.pollQuery order) =
        some ({ system with
          poll := .idle
          pollRev := (doPoll revDb compactDb order fan.pollRev).2 }.dispatchEvents sub .pollLoop
            (doPoll revDb compactDb order fan.pollRev).1) := by
      simp only [SubscribeSystem.step, shows.poll, reading, shows.world, shows.pollRev]
      rw [if_pos ordered]
    apply Answered.cons moved ⟨trivial, trivial⟩
    apply polled.dispatchEvents _ landed
    exact ⟨inv.once, inv.known, inv.torn, inv.removed, inv.dispatches⟩
  | pollFail =>
    have moved : system.step runtime sub .pollFail = some { system with poll := .idle } := rfl
    exact Shows.single moved ⟨trivial, trivial⟩
      ⟨shows.world, shows.pollRev, rfl, shows.self, shows.flights⟩
  | @capture number rows gcv landed =>
    have idle := (shows.flights (.partition number)).trans (pending_eq_none_of_landed landed)
    have moved : system.step runtime sub (.capture number rows gcv) =
        some (system.dispatchEvents sub (.partition number) (decodeRecord runtime gcv).events) := by
      simp [SubscribeSystem.step, idle]
    have inOrder : InCommitOrder system (.capture number rows gcv) := by
      rw [InCommitOrder, shows.world]
      exact met.2
    exact Answered.cons moved ⟨met.1, inOrder⟩ (shows.dispatchEvents inv landed _)
  | @pass producer events head rest subscriber serving found skipped =>
    rcases eq_or_ne head id with rfl | different
    · cases found.symm.trans shows.self
      exact shows.pass inv serving skipped
    · exact (shows.serve_other serving different).silent
  | @clear producer events head rest subscriber serving found wanted unclosed =>
    rcases eq_or_ne head id with rfl | different
    · cases found.symm.trans shows.self
      exact shows.clear serving wanted unclosed
    · apply Shows.silent
      apply shows.serve producer _ system.inFlight (fun _ _ => rfl)
      have serves : (fan.serve producer (some ⟨events, head :: rest, true⟩)).dispatches producer =
          some ⟨events, head :: rest, true⟩ := Function.update_self ..
      rw [pending_tail serves different, ← pending_tail serving different]
      exact shows.flights producer
  | @offer producer events head rest subscriber serving found room =>
    rcases eq_or_ne head id with rfl | different
    · cases found.symm.trans shows.self
      have wanted := (inv.dispatches producer _ serving).wanted rfl head rfl _ shows.self
      have flight := (shows.flights producer).trans (pending_head serving wanted)
      exact shows.offer inv serving ((SubscribeSystem.step_offer flight rfl).trans (if_pos room))
    · exact ((shows.serve_other serving different).set different _).silent
  | @drop producer events head rest subscriber serving found full =>
    rcases eq_or_ne head id with rfl | different
    · cases found.symm.trans shows.self
      have wanted := (inv.dispatches producer _ serving).wanted rfl head rfl _ shows.self
      have flight := (shows.flights producer).trans (pending_head serving wanted)
      exact shows.offer inv serving ((SubscribeSystem.step_offer flight rfl).trans (if_neg full))
    · exact ((shows.serve_other serving different).set different _).silent

theorem shows_new (inv : fan.Inv) (sub : Subscription) :
    { fan with
      registered := fan.registered ++ [Subscriber.new sub]
      subscribers := fan.subscribers.append fan.registered.length }.Shows fan.registered.length sub
        (.subscribe fan.world fan.pollRev fan.poll) := by
  refine ⟨rfl, rfl, rfl, List.getElem?_concat_length, fun producer => ?_⟩
  cases dispatching : fan.dispatches producer with
  | none => exact (pending_eq_none_of_landed dispatching).symm
  | some dispatch =>
    have unserved : fan.registered.length ∉ dispatch.subs :=
      fun membership => lt_irrefl _ ((inv.dispatches producer _ dispatching).known _ membership)
    simp [pending, dispatching, unserved, SubscribeSystem.flight, SubscribeSystem.subscribe]

end

end FanOut

/-- Whatever the other subscribers do, each subscription runs as if it were the
only one: from its registration on it takes the steps of a single
subscription. -/
theorem subscribers_run_alone {world : World} {pollRev : Int} {sub : Subscription}
    {before actions : List FanOutAction} {final : FanOut}
    (started : Runs.run (FanOut.step runtime) (.init world pollRev) before = some fan)
    (ran : Runs.run (FanOut.step runtime) fan (.subscribe sub :: actions) = some final)
    (delivered : Runs.Guarded (FanOut.step runtime) (FanOut.Delivered runtime) fan
      (.subscribe sub :: actions)) :
    ∃ own system,
      Runs.run (SubscribeSystem.step runtime sub) (.subscribe fan.world fan.pollRev fan.poll) own =
        some system ∧
      Runs.Guarded (SubscribeSystem.step runtime sub) (Delivered runtime)
        (.subscribe fan.world fan.pollRev fan.poll) own ∧
      final.Shows fan.registered.length sub system := by
  have inv : fan.Inv := (FanOut.inv_init world pollRev).run started
  obtain ⟨registered, stepped, finished⟩ := Runs.run_cons_eq_some.mp ran
  rw [Runs.guarded_cons stepped] at delivered
  obtain rfl := Option.some.inj stepped
  have simulated : ∀ {state : FanOut} {system : SubscribeSystem} {action : FanOutAction}
      {after : FanOut}, state.Delivered runtime action →
      (state.Inv ∧ state.Shows fan.registered.length sub system) →
      state.step runtime action = some after →
        ∃ own reached, Runs.run (SubscribeSystem.step runtime sub) system own = some reached ∧
          Runs.Guarded (SubscribeSystem.step runtime sub) (Delivered runtime) system own ∧
          after.Inv ∧ after.Shows fan.registered.length sub reached := by
    rintro state system action after met ⟨standing, shows⟩ moved
    have move := FanOut.step_move moved
    obtain ⟨own, reached, ranOwn, guarded, shown⟩ := shows.move standing met move
    exact ⟨own, reached, ranOwn, guarded, standing.move move, shown⟩
  obtain ⟨own, system, ranOwn, guarded, -, shows⟩ :=
    Simulation.guarded_simulated simulated delivered.2 finished
      ⟨inv.subscribe sub, FanOut.shows_new inv sub⟩
  exact ⟨own, system, ranOwn, guarded, shows⟩

end

/-- The first subscriber fails and removes itself while a dispatch is about to
serve it and the second one. -/
def removalDuringDispatch : List FanOutAction :=
  [.pollRead, .pollRead, .pollQuery [createdRow], .own 0 .replayFail, .own 0 .close, .removeSub 0,
    .visit .pollLoop, .visit .pollLoop, .offer .pollLoop, .own 1 .receive]

set_option maxRecDepth 2000 in
theorem second_subscriber_runs_alone :
    ∃ fan final,
      Runs.run (FanOut.step tombstoneRuntime) (.init createdWorld 1) [.subscribe subscriptionToK] =
        some fan ∧
      Runs.run (FanOut.step tombstoneRuntime) fan
        (.subscribe subscriptionToK :: removalDuringDispatch) = some final ∧
      final.subscribers.toList = [1] ∧
      ∃ own system,
        Runs.run (SubscribeSystem.step tombstoneRuntime subscriptionToK)
          (.subscribe fan.world fan.pollRev fan.poll) own = some system ∧
        Runs.Guarded (SubscribeSystem.step tombstoneRuntime subscriptionToK)
          (Delivered tombstoneRuntime) (.subscribe fan.world fan.pollRev fan.poll) own ∧
        final.Shows 1 subscriptionToK system := by
  have ran : ∃ fan final,
      Runs.run (FanOut.step tombstoneRuntime) (.init createdWorld 1) [.subscribe subscriptionToK] =
        some fan ∧
      Runs.run (FanOut.step tombstoneRuntime) fan
        (.subscribe subscriptionToK :: removalDuringDispatch) = some final ∧
      final.subscribers.toList = [1] ∧ fan.registered.length = 1 := ⟨_, _, rfl, rfl, rfl, rfl⟩
  obtain ⟨fan, final, started, finished, left, first⟩ := ran
  have delivered : Runs.Guarded (FanOut.step tombstoneRuntime) (FanOut.Delivered tombstoneRuntime)
      fan (.subscribe subscriptionToK :: removalDuringDispatch) := by
    apply Runs.Guarded.of_forall
    simp [removalDuringDispatch, FanOut.Delivered]
  have alone := subscribers_run_alone started finished delivered
  rw [first] at alone
  exact ⟨fan, final, started, finished, left, alone⟩

end SpannerEtcd
