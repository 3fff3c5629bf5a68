import SpannerEtcd.Server.WatchService

/-!
# What the responses of watches tell

However an event has come to a watch, what the client is shown is a committed
row, and no response tells a revision that the store has not reached.
-/

namespace SpannerEtcd

/-! ## Events as messages -/

/-- A nil value and an empty one are the same message. -/
def KeyValue.normalize (kv : KeyValue) : KeyValue := { kv with value := some (kv.value.getD []) }

/-- The event shows the row.  The previous entry is the one that the row
replaces, possibly without its value. -/
structure WatchEvent.Reports (event : WatchEvent) (row : Row) : Prop where
  type : event.type = if row.deleted then .delete else .put
  kv : event.kv.normalize = (toProtoKV (scanKV row)).normalize
  prevKv : ∀ prev, event.prevKv = some prev →
    prev.key = row.key ∧ prev.modRevision = nullTimeToRev row.prevRevision ∧
      (prev.value.getD [] = [] ∨ prev.value.getD [] = row.oldValue.getD [])

def Subscription.Shows (sub : Subscription) (history : List Row) (event : WatchEvent) : Prop :=
  ∃ row ∈ history, sub.Wants row.key ∧ event.Reports row

theorem toWatchEvent_prevKv {event : Event} {prev : KeyValue}
    (shown : (toWatchEvent event).prevKv = some prev) :
    prev.key = event.kv.key ∧ prev.modRevision = event.kv.prevRevision ∧
      prev.value.getD [] = event.kv.oldValue.getD [] := by
  unfold toWatchEvent at shown
  cases old : event.kv.oldValue with
  | none => simp [old] at shown
  | some oldValue =>
      simp only [old, Option.ite_none_right_eq_some, Option.some.injEq] at shown
      obtain ⟨-, rfl⟩ := shown
      exact ⟨rfl, rfl, rfl⟩

theorem Event.Tells.reports {event : Event} {row : Row} (tells : event.Tells row) :
    (toWatchEvent event).Reports row := by
  have columns : event.type = (rowEvent row).type ∧
      (toProtoKV event.kv).normalize = (toProtoKV (scanKV row)).normalize ∧
      event.kv.prevRevision = nullTimeToRev row.prevRevision ∧
      (event.kv.oldValue.getD [] = [] ∨ event.kv.oldValue.getD [] = row.oldValue.getD []) := by
    rcases tells with same | same
    · refine ⟨(congrArg Event.type same :), congrArg (fun event => toProtoKV (Event.kv event)) same,
        congrArg (fun event => (Event.kv event).prevRevision) same, .inr ?_⟩
      exact Option.some.inj (congrArg (fun event => (Event.kv event).oldValue) same)
    · refine ⟨(congrArg Event.type same :), congrArg (fun event => toProtoKV (Event.kv event)) same,
        congrArg (fun event => (Event.kv event).prevRevision) same, .inl ?_⟩
      exact Option.some.inj (congrArg (fun event => (Event.kv event).oldValue) same)
  obtain ⟨type, kv, prevRevision, oldValue⟩ := columns
  refine ⟨type, kv, fun prev shown => ?_⟩
  obtain ⟨sameKey, sameRevision, sameValue⟩ := toWatchEvent_prevKv shown
  rw [sameKey, sameRevision, sameValue]
  exact ⟨tells.key, prevRevision, oldValue⟩

theorem Subscription.Sees.shows {sub : Subscription} {history : List Row} {event : Event}
    (seen : sub.Sees history event) : sub.Shows history (toWatchEvent event) := by
  obtain ⟨row, committed, wanted, tells⟩ := seen
  exact ⟨row, committed, wanted, tells.reports⟩

/-! ## The revision of a batch -/

theorem foldl_maxRev (events : List Event) (start : Int) :
    let last :=
      events.foldl (fun rev event => if event.kv.rev > rev then event.kv.rev else rev) start
    start ≤ last ∧ (∀ event ∈ events, event.kv.rev ≤ last) ∧
      ∀ bound, start ≤ bound → (∀ event ∈ events, event.kv.rev ≤ bound) → last ≤ bound := by
  induction events generalizing start with
  | nil => exact ⟨le_refl start, nofun, fun _ below _ => below⟩
  | cons event rest inductionHypothesis =>
      obtain ⟨grows, above, least⟩ :=
        inductionHypothesis (if event.kv.rev > start then event.kv.rev else start)
      have first : start ≤ (if event.kv.rev > start then event.kv.rev else start) ∧
          event.kv.rev ≤ (if event.kv.rev > start then event.kv.rev else start) := by
        split_ifs <;> omega
      refine ⟨first.1.trans grows, ?_, ?_⟩
      · exact List.forall_mem_cons.mpr ⟨first.2.trans grows, above⟩
      · intro bound below allBelow
        obtain ⟨firstBelow, restBelow⟩ := List.forall_mem_cons.mp allBelow
        refine least bound ?_ restBelow
        split_ifs
        · exact firstBelow
        · exact below

theorem le_maxRev {events : List Event} {event : Event} (membership : event ∈ events) :
    event.kv.rev ≤ maxRev events :=
  (foldl_maxRev events 0).2.1 event membership

theorem maxRev_le {events : List Event} {bound : Int} (natural : 0 ≤ bound)
    (below : ∀ event ∈ events, event.kv.rev ≤ bound) : maxRev events ≤ bound :=
  (foldl_maxRev events 0).2.2 bound natural below

/-! ## Truthful responses -/

/-- Nothing that was true of the store is taken back. -/
structure World.Grown (world later : World) : Prop where
  history : ∀ row ∈ world.history, row ∈ later.history
  currentRevision : currentRevision world.db ≤ currentRevision later.db
  compactRevision : compactRevision world.db ≤ compactRevision later.db

theorem World.Grown.refl (world : World) : world.Grown world :=
  ⟨fun _ => id, le_refl _, le_refl _⟩

theorem World.Consistent.grown {world next : World} {action : Action}
    (consistent : world.Consistent) (stepped : world.step action = some next) :
    world.Grown next := by
  have extended := (World.step_effect stepped).extends
  exact ⟨fun _ committed => extended.mem_history committed,
    consistent.inv.currentRevision_mono (consistent.inv.step stepped) extended,
    World.step_compactRevision_le consistent.horizon stepped⟩

def WatchLoop.Truthful (world : World) (sub : Subscription) : WatchLoop → Prop
  | .sending revision events =>
      revision ≤ currentRevision world.db ∧
        ∀ event ∈ events, event.kv.modRevision ≤ revision ∧ sub.Shows world.history event
  | .canceling compactRev => compactRev ≤ compactRevision world.db
  | _ => True

/-- A response names a watch of its stream, and tells what has happened to the
keys of that watch. -/
structure WatchResponse.Truthful (world : World) (watchers : List Watcher)
    (response : WatchResponse) : Prop where
  revision : response.header.revision ≤ currentRevision world.db
  compactRevision : response.compactRevision ≤ SpannerEtcd.compactRevision world.db
  events : ∀ event ∈ response.events, event.kv.modRevision ≤ response.header.revision ∧
    ∃ watcher ∈ watchers, watcher.id = response.watchId ∧
      watcher.subscription.Shows world.history event

structure WatchSystem.Truthful (world : World) (system : WatchSystem) : Prop where
  responses : ∀ response ∈ system.respCh.sent, response.Truthful world system.watchers
  loops : ∀ watcher ∈ system.watchers, watcher.loop.Truthful world watcher.subscription

section Growth

variable {world later : World} (growth : world.Grown later)

include growth

theorem Subscription.Shows.grown {sub : Subscription} {event : WatchEvent}
    (shown : sub.Shows world.history event) : sub.Shows later.history event := by
  obtain ⟨row, committed, wanted, reports⟩ := shown
  exact ⟨row, growth.history row committed, wanted, reports⟩

theorem WatchLoop.Truthful.grown {sub : Subscription} {loop : WatchLoop}
    (truthful : loop.Truthful world sub) : loop.Truthful later sub := by
  cases loop with
  | sending revision events =>
      refine ⟨truthful.1.trans growth.currentRevision, fun event membership => ?_⟩
      obtain ⟨below, shown⟩ := truthful.2 event membership
      exact ⟨below, shown.grown growth⟩
  | canceling compactRev => exact le_trans truthful growth.compactRevision
  | unstarted | selecting | reporting | ended | left => exact trivial

theorem WatchResponse.Truthful.grown {watchers after : List Watcher} {response : WatchResponse}
    (kept : ∀ watcher ∈ watchers, ∃ same ∈ after,
      same.id = watcher.id ∧ same.subscription = watcher.subscription)
    (truthful : response.Truthful world watchers) : response.Truthful later after where
  revision := truthful.revision.trans growth.currentRevision
  compactRevision := truthful.compactRevision.trans growth.compactRevision
  events := by
    intro event membership
    obtain ⟨below, watcher, known, named, shown⟩ := truthful.events event membership
    obtain ⟨same, inAfter, sameId, sameSub⟩ := kept watcher known
    exact ⟨below, same, inAfter, sameId.trans named, sameSub ▸ shown.grown growth⟩

theorem WatchSystem.Truthful.grown {system : WatchSystem} (truthful : system.Truthful world) :
    system.Truthful later where
  responses := fun response membership => (truthful.responses response membership).grown growth
    fun watcher known => ⟨watcher, known, rfl, rfl⟩
  loops := fun watcher membership => (truthful.loops watcher membership).grown growth

end Growth

theorem FanOutMove.grown {runtime : Runtime} {fan next : FanOut} {action : FanOutAction}
    (genuine : fan.Genuine) (move : FanOutMove runtime fan action next) :
    fan.world.Grown next.world := by
  cases move with
  | other stepped => exact genuine.reachable.consistent.grown stepped
  | subscribe | own | removeSub | pollRead | pollFail | pass | clear | offer | drop =>
      exact .refl fan.world
  | pollQuery | capture =>
      unfold FanOut.dispatchEvents
      split_ifs <;> exact .refl fan.world

theorem one_le_compactRevision (db : DB) : 1 ≤ compactRevision db := by
  unfold compactRevision tsToRev
  cases db.kvRev with
  | none => exact le_refl 1
  | some ts =>
      dsimp only
      split_ifs <;> omega

/-- A response that tells only that a watch was created or canceled. -/
theorem WatchResponse.truthful_of_bare (world : World) (watchers : List Watcher) (id : Int)
    (created canceled : Bool) :
    WatchResponse.Truthful world watchers
      { header := SpannerEtcd.header 0, watchId := id, created := created
        canceled := canceled } where
  revision := by
    have := one_le_currentRevision world.db
    simp only [SpannerEtcd.header]
    omega
  compactRevision := by
    have := one_le_compactRevision world.db
    dsimp only
    omega
  events := List.forall_mem_nil _

/-! ## The steps of a watch -/

theorem WatchLoop.truthful_of_free {world : World} {sub : Subscription} {loop : WatchLoop}
    (free : loop.free = true) : loop.Truthful world sub := by
  cases loop with
  | sending | canceling => cases free
  | unstarted | selecting | reporting | ended | left => exact trivial

theorem Watcher.step_truthful {world : World} {canceled room : Bool} {watcher after : Watcher}
    {action : WatcherAction} {effect : WatcherEffect}
    (truthful : watcher.loop.Truthful world watcher.subscription) (inner : action.inner = true)
    (stepped : watcher.step canceled room action = some (after, effect)) :
    after.loop.Truthful world after.subscription ∧
      ∀ response ∈ effect.responses, response.Truthful world [watcher] := by
  constructor
  · have sameSub : after.subscription = watcher.subscription :=
      congrArg Prod.snd (Watcher.step_kept stepped)
    rw [sameSub]
    rcases Watcher.step_inner inner stepped with same | free
    · rw [same]
      exact truthful
    · exact WatchLoop.truthful_of_free free
  · obtain ⟨-, move⟩ := Watcher.step_move stepped
    generalize watcher.loop = loop at truthful move
    generalize after.loop = nextLoop at move
    have compacted := one_le_compactRevision world.db
    cases move with
    | send revision events =>
        refine List.forall_mem_singleton.mpr ⟨truthful.1, ?_, ?_⟩
        · dsimp only
          omega
        · intro event membership
          obtain ⟨below, shown⟩ := truthful.2 event membership
          exact ⟨below, watcher, List.mem_singleton_self _, rfl, shown⟩
    | cancel compactRev =>
        have bare := WatchResponse.truthful_of_bare world [watcher] watcher.id false true
        exact List.forall_mem_singleton.mpr
          ⟨bare.revision, truthful, List.forall_mem_nil _⟩
    | stay | take | tearDown | leave | skip | report => exact List.forall_mem_nil _

/-! ## The steps of a stream -/

namespace WatchSystem.Truthful

variable {world : World} {system next : WatchSystem}

theorem opened (world : World) : WatchSystem.opened.Truthful world where
  responses := List.forall_mem_nil _
  loops := List.forall_mem_nil _

/-- A watch goes on and queues responses of its own. -/
theorem set (truthful : system.Truthful world) {number : Nat} {watcher after : Watcher}
    {responses : List WatchResponse} (found : system.watchers[number]? = some watcher)
    (watchers : next.watchers = system.watchers.set number after)
    (sent : next.respCh.sent = system.respCh.sent ++ responses)
    (identity : after.identity = watcher.identity)
    (loop : after.loop.Truthful world after.subscription)
    (told : ∀ response ∈ responses, response.Truthful world [watcher]) : next.Truthful world := by
  have kept : ∀ other ∈ system.watchers, ∃ same ∈ next.watchers,
      same.id = other.id ∧ same.subscription = other.subscription := by
    intro other membership
    obtain ⟨place, foundOther⟩ := List.mem_iff_getElem?.mp membership
    obtain ⟨same, foundSame, identical⟩ :=
      exists_getElem?_set Watcher.identity foundOther found identity
    exact ⟨same, watchers ▸ List.mem_of_getElem? foundSame, Prod.mk.inj identical⟩
  refine ⟨?_, ?_⟩
  · rw [sent]
    refine List.forall_mem_append.mpr ⟨?_, ?_⟩
    · exact fun response membership =>
        (truthful.responses response membership).grown (.refl world) kept
    · exact fun response membership => (told response membership).grown (.refl world)
        (List.forall_mem_singleton.mpr (kept watcher (List.mem_of_getElem? found)))
  · intro other membership
    rw [watchers] at membership
    rcases List.mem_or_eq_of_mem_set membership with before | rfl
    · exact truthful.loops other before
    · exact loop

theorem setLoop (truthful : system.Truthful world) {number : Nat} {watcher : Watcher}
    {loop : WatchLoop} (found : system.watchers[number]? = some watcher)
    (watchers : next.watchers = system.watchers.set number { watcher with loop := loop })
    (sent : next.respCh.sent = system.respCh.sent)
    (told : loop.Truthful world watcher.subscription) : next.Truthful world := by
  have nothing : next.respCh.sent = system.respCh.sent ++ [] := by rw [sent, List.append_nil]
  exact truthful.set found watchers nothing rfl told (List.forall_mem_nil _)

theorem change (truthful : system.Truthful world) {action : WatchAction}
    (inner : ∀ number own, action = .watcher number own → own.inner = true)
    (change : StreamChange system next action) : next.Truthful world := by
  have bare := WatchResponse.truthful_of_bare world
  cases change with
  | quiet watchers sent =>
      refine ⟨?_, watchers ▸ truthful.loops⟩
      rw [watchers, sent]
      exact truthful.responses
  | created request watchers sent =>
      refine ⟨?_, ?_⟩
      · rw [sent]
        exact fun response membership => (truthful.responses response membership).grown
          (.refl world) fun watcher known =>
            ⟨watcher, watchers ▸ List.mem_append_left _ known, rfl, rfl⟩
      · rw [watchers]
        exact List.forall_mem_append.mpr
          ⟨truthful.loops, List.forall_mem_singleton.mpr trivial⟩
  | started creating found watchers sent =>
      exact truthful.set found watchers sent rfl trivial
        (List.forall_mem_singleton.mpr (bare _ _ true false))
  | answered id watchers sent =>
      refine ⟨?_, watchers ▸ truthful.loops⟩
      rw [watchers, sent]
      exact List.forall_mem_append.mpr
        ⟨truthful.responses, List.forall_mem_singleton.mpr (bare _ _ false true)⟩
  | @moved number own watcher after effect canceled room found stepped watchers sent =>
      obtain ⟨loop, told⟩ := Watcher.step_truthful
        (truthful.loops watcher (List.mem_of_getElem? found)) (inner number own rfl) stepped
      exact truthful.set found watchers sent (Watcher.step_kept stepped) loop told

end WatchSystem.Truthful

/-! ## The steps of the service -/

theorem readOrZero_le (readOk : Bool) {rev : Int} (natural : 0 ≤ rev) :
    WatchService.readOrZero readOk rev ≤ rev := by
  unfold WatchService.readOrZero
  split_ifs
  · exact le_refl rev
  · exact natural

/-- A batch that the subscription of the watch has delivered. -/
theorem WatchLoop.truthful_taken {world : World} (inv : world.Inv) {sub : Subscription}
    {batch : List Event} (seen : ∀ event ∈ batch, sub.Sees world.history event) (readOk : Bool) :
    (WatchLoop.taken batch
      (WatchService.readOrZero readOk (compactRevision world.db))).Truthful world sub := by
  have compacted := one_le_compactRevision world.db
  have current := one_le_currentRevision world.db
  unfold WatchLoop.taken
  split_ifs
  · exact readOrZero_le readOk (by omega)
  · refine ⟨maxRev_le (by omega) fun event membership => ?_, ?_⟩
    · obtain ⟨row, committed, -, tells⟩ := seen event membership
      rw [tells.rev, tsToRev_of_exact (inv.exact row committed)]
      exact inv.le_currentRevision committed
    · intro shown membership
      obtain ⟨event, inBatch, rfl⟩ := List.mem_map.mp membership
      exact ⟨le_maxRev inBatch, (seen event inBatch).shows⟩

structure WatchService.Truthful (service : WatchService) : Prop where
  inv : service.Inv
  genuine : service.fan.Genuine
  streams : ∀ system ∈ service.streams, system.Truthful service.fan.world

namespace WatchService.Truthful

variable {runtime : Runtime} {service next : WatchService}

theorem init {world : World} (reachable : Reachable world) (pollRev : Int) :
    (WatchService.init world pollRev).Truthful where
  inv := .init world pollRev
  genuine := .init reachable pollRev
  streams := List.forall_mem_nil _

/-- The streams of the service, where one of them may have changed. -/
theorem streams_set (truthful : service.Truthful) {n : Nat} {after : WatchSystem}
    (changed : after.Truthful service.fan.world) :
    ∀ system ∈ service.streams.set n after, system.Truthful service.fan.world := by
  intro system membership
  rcases List.mem_or_eq_of_mem_set membership with before | rfl
  · exact truthful.streams system before
  · exact changed

theorem streams_move (truthful : service.Truthful) {action : ServiceAction}
    (move : ServiceMove runtime service action next) :
    ∀ system ∈ next.streams, system.Truthful service.fan.world := by
  cases move with
  | store | subscribe | cancel => exact truthful.streams
  | connect =>
      exact List.forall_mem_append.mpr
        ⟨truthful.streams, List.forall_mem_singleton.mpr (.opened _)⟩
  | @stream n action system after permitted found stepped =>
      have before := truthful.streams system (List.mem_of_getElem? found)
      refine truthful.streams_set (before.change ?_ (WatchSystem.step_change stepped))
      rintro number own rfl
      exact inner_of_permits permitted
  | @take n number id readOk system after subscriber batch channel found attached subscribed
      received taken ran =>
      obtain ⟨_, watcher, _, foundHere, watching, subscribedHere, sameSub⟩ :=
        truthful.inv.attached n number id attached
      cases found.symm.trans foundHere
      cases subscribed.symm.trans subscribedHere
      have before := truthful.streams system (List.mem_of_getElem? found)
      have idle := truthful.inv.idle system (List.mem_of_getElem? found) watcher
        (List.mem_of_getElem? watching)
      obtain ⟨-, watchers, respCh, -⟩ := WatchSystem.take_change watching idle ran
      have holds := truthful.genuine.holds subscriber (List.mem_of_getElem? subscribed)
      have seen : ∀ event ∈ batch, watcher.subscription.Sees service.fan.world.history event := by
        intro event membership
        have inReceived : event ∈ channel.received := taken ▸ List.mem_append_right _ membership
        have inSent := channel.received_sublist.subset inReceived
        rw [Channel.receive_sent received] at inSent
        exact sameSub ▸ holds.sent event inSent
      exact truthful.streams_set (before.setLoop watching watchers (congrArg Channel.sent respCh)
        (WatchLoop.truthful_taken truthful.genuine.reachable.inv seen readOk))
  | @tick n number id readOk system after found attached stepped =>
      have before := truthful.streams system (List.mem_of_getElem? found)
      apply truthful.streams_set
      cases WatchSystem.step_change stepped with
      | quiet watchers sent nextID handler =>
          have nothing : StreamChange system after .finish := .quiet watchers sent nextID handler
          exact before.change (fun _ _ same => by cases same) nothing
      | moved watching stepped watchers sent =>
          obtain ⟨-, rfl, rfl⟩ := Watcher.step_tick stepped
          have current := one_le_currentRevision service.fan.world.db
          exact before.set watching watchers sent rfl
            ⟨readOrZero_le readOk (by omega), List.forall_mem_nil _⟩ (List.forall_mem_nil _)

theorem move (truthful : service.Truthful) {action : ServiceAction}
    (met : service.Delivered runtime action) (move : ServiceMove runtime service action next) :
    next.Truthful where
  inv := truthful.inv.move move
  genuine := genuine_move truthful.genuine met move
  streams := by
    have growth : service.fan.world.Grown next.fan.world := by
      obtain same | ⟨step, moved, -⟩ := fan_move met move
      · rw [same]
        exact .refl _
      · exact moved.grown truthful.genuine
    exact fun system membership => (truthful.streams_move move system membership).grown growth

theorem run (truthful : service.Truthful) {actions : List ServiceAction}
    (delivered : Runs.Guarded (WatchService.step runtime) (WatchService.Delivered runtime) service
      actions)
    (ran : Runs.run (WatchService.step runtime) service actions = some next) : next.Truthful :=
  Runs.run_invariant_of_guarded
    (fun _ _ _ met stepped truthful => truthful.move met (step_move stepped)) delivered ran truthful

end WatchService.Truthful

/-- Whatever happens to the store, to the streams and to their watches, no
response tells of a revision that the store has not reached, and every event is
that of a committed row that the watch with the id of the response selects. -/
theorem watch_responses_truthful {runtime : Runtime} {world : World} (reachable : Reachable world)
    {pollRev : Int} {actions : List ServiceAction} {service : WatchService}
    (delivered : Runs.Guarded (WatchService.step runtime) (WatchService.Delivered runtime)
      (.init world pollRev) actions)
    (ran : Runs.run (WatchService.step runtime) (.init world pollRev) actions = some service) :
    ∀ system ∈ service.streams, ∀ response ∈ system.respCh.sent,
      response.Truthful service.fan.world system.watchers := by
  have truthful := (WatchService.Truthful.init reachable pollRev).run delivered ran
  exact fun system membership => (truthful.streams system membership).responses

/-- A watch is created, is sent a polled event and tells the progress. -/
def polledWatch : List ServiceAction :=
  [.connect, .stream 0 (.receive (.request watchK)), .stream 0 .handle, .stream 0 .respond,
    .subscribe 0 0, .store (.own 0 .start), .store .pollRead, .store .pollRead,
    .store (.pollQuery [createdRow]), .store (.visit .pollLoop), .store (.offer .pollLoop),
    .take 0 0 true, .stream 0 (.watcher 0 .send), .tick 0 0 true, .stream 0 (.watcher 0 .send)]

def polledService : WatchService :=
  (Runs.run (WatchService.step tombstoneRuntime) (.init createdWorld 1) polledWatch).getD
    (.init createdWorld 1)

set_option maxRecDepth 2000 in
theorem polledService_truthful :
    polledService.streams.map (fun system => system.respCh.sent.map WatchResponse.summary) =
        [[(0, true, false, 0), (0, false, false, 1), (0, false, false, 0)]] ∧
      ∀ system ∈ polledService.streams, ∀ response ∈ system.respCh.sent,
        response.Truthful polledService.fan.world system.watchers := by
  have ran : Runs.run (WatchService.step tombstoneRuntime) (.init createdWorld 1) polledWatch =
      some polledService := rfl
  have delivered : Runs.Guarded (WatchService.step tombstoneRuntime)
      (WatchService.Delivered tombstoneRuntime) (.init createdWorld 1) polledWatch := by
    apply Runs.Guarded.of_forall
    simp [polledWatch, WatchService.Delivered, FanOut.Delivered]
  exact ⟨rfl, watch_responses_truthful createdWorld_reachable delivered ran⟩

end SpannerEtcd
