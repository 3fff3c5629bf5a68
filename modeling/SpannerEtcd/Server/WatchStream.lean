import SpannerEtcd.Lib.Lifecycle
import SpannerEtcd.Watch.PrevKv
import SpannerEtcd.Watch.RangeFilter

/-!
# One watch stream

The handler of a stream creates and cancels watches; each watch has a goroutine
of its own, `watchLoop`, that forwards what its store subscription delivers.
They all queue their responses on one channel.  A cancellation travels from
context to context through helper goroutines, and a `select` with several
ready cases takes any of them; the actions carry these choices.

The subscription is left open here: it may deliver any batches, and it is
torn down by an empty one.
-/

namespace SpannerEtcd

structure WatchResponse where
  header : ResponseHeader
  watchId : Int
  created : Bool := false
  canceled : Bool := false
  compactRevision : Int := 0
  events : List WatchEvent := []
  deriving DecidableEq, Repr

inductive WatchRequest where
  | create (request : WatchCreateRequest)
  | cancel (watchId : Int)
  /-- The handler ignores every other request. -/
  | other

/-- What `stream.Recv` returns. -/
inductive RecvResult where
  | request (request : WatchRequest)
  | eof
  | canceled
  | failed

/-! ## A watch -/

inductive WatchLoop where
  | unstarted
  | selecting
  /-- A response with events, or one without that only tells the progress. -/
  | sending (revision : Int) (events : List WatchEvent)
  /-- The subscription was torn down, and the client is told. -/
  | canceling (compactRev : Int)
  | reporting
  /-- The loop has returned after the subscription was torn down. -/
  | ended
  /-- The loop has returned because `stdCtx` was done. -/
  | left
  deriving DecidableEq, Repr

structure Watcher where
  id : Int
  subscription : Subscription
  eventCh : List (List Event)
  /-- `stdCtx` is done. -/
  stopped : Bool
  loop : WatchLoop

inductive WatcherAction where
  /-- The helper goroutine of `stdCtx` sees that `watchCtx` is done. -/
  | stop
  | publish (batch : List Event)
  | take (compactRev : Int)
  | tick (curRev : Int)
  | send
  /-- The loop takes the case of `stdCtx.Done()`. -/
  | leave
  | report

inductive WatcherEffect where
  | none
  | respond (response : WatchResponse)
  | report

/-- The largest revision of a batch. -/
def maxRev (events : List Event) : Int :=
  events.foldl (fun rev event => if event.kv.rev > rev then event.kv.rev else rev) 0

/-- What the loop does with a batch: an empty one is the sentinel. -/
def WatchLoop.taken (events : List Event) (compactRev : Int) : WatchLoop :=
  if events.isEmpty then .canceling compactRev
  else .sending (maxRev events) (events.map toWatchEvent)

def Watcher.step (canceled room : Bool) (watcher : Watcher) :
    WatcherAction → Option (Watcher × WatcherEffect)
  | .stop =>
      if canceled ∧ watcher.loop ≠ .unstarted then
        some ({ watcher with stopped := true }, .none)
      else none
  | .publish batch =>
      if watcher.loop ≠ .unstarted ∧ watcher.eventCh.length < subChannelDepth then
        some ({ watcher with eventCh := watcher.eventCh ++ [batch] }, .none)
      else none
  | .take compactRev =>
      match watcher.loop, watcher.eventCh with
      | .selecting, batch :: rest =>
          some ({ watcher with eventCh := rest, loop := .taken batch compactRev }, .none)
      | _, _ => none
  | .tick curRev =>
      match watcher.loop with
      | .selecting => some ({ watcher with loop := .sending curRev [] }, .none)
      | _ => none
  | .send =>
      match watcher.loop with
      | .sending revision events =>
          if room then
            some ({ watcher with loop := .selecting },
              .respond { header := header revision, watchId := watcher.id, events := events })
          else none
      | .canceling compactRev =>
          if room then
            some ({ watcher with loop := .reporting },
              .respond { header := header 0, watchId := watcher.id, canceled := true,
                         compactRevision := compactRev })
          else none
      | _ => none
  | .leave =>
      if watcher.stopped then
        match watcher.loop with
        | .selecting | .sending _ _ => some ({ watcher with loop := .left }, .none)
        | .canceling _ => some ({ watcher with loop := .reporting }, .none)
        | _ => none
      else none
  | .report =>
      match watcher.loop with
      | .reporting => some ({ watcher with loop := .ended, stopped := true }, .report)
      | _ => none

/-! ## The stream -/

def respChDepth : Nat := 64

def cancelledChDepth : Nat := 64

inductive WatchHandler where
  | selecting
  /-- `drainCancelled` runs before the request is looked at. -/
  | draining (request : WatchRequest)
  | creating (number : Nat)
  | canceling (watchId : Int)
  | returned

/-- Watches are numbered in the order of their creation.  `canceled` tells for
which of them `watchCtx` is done, `watches` is the map from ids to their cancel
functions, and `done` is the end of the stream's context. -/
structure WatchSystem where
  done : Bool
  handler : WatchHandler
  nextID : Int
  watches : Int → Option Nat
  watchers : List Watcher
  canceled : Nat → Bool
  respCh : Channel WatchResponse
  cancelledCh : List Int
  sending : Bool
  sendErr : Bool

def WatchSystem.opened : WatchSystem :=
  { done := false, handler := .selecting, nextID := 0, watches := fun _ => none, watchers := []
    canceled := fun _ => false, respCh := .empty, cancelledCh := [], sending := true
    sendErr := false }

namespace WatchSystem

/-- `if cancel, ok := watches[id]; ok { cancel(); delete(watches, id) }`. -/
def cancelWatch (system : WatchSystem) (id : Int) : WatchSystem :=
  match system.watches id with
  | some number =>
      { system with
        watches := Function.update system.watches id none
        canceled := Function.update system.canceled number true }
  | none => system

/-- The handler cancels the open watches and returns. -/
def shutDown (system : WatchSystem) : WatchSystem :=
  { system with
    handler := .returned
    canceled := fun number =>
      system.canceled number ||
        (system.watchers[number]?).any fun watcher => system.watches watcher.id = some number }

def handle (system : WatchSystem) : WatchRequest → WatchSystem
  | .create request =>
      let number := system.watchers.length
      { system with
        handler := .creating number
        nextID := wrapInt64 (system.nextID + 1)
        watches := Function.update system.watches system.nextID (some number)
        watchers := system.watchers ++
          [{ id := system.nextID, subscription := request.subscription, eventCh := []
             stopped := false, loop := .unstarted }] }
  | .cancel id => { system.cancelWatch id with handler := .canceling id }
  | .other => { system with handler := .selecting }

/-- The handler's own responses. -/
def respond (system : WatchSystem) : Option WatchSystem :=
  match system.handler with
  | .creating number =>
      (system.watchers[number]?).map fun watcher =>
        { system with
          handler := .selecting
          watchers := system.watchers.set number { watcher with loop := .selecting }
          respCh := system.respCh.send
            [{ header := header 0, watchId := watcher.id, created := true }] }
  | .canceling id =>
      some { system with
        handler := .selecting
        respCh := system.respCh.send [{ header := header 0, watchId := id, canceled := true }] }
  | _ => none

def apply (system : WatchSystem) (number : Nat) (watcher : Watcher) : WatcherEffect → WatchSystem
  | .none => { system with watchers := system.watchers.set number watcher }
  | .respond response =>
      { system with
        watchers := system.watchers.set number watcher
        respCh := system.respCh.send [response] }
  | .report =>
      { system with
        watchers := system.watchers.set number watcher
        cancelledCh :=
          if system.cancelledCh.length < cancelledChDepth then system.cancelledCh ++ [watcher.id]
          else system.cancelledCh }

end WatchSystem

inductive WatchAction where
  | finish
  | receive (result : RecvResult)
  /-- The handler takes an id from `cancelledCh`. -/
  | reap
  | handle
  | respond
  /-- The handler leaves its loop, the stream being done or broken. -/
  | abandon
  | transmit (ok : Bool)
  | stopSending
  /-- The helper goroutine of a `watchCtx` sees that the stream is done. -/
  | inherit (number : Nat)
  | watcher (number : Nat) (action : WatcherAction)

def WatchSystem.step (system : WatchSystem) : WatchAction → Option WatchSystem
  | .finish => some { system with done := true }
  | .receive result =>
      match system.handler, result with
      | .selecting, .request request => some { system with handler := .draining request }
      | .selecting, .eof | .selecting, .canceled => some system.shutDown
      | .selecting, .failed => some { system with handler := .returned }
      | _, _ => none
  | .reap =>
      match system.handler, system.cancelledCh with
      | .selecting, id :: rest | .draining _, id :: rest =>
          some { system.cancelWatch id with cancelledCh := rest }
      | _, _ => none
  | .handle =>
      match system.handler, system.cancelledCh with
      | .draining request, [] => some (system.handle request)
      | _, _ => none
  | .respond => if system.respCh.queue.length < respChDepth then system.respond else none
  | .abandon =>
      if system.done ∨ system.sendErr then
        match system.handler with
        | .selecting | .creating _ | .canceling _ => some system.shutDown
        | _ => none
      else none
  | .transmit ok =>
      if system.sending then
        (system.respCh.receive).map fun respCh =>
          if ok then { system with respCh := respCh }
          else { system with respCh := respCh, sending := false, sendErr := true }
      else none
  | .stopSending => if system.done then some { system with sending := false } else none
  | .inherit number =>
      if system.done ∧ number < system.watchers.length then
        some { system with canceled := Function.update system.canceled number true }
      else none
  | .watcher number action =>
      (system.watchers[number]?).bind fun watcher =>
        (watcher.step (system.canceled number)
            (decide (system.respCh.queue.length < respChDepth)) action).map fun outcome =>
          system.apply number outcome.1 outcome.2

/-! ## What a client may rely on -/

def WatchResponse.marks : Lifecycle.Marks WatchResponse Int :=
  { key := WatchResponse.watchId
    opens := WatchResponse.created
    closes := WatchResponse.canceled
    carries := fun response => !response.events.isEmpty }

/-- The responses that were queued for a watch id. -/
def responsesFor (responses : List WatchResponse) (id : Int) : List WatchResponse :=
  Lifecycle.own WatchResponse.marks responses id

/-- No id is given to two watches.  For every id the Created response comes
first, at most one Canceled response follows, and no events after that. -/
structure WatchSystem.Orderly (system : WatchSystem) : Prop where
  ids : (system.watchers.map Watcher.id).Nodup
  responses : ∀ id,
    Lifecycle.Orderly WatchResponse.marks (responsesFor system.respCh.sent id)

/-- Ids do not wrap around, cancel requests name registered watches, and the
Canceled response to a request is queued only after the loop of the watch has
returned because its context was done. -/
def Settled (system : WatchSystem) : WatchAction → Prop
  | .handle =>
      match system.handler with
      | .draining (.create _) => system.watchers.length < 2 ^ 64
      | .draining (.cancel id) => system.watches id ≠ none
      | _ => True
  | .respond =>
      match system.handler with
      | .canceling id => ∃ watcher ∈ system.watchers, watcher.id = id ∧ watcher.loop = .left
      | _ => True
  | _ => True

instance (system : WatchSystem) (action : WatchAction) : Decidable (Settled system action) :=
  match action with
  | .handle =>
      match standing : system.handler with
      | .draining (.create _) =>
          decidable_of_iff (system.watchers.length < 2 ^ 64) (by simp [Settled, standing])
      | .draining (.cancel id) =>
          decidable_of_iff (system.watches id ≠ none) (by simp [Settled, standing])
      | .draining .other | .selecting | .creating _ | .canceling _ | .returned =>
          .isTrue (by simp [Settled, standing])
  | .respond =>
      match standing : system.handler with
      | .canceling id =>
          decidable_of_iff
            (∃ watcher ∈ system.watchers, watcher.id = id ∧ watcher.loop = .left)
            (by simp [Settled, standing])
      | .draining _ | .selecting | .creating _ | .returned => .isTrue (by simp [Settled, standing])
  | .finish | .receive _ | .reap | .abandon | .transmit _ | .stopSending | .inherit _
  | .watcher _ _ => .isTrue trivial

/-! ## What every step keeps -/

def WatchLoop.Standing (own : List WatchResponse) : WatchLoop → Prop
  | .unstarted => own = []
  | .selecting | .sending _ _ | .canceling _ => Lifecycle.Open WatchResponse.marks own
  | .reporting | .ended | .left => Lifecycle.Opened WatchResponse.marks own

/-- A watch whose loop has left is open until the handler answers the request
that cancelled it. -/
structure StreamInv (nextID : Int) (watchers : List Watcher) (watches : Int → Option Nat)
    (sent : List WatchResponse) (handler : WatchHandler) : Prop where
  next : nextID = wrapInt64 watchers.length
  fits : watchers.length ≤ 2 ^ 64
  ids : watchers.map Watcher.id =
    (List.range watchers.length).map fun (number : Nat) => wrapInt64 number
  standing : ∀ watcher ∈ watchers, watcher.loop.Standing (responsesFor sent watcher.id)
  known : ∀ response ∈ sent, response.watchId ∈ watchers.map Watcher.id
  creating : ∀ number, handler = .creating number →
    ∃ watcher, watchers[number]? = some watcher ∧ watcher.loop = .unstarted
  canceling : ∀ id, handler = .canceling id → watches id = none
  unanswered : ∀ watcher ∈ watchers, watcher.loop = .left →
    watches watcher.id ≠ none ∨ handler = .canceling watcher.id →
      Lifecycle.Open WatchResponse.marks (responsesFor sent watcher.id)

def WatchSystem.Inv (system : WatchSystem) : Prop :=
  StreamInv system.nextID system.watchers system.watches system.respCh.sent system.handler

/-! ## The moves of a loop -/

def WatcherEffect.responses : WatcherEffect → List WatchResponse
  | .respond response => [response]
  | .none | .report => []

inductive LoopMove (id : Int) : WatchLoop → WatcherEffect → WatchLoop → Prop where
  | stay (loop : WatchLoop) : LoopMove id loop .none loop
  | take (revision : Int) (events : List WatchEvent) :
      LoopMove id .selecting .none (.sending revision events)
  | tearDown (compactRev : Int) : LoopMove id .selecting .none (.canceling compactRev)
  | send (revision : Int) (events : List WatchEvent) :
      LoopMove id (.sending revision events)
        (.respond { header := header revision, watchId := id, events := events }) .selecting
  | cancel (compactRev : Int) :
      LoopMove id (.canceling compactRev)
        (.respond { header := header 0, watchId := id, canceled := true,
                    compactRevision := compactRev }) .reporting
  | leave {loop : WatchLoop} (running : loop = .selecting ∨ ∃ revision events,
      loop = .sending revision events) : LoopMove id loop .none .left
  | skip (compactRev : Int) : LoopMove id (.canceling compactRev) .none .reporting
  | report : LoopMove id .reporting .report .ended

theorem Watcher.step_move {canceled room : Bool} {watcher next : Watcher} {action : WatcherAction}
    {effect : WatcherEffect}
    (stepped : watcher.step canceled room action = some (next, effect)) :
    next.id = watcher.id ∧ LoopMove watcher.id watcher.loop effect next.loop := by
  cases action with
  | stop | publish =>
      simp only [Watcher.step, Option.ite_none_right_eq_some, Option.some.injEq,
        Prod.mk.injEq] at stepped
      obtain ⟨_, rfl, rfl⟩ := stepped
      exact ⟨rfl, .stay _⟩
  | take compactRev =>
      simp only [Watcher.step] at stepped
      split at stepped
      next batch rest selecting queued =>
        obtain ⟨rfl, rfl⟩ := Prod.mk.inj (Option.some.inj stepped)
        refine ⟨rfl, ?_⟩
        rw [selecting]
        simp only [WatchLoop.taken]
        split
        · exact .tearDown _
        · exact .take _ _
      next => cases stepped
  | tick curRev =>
      simp only [Watcher.step] at stepped
      split at stepped
      next selecting =>
        obtain ⟨rfl, rfl⟩ := Prod.mk.inj (Option.some.inj stepped)
        rw [selecting]
        exact ⟨rfl, .take _ _⟩
      next => cases stepped
  | send =>
      simp only [Watcher.step] at stepped
      split at stepped
      next revision events sending =>
        split_ifs at stepped
        obtain ⟨rfl, rfl⟩ := Prod.mk.inj (Option.some.inj stepped)
        rw [sending]
        exact ⟨rfl, .send _ _⟩
      next compactRev canceling =>
        split_ifs at stepped
        obtain ⟨rfl, rfl⟩ := Prod.mk.inj (Option.some.inj stepped)
        rw [canceling]
        exact ⟨rfl, .cancel _⟩
      next => cases stepped
  | leave =>
      simp only [Watcher.step] at stepped
      split_ifs at stepped
      split at stepped
      next selecting =>
        obtain ⟨rfl, rfl⟩ := Prod.mk.inj (Option.some.inj stepped)
        exact ⟨rfl, .leave (.inl selecting)⟩
      next revision events sending =>
        obtain ⟨rfl, rfl⟩ := Prod.mk.inj (Option.some.inj stepped)
        exact ⟨rfl, .leave (.inr ⟨revision, events, sending⟩)⟩
      next compactRev canceling =>
        obtain ⟨rfl, rfl⟩ := Prod.mk.inj (Option.some.inj stepped)
        rw [canceling]
        exact ⟨rfl, .skip _⟩
      next => cases stepped
  | report =>
      simp only [Watcher.step] at stepped
      split at stepped
      next reporting =>
        obtain ⟨rfl, rfl⟩ := Prod.mk.inj (Option.some.inj stepped)
        rw [reporting]
        exact ⟨rfl, .report⟩
      next => cases stepped

namespace LoopMove

variable {id : Int} {loop next : WatchLoop} {effect : WatcherEffect}
  (move : LoopMove id loop effect next)

include move

theorem responses_id : ∀ response ∈ effect.responses, response.watchId = id := by
  cases move <;> simp [WatcherEffect.responses]

theorem standing {own : List WatchResponse} (before : loop.Standing own) :
    next.Standing (own ++ effect.responses) := by
  cases move with
  | stay => simpa [WatcherEffect.responses] using before
  | take | tearDown => simpa [WatcherEffect.responses, WatchLoop.Standing] using before
  | send revision events => exact Lifecycle.Open.extend before rfl rfl
  | cancel compactRev => exact Lifecycle.Open.append before rfl
  | leave running =>
      rw [WatcherEffect.responses, List.append_nil]
      obtain rfl | ⟨revision, events, rfl⟩ := running
      · exact Lifecycle.Open.toOpened before
      · exact Lifecycle.Open.toOpened before
  | skip compactRev =>
      rw [WatcherEffect.responses, List.append_nil]
      exact Lifecycle.Open.toOpened before
  | report => simpa [WatcherEffect.responses, WatchLoop.Standing] using before

theorem unstarted (before : loop = .unstarted) : next = .unstarted := by
  cases move with
  | stay => exact before
  | leave running => simp [before] at running
  | _ => cases before

/-- A loop that has left was there already, or leaves an open watch. -/
theorem left {own : List WatchResponse} (before : loop.Standing own) (after : next = .left) :
    effect.responses = [] ∧ (loop = .left ∨ Lifecycle.Open WatchResponse.marks own) := by
  cases move with
  | stay => exact ⟨rfl, .inl after⟩
  | leave running =>
      obtain rfl | ⟨revision, events, rfl⟩ := running
      · exact ⟨rfl, .inr before⟩
      · exact ⟨rfl, .inr before⟩
  | _ => cases after

end LoopMove

/-! ## The moves of the stream -/

theorem StreamInv.opened : WatchSystem.opened.Inv where
  next := by simp [WatchSystem.opened, wrapInt64]
  fits := Nat.zero_le _
  ids := rfl
  standing := by simp [WatchSystem.opened]
  known := by simp [WatchSystem.opened, Channel.empty]
  creating := nofun
  canceling := nofun
  unanswered := by simp [WatchSystem.opened]

namespace StreamInv

variable {nextID : Int} {watchers : List Watcher} {watches : Int → Option Nat}
  {sent : List WatchResponse} {handler : WatchHandler}
  (inv : StreamInv nextID watchers watches sent handler)

include inv

theorem ids_nodup : (watchers.map Watcher.id).Nodup := by
  rw [inv.ids]
  refine List.Nodup.map_on ?_ List.nodup_range
  intro first firstMembership second secondMembership same
  have fits := inv.fits
  have firstBound := List.mem_range.mp firstMembership
  have secondBound := List.mem_range.mp secondMembership
  exact wrapInt64_injective (by omega) (by omega) same

theorem number_eq {number other : Nat} {watcher another : Watcher}
    (found : watchers[number]? = some watcher) (otherFound : watchers[other]? = some another)
    (same : watcher.id = another.id) : number = other := by
  obtain ⟨bound, rfl⟩ := List.getElem?_eq_some_iff.mp found
  obtain ⟨otherBound, rfl⟩ := List.getElem?_eq_some_iff.mp otherFound
  rw [← List.length_map Watcher.id] at bound otherBound
  have sameIds : (watchers.map Watcher.id)[number] = (watchers.map Watcher.id)[other] := by
    simpa only [List.getElem_map] using same
  exact inv.ids_nodup.getElem_inj_iff.mp sameIds

/-- Nothing was queued yet for an id that no watch has. -/
theorem responsesFor_fresh {id : Int} (fresh : id ∉ watchers.map Watcher.id) :
    responsesFor sent id = [] := by
  refine Lifecycle.own_eq_nil fun response membership same => fresh ?_
  have known := inv.known response membership
  rwa [show response.watchId = id from same] at known

theorem orderly (id : Int) : Lifecycle.Orderly WatchResponse.marks (responsesFor sent id) := by
  by_cases present : id ∈ watchers.map Watcher.id
  · obtain ⟨watcher, membership, rfl⟩ := List.mem_map.mp present
    have standing := inv.standing watcher membership
    cases phase : watcher.loop with
    | unstarted =>
        rw [phase] at standing
        rw [show responsesFor sent watcher.id = [] from standing]
        exact .nil
    | selecting | sending | canceling =>
        rw [phase] at standing
        exact (Lifecycle.Open.toOpened standing).orderly
    | reporting | ended | left =>
        rw [phase] at standing
        exact Lifecycle.Opened.orderly standing
  · rw [inv.responsesFor_fresh present]
    exact .nil

/-- The handler goes on to a phase in which it owes no response. -/
theorem setHandler {next : WatchHandler} (idle : (∀ number, next ≠ .creating number) ∧
    ∀ id, next ≠ .canceling id) : StreamInv nextID watchers watches sent next := by
  refine { inv with creating := ?_, canceling := ?_, unanswered := ?_ }
  · exact fun number now => absurd now (idle.1 number)
  · exact fun id now => absurd now (idle.2 id)
  · intro watcher present hasLeft pending
    apply inv.unanswered watcher present hasLeft
    exact pending.imp_right fun now => absurd now (idle.2 watcher.id)

theorem unregister {id : Int} (idle : (∀ number, handler ≠ .creating number) ∧
    ∀ other, handler ≠ .canceling other) :
    StreamInv nextID watchers (Function.update watches id none) sent handler := by
  refine { inv with canceling := fun other now => absurd now (idle.2 other), unanswered := ?_ }
  intro watcher present hasLeft pending
  apply inv.unanswered watcher present hasLeft
  refine pending.imp_left fun registered missing => registered ?_
  by_cases same : watcher.id = id
  · rw [same, Function.update_self]
  · rw [Function.update_of_ne same, missing]

omit inv in
/-- A watch of the list is the one that moved, or stands where it stood. -/
theorem mem_set_cases {number : Nat} {watcher new : Watcher} (bound : number < watchers.length)
    (membership : watcher ∈ watchers.set number new) :
    watcher = new ∨ ∃ other, other ≠ number ∧ watchers[other]? = some watcher := by
  obtain ⟨other, found⟩ := List.mem_iff_getElem?.mp membership
  by_cases same : other = number
  · left
    rw [same, List.getElem?_set_self bound] at found
    exact (Option.some.inj found).symm
  · right
    rw [List.getElem?_set_ne (Ne.symm same)] at found
    exact ⟨other, same, found⟩

omit inv in
theorem map_id_set {number : Nat} {old new : Watcher} (found : watchers[number]? = some old)
    (sameId : new.id = old.id) :
    (watchers.set number new).map Watcher.id = watchers.map Watcher.id := by
  obtain ⟨bound, rfl⟩ := List.getElem?_eq_some_iff.mp found
  have inRange : number < (watchers.map Watcher.id).length := by simpa using bound
  have same := List.set_getElem_self inRange
  rw [List.getElem_map] at same
  rw [List.map_set, sameId, same]

/-- One watch moves on and queues responses under its own id. -/
theorem set {number : Nat} {old : Watcher} (new : Watcher) (found : watchers[number]? = some old)
    (sameId : new.id = old.id) {responses : List WatchResponse}
    (named : ∀ response ∈ responses, response.watchId = old.id) {next : WatchHandler}
    (goesOn : next = handler ∨ next = .selecting)
    (standing : new.loop.Standing (responsesFor sent old.id ++ responses))
    (unstarted : next = .creating number → new.loop = .unstarted)
    (unanswered : new.loop = .left → watches old.id ≠ none ∨ next = .canceling old.id →
      Lifecycle.Open WatchResponse.marks (responsesFor sent old.id ++ responses)) :
    StreamInv nextID (watchers.set number new) watches (sent ++ responses) next := by
  have bound := (List.getElem?_eq_some_iff.mp found).1
  have sameIds := map_id_set found sameId
  have ofOld : responsesFor (sent ++ responses) old.id = responsesFor sent old.id ++ responses :=
    Lifecycle.own_append_own named
  have ofOther : ∀ {other : Nat} {watcher : Watcher}, watchers[other]? = some watcher →
      other ≠ number → responsesFor (sent ++ responses) watcher.id =
        responsesFor sent watcher.id := by
    intro other watcher otherFound different
    refine Lifecycle.own_append_foreign fun response membership same => different ?_
    exact inv.number_eq otherFound found (same.symm.trans (named response membership))
  have before : ∀ {phase : WatchHandler}, phase ≠ .selecting → next = phase → handler = phase := by
    intro phase busy now
    obtain rfl | rfl := goesOn
    · exact now
    · exact absurd now.symm busy
  refine ⟨?_, ?_, ?_, ?_, ?_, ?_, ?_, ?_⟩
  · rw [List.length_set]
    exact inv.next
  · rw [List.length_set]
    exact inv.fits
  · rw [sameIds, List.length_set]
    exact inv.ids
  · intro watcher membership
    obtain rfl | ⟨other, different, otherFound⟩ := mem_set_cases bound membership
    · rw [sameId, ofOld]
      exact standing
    · rw [ofOther otherFound different]
      exact inv.standing watcher (List.mem_of_getElem? otherFound)
  · rw [sameIds]
    refine List.forall_mem_append.mpr ⟨inv.known, fun response membership => ?_⟩
    rw [named response membership]
    exact List.mem_map_of_mem (List.mem_of_getElem? found)
  · intro other now
    obtain ⟨watcher, otherFound, phase⟩ := inv.creating other (before nofun now)
    by_cases same : other = number
    · subst same
      exact ⟨new, List.getElem?_set_self bound, unstarted now⟩
    · exact ⟨watcher, (List.getElem?_set_ne (Ne.symm same)).trans otherFound, phase⟩
  · exact fun id now => inv.canceling id (before nofun now)
  · intro watcher membership hasLeft pending
    obtain rfl | ⟨other, different, otherFound⟩ := mem_set_cases bound membership
    · rw [sameId] at pending ⊢
      rw [ofOld]
      exact unanswered hasLeft pending
    · rw [ofOther otherFound different]
      exact inv.unanswered watcher (List.mem_of_getElem? otherFound) hasLeft
        (pending.imp_right fun now => before nofun now)

theorem create {request : WatchCreateRequest} (room : watchers.length < 2 ^ 64) :
    StreamInv (wrapInt64 (nextID + 1))
      (watchers ++ [{ id := nextID, subscription := request.subscription, eventCh := []
                      stopped := false, loop := .unstarted }])
      (Function.update watches nextID (some watchers.length)) sent
      (.creating watchers.length) := by
  have fresh : nextID ∉ watchers.map Watcher.id := by
    rw [inv.ids, inv.next]
    intro membership
    obtain ⟨number, inRange, same⟩ := List.mem_map.mp membership
    have bound := List.mem_range.mp inRange
    have equal := wrapInt64_injective (bound.trans room) room same
    omega
  refine ⟨?_, ?_, ?_, ?_, ?_, ?_, nofun, ?_⟩
  · rw [inv.next, wrapInt64_add_one, List.length_append]
    rfl
  · rw [List.length_append]
    exact room
  · rw [List.map_append, List.length_append, List.length_singleton, List.range_succ,
      List.map_append, inv.ids, List.map_singleton, List.map_singleton, inv.next]
  · refine List.forall_mem_append.mpr ⟨inv.standing, List.forall_mem_singleton.mpr ?_⟩
    exact inv.responsesFor_fresh fresh
  · intro response membership
    rw [List.map_append]
    exact List.mem_append_left _ (inv.known response membership)
  · intro number now
    obtain rfl := WatchHandler.creating.inj now
    exact ⟨_, List.getElem?_concat_length, rfl⟩
  · refine List.forall_mem_append.mpr ⟨?_, List.forall_mem_singleton.mpr nofun⟩
    intro watcher membership hasLeft pending
    refine inv.unanswered watcher membership hasLeft (.inl ?_)
    obtain registered | now := pending
    · have other : watcher.id ≠ nextID := fun same => fresh (same ▸ List.mem_map_of_mem membership)
      rwa [Function.update_of_ne other] at registered
    · cases now

/-- The handler takes the watch from the map before it answers. -/
theorem cancel {id : Int} (registered : watches id ≠ none) :
    StreamInv nextID watchers (Function.update watches id none) sent (.canceling id) := by
  refine { inv with creating := nofun, canceling := ?_, unanswered := ?_ }
  · intro other now
    obtain rfl := WatchHandler.canceling.inj now
    exact Function.update_self id none watches
  · intro watcher present hasLeft pending
    refine inv.unanswered watcher present hasLeft (.inl ?_)
    by_cases same : watcher.id = id
    · rw [same]
      exact registered
    · obtain other | now := pending
      · rwa [Function.update_of_ne same] at other
      · exact absurd (WatchHandler.canceling.inj now).symm same

theorem started {number : Nat} {watcher : Watcher} (creates : handler = .creating number)
    (found : watchers[number]? = some watcher) :
    StreamInv nextID (watchers.set number { watcher with loop := .selecting }) watches
      (sent ++ [{ header := header 0, watchId := watcher.id, created := true }]) .selecting := by
  obtain ⟨same, sameFound, phase⟩ := inv.creating number creates
  obtain rfl : watcher = same := Option.some.inj (found.symm.trans sameFound)
  have standing := inv.standing watcher (List.mem_of_getElem? found)
  rw [phase] at standing
  have nothing : responsesFor sent watcher.id = [] := standing
  refine inv.set { watcher with loop := .selecting } found rfl ?_ (.inr rfl) ?_ nofun ?_
  · exact List.forall_mem_singleton.mpr rfl
  · rw [nothing]
    exact Lifecycle.Open.start rfl rfl
  · nofun

theorem answered {id : Int} (cancels : handler = .canceling id)
    (hasLeft : ∃ watcher ∈ watchers, watcher.id = id ∧ watcher.loop = .left) :
    StreamInv nextID watchers watches
      (sent ++ [{ header := header 0, watchId := id, canceled := true }]) .selecting := by
  obtain ⟨watcher, present, rfl, phase⟩ := hasLeft
  obtain ⟨number, found⟩ := List.mem_iff_getElem?.mp present
  have isOpen := inv.unanswered watcher present phase (.inr cancels)
  have same : watchers.set number watcher = watchers := by
    obtain ⟨bound, rfl⟩ := List.getElem?_eq_some_iff.mp found
    exact List.set_getElem_self bound
  rw [← same]
  refine inv.set watcher found rfl ?_ (.inr rfl) ?_ nofun ?_
  · exact List.forall_mem_singleton.mpr rfl
  · rw [phase]
    exact isOpen.append rfl
  · intro _ pending
    obtain registered | now := pending
    · exact absurd (inv.canceling _ cancels) registered
    · cases now

theorem moved {number : Nat} {old new : Watcher} {effect : WatcherEffect}
    (found : watchers[number]? = some old) (sameId : new.id = old.id)
    (move : LoopMove old.id old.loop effect new.loop) :
    StreamInv nextID (watchers.set number new) watches (sent ++ effect.responses) handler := by
  have present := List.mem_of_getElem? found
  have standing := inv.standing old present
  refine inv.set new found sameId move.responses_id (.inl rfl) (move.standing standing) ?_ ?_
  · intro creates
    obtain ⟨same, sameFound, phase⟩ := inv.creating number creates
    obtain rfl : old = same := Option.some.inj (found.symm.trans sameFound)
    exact move.unstarted phase
  · intro after pending
    obtain ⟨nothing, hadLeft | isOpen⟩ := move.left standing after
    · rw [nothing, List.append_nil]
      exact inv.unanswered old present hadLeft pending
    · rw [nothing, List.append_nil]
      exact isOpen

end StreamInv

namespace WatchSystem

variable {system : WatchSystem} (inv : system.Inv)

include inv

theorem Inv.shutDown : system.shutDown.Inv :=
  StreamInv.setHandler inv ⟨nofun, nofun⟩

theorem Inv.reap {id : Int} {rest : List Int}
    (idle : (∀ number, system.handler ≠ .creating number) ∧
      ∀ other, system.handler ≠ .canceling other) :
    { system.cancelWatch id with cancelledCh := rest }.Inv := by
  unfold cancelWatch
  split
  · exact StreamInv.unregister inv idle
  · exact inv

theorem Inv.handle {request : WatchRequest} (draining : system.handler = .draining request)
    (settled : Settled system .handle) : (system.handle request).Inv := by
  simp only [Settled, draining] at settled
  cases request with
  | create request => exact StreamInv.create inv settled
  | cancel id =>
      obtain ⟨number, registered⟩ := Option.ne_none_iff_exists'.mp settled
      simp only [WatchSystem.handle, cancelWatch, registered]
      exact StreamInv.cancel inv settled
  | other => exact StreamInv.setHandler inv ⟨nofun, nofun⟩

theorem Inv.respond {next : WatchSystem} (settled : Settled system .respond)
    (responded : system.respond = some next) : next.Inv := by
  simp only [WatchSystem.respond] at responded
  simp only [Settled] at settled
  split at responded
  next number creates =>
    obtain ⟨watcher, found, rfl⟩ := Option.map_eq_some_iff.mp responded
    exact StreamInv.started inv creates found
  next id cancels =>
    obtain rfl := Option.some.inj responded
    rw [cancels] at settled
    exact StreamInv.answered inv cancels settled
  next => cases responded

theorem Inv.apply {number : Nat} {old new : Watcher} {effect : WatcherEffect}
    (found : system.watchers[number]? = some old) (sameId : new.id = old.id)
    (move : LoopMove old.id old.loop effect new.loop) : (system.apply number new effect).Inv := by
  have moved := StreamInv.moved inv found sameId move
  cases effect with
  | respond response => exact moved
  | none | report =>
      rw [WatcherEffect.responses, List.append_nil] at moved
      exact moved

theorem Inv.step {action : WatchAction} {next : WatchSystem} (settled : Settled system action)
    (stepped : system.step action = some next) : next.Inv := by
  cases action with
  | finish =>
      obtain rfl := Option.some.inj stepped
      exact inv
  | receive result =>
      simp only [WatchSystem.step] at stepped
      split at stepped
      all_goals first | (cases stepped; done) | obtain rfl := Option.some.inj stepped
      · exact StreamInv.setHandler inv ⟨nofun, nofun⟩
      · exact Inv.shutDown inv
      · exact Inv.shutDown inv
      · exact StreamInv.setHandler inv ⟨nofun, nofun⟩
  | reap =>
      simp only [WatchSystem.step] at stepped
      split at stepped
      next id rest selecting queued =>
        obtain rfl := Option.some.inj stepped
        exact Inv.reap inv (by simp [selecting])
      next request id rest draining queued =>
        obtain rfl := Option.some.inj stepped
        exact Inv.reap inv (by simp [draining])
      next => cases stepped
  | handle =>
      simp only [WatchSystem.step] at stepped
      split at stepped
      next request draining drained =>
        obtain rfl := Option.some.inj stepped
        exact Inv.handle inv draining settled
      next => cases stepped
  | respond =>
      simp only [WatchSystem.step, Option.ite_none_right_eq_some] at stepped
      exact Inv.respond inv settled stepped.2
  | abandon =>
      simp only [WatchSystem.step, Option.ite_none_right_eq_some] at stepped
      obtain ⟨_, stepped⟩ := stepped
      split at stepped
      all_goals first | (cases stepped; done) | obtain rfl := Option.some.inj stepped
      all_goals exact Inv.shutDown inv
  | transmit ok =>
      simp only [WatchSystem.step, Option.ite_none_right_eq_some] at stepped
      obtain ⟨respCh, received, rfl⟩ := Option.map_eq_some_iff.mp stepped.2
      have received : StreamInv system.nextID system.watchers system.watches respCh.sent
          system.handler := by
        rw [Channel.receive_sent received]
        exact inv
      cases ok with
      | true => exact received
      | false => exact received
  | stopSending =>
      simp only [WatchSystem.step, Option.ite_none_right_eq_some, Option.some.injEq] at stepped
      obtain ⟨_, rfl⟩ := stepped
      exact inv
  | inherit number =>
      simp only [WatchSystem.step, Option.ite_none_right_eq_some, Option.some.injEq] at stepped
      obtain ⟨_, rfl⟩ := stepped
      exact inv
  | watcher number action =>
      obtain ⟨watcher, found, moved⟩ := Option.bind_eq_some_iff.mp stepped
      obtain ⟨outcome, watcherStep, rfl⟩ := Option.map_eq_some_iff.mp moved
      obtain ⟨sameId, move⟩ := Watcher.step_move watcherStep
      exact Inv.apply inv found sameId move

end WatchSystem

/-- In every run in which ids do not wrap around, cancel requests name
registered watches and are answered only after the loop of the watch has left,
the responses of the stream are orderly. -/
theorem settled_stream_orderly {actions : List WatchAction} {system : WatchSystem}
    (settled : Runs.Guarded WatchSystem.step Settled .opened actions)
    (ran : Runs.run WatchSystem.step .opened actions = some system) : system.Orderly := by
  have inv : system.Inv := Runs.run_invariant_of_guarded
    (fun _ _ _ condition stepped inv => WatchSystem.Inv.step inv condition stepped) settled ran
    StreamInv.opened
  exact ⟨StreamInv.ids_nodup inv, StreamInv.orderly inv⟩

def watchK : WatchRequest := .create { key := ascii "k", rangeEnd := [], startRevision := 0 }

def openWatch : List WatchAction := [.receive (.request watchK), .handle, .respond]

/-- One of two watches forwards an event and is cancelled by the client; the
subscription of the other is torn down. -/
def settledWatches : List WatchAction :=
  [.watcher 0 (.publish [rowEvent createdRow]), .watcher 0 (.take 0), .watcher 0 .send,
    .watcher 1 (.publish []), .watcher 1 (.take 3), .watcher 1 .send, .watcher 1 .report, .reap,
    .receive (.request (.cancel 0)), .handle, .watcher 0 .stop, .watcher 0 .leave, .respond]

def settledStream : List WatchAction := openWatch ++ openWatch ++ settledWatches

def settledEnd : WatchSystem :=
  (Runs.run WatchSystem.step .opened settledStream).getD .opened

/-- What a response tells about its watch: the id, whether it was created or
canceled, and the number of events. -/
def WatchResponse.summary (response : WatchResponse) : Int × Bool × Bool × Nat :=
  (response.watchId, response.created, response.canceled, response.events.length)

theorem settledEnd_orderly :
    settledEnd.respCh.sent.map WatchResponse.summary =
        [(0, true, false, 0), (1, true, false, 0), (0, false, false, 1), (1, false, true, 0),
          (0, false, true, 0)] ∧
      settledEnd.Orderly := by
  have ran : Runs.run WatchSystem.step .opened settledStream = some settledEnd := rfl
  exact ⟨rfl, settled_stream_orderly (by decide) ran⟩

def cancelWatch0 : List WatchAction := [.receive (.request (.cancel 0)), .handle, .respond]

def takeEvent : List WatchAction :=
  [.watcher 0 (.publish [rowEvent createdRow]), .watcher 0 (.take 0)]

/-- The loop has taken a batch when the client cancels the watch, and queues it
after the handler's answer. -/
def lateEventStream : List WatchAction :=
  openWatch ++ takeEvent ++ cancelWatch0 ++ [.watcher 0 .send]

def tearDown : List WatchAction :=
  [.watcher 0 (.publish []), .watcher 0 (.take 1), .watcher 0 .send]

/-- The loop tells the client that the subscription was torn down, and the
handler answers a cancel request that was already on its way. -/
def tornDownStream : List WatchAction := openWatch ++ tearDown ++ cancelWatch0

theorem canceled_watch_disorderly :
    (∃ system, Runs.run WatchSystem.step .opened lateEventStream = some system ∧
      system.respCh.sent.map WatchResponse.summary =
        [(0, true, false, 0), (0, false, true, 0), (0, false, false, 1)] ∧ ¬system.Orderly) ∧
    (∃ system, Runs.run WatchSystem.step .opened tornDownStream = some system ∧
      system.respCh.sent.map WatchResponse.summary =
        [(0, true, false, 0), (0, false, true, 0), (0, false, true, 0)] ∧ ¬system.Orderly) ∧
    (∃ system, Runs.run WatchSystem.step .opened (cancelWatch0 ++ openWatch) = some system ∧
      system.respCh.sent.map WatchResponse.summary =
        [(0, false, true, 0), (0, true, false, 0)] ∧ ¬system.Orderly) := by
  refine ⟨⟨_, rfl, rfl, fun orderly => ?_⟩, ⟨_, rfl, rfl, fun orderly => ?_⟩,
    ⟨_, rfl, rfl, fun orderly => ?_⟩⟩
  · exact absurd ((orderly.responses 0).silent (by decide)) (by decide)
  · exact absurd ((orderly.responses 0).closedOnce (by decide)) (by decide)
  · obtain ⟨first, head, opens⟩ := (orderly.responses 0).openedFirst (by decide)
    obtain rfl := Option.some.inj head
    cases opens

end SpannerEtcd
