import SpannerEtcd.ChangeStream.Agreement
import SpannerEtcd.Lib.Channel
import SpannerEtcd.Watch.Poll

/-!
# One subscription

A subscription is registered first; its own goroutine then replays the log
page by page.  Meanwhile the poll loop and the readers of the change stream
partitions hand their batches to it.  All of them send into one channel.
-/

namespace SpannerEtcd

def subChannelDepth : Nat := 100

structure Subscription where
  pre : Bytes
  afterRev : Int

/-- `strings.TrimSuffix(s, "%")`. -/
def trimPercent (s : Bytes) : Bytes :=
  if s.getLast? = some 37 then s.dropLast else s

/-- The filter of `dispatchEvents`. -/
def Subscription.accepts (sub : Subscription) (key : Bytes) : Bool :=
  trimPercent sub.pre = [] || (trimPercent sub.pre).isPrefixOf key

/-- A call of `After`: it reads the current revision, then the compact
revision, and then queries the rows. -/
inductive AfterCall where
  | idle
  | revisionRead (revDb : DB)
  | horizonRead (revDb compactDb : DB)

def AfterCall.read (db : DB) : AfterCall → Option AfterCall
  | .idle => some (.revisionRead db)
  | .revisionRead revDb => some (.horizonRead revDb db)
  | .horizonRead _ _ => none

/-- Where the goroutine of the subscription stands. -/
inductive Replay where
  | starting
  | paging (replayRev : Int) (call : AfterCall)
  /-- A page waits for room in the channel. -/
  | sending (replayRev : Int) (events : List Event)
  | live
  | returning
  | draining
  | sentinel
  | ended

def Replay.finished : Replay → Bool
  | .starting | .paging _ _ | .sending _ _ => false
  | .live | .returning | .draining | .sentinel | .ended => true

inductive Producer where
  | pollLoop
  | partition (number : Nat)
  deriving DecidableEq, Repr

/-- A batch on its way through `dispatchEvents`; it is cleared once the closed
flag of the subscriber has been found unset. -/
structure Flight where
  producer : Producer
  matching : List Event
  cleared : Bool

structure SubscribeSystem where
  world : World
  pollRev : Int
  poll : AfterCall
  replay : Replay
  inFlight : List Flight
  channel : Channel Event
  closed : Bool
  canceled : Bool

/-- The subscription is registered while the poll loop is at `pollRev`. -/
def SubscribeSystem.subscribe (world : World) (pollRev : Int) (poll : AfterCall) :
    SubscribeSystem :=
  { world := world, pollRev := pollRev, poll := poll, replay := .starting, inFlight := []
    channel := .empty, closed := false, canceled := false }

def SubscribeSystem.flight (system : SubscribeSystem) (producer : Producer) : Option Flight :=
  system.inFlight.find? fun flight => flight.producer = producer

def SubscribeSystem.land (system : SubscribeSystem) (producer : Producer) : SubscribeSystem :=
  { system with inFlight := system.inFlight.filter fun flight => flight.producer ≠ producer }

def SubscribeSystem.dispatchEvents (system : SubscribeSystem) (sub : Subscription)
    (producer : Producer) (events : List Event) : SubscribeSystem :=
  let matching := events.filter fun event => sub.accepts event.kv.key
  if matching.isEmpty then system
  else { system with
    inFlight := system.inFlight ++ [⟨producer, matching, false⟩] }

def afterPage (replayRev : Int) : Except StoreErr (List Event) → Replay
  | .error _ => .returning
  | .ok events => if events.isEmpty then .live else .sending replayRev events

/-- A page that is not full is the last one. -/
def afterSend (replayRev : Int) (events : List Event) : Replay :=
  if (events.length : Int) < pollBatchSize then .live
  else .paging ((events.getLast?.map fun event => event.kv.rev).getD replayRev) .idle

inductive SubscribeAction where
  | other (action : Action)
  | start
  | replayRead
  | replayQuery (order : List Row)
  | replaySend
  | replayFail
  | replayDone
  | cancel
  | close
  | drain
  | sendSentinel (inTime : Bool)
  | pollRead
  | pollQuery (order : List Row)
  | pollFail
  /-- A partition delivers a record that reports the inserts of `rows`. -/
  | capture (partition : Nat) (rows : List Row) (gcv : Value)
  | check (producer : Producer)
  | offer (producer : Producer)
  | receive

def SubscribeSystem.step (runtime : Runtime) (sub : Subscription) (system : SubscribeSystem) :
    SubscribeAction → Option SubscribeSystem
  | .other action =>
      (system.world.step action).map fun next => { system with world := next }
  | .start =>
      match system.replay with
      | .starting =>
          let compactRev := compactRevision system.world.db
          if sub.afterRev = 0 then some { system with replay := .live }
          else if compactRev > 1 ∧ sub.afterRev ≤ compactRev then
            some { system with replay := .returning }
          else some { system with replay := .paging (sub.afterRev - 1) .idle }
      | _ => none
  | .replayRead =>
      match system.replay with
      | .paging replayRev call =>
          (call.read system.world.db).map fun next =>
            { system with replay := .paging replayRev next }
      | _ => none
  | .replayQuery order =>
      match system.replay with
      | .paging replayRev (.horizonRead revDb compactDb) =>
          if IsRevOrder (afterRows system.world.db.kv sub.pre (revToTS replayRev)) order then
            some { system with
              replay := afterPage replayRev
                (after revDb compactDb order replayRev pollBatchSize).2 }
          else none
      | _ => none
  | .replaySend =>
      match system.replay with
      | .sending replayRev events =>
          if system.channel.queue.length < subChannelDepth then
            some { system with
              channel := system.channel.send events
              replay := afterSend replayRev events }
          else none
      | _ => none
  | .replayFail =>
      match system.replay with
      | .starting | .paging _ _ => some { system with replay := .returning }
      | _ => none
  | .replayDone =>
      match system.replay with
      | .sending _ _ | .live =>
          if system.canceled then some { system with replay := .returning } else none
      | _ => none
  | .cancel => some { system with canceled := true }
  | .close =>
      match system.replay with
      | .returning => some { system with replay := .draining, closed := true, canceled := true }
      | _ => none
  | .drain =>
      match system.replay with
      | .draining =>
          match system.channel.discard with
          | some channel => some { system with channel := channel }
          | none => some { system with replay := .sentinel }
      | _ => none
  | .sendSentinel inTime =>
      match system.replay with
      | .sentinel =>
          if inTime then
            if system.channel.queue.length < subChannelDepth then
              some { system with channel := system.channel.send [], replay := .ended }
            else none
          else some { system with replay := .ended }
      | _ => none
  | .pollRead =>
      if (system.flight .pollLoop).isSome then none
      else (system.poll.read system.world.db).map fun next => { system with poll := next }
  | .pollQuery order =>
      match system.poll with
      | .horizonRead revDb compactDb =>
          if IsRevOrder (afterRows system.world.db.kv [] (revToTS system.pollRev)) order then
            let (events, curRev) := doPoll revDb compactDb order system.pollRev
            some ({ system with poll := .idle, pollRev := curRev }.dispatchEvents sub .pollLoop
              events)
          else none
      | _ => none
  | .pollFail => some { system with poll := .idle }
  | .capture partition _ gcv =>
      if (system.flight (.partition partition)).isSome then none
      else some (system.dispatchEvents sub (.partition partition) (decodeRecord runtime gcv).events)
  | .check producer =>
      match system.flight producer with
      | some flight =>
          if flight.cleared then none
          else if system.closed then some (system.land producer)
          else some { system.land producer with
            inFlight := (system.land producer).inFlight ++ [{ flight with cleared := true }] }
      | none => none
  | .offer producer =>
      match system.flight producer with
      | some flight =>
          if flight.cleared then
            if system.channel.queue.length < subChannelDepth then
              some { system.land producer with channel := system.channel.send flight.matching }
            else some { system.land producer with canceled := true }
          else none
      | none => none
  | .receive => system.channel.receive.map fun channel => { system with channel := channel }

section
variable {runtime : Runtime} {sub : Subscription} {system next : SubscribeSystem}

namespace SubscribeSystem

/-! ## Batches in flight -/

theorem flight_mem {producer : Producer} {flight : Flight}
    (found : system.flight producer = some flight) : flight ∈ system.inFlight :=
  List.mem_of_find?_eq_some found

theorem flight_producer {producer : Producer} {flight : Flight}
    (found : system.flight producer = some flight) : flight.producer = producer := by
  simpa using List.find?_some found

theorem flight_eq_none {producer : Producer} :
    system.flight producer = none ↔ ∀ flight ∈ system.inFlight, flight.producer ≠ producer := by
  simp [flight, List.find?_eq_none]

@[simp]
theorem land_flight (producer : Producer) : (system.land producer).flight producer = none := by
  rw [flight_eq_none]
  intro flight membership
  simpa using (List.mem_filter.mp membership).2

theorem flight_append (system : SubscribeSystem) (flight : Flight)
    (landed : system.flight flight.producer = none) :
    { system with inFlight := system.inFlight ++ [flight] }.flight flight.producer =
      some flight := by
  unfold SubscribeSystem.flight at landed ⊢
  simp [List.find?_append, landed]

end SubscribeSystem

/-! ## What a step can be -/

inductive SubscribeMove (runtime : Runtime) (sub : Subscription) (system : SubscribeSystem) :
    SubscribeAction → SubscribeSystem → Prop where
  | other {action : Action} {world : World} (stepped : system.world.step action = some world) :
      SubscribeMove runtime sub system (.other action) { system with world := world }
  | startLive (starting : system.replay = .starting) (fromNow : sub.afterRev = 0) :
      SubscribeMove runtime sub system .start { system with replay := .live }
  | startRefused (starting : system.replay = .starting) (past : sub.afterRev ≠ 0)
      (below : compactRevision system.world.db > 1 ∧
        sub.afterRev ≤ compactRevision system.world.db) :
      SubscribeMove runtime sub system .start { system with replay := .returning }
  | startPaging (starting : system.replay = .starting) (past : sub.afterRev ≠ 0)
      (above : ¬(compactRevision system.world.db > 1 ∧
        sub.afterRev ≤ compactRevision system.world.db)) :
      SubscribeMove runtime sub system .start
        { system with replay := .paging (sub.afterRev - 1) .idle }
  | replayRead {replayRev : Int} {call read : AfterCall}
      (paging : system.replay = .paging replayRev call)
      (reads : call.read system.world.db = some read) :
      SubscribeMove runtime sub system .replayRead { system with replay := .paging replayRev read }
  | replayQuery {replayRev : Int} {revDb compactDb : DB} {order : List Row}
      (paging : system.replay = .paging replayRev (.horizonRead revDb compactDb))
      (ordered : IsRevOrder (afterRows system.world.db.kv sub.pre (revToTS replayRev)) order) :
      SubscribeMove runtime sub system (.replayQuery order)
        { system with
          replay := afterPage replayRev (after revDb compactDb order replayRev pollBatchSize).2 }
  | replaySend {replayRev : Int} {events : List Event}
      (sending : system.replay = .sending replayRev events)
      (room : system.channel.queue.length < subChannelDepth) :
      SubscribeMove runtime sub system .replaySend
        { system with
          channel := system.channel.send events
          replay := afterSend replayRev events }
  | replayFail (failing : system.replay = .starting ∨
        ∃ replayRev call, system.replay = .paging replayRev call) :
      SubscribeMove runtime sub system .replayFail { system with replay := .returning }
  | replayDone (canceled : system.canceled = true)
      (serving : (∃ replayRev events, system.replay = .sending replayRev events) ∨
        system.replay = .live) :
      SubscribeMove runtime sub system .replayDone { system with replay := .returning }
  | cancel : SubscribeMove runtime sub system .cancel { system with canceled := true }
  | close (returning : system.replay = .returning) :
      SubscribeMove runtime sub system .close
        { system with replay := .draining, closed := true, canceled := true }
  | discard {channel : Channel Event} (draining : system.replay = .draining)
      (discarded : system.channel.discard = some channel) :
      SubscribeMove runtime sub system .drain { system with channel := channel }
  | drained (draining : system.replay = .draining) (empty : system.channel.discard = none) :
      SubscribeMove runtime sub system .drain { system with replay := .sentinel }
  | sendSentinel (drained : system.replay = .sentinel)
      (room : system.channel.queue.length < subChannelDepth) :
      SubscribeMove runtime sub system (.sendSentinel true)
        { system with channel := system.channel.send [], replay := .ended }
  | timeOut (drained : system.replay = .sentinel) :
      SubscribeMove runtime sub system (.sendSentinel false) { system with replay := .ended }
  | pollRead {read : AfterCall} (landed : system.flight .pollLoop = none)
      (reads : system.poll.read system.world.db = some read) :
      SubscribeMove runtime sub system .pollRead { system with poll := read }
  | pollQuery {revDb compactDb : DB} {order : List Row}
      (reading : system.poll = .horizonRead revDb compactDb)
      (ordered : IsRevOrder (afterRows system.world.db.kv [] (revToTS system.pollRev)) order) :
      SubscribeMove runtime sub system (.pollQuery order)
        ({ system with
          poll := .idle
          pollRev := (doPoll revDb compactDb order system.pollRev).2 }.dispatchEvents sub .pollLoop
            (doPoll revDb compactDb order system.pollRev).1)
  | pollFail : SubscribeMove runtime sub system .pollFail { system with poll := .idle }
  | capture {number : Nat} (rows : List Row) {gcv : Value}
      (landed : system.flight (.partition number) = none) :
      SubscribeMove runtime sub system (.capture number rows gcv)
        (system.dispatchEvents sub (.partition number) (decodeRecord runtime gcv).events)
  | skip {producer : Producer} {flight : Flight} (found : system.flight producer = some flight)
      (unchecked : flight.cleared = false) (closed : system.closed = true) :
      SubscribeMove runtime sub system (.check producer) (system.land producer)
  | check {producer : Producer} {flight : Flight} (found : system.flight producer = some flight)
      (unchecked : flight.cleared = false) (serving : system.closed = false) :
      SubscribeMove runtime sub system (.check producer)
        { system.land producer with
          inFlight := (system.land producer).inFlight ++ [{ flight with cleared := true }] }
  | offer {producer : Producer} {flight : Flight} (found : system.flight producer = some flight)
      (cleared : flight.cleared = true) (room : system.channel.queue.length < subChannelDepth) :
      SubscribeMove runtime sub system (.offer producer)
        { system.land producer with channel := system.channel.send flight.matching }
  | drop {producer : Producer} {flight : Flight} (found : system.flight producer = some flight)
      (cleared : flight.cleared = true) (full : ¬system.channel.queue.length < subChannelDepth) :
      SubscribeMove runtime sub system (.offer producer)
        { system.land producer with canceled := true }
  | receive {channel : Channel Event} (received : system.channel.receive = some channel) :
      SubscribeMove runtime sub system .receive { system with channel := channel }

namespace SubscribeSystem

theorem step_move {action : SubscribeAction}
    (stepped : system.step runtime sub action = some next) :
    SubscribeMove runtime sub system action next := by
  cases action with
  | other action =>
    obtain ⟨world, moved, rfl⟩ := Option.map_eq_some_iff.mp stepped
    exact .other moved
  | start =>
    simp only [step] at stepped
    split at stepped
    next starting =>
      split_ifs at stepped with fromNow below
      all_goals obtain rfl := Option.some.inj stepped
      · exact .startLive starting fromNow
      · exact .startRefused starting fromNow below
      · exact .startPaging starting fromNow below
    next => cases stepped
  | replayRead =>
    simp only [step] at stepped
    split at stepped
    next replayRev call paging =>
      obtain ⟨read, reads, rfl⟩ := Option.map_eq_some_iff.mp stepped
      exact .replayRead paging reads
    next => cases stepped
  | replayQuery order =>
    simp only [step] at stepped
    split at stepped
    next replayRev revDb compactDb paging =>
      split_ifs at stepped with ordered
      obtain rfl := Option.some.inj stepped
      exact .replayQuery paging ordered
    next => cases stepped
  | replaySend =>
    simp only [step] at stepped
    split at stepped
    next replayRev events sending =>
      split_ifs at stepped with room
      obtain rfl := Option.some.inj stepped
      exact .replaySend sending room
    next => cases stepped
  | replayFail =>
    simp only [step] at stepped
    split at stepped
    next starting =>
      obtain rfl := Option.some.inj stepped
      exact .replayFail (.inl starting)
    next replayRev call paging =>
      obtain rfl := Option.some.inj stepped
      exact .replayFail (.inr ⟨replayRev, call, paging⟩)
    next => cases stepped
  | replayDone =>
    simp only [step] at stepped
    split at stepped
    next replayRev events sending =>
      split_ifs at stepped with canceled
      obtain rfl := Option.some.inj stepped
      exact .replayDone canceled (.inl ⟨replayRev, events, sending⟩)
    next live =>
      split_ifs at stepped with canceled
      obtain rfl := Option.some.inj stepped
      exact .replayDone canceled (.inr live)
    next => cases stepped
  | cancel =>
    obtain rfl := Option.some.inj stepped
    exact .cancel
  | close =>
    simp only [step] at stepped
    split at stepped
    next returning =>
      obtain rfl := Option.some.inj stepped
      exact .close returning
    next => cases stepped
  | drain =>
    simp only [step] at stepped
    split at stepped
    next draining =>
      split at stepped
      next channel discarded =>
        obtain rfl := Option.some.inj stepped
        exact .discard draining discarded
      next empty =>
        obtain rfl := Option.some.inj stepped
        exact .drained draining empty
    next => cases stepped
  | sendSentinel inTime =>
    simp only [step] at stepped
    split at stepped
    next drained =>
      cases inTime with
      | true =>
        simp only [if_true] at stepped
        split_ifs at stepped with room
        obtain rfl := Option.some.inj stepped
        exact .sendSentinel drained room
      | false =>
        simp only [Bool.false_eq_true, if_false] at stepped
        obtain rfl := Option.some.inj stepped
        exact .timeOut drained
    next => cases stepped
  | pollRead =>
    simp only [step] at stepped
    split_ifs at stepped with busy
    obtain ⟨read, reads, rfl⟩ := Option.map_eq_some_iff.mp stepped
    exact .pollRead (Option.not_isSome_iff_eq_none.mp busy) reads
  | pollQuery order =>
    simp only [step] at stepped
    split at stepped
    next revDb compactDb reading =>
      split_ifs at stepped with ordered
      obtain rfl := Option.some.inj stepped
      exact .pollQuery reading ordered
    next => cases stepped
  | pollFail =>
    obtain rfl := Option.some.inj stepped
    exact .pollFail
  | capture number rows gcv =>
    simp only [step] at stepped
    split_ifs at stepped with busy
    obtain rfl := Option.some.inj stepped
    exact .capture rows (Option.not_isSome_iff_eq_none.mp busy)
  | check producer =>
    simp only [step] at stepped
    split at stepped
    next flight found =>
      split_ifs at stepped with cleared closed
      all_goals obtain rfl := Option.some.inj stepped
      · exact .skip found (Bool.eq_false_of_not_eq_true cleared) closed
      · exact .check found (Bool.eq_false_of_not_eq_true cleared)
          (Bool.eq_false_of_not_eq_true closed)
    next => cases stepped
  | offer producer =>
    simp only [step] at stepped
    split at stepped
    next flight found =>
      split_ifs at stepped with cleared room
      all_goals obtain rfl := Option.some.inj stepped
      · exact .offer found cleared room
      · exact .drop found cleared room
    next => cases stepped
  | receive =>
    obtain ⟨channel, received, rfl⟩ := Option.map_eq_some_iff.mp stepped
    exact .receive received

end SubscribeSystem

end

/-! ## Conditions on runs -/

/-- The records of a change stream have the documented form. -/
def WellFormed (runtime : Runtime) : SubscribeAction → Prop
  | .capture _ rows gcv => ChangeRecord runtime rows gcv
  | _ => True

/-- They report committed rows in the order of their commits, none twice. -/
def InCommitOrder (system : SubscribeSystem) : SubscribeAction → Prop
  | .capture _ rows _ =>
      (∀ row ∈ rows, row ∈ system.world.history) ∧
        (rows.Pairwise fun first second => first.rev ≤ second.rev) ∧ rows.Nodup
  | _ => True

instance (system : SubscribeSystem) (action : SubscribeAction) :
    Decidable (InCommitOrder system action) :=
  match action with
  | .capture _ _ _ => inferInstanceAs (Decidable (_ ∧ _ ∧ _))
  | .other _ | .start | .replayRead | .replayQuery _ | .replaySend | .replayFail | .replayDone
  | .cancel | .close | .drain | .sendSentinel _ | .pollRead | .pollQuery _ | .pollFail | .check _
  | .offer _ | .receive => .isTrue trivial

/-- What Spanner promises of a change stream. -/
def Delivered (runtime : Runtime) (system : SubscribeSystem) (action : SubscribeAction) : Prop :=
  WellFormed runtime action ∧ InCommitOrder system action

/-- Rows that reach the subscription only after its replay, alone, and above
everything that it was sent. -/
def Fresh (sub : Subscription) (system : SubscribeSystem) (rows : List Row) : Prop :=
  ∀ row ∈ rows, sub.accepts row.key = true →
    system.replay.finished = true ∧ system.inFlight.length = 0 ∧ sub.afterRev ≤ row.rev ∧
      ∀ event ∈ system.channel.sent, event.kv.rev < row.rev

instance (sub : Subscription) (system : SubscribeSystem) (rows : List Row) :
    Decidable (Fresh sub system rows) :=
  inferInstanceAs (Decidable (∀ row ∈ rows, _))

/-- Whenever the poll loop or a partition takes up rows for the subscription,
they are fresh. -/
def OnlyFresh (sub : Subscription) (system : SubscribeSystem) : SubscribeAction → Prop
  | .pollQuery order => Fresh sub system order
  | .capture _ rows _ => Fresh sub system rows
  | _ => True

instance (sub : Subscription) (system : SubscribeSystem) (action : SubscribeAction) :
    Decidable (OnlyFresh sub system action) :=
  match action with
  | .pollQuery order => inferInstanceAs (Decidable (Fresh sub system order))
  | .capture _ rows _ => inferInstanceAs (Decidable (Fresh sub system rows))
  | .other _ | .start | .replayRead | .replayQuery _ | .replaySend | .replayFail | .replayDone
  | .cancel | .close | .drain | .sendSentinel _ | .pollRead | .pollFail | .check _ | .offer _
  | .receive => .isTrue trivial

end SpannerEtcd
