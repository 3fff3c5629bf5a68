import SpannerEtcd.Watch.Subscribe

/-!
# Cutting off a slow watcher

A batch that finds the channel full is dropped and the subscription is
cancelled.  Its goroutine notices later, marks it closed, drains the channel
and sends an empty batch as a sentinel.  Until the mark is set other batches
are sent as before, and a producer that has looked at the mark in time sends
even after the drain.

The log numbers the batches that match a live subscription, in the order in
which `dispatchEvents` skips, sends or drops them, and records what the
consumer takes out of the channel before the sentinel.
-/

namespace SpannerEtcd

structure BatchLog where
  dispatched : List (List Event)
  /-- For each batch in the channel its number; that of the sentinel is
  meaningless. -/
  numbers : List Nat
  received : List (List Event × Nat)
  ended : Bool

def BatchLog.empty : BatchLog := { dispatched := [], numbers := [], received := [], ended := false }

def BatchLog.lose (log : BatchLog) (batch : List Event) : BatchLog :=
  { log with dispatched := log.dispatched ++ [batch] }

def BatchLog.send (log : BatchLog) (batch : List Event) : BatchLog :=
  { log with
    dispatched := log.dispatched ++ [batch]
    numbers := log.numbers ++ [log.dispatched.length] }

def BatchLog.sentinel (log : BatchLog) : BatchLog :=
  { log with numbers := log.numbers ++ [log.dispatched.length] }

def BatchLog.discard (log : BatchLog) : BatchLog := { log with numbers := log.numbers.tail }

/-- The consumer takes this batch, the first in the channel. -/
def BatchLog.receive (log : BatchLog) (batch : List Event) : BatchLog :=
  match log.numbers with
  | [] => log
  | number :: rest =>
      if log.ended ∨ batch = [] then { log with numbers := rest, ended := true }
      else { log with numbers := rest, received := log.received ++ [(batch, number)] }

structure CutOff where
  system : SubscribeSystem
  log : BatchLog

def CutOff.subscribe (world : World) (pollRev : Int) (poll : AfterCall) : CutOff :=
  { system := .subscribe world pollRev poll, log := .empty }

/-- What is written down about an action of a live subscription. -/
def CutOff.record (cut : CutOff) : SubscribeAction → BatchLog
  | .check producer =>
      match cut.system.flight producer with
      | some flight => if cut.system.closed then cut.log.lose flight.matching else cut.log
      | none => cut.log
  | .offer producer =>
      match cut.system.flight producer with
      | some flight =>
          if cut.system.channel.queue.length < subChannelDepth then cut.log.send flight.matching
          else cut.log.lose flight.matching
      | none => cut.log
  | .sendSentinel inTime => if inTime then cut.log.sentinel else cut.log
  | .drain => cut.log.discard
  | .receive =>
      match cut.system.channel.queue with
      | [] => cut.log
      | batch :: _ => cut.log.receive batch
  | _ => cut.log

def CutOff.step (runtime : Runtime) (sub : Subscription) (cut : CutOff)
    (action : SubscribeAction) : Option CutOff :=
  (cut.system.step runtime sub action).map fun next =>
    { system := next, log := cut.record action }

/-- A batch that finds room is offered only before the subscription is
cancelled, and the consumer takes nothing while the channel is drained. -/
def CutsCleanly (cut : CutOff) : SubscribeAction → Prop
  | .offer _ => cut.system.channel.queue.length < subChannelDepth → cut.system.canceled = false
  | .receive => cut.system.replay ≠ .draining
  | _ => True

instance (replay : Replay) : Decidable (replay = .draining) :=
  match replay with
  | .draining => .isTrue rfl
  | .starting | .paging _ _ | .sending _ _ | .live | .returning | .sentinel | .ended =>
      .isFalse nofun

instance (cut : CutOff) (action : SubscribeAction) : Decidable (CutsCleanly cut action) :=
  match action with
  | .offer _ => inferInstanceAs (Decidable (_ → _))
  | .receive => inferInstanceAs (Decidable (¬cut.system.replay = .draining))
  | .other _ | .start | .replayRead | .replayQuery _ | .replaySend | .replayFail | .replayDone
  | .cancel | .close | .drain | .sendSentinel _ | .pollRead | .pollQuery _ | .pollFail
  | .capture _ _ _ | .check _ => .isTrue trivial

/-! ## The two stages of a subscription -/

/-- The batches that have been received, and those in the channel, with their
numbers. -/
def BatchLog.kept (log : BatchLog) (queue : List (List Event)) : List (List Event × Nat) :=
  log.received ++ queue.zip log.numbers

/-- Until the goroutine closes the subscription nothing is missing in front
of a batch that was kept.  From then on nothing more is received. -/
inductive Stage (log : BatchLog) : Replay → List (List Event) → Bool → Prop where
  | serving {replay : Replay} {queue : List (List Event)} {canceled : Bool}
      (phase : replay = .starting ∨ replay = .live ∨ replay = .returning)
      (notEnded : log.ended = false)
      (batches : ∀ batch ∈ queue, batch ≠ [])
      (lengths : queue.length = log.numbers.length)
      (inOrder : log.kept queue <+: log.dispatched.zipIdx)
      (complete : canceled = false → log.kept queue = log.dispatched.zipIdx) :
      Stage log replay queue canceled
  | closing {replay : Replay} {queue : List (List Event)}
      (phase : replay = .draining ∨ replay = .sentinel ∨ replay = .ended)
      (inOrder : log.received <+: log.dispatched.zipIdx)
      (drained : replay ≠ .draining → ∀ batch ∈ queue, batch = []) :
      Stage log replay queue true

structure CutOff.Inv (cut : CutOff) : Prop where
  closed : cut.system.closed = true → cut.system.canceled = true
  flights : ∀ flight ∈ cut.system.inFlight, flight.matching ≠ []
  stage : Stage cut.log cut.system.replay cut.system.channel.queue cut.system.canceled

theorem Stage.received {log : BatchLog} {replay : Replay} {queue : List (List Event)}
    {canceled : Bool} (stage : Stage log replay queue canceled) :
    log.received <+: log.dispatched.zipIdx := by
  cases stage with
  | serving phase notEnded batches lengths inOrder complete =>
      exact (List.prefix_append _ _).trans inOrder
  | closing phase inOrder drained => exact inOrder

theorem Stage.phase {log : BatchLog} {replay : Replay} {queue : List (List Event)}
    {canceled : Bool} (stage : Stage log replay queue canceled) :
    (replay = .starting ∨ replay = .live ∨ replay = .returning) ∨
      replay = .draining ∨ replay = .sentinel ∨ replay = .ended := by
  cases stage with
  | serving phase => exact .inl phase
  | closing phase => exact .inr phase

theorem zipIdx_prefix_append (batches : List (List Event)) (batch : List Event) :
    batches.zipIdx <+: (batches ++ [batch]).zipIdx := by
  rw [List.zipIdx_append]
  exact List.prefix_append _ _

/-- A batch that is lost cancels the subscription, or finds it closed. -/
theorem Stage.lose {log : BatchLog} {replay : Replay} {queue : List (List Event)}
    {canceled : Bool} (stage : Stage log replay queue canceled) (batch : List Event) :
    Stage (log.lose batch) replay queue true := by
  have longer := zipIdx_prefix_append log.dispatched batch
  cases stage with
  | serving phase notEnded batches lengths inOrder complete =>
      exact .serving phase notEnded batches lengths (inOrder.trans longer) (by simp)
  | closing phase inOrder drained => exact .closing phase (inOrder.trans longer) drained

theorem Stage.send {log : BatchLog} {replay : Replay} {queue : List (List Event)}
    (stage : Stage log replay queue false) {batch : List Event} (nonempty : batch ≠ []) :
    Stage (log.send batch) replay (queue ++ [batch]) false := by
  cases stage with
  | serving phase notEnded batches lengths inOrder complete =>
      have all : (log.send batch).kept (queue ++ [batch]) =
          (log.send batch).dispatched.zipIdx := by
        have before := complete rfl
        simp only [BatchLog.kept] at before
        simp only [BatchLog.kept, BatchLog.send, List.zip_append lengths, List.zipIdx_append,
          ← List.append_assoc, before]
        simp
      refine .serving phase notEnded ?_ (by simp [BatchLog.send, lengths])
        (all ▸ List.prefix_rfl) fun _ => all
      exact List.forall_mem_append.mpr ⟨batches, List.forall_mem_singleton.mpr nonempty⟩

/-- Until it is closed the consumer takes the first batch that was kept; after
the drain there is nothing in the channel but the sentinel. -/
theorem Stage.receive {log : BatchLog} {replay : Replay} {batch : List Event}
    {rest : List (List Event)} {canceled : Bool} (undrained : replay ≠ .draining)
    (stage : Stage log replay (batch :: rest) canceled) :
    Stage (log.receive batch) replay rest canceled := by
  cases stage with
  | serving phase notEnded batches lengths inOrder complete =>
      obtain ⟨nonempty, restBatches⟩ := List.forall_mem_cons.mp batches
      cases numbered : log.numbers with
      | nil => simp [numbered] at lengths
      | cons number others =>
          have taken : log.receive batch =
              { log with numbers := others, received := log.received ++ [(batch, number)] } := by
            simp [BatchLog.receive, numbered, notEnded, nonempty]
          have sameKept : (log.receive batch).kept rest = log.kept (batch :: rest) := by
            simp [BatchLog.kept, taken, numbered]
          have sameLog : (log.receive batch).dispatched = log.dispatched := by rw [taken]
          refine .serving phase (by rw [taken]; exact notEnded) restBatches ?_ ?_ ?_
          · simpa [taken, numbered] using lengths
          · rwa [sameKept, sameLog]
          · rwa [sameKept, sameLog]
  | closing phase inOrder drained =>
      have sentinel : batch = [] := drained undrained batch List.mem_cons_self
      have kept : (log.receive batch).received = log.received ∧
          (log.receive batch).dispatched = log.dispatched := by
        unfold BatchLog.receive
        split <;> simp [sentinel]
      refine .closing phase (by rwa [kept.1, kept.2]) fun undrained other membership => ?_
      exact drained undrained other (List.mem_cons_of_mem batch membership)

/-- The goroutine moves on between the phases before the close. -/
theorem Stage.move {log : BatchLog} {replay next : Replay} {queue : List (List Event)}
    {canceled : Bool} (stage : Stage log replay queue canceled)
    (before : replay = .starting ∨ replay = .live)
    (after : next = .live ∨ next = .returning) : Stage log next queue canceled := by
  cases stage with
  | serving phase notEnded batches lengths inOrder complete =>
      exact .serving (.inr after) notEnded batches lengths inOrder complete
  | closing phase inOrder drained => rcases before with rfl | rfl <;> simp at phase

theorem Stage.cancel {log : BatchLog} {replay : Replay} {queue : List (List Event)}
    {canceled : Bool} (stage : Stage log replay queue canceled) :
    Stage log replay queue true := by
  cases stage with
  | serving phase notEnded batches lengths inOrder complete =>
      exact .serving phase notEnded batches lengths inOrder (by simp)
  | closing phase inOrder drained => exact .closing phase inOrder drained

/-- The drain empties the channel batch by batch. -/
theorem Stage.discard {log : BatchLog} {batch : List Event} {rest : List (List Event)}
    {canceled : Bool} (stage : Stage log .draining (batch :: rest) canceled) :
    Stage log.discard .draining rest canceled := by
  cases stage with
  | serving phase => simp at phase
  | closing phase inOrder drained => exact .closing (.inl rfl) inOrder fun other => absurd rfl other

theorem Stage.drained {log : BatchLog} {canceled : Bool} (stage : Stage log .draining [] canceled) :
    Stage log.discard .sentinel [] canceled := by
  cases stage with
  | serving phase => simp at phase
  | closing phase inOrder drained => exact .closing (.inr (.inl rfl)) inOrder (by simp)

theorem Stage.ended {log : BatchLog} {queue : List (List Event)} {canceled : Bool}
    (stage : Stage log .sentinel queue canceled) : Stage log .ended queue canceled := by
  cases stage with
  | serving phase => simp at phase
  | closing phase inOrder drained =>
      exact .closing (.inr (.inr rfl)) inOrder fun _ => drained (by simp)

theorem Stage.sentinel {log : BatchLog} {queue : List (List Event)} {canceled : Bool}
    (stage : Stage log .ended queue canceled) :
    Stage log.sentinel .ended (queue ++ [[]]) canceled := by
  cases stage with
  | serving phase => simp at phase
  | closing phase inOrder drained =>
      refine .closing phase inOrder fun undrained => ?_
      exact List.forall_mem_append.mpr ⟨drained undrained, List.forall_mem_singleton.mpr rfl⟩

/-! ## What every step keeps -/

theorem CutOff.subscribe_inv (world : World) (pollRev : Int) (poll : AfterCall) :
    (CutOff.subscribe world pollRev poll).Inv where
  closed := by simp [CutOff.subscribe, SubscribeSystem.subscribe]
  flights := by simp [CutOff.subscribe, SubscribeSystem.subscribe]
  stage :=
    .serving (.inl rfl) rfl
      (by simp [CutOff.subscribe, SubscribeSystem.subscribe, Channel.empty])
      rfl List.prefix_rfl fun _ => rfl

namespace CutOff.Inv

variable {cut : CutOff} (inv : cut.Inv)

include inv

theorem dispatch (sub : Subscription) (producer : Producer) (events : List Event) :
    CutOff.Inv ⟨cut.system.dispatchEvents sub producer events, cut.log⟩ := by
  unfold SubscribeSystem.dispatchEvents
  dsimp only
  split
  · exact inv
  next nonempty =>
    refine ⟨inv.closed, ?_, inv.stage⟩
    refine List.forall_mem_append.mpr ⟨inv.flights, List.forall_mem_singleton.mpr ?_⟩
    simpa using nonempty

theorem land (producer : Producer) :
    ∀ flight ∈ (cut.system.land producer).inFlight, flight.matching ≠ [] :=
  fun flight membership => inv.flights flight (List.mem_of_mem_filter membership)

/-- A live subscription replays nothing. -/
theorem notReplaying {replayRev : Int} :
    (∀ call, cut.system.replay ≠ .paging replayRev call) ∧
      ∀ events, cut.system.replay ≠ .sending replayRev events := by
  have phase := inv.stage.phase
  constructor
  · intro call paging
    simp [paging] at phase
  · intro events sending
    simp [sending] at phase

/-- The goroutine moves on before the close. -/
theorem move {next : Replay}
    (before : cut.system.replay = .starting ∨ cut.system.replay = .live)
    (after : next = .live ∨ next = .returning) :
    CutOff.Inv ⟨{ cut.system with replay := next }, cut.log⟩ :=
  ⟨inv.closed, inv.flights, inv.stage.move before after⟩

theorem drained (draining : cut.system.replay = .draining)
    (empty : cut.system.channel.discard = none) :
    CutOff.Inv ⟨{ cut.system with replay := .sentinel }, cut.log.discard⟩ := by
  have stage := inv.stage
  have nothing := Channel.discard_none empty
  rw [draining, nothing] at stage
  refine ⟨inv.closed, inv.flights, ?_⟩
  simp only [nothing]
  exact stage.drained

theorem discard {channel : Channel Event} (draining : cut.system.replay = .draining)
    (discarded : cut.system.channel.discard = some channel) :
    CutOff.Inv ⟨{ cut.system with channel := channel }, cut.log.discard⟩ := by
  obtain ⟨batch, queued⟩ := Channel.discard_queue discarded
  have stage := inv.stage
  rw [draining, queued] at stage
  refine ⟨inv.closed, inv.flights, ?_⟩
  simp only [draining]
  exact stage.discard

/-- A batch for a closed subscription is lost. -/
theorem skip (producer : Producer) (batch : List Event) (closed : cut.system.closed = true) :
    CutOff.Inv ⟨cut.system.land producer, cut.log.lose batch⟩ := by
  refine ⟨inv.closed, inv.land producer, ?_⟩
  have lost := inv.stage.lose batch
  rwa [← inv.closed closed] at lost

theorem check {producer : Producer} {flight : Flight}
    (found : cut.system.flight producer = some flight) :
    CutOff.Inv ⟨{ cut.system.land producer with
      inFlight := (cut.system.land producer).inFlight ++ [{ flight with cleared := true }] },
      cut.log⟩ := by
  refine ⟨inv.closed, List.forall_mem_append.mpr ⟨inv.land producer, ?_⟩, inv.stage⟩
  exact List.forall_mem_singleton.mpr (inv.flights flight (SubscribeSystem.flight_mem found))

theorem offer {producer : Producer} {flight : Flight} (notCanceled : cut.system.canceled = false)
    (found : cut.system.flight producer = some flight) :
    CutOff.Inv ⟨{ cut.system.land producer with
      channel := cut.system.channel.send flight.matching }, cut.log.send flight.matching⟩ := by
  have nonempty := inv.flights flight (SubscribeSystem.flight_mem found)
  have stage := inv.stage
  rw [notCanceled] at stage
  refine ⟨inv.closed, inv.land producer, ?_⟩
  have sent := stage.send nonempty
  rwa [← notCanceled] at sent

theorem receive {channel : Channel Event} {batch : List Event}
    (undrained : cut.system.replay ≠ .draining)
    (queued : cut.system.channel.queue = batch :: channel.queue) :
    CutOff.Inv ⟨{ cut.system with channel := channel }, cut.log.receive batch⟩ := by
  have stage := inv.stage
  rw [queued] at stage
  exact ⟨inv.closed, inv.flights, stage.receive undrained⟩

end CutOff.Inv

theorem CutOff.Inv.step {runtime : Runtime} {sub : Subscription} (live : sub.afterRev = 0)
    {cut next : CutOff} {action : SubscribeAction} (clean : CutsCleanly cut action)
    (stepped : cut.step runtime sub action = some next) (inv : cut.Inv) : next.Inv := by
  obtain ⟨system, moved, rfl⟩ := Option.map_eq_some_iff.mp stepped
  cases SubscribeSystem.step_move moved with
  | other | pollFail | pollRead => exact { inv with }
  | startLive starting => exact inv.move (.inl starting) (.inl rfl)
  | startRefused starting past => exact absurd live past
  | startPaging starting past => exact absurd live past
  | replayRead paging => exact absurd paging (inv.notReplaying.1 _)
  | replayQuery paging => exact absurd paging (inv.notReplaying.1 _)
  | replaySend sending => exact absurd sending (inv.notReplaying.2 _)
  | replayFail failing =>
      obtain starting | ⟨replayRev, call, paging⟩ := failing
      · exact inv.move (.inl starting) (.inr rfl)
      · exact absurd paging (inv.notReplaying.1 call)
  | replayDone canceled serving =>
      obtain ⟨replayRev, events, sending⟩ | isLive := serving
      · exact absurd sending (inv.notReplaying.2 events)
      · exact inv.move (.inr isLive) (.inr rfl)
  | cancel => exact ⟨fun _ => rfl, inv.flights, inv.stage.cancel⟩
  | close returning =>
      exact ⟨fun _ => rfl, inv.flights,
        .closing (.inl rfl) inv.stage.received fun other => absurd rfl other⟩
  | discard draining discarded => exact inv.discard draining discarded
  | drained draining empty => exact inv.drained draining empty
  | sendSentinel drained room =>
      have stage := inv.stage
      rw [drained] at stage
      exact ⟨inv.closed, inv.flights, stage.ended.sentinel⟩
  | timeOut drained =>
      have stage := inv.stage
      rw [drained] at stage
      exact ⟨inv.closed, inv.flights, stage.ended⟩
  | pollQuery reading ordered =>
      have resting : ∀ pollRev, CutOff.Inv
          ⟨{ cut.system with poll := .idle, pollRev := pollRev }, cut.log⟩ :=
        fun _ => { inv with }
      exact (resting _).dispatch sub .pollLoop _
  | capture rows landed => exact inv.dispatch sub _ _
  | skip found unchecked closed =>
      simp only [CutOff.record, found, closed, if_true]
      exact inv.skip _ _ closed
  | check found unchecked serving =>
      simp only [CutOff.record, found, serving, Bool.false_eq_true, if_false]
      exact inv.check found
  | offer found cleared room =>
      simp only [CutOff.record, found, room, if_true]
      exact inv.offer (clean room) found
  | @drop producer flight found cleared full =>
      simp only [CutOff.record, found, full, if_false]
      exact ⟨fun _ => rfl, inv.land producer, inv.stage.lose flight.matching⟩
  | receive received =>
      obtain ⟨batch, queued⟩ := Channel.receive_queue received
      simp only [CutOff.record, queued]
      exact inv.receive clean queued

/-- In every run in which no batch finds room once the subscription is
cancelled, and nothing is received while the channel is drained, the batches
that a live subscription receives before the sentinel are the first ones that
were dispatched to it. -/
theorem received_batches_prefix {runtime : Runtime} {sub : Subscription}
    (live : sub.afterRev = 0) (world : World) (pollRev : Int) (poll : AfterCall)
    {actions : List SubscribeAction} {cut : CutOff}
    (guarded : Runs.Guarded (CutOff.step runtime sub) CutsCleanly
      (.subscribe world pollRev poll) actions)
    (ran : Runs.run (CutOff.step runtime sub) (.subscribe world pollRev poll) actions =
      some cut) :
    cut.log.received <+: cut.log.dispatched.zipIdx :=
  (Runs.run_invariant_of_guarded (fun _ _ _ => CutOff.Inv.step live) guarded ran
    (CutOff.subscribe_inv world pollRev poll)).stage.received

def liveToK : Subscription := { pre := ascii "k", afterRev := 0 }

/-- Two keys are written and polled; the consumer takes the first batch, and
the subscription is cancelled and torn down. -/
def cutOffRun : List SubscribeAction :=
  [.start, .other (.write (.create (ascii "k1") none 0) 5), .pollRead, .pollRead,
    .pollQuery [(createInsert (ascii "k1") none 0).toRow 0 5], .check .pollLoop, .offer .pollLoop,
    .other (.write (.create (ascii "k2") none 0) 6), .pollRead, .pollRead,
    .pollQuery [(createInsert (ascii "k2") none 0).toRow 1 6], .check .pollLoop, .offer .pollLoop,
    .receive, .cancel, .replayDone, .close, .drain, .drain, .sendSentinel true, .receive]

def cutOffEnd : CutOff :=
  (Runs.run (CutOff.step createdRuntime liveToK) (.subscribe .init 1 .idle) cutOffRun).getD
    (.subscribe .init 1 .idle)

theorem cutOffEnd_prefix :
    cutOffEnd.log.dispatched.length = 2 ∧ cutOffEnd.log.received.length = 1 ∧
    cutOffEnd.log.ended = true ∧
    cutOffEnd.log.received <+: cutOffEnd.log.dispatched.zipIdx := by
  have ran : Runs.run (CutOff.step createdRuntime liveToK) (.subscribe .init 1 .idle) cutOffRun =
      some cutOffEnd := rfl
  exact ⟨rfl, rfl, rfl, received_batches_prefix rfl .init 1 .idle (by decide) ran⟩

/-! ## An overflow -/

section Overflow

variable {runtime : Runtime} {sub : Subscription} {gcv : Value}

/-- The batch that a record of the change stream makes for a subscription. -/
def recordBatch (runtime : Runtime) (sub : Subscription) (gcv : Value) : List Event :=
  (decodeRecord runtime gcv).events.filter fun event => sub.accepts event.kv.key

def round (gcv : Value) : List SubscribeAction :=
  [.capture 0 [] gcv, .check (.partition 0), .offer (.partition 0)]

/-- A live subscription with nothing in flight. -/
def liveCut (channel : Channel Event) (canceled : Bool) (log : BatchLog) : CutOff :=
  { system := { SubscribeSystem.subscribe .init 1 .idle with
      replay := .live, channel := channel, canceled := canceled }
    log := log }

variable (nonempty : recordBatch runtime sub gcv ≠ [])

include nonempty

theorem round_sends (channel : Channel Event) (canceled : Bool) (log : BatchLog)
    (room : channel.queue.length < subChannelDepth) :
    Runs.run (CutOff.step runtime sub) (liveCut channel canceled log) (round gcv) =
      some (liveCut (channel.send (recordBatch runtime sub gcv)) canceled
        (log.send (recordBatch runtime sub gcv))) := by
  have matching : (decodeRecord runtime gcv).events.filter
      (fun event => sub.accepts event.kv.key) = recordBatch runtime sub gcv := rfl
  simp [round, Runs.run, CutOff.step, CutOff.record, SubscribeSystem.step, liveCut,
    SubscribeSystem.subscribe, SubscribeSystem.flight, SubscribeSystem.dispatchEvents,
    SubscribeSystem.land, matching, nonempty, room]

theorem round_drops (channel : Channel Event) (canceled : Bool) (log : BatchLog)
    (full : ¬channel.queue.length < subChannelDepth) :
    Runs.run (CutOff.step runtime sub) (liveCut channel canceled log) (round gcv) =
      some (liveCut channel true (log.lose (recordBatch runtime sub gcv))) := by
  have matching : (decodeRecord runtime gcv).events.filter
      (fun event => sub.accepts event.kv.key) = recordBatch runtime sub gcv := rfl
  simp [round, Runs.run, CutOff.step, CutOff.record, SubscribeSystem.step, liveCut,
    SubscribeSystem.subscribe, SubscribeSystem.flight, SubscribeSystem.dispatchEvents,
    SubscribeSystem.land, matching, nonempty, full]

/-- Rounds fill the channel. -/
theorem rounds_fill (count : Nat) (channel : Channel Event) (log : BatchLog)
    (room : channel.queue.length + count ≤ subChannelDepth) :
    ∃ filled : Channel Event,
      filled.queue = channel.queue ++ List.replicate count (recordBatch runtime sub gcv) ∧
      Runs.run (CutOff.step runtime sub) (liveCut channel false log)
          (List.replicate count (round gcv)).flatten =
        some (liveCut filled false { log with
          dispatched := log.dispatched ++ List.replicate count (recordBatch runtime sub gcv)
          numbers := log.numbers ++ List.range' log.dispatched.length count }) := by
  induction count generalizing channel log with
  | zero => exact ⟨channel, by simp, by simp⟩
  | succ count inductionHypothesis =>
      have sent := round_sends nonempty channel false log (by omega)
      have stillRoom : (channel.send (recordBatch runtime sub gcv)).queue.length + count ≤
          subChannelDepth := by
        simp only [Channel.send_queue, List.length_append, List.length_singleton]
        omega
      obtain ⟨filled, queued, ran⟩ := inductionHypothesis _ (log.send _) stillRoom
      refine ⟨filled, by simpa [List.replicate_succ] using queued, ?_⟩
      rw [List.replicate_succ, List.flatten_cons, Runs.run_append_eq_some]
      refine ⟨_, sent, ran.trans ?_⟩
      simp [BatchLog.send, List.replicate_succ, List.range'_succ]

omit nonempty

/-- The consumer takes a number of batches one after the other. -/
theorem receives_take (batches rest : List (List Event)) (numbers others : List Nat)
    {channel : Channel Event} (queued : channel.queue = batches ++ rest)
    (full : ∀ batch ∈ batches, batch ≠ []) (canceled : Bool) {log : BatchLog}
    (notEnded : log.ended = false)
    (numbered : log.numbers = numbers ++ others) (lengths : batches.length = numbers.length) :
    ∃ left : Channel Event, left.queue = rest ∧
      Runs.run (CutOff.step runtime sub) (liveCut channel canceled log)
          (List.replicate batches.length .receive) =
        some (liveCut left canceled { log with
          numbers := others
          received := log.received ++ batches.zip numbers }) := by
  induction batches generalizing channel log numbers with
  | nil =>
      have noNumbers : numbers = [] := List.eq_nil_of_length_eq_zero lengths.symm
      subst noNumbers
      obtain rfl : log.numbers = others := numbered
      exact ⟨channel, queued, by simp⟩
  | cons batch batches inductionHypothesis =>
      obtain ⟨number, numbers, rfl⟩ := List.exists_cons_of_length_eq_add_one lengths.symm
      obtain ⟨nonempty, restFull⟩ := List.forall_mem_cons.mp full
      obtain ⟨next, received, nextQueue⟩ := Channel.exists_receive queued
      have taken : log.receive batch = { log with
          numbers := numbers ++ others, received := log.received ++ [(batch, number)] } := by
        simp [BatchLog.receive, numbered, notEnded, nonempty]
      have stillOpen : (log.receive batch).ended = false := by
        rw [taken]
        exact notEnded
      obtain ⟨left, leftQueue, ran⟩ := inductionHypothesis numbers nextQueue restFull stillOpen
        (by rw [taken]) (Nat.succ.inj lengths)
      refine ⟨left, leftQueue, ?_⟩
      rw [List.length_cons, List.replicate_succ, Runs.run_cons_eq_some]
      refine ⟨liveCut next canceled (log.receive batch), ?_, ran.trans ?_⟩
      · simp [CutOff.step, CutOff.record, SubscribeSystem.step, liveCut, received, queued]
      · simp [taken]

variable (gcv) in
/-- The channel is filled and one batch more is dropped; the consumer takes a
batch, the next one finds room, and the consumer goes on. -/
def overflowRun : List SubscribeAction :=
  .start :: ((List.replicate 100 (round gcv)).flatten ++ (round gcv ++ ([.receive] ++
    (round gcv ++ List.replicate 100 .receive))))

/-- The consumer receives 101 batches; the last of them has number 101, for
number 100 was dropped. -/
theorem overflow_skips (nonempty : recordBatch runtime sub gcv ≠ []) (live : sub.afterRev = 0) :
    ∃ cut, Runs.run (CutOff.step runtime sub) (.subscribe .init 1 .idle) (overflowRun gcv) =
        some cut ∧
      cut.log.received.map Prod.snd = List.range 100 ++ [101] := by
  let batch := recordBatch runtime sub gcv
  let dropped : BatchLog :=
    BatchLog.lose ⟨List.replicate 100 batch, List.range' 0 100, [], false⟩ batch
  let resumed : BatchLog := BatchLog.send
    { dropped with numbers := List.range' 1 99, received := [(batch, 0)] } batch
  have started : (CutOff.subscribe .init 1 .idle).step runtime sub .start =
      some (liveCut .empty false .empty) := by
    simp [CutOff.step, SubscribeSystem.step, CutOff.subscribe, SubscribeSystem.subscribe, live,
      liveCut, CutOff.record]
  obtain ⟨filled, queue, fills⟩ := rounds_fill nonempty 100 .empty .empty (by decide)
  have drops : Runs.run (CutOff.step runtime sub) (liveCut filled false
      ⟨List.replicate 100 batch, List.range' 0 100, [], false⟩) (round gcv) =
        some (liveCut filled true dropped) :=
    round_drops nonempty filled false _ (by simp [queue, Channel.empty, subChannelDepth])
  obtain ⟨left, leftQueue, takes⟩ : ∃ left : Channel Event, left.queue = List.replicate 99 batch ∧
      Runs.run (CutOff.step runtime sub) (liveCut filled true dropped) [.receive] =
        some (liveCut left true
          { dropped with numbers := List.range' 1 99, received := [(batch, 0)] }) :=
    receives_take [batch] (List.replicate 99 batch) [0] (List.range' 1 99) queue
      (by simpa using nonempty) true rfl rfl rfl
  have sends : Runs.run (CutOff.step runtime sub) (liveCut left true
      { dropped with numbers := List.range' 1 99, received := [(batch, 0)] }) (round gcv) =
        some (liveCut (left.send batch) true resumed) :=
    round_sends nonempty left true _ (by simp [leftQueue, subChannelDepth])
  obtain ⟨rest, _, finishes⟩ : ∃ rest : Channel Event, rest.queue = [] ∧
      Runs.run (CutOff.step runtime sub) (liveCut (left.send batch) true resumed)
          (List.replicate (List.replicate 100 batch).length .receive) =
        some (liveCut rest true { resumed with
          numbers := []
          received := [(batch, 0)] ++
            (List.replicate 100 batch).zip (List.range' 1 99 ++ [101]) }) := by
    refine receives_take (List.replicate 100 batch) [] (List.range' 1 99 ++ [101]) [] ?_ ?_ true rfl
      rfl rfl
    · rw [Channel.send_queue, leftQueue, List.append_nil]
      rfl
    · intro other membership
      rw [List.eq_of_mem_replicate membership]
      exact nonempty
  refine ⟨_, Runs.run_cons_eq_some.mpr ⟨_, started, Runs.run_append_eq_some.mpr ⟨_, fills,
    Runs.run_append_eq_some.mpr ⟨_, drops, Runs.run_append_eq_some.mpr ⟨_, takes,
    Runs.run_append_eq_some.mpr ⟨_, sends, finishes⟩⟩⟩⟩⟩, ?_⟩
  rfl

end Overflow

theorem createdRecord_emitted :
    ChangeRecord createdRuntime [createdRow] (insertRecord (nanoText 5) createdJSON) := by
  have captured : NewRow createdRow (rowObject nanoText (ascii "7") createdRow) :=
    rowObject_newRow (nanoText_denotes 5) (by rintro _ ⟨⟩; exact nanoText_denotes 5)
      (by rintro _ ⟨⟩) (by decide) (Decimal.numeral_digit 7)
  exact insertRecord_changeRecord (nanoText_denotes 5) rfl captured

theorem createdRecord_batch :
    recordBatch createdRuntime liveToK (insertRecord (nanoText 5) createdJSON) ≠ [] := by
  have captured : (capturedEvent createdRow).normalize ∈ capturedEvents [createdRow] := by decide
  rw [← decodeRecord_captured createdRecord_emitted] at captured
  obtain ⟨event, membership, same⟩ := List.mem_map.mp captured
  have sameKey : event.kv.key = ascii "k" := congrArg (fun event => event.kv.key) same
  exact List.ne_nil_of_mem (List.mem_filter.mpr ⟨membership, by rw [sameKey]; decide⟩)

/-- A batch is dropped on a full channel, and a later one is received. -/
theorem overflow_leaves_gap :
    ∃ runtime sub actions cut, sub.afterRev = 0 ∧
      Runs.run (CutOff.step runtime sub) (.subscribe .init 1 .idle) actions = some cut ∧
      cut.log.received.map Prod.snd = List.range 100 ++ [101] ∧
      ¬cut.log.received <+: cut.log.dispatched.zipIdx := by
  obtain ⟨cut, ran, numbers⟩ := overflow_skips createdRecord_batch rfl
  refine ⟨createdRuntime, liveToK, _, cut, rfl, ran, numbers, ?_⟩
  intro begins
  have consecutive := begins.map Prod.snd
  rw [numbers, List.zipIdx_map_snd] at consecutive
  have wrong := consecutive.getElem (i := 100) (by simp)
  simp at wrong

end SpannerEtcd
