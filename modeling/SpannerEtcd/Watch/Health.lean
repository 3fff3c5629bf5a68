import SpannerEtcd.Lib.Runs

/-!
# The health of the change stream

Three goroutines share the flag `csHealthy`.  The one that runs the reader
clears it after the reader has failed, a monitor sets it once a timer has
fired, and the poll loop takes its interval from it at every tick.  The
monitor does not ask how the reader is doing.
-/

namespace SpannerEtcd

open Runs

def pollInterval : Int := 1000000000

def pollSlowInterval : Int := 30 * 1000000000

/-- Where `startChangeStream` is. -/
inductive StreamPhase where
  /-- `Start` loads the cursors and asks for the initial partitions. -/
  | querying
  /-- `Start` reads the partitions. -/
  | serving
  /-- `Start` has returned an error that has not been acted on. -/
  | failing
  /-- The flag has been cleared. -/
  | failed
  /-- `Start` has returned without an error. -/
  | ended
  deriving DecidableEq

/-- `Start` has not returned. -/
def StreamPhase.Running (phase : StreamPhase) : Prop :=
  phase = .querying ∨ phase = .serving

def StreamPhase.Serving (phase : StreamPhase) : Prop :=
  phase = .serving

inductive MonitorPhase where
  | waiting
  /-- The timer has fired, and the flag is not yet set. -/
  | fired
  | done
  deriving DecidableEq

inductive PollLoopPhase where
  | waiting
  /-- A tick has loaded the flag. -/
  | loaded (csHealthy : Int)
  | returned
  deriving DecidableEq

structure HealthSystem where
  csHealthy : Int
  stream : StreamPhase
  monitor : MonitorPhase
  pollLoop : PollLoopPhase
  /-- What the ticker of the poll loop was last set to. -/
  interval : Int
  ctxDone : Bool
  stopped : Bool
  deriving DecidableEq

def HealthSystem.init : HealthSystem :=
  { csHealthy := 0, stream := .querying, monitor := .waiting, pollLoop := .waiting
    interval := pollInterval, ctxDone := false, stopped := false }

inductive HealthAction where
  | partitionsFound
  | startFails
  | storeUnhealthy
  | startEnds
  | timerFires
  | storeHealthy
  | monitorQuits
  | tick
  | reset
  /-- A round that a local write has asked for. -/
  | hint
  | pollReturns
  | cancelCtx
  | close

/-- `Start` fails only if the partitions cannot be read, and returns otherwise
only once its context is done: nothing calls the reader's `Stop`. -/
def HealthSystem.step (system : HealthSystem) : HealthAction → Option HealthSystem
  | .partitionsFound =>
      if system.stream = .querying then some { system with stream := .serving } else none
  | .startFails =>
      if system.stream = .querying then some { system with stream := .failing } else none
  | .storeUnhealthy =>
      if system.stream = .failing then some { system with stream := .failed, csHealthy := 0 }
      else none
  | .startEnds =>
      if system.stream = .serving ∧ system.ctxDone = true then
        some { system with stream := .ended }
      else none
  | .timerFires =>
      if system.monitor = .waiting then some { system with monitor := .fired } else none
  | .storeHealthy =>
      if system.monitor = .fired then some { system with monitor := .done, csHealthy := 1 }
      else none
  | .monitorQuits =>
      if system.monitor = .waiting ∧ (system.ctxDone || system.stopped) = true then
        some { system with monitor := .done }
      else none
  | .tick =>
      if system.pollLoop = .waiting then
        some { system with pollLoop := .loaded system.csHealthy }
      else none
  | .reset =>
      match system.pollLoop with
      | .loaded csHealthy =>
          some { system with
            pollLoop := .waiting
            interval := if csHealthy = 1 then pollSlowInterval else pollInterval }
      | _ => none
  | .hint => if system.pollLoop = .waiting then some system else none
  | .pollReturns =>
      if system.pollLoop = .waiting ∧ (system.ctxDone || system.stopped) = true then
        some { system with pollLoop := .returned }
      else none
  | .cancelCtx => some { system with ctxDone := true }
  | .close => if system.stopped = false then some { system with stopped := true } else none

/-- What a step does to the flag, the reader and the poll loop. -/
inductive HealthMove (system : HealthSystem) : HealthAction → HealthSystem → Prop where
  | partitionsFound (querying : system.stream = .querying) :
      HealthMove system .partitionsFound { system with stream := .serving }
  | startFails (querying : system.stream = .querying) :
      HealthMove system .startFails { system with stream := .failing }
  | storeUnhealthy (failing : system.stream = .failing) :
      HealthMove system .storeUnhealthy { system with stream := .failed, csHealthy := 0 }
  | startEnds (serving : system.stream = .serving) :
      HealthMove system .startEnds { system with stream := .ended }
  | storeHealthy (fired : system.monitor = .fired) :
      HealthMove system .storeHealthy { system with monitor := .done, csHealthy := 1 }
  | tick : HealthMove system .tick { system with pollLoop := .loaded system.csHealthy }
  | reset {csHealthy : Int} (loaded : system.pollLoop = .loaded csHealthy) :
      HealthMove system .reset
        { system with
          pollLoop := .waiting
          interval := if csHealthy = 1 then pollSlowInterval else pollInterval }
  | timerFires (waiting : system.monitor = .waiting) :
      HealthMove system .timerFires { system with monitor := .fired }
  | monitorQuits : HealthMove system .monitorQuits { system with monitor := .done }
  | hint : HealthMove system .hint system
  | pollReturns : HealthMove system .pollReturns { system with pollLoop := .returned }
  | cancelCtx : HealthMove system .cancelCtx { system with ctxDone := true }
  | close : HealthMove system .close { system with stopped := true }

theorem HealthSystem.step_move {system next : HealthSystem} {action : HealthAction}
    (stepped : system.step action = some next) : HealthMove system action next := by
  cases action with
  | reset =>
      simp only [HealthSystem.step] at stepped
      split at stepped
      next csHealthy loaded =>
        obtain rfl := Option.some.inj stepped
        exact .reset loaded
      next => cases stepped
  | cancelCtx =>
      obtain rfl := Option.some.inj stepped
      exact .cancelCtx
  | startEnds =>
      obtain ⟨⟨serving, _⟩, same⟩ := Option.ite_none_right_eq_some.mp stepped
      obtain rfl := Option.some.inj same
      exact .startEnds serving
  | _ =>
      obtain ⟨enabled, same⟩ := Option.ite_none_right_eq_some.mp stepped
      obtain rfl := Option.some.inj same
      constructor
      try exact enabled

/-! ## The flag follows the reader -/

/-- The flag is set, and the ticker slow, only while `Start` has not returned. -/
structure HealthSystem.FollowsReader (system : HealthSystem) : Prop where
  flag : system.csHealthy = 1 → system.stream.Running
  ticker : system.interval = pollSlowInterval → system.stream.Running

/-- The flag is set only in one of the phases, and the reader returns only
while the flag is clear. -/
def HealthAction.InTime (phases : StreamPhase → Prop) (system : HealthSystem) : HealthAction → Prop
  | .storeHealthy => phases system.stream
  | .startFails | .startEnds => system.csHealthy ≠ 1
  | _ => True

/-- The poll loop is slow only because of a flag that is still set. -/
structure HealthSystem.Tracked (phases : StreamPhase → Prop) (system : HealthSystem) : Prop where
  flag : system.csHealthy = 1 → phases system.stream
  loaded : system.pollLoop = .loaded 1 → system.csHealthy = 1
  ticker : system.interval = pollSlowInterval → system.csHealthy = 1

theorem HealthSystem.Tracked.init (phases : StreamPhase → Prop) :
    HealthSystem.init.Tracked phases where
  flag healthy := absurd healthy (by decide)
  loaded := by decide
  ticker := by decide

theorem HealthSystem.Tracked.followsReader {system : HealthSystem}
    (tracked : system.Tracked StreamPhase.Running) : system.FollowsReader where
  flag := tracked.flag
  ticker slow := tracked.flag (tracked.ticker slow)

-- Once the flag is set the reader cannot return, so nothing clears it again.
theorem HealthSystem.Tracked.step {phases : StreamPhase → Prop} (serving : phases .serving)
    (failing : ¬phases .failing) (system : HealthSystem) (action : HealthAction)
    (next : HealthSystem) (inTime : action.InTime phases system)
    (stepped : system.step action = some next) (tracked : system.Tracked phases) :
    next.Tracked phases := by
  cases HealthSystem.step_move stepped with
  | partitionsFound => exact { tracked with flag := fun _ => serving }
  | startFails | startEnds => exact { tracked with flag := fun healthy => absurd healthy inTime }
  | storeUnhealthy returned =>
      have clear : system.csHealthy ≠ 1 := by
        intro healthy
        apply failing
        rw [← returned]
        exact tracked.flag healthy
      have zero : ¬(0 : Int) = 1 := by decide
      exact ⟨fun healthy => absurd healthy zero,
        fun loaded => absurd (tracked.loaded loaded) clear,
        fun slow => absurd (tracked.ticker slow) clear⟩
  | storeHealthy => exact ⟨fun _ => inTime, fun _ => rfl, fun _ => rfl⟩
  | tick => exact { tracked with loaded := fun loaded => PollLoopPhase.loaded.inj loaded }
  | @reset csHealthy loaded =>
      refine ⟨tracked.flag, fun waiting => PollLoopPhase.noConfusion waiting, ?_⟩
      intro slow
      apply tracked.loaded
      by_cases healthy : csHealthy = 1
      · rw [loaded, healthy]
      · simp only [healthy, if_false] at slow
        exact absurd slow (by decide)
  | pollReturns =>
      exact { tracked with loaded := fun returned => PollLoopPhase.noConfusion returned }
  | timerFires | monitorQuits | hint | cancelCtx | close => exact { tracked with }

theorem running_of_step_followsReader {system next : HealthSystem} {action : HealthAction}
    (stepped : system.step action = some next) (follows : next.FollowsReader) :
    action.InTime StreamPhase.Running system := by
  cases HealthSystem.step_move stepped with
  | startFails | startEnds =>
      intro healthy
      rcases follows.flag healthy with running | running <;> cases running
  | storeHealthy => exact follows.flag rfl
  | partitionsFound | storeUnhealthy | tick | reset | timerFires | monitorQuits | hint
  | pollReturns | cancelCtx | close => trivial

/-- A run keeps the flag and the ticker in step with the reader exactly if each
of its steps does so in time.  If the flag is moreover set only after the
partitions are known, the poll loop is slow only while they are read. -/
theorem csHealthy_follows_reader_iff {actions : List HealthAction} {finish : HealthSystem}
    (ran : run HealthSystem.step .init actions = some finish) :
    (Guarded HealthSystem.step (HealthAction.InTime StreamPhase.Running) .init actions ↔
      ∀ system ∈ visited HealthSystem.step .init actions, system.FollowsReader) ∧
    (Guarded HealthSystem.step (HealthAction.InTime StreamPhase.Serving) .init actions →
      finish.interval = pollSlowInterval → finish.stream.Serving) := by
  constructor
  · have failingStops : ¬StreamPhase.failing.Running := by
      intro running
      rcases running with running | running <;> cases running
    apply guarded_iff_visited (HealthSystem.Tracked.step (.inr rfl) failingStops)
    · intro system tracked
      exact tracked.followsReader
    · intro system action next _ stepped follows
      exact running_of_step_followsReader stepped follows
    · exact ran
    · exact HealthSystem.Tracked.init _
  · intro guarded slow
    have serving : StreamPhase.serving.Serving := rfl
    have tracked := run_invariant_of_guarded
      (HealthSystem.Tracked.step serving StreamPhase.noConfusion) guarded ran
      (HealthSystem.Tracked.init _)
    exact tracked.flag (tracked.ticker slow)

def healthyRun : List HealthAction :=
  [.partitionsFound, .timerFires, .storeHealthy, .tick, .reset]

theorem healthyRun_follows_reader :
    ∃ finish, run HealthSystem.step .init healthyRun = some finish ∧
      finish.interval = pollSlowInterval ∧
      ∀ system ∈ visited HealthSystem.step .init healthyRun, system.FollowsReader := by
  have ran : ∃ finish, run HealthSystem.step .init healthyRun = some finish ∧
      finish.interval = pollSlowInterval := ⟨_, rfl, rfl⟩
  obtain ⟨finish, ran, slow⟩ := ran
  refine ⟨finish, ran, slow, (csHealthy_follows_reader_iff ran).1.mp ?_⟩
  exact ⟨trivial, trivial, .inr rfl, trivial, trivial, trivial⟩

/-- The reader fails at once, and the timer fires ten seconds later. -/
def lateTimer : List HealthAction :=
  [.startFails, .storeUnhealthy, .timerFires, .storeHealthy, .tick, .reset]

theorem late_timer_slows_polling :
    ∃ finish, run HealthSystem.step .init lateTimer = some finish ∧
      finish.stream = .failed ∧ finish.csHealthy = 1 ∧ finish.interval = pollSlowInterval :=
  ⟨_, rfl, rfl, rfl, rfl⟩

/-! ## A wrong flag stays -/

def HealthSystem.WronglyHealthy (system : HealthSystem) : Prop :=
  system.stream = .failed ∧ system.csHealthy = 1

/-- After a failed reader has been reported healthy, nothing clears the flag. -/
theorem HealthSystem.WronglyHealthy.stays {system finish : HealthSystem}
    (wrong : system.WronglyHealthy) (reached : Reaches HealthSystem.step system finish) :
    finish.WronglyHealthy := by
  have kept : ∀ (system : HealthSystem) action next, system.step action = some next →
      system.WronglyHealthy → next.WronglyHealthy := by
    intro system action next stepped wrong
    obtain ⟨failed, healthy⟩ := wrong
    cases HealthSystem.step_move stepped with
    | partitionsFound phase | startFails phase | storeUnhealthy phase | startEnds phase =>
        rw [phase] at failed
        cases failed
    | storeHealthy => exact ⟨failed, rfl⟩
    | tick | reset | timerFires | monitorQuits | hint | pollReturns | cancelCtx | close =>
        exact ⟨failed, healthy⟩
  exact reached.invariant kept wrong

end SpannerEtcd
