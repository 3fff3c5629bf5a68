import SpannerEtcd.Lib.Simulation
import SpannerEtcd.Server.Coherence
import SpannerEtcd.Server.Put

/-!
# The phases of a put

Concurrent puts were modelled by the phases of a client; here each phase is
what is left of the program `put`.  Without storage errors, clients that run
through the phases are clients of the service that call `Put`.
-/

namespace SpannerEtcd

/-! ## The program, access by access -/

def putUpdate (request : PutRequest) (kv : Option KV) : Call (Except GrpcErr PutResponse) := do
  match ← Store.update request.key request.value (prevModRev kv) request.lease with
  | .error err => return .error (toGRPCErr err)
  | .ok result => return .ok (putResponse request result.rev result.prev)

def putGot (request : PutRequest) :
    Int × Except StoreErr (Option KV) → Call (Except GrpcErr PutResponse)
  | (_, .error err) => return .error (toGRPCErr err)
  | (_, .ok kv) => putUpdate request kv

def putCreated (request : PutRequest) : Except StoreErr Int → Call (Except GrpcErr PutResponse)
  | .ok rev => return .ok { header := header rev, prevKv := none }
  | .error .keyExists => do
      let got ← Store.get request.key 0
      putGot request got
  | .error err => return .error (toGRPCErr err)

theorem put_eq (request : PutRequest) :
    put request =
      .act (.create request.key request.value request.lease) (putCreated request) := rfl

/-- A put as the service runs it. -/
def servePut (program : Call (Except GrpcErr PutResponse)) : Call (Except GrpcErr Response) := do
  return (← program).map .put

/-! ## Phases and callers -/

/-- What is left of the program in a phase. -/
def PutPhase.Left (rest : Call (Except GrpcErr PutResponse)) : PutPhase → Prop
  | .idle => False
  | .existing request => rest = putCreated request (.error .keyExists)
  | .revisionRead request currentRev _ =>
      ∃ revDb, currentRev = currentRevision revDb ∧
        rest = .observe fun rowDb => putGot request (get revDb revDb rowDb request.key 0)
  | .rowRead request kv _ => rest = putUpdate request kv
  | .missed request prev _ _ =>
      rest = .observe fun later =>
        .ret (.ok (putResponse request (reportedRevision (some later)) prev))
  | .finished _ reply _ _ => rest = .ret reply

theorem afterCreate_left (request : PutRequest) (committed : List Row)
    (created : Except StoreErr Int) :
    (afterCreate request committed created).Left (putCreated request created) := by
  rcases created with err | rev
  · cases err <;> rfl
  · rfl

/-- The rest of the program after the transaction of `Update`. -/
theorem afterUpdate_left (request : PutRequest) (atRead atUpdate committed : List Row)
    (updated : Except StoreErr CasResult) :
    (afterUpdate request atRead atUpdate committed updated).Left (do
      match ← Store.reported updated with
      | .error err => return .error (toGRPCErr err)
      | .ok result => return .ok (putResponse request result.rev result.prev)) := by
  rcases updated with err | ⟨rev, prev, ok⟩
  · rfl
  · cases ok <;> rfl

def PutPhase.response? : PutPhase → Option PutResponse
  | .finished _ (.ok response) _ _ => some response
  | _ => none

/-- A client that waits for no reply is an idle caller, and its last response
has been returned; any other one runs the rest of the program. -/
def PutPhase.Stands (returned : List Served) (caller : Caller) (phase : PutPhase) : Prop :=
  if phase.ready then
    caller = .idle ∧ ∀ response, phase.response? = some response →
      ∃ served ∈ returned, served.response = .put response
  else ∃ before rest, caller = .running before (servePut rest) ∧ phase.Left rest

theorem PutPhase.Stands.mono {returned more : List Served} (grown : returned ⊆ more)
    {caller : Caller} {phase : PutPhase} (stands : phase.Stands returned caller) :
    phase.Stands more caller := by
  unfold PutPhase.Stands at stands ⊢
  split at stands
  case isTrue ready =>
    rw [if_pos ready]
    refine ⟨stands.1, fun response replied => ?_⟩
    obtain ⟨served, listed, same⟩ := stands.2 response replied
    exact ⟨served, grown listed, same⟩
  case isFalse busy =>
    rwa [if_neg busy]

theorem step_perform {calls : CallSystem} {client : Nat} {before : List Response} {op : WriteOp}
    {next : op.Answer → Call (Except GrpcErr PutResponse)}
    (running : calls.callers client = .running before (servePut (.act op next)))
    {ts : CommitTs} {world : World} (moved : calls.world.step (.write op ts) = some world) :
    calls.step (.perform client ts) =
      some ({ calls with world := world }.setCaller client
        (.running before (servePut (next (op.answer calls.world.db ts))))) := by
  rw [CallSystem.step, running]
  exact congrArg (Option.map _) moved

/-- A caller returns its reply. -/
theorem step_finish (calls : CallSystem) (client : Nat) (before : List Response)
    {request : PutRequest} (reply : Except GrpcErr PutResponse) {committed : List Row}
    {path : PutPath} :
    ∃ returned, calls.returned ⊆ returned ∧
      (∀ response, PutPhase.response? (.finished request reply committed path) = some response →
        ∃ served ∈ returned, served.response = .put response) ∧
      (calls.setCaller client (.running before (servePut (.ret reply)))).step (.finish client) =
        some ⟨calls.world, Function.update calls.callers client .idle, returned⟩ := by
  cases reply with
  | error err =>
      refine ⟨calls.returned, List.Subset.refl _, (fun _ replied => by cases replied), ?_⟩
      simp [CallSystem.step, CallSystem.setCaller, servePut, Except.map]
  | ok response =>
      refine ⟨calls.returned ++ [⟨.put response, before⟩], List.subset_append_left _ _, ?_, ?_⟩
      · rintro _ ⟨⟩
        exact ⟨_, List.mem_append_right _ (List.mem_singleton_self _), rfl⟩
      · simp [CallSystem.step, CallSystem.setCaller, servePut, Except.map]

structure Simulates (system : PutSystem) (calls : CallSystem) : Prop where
  world : calls.world = system.world
  clients : ∀ client, (system.clients client).Stands calls.returned (calls.callers client)

/-! ## Steps -/

/-- Any step but one with a storage error. -/
def PutAction.ErrorFree : PutAction → Prop
  | .fail _ _ => False
  | .readReported _ readOk => readOk = true
  | _ => True

section Steps

variable {system : PutSystem} {calls : CallSystem} (simulates : Simulates system calls)

include simulates

theorem Simulates.set {world : World} {client : Nat} {phase : PutPhase} {caller : Caller}
    {returned : List Served} (grown : calls.returned ⊆ returned)
    (stands : phase.Stands returned caller) :
    Simulates ({ system with world := world }.setClient client phase)
      ⟨world, Function.update calls.callers client caller, returned⟩ := by
  refine ⟨rfl, fun other => ?_⟩
  by_cases same : other = client
  · subst same
    simpa [PutSystem.setClient] using stands
  · simpa [PutSystem.setClient, Function.update_of_ne same] using
      (simulates.clients other).mono grown

/-- A caller that has its reply still has to return it. -/
theorem Simulates.settle (world : World) (client : Nat) (before : List Response)
    {phase : PutPhase} {rest : Call (Except GrpcErr PutResponse)} (left : phase.Left rest) :
    ∃ next, Runs.Reaches CallSystem.step
        ({ calls with world := world }.setCaller client (.running before (servePut rest))) next ∧
      Simulates ({ system with world := world }.setClient client phase) next := by
  cases ready : phase.ready with
  | false =>
      refine ⟨_, ⟨[], rfl⟩, simulates.set (List.Subset.refl _) ?_⟩
      rw [PutPhase.Stands, ready]
      exact ⟨before, rest, rfl, left⟩
  | true =>
      cases phase with
      | idle => cases left
      | finished request reply committed path =>
          obtain rfl : rest = .ret reply := left
          obtain ⟨returned, grown, replied, finished⟩ :=
            step_finish { calls with world := world } client before reply
          exact ⟨_, .single finished, simulates.set grown ⟨rfl, replied⟩⟩
      | _ => cases ready

theorem Simulates.observe {client : Nat} {before : List Response}
    {next : DB → Call (Except GrpcErr PutResponse)}
    (running : calls.callers client = .running before (servePut (.observe next)))
    {phase : PutPhase} (left : phase.Left (next system.world.db)) :
    ∃ callsNext, Runs.Reaches CallSystem.step calls callsNext ∧
      Simulates (system.setClient client phase) callsNext := by
  have stepped : calls.step (.observe client) =
      some ({ calls with world := system.world }.setCaller client
        (.running before (servePut (next system.world.db)))) := by
    simp only [CallSystem.step, running, ← simulates.world]
    rfl
  obtain ⟨callsNext, reached, kept⟩ := simulates.settle system.world client before left
  exact ⟨callsNext, (Runs.Reaches.single stepped).trans reached, kept⟩

theorem Simulates.perform {client : Nat} {before : List Response} {op : WriteOp}
    {next : op.Answer → Call (Except GrpcErr PutResponse)}
    (running : calls.callers client = .running before (servePut (.act op next)))
    {ts : CommitTs} {world : World} (moved : system.world.step (.write op ts) = some world)
    {phase : PutPhase} (left : phase.Left (next (op.answer system.world.db ts))) :
    ∃ callsNext, Runs.Reaches CallSystem.step calls callsNext ∧
      Simulates ({ system with world := world }.setClient client phase) callsNext := by
  have stepped := step_perform running (simulates.world ▸ moved)
  rw [simulates.world] at stepped
  obtain ⟨callsNext, reached, kept⟩ := simulates.settle world client before left
  exact ⟨callsNext, (Runs.Reaches.single stepped).trans reached, kept⟩

/-- The first access of a call follows its start. -/
theorem Simulates.begin {client : Nat} (idle : calls.callers client = .idle)
    {request : PutRequest} {ts : CommitTs} {world : World}
    (moved : system.world.step
      (.write (.create request.key request.value request.lease) ts) = some world)
    {phase : PutPhase}
    (left : phase.Left (putCreated request
      (create system.world.db ts request.key request.value request.lease).1)) :
    ∃ callsNext, Runs.Reaches CallSystem.step calls callsNext ∧
      Simulates ({ system with world := world }.setClient client phase) callsNext := by
  let before := calls.returned.map Served.response
  let op : WriteOp := .create request.key request.value request.lease
  have begun : calls.step (.begin client (.put request)) =
      some (calls.setCaller client
        (.running before (servePut (.act op (putCreated request))))) := by
    rw [CallSystem.step, idle, ← put_eq]
    rfl
  have performed : (calls.setCaller client
      (.running before (servePut (.act op (putCreated request))))).step (.perform client ts) =
        some ({ calls with world := world }.setCaller client
          (.running before (servePut (putCreated request (op.answer system.world.db ts))))) := by
    rw [step_perform (Function.update_self ..) (simulates.world ▸ moved)]
    simp only [CallSystem.setCaller, Function.update_idem, simulates.world]
  obtain ⟨callsNext, reached, kept⟩ := simulates.settle world client before left
  exact ⟨callsNext, ((Runs.Reaches.single begun).trans (.single performed)).trans reached, kept⟩

theorem Simulates.running {client : Nat} {phase : PutPhase}
    (standing : system.clients client = phase) (busy : phase.ready = false) :
    ∃ before rest, calls.callers client = .running before (servePut rest) ∧ phase.Left rest := by
  have stands := simulates.clients client
  rwa [standing, PutPhase.Stands, busy] at stands

/-- A step of a client is the steps of its caller. -/
theorem Simulates.step {next : PutSystem} {action : PutAction} (errorFree : action.ErrorFree)
    (stepped : system.step action = some next) :
    ∃ callsNext, Runs.Reaches CallSystem.step calls callsNext ∧ Simulates next callsNext := by
  cases PutSystem.step_move stepped with
  | @other action world moved =>
      have passed : calls.step (.other action) = some { calls with world := world } := by
        rw [CallSystem.step, simulates.world, moved]
        rfl
      exact ⟨_, .single passed, rfl, simulates.clients⟩
  | @create client request ts world ready moved =>
      have idle := simulates.clients client
      rw [PutPhase.Stands, if_pos ready] at idle
      exact simulates.begin idle.1 moved (afterCreate_left request _ _)
  | readRevision standing =>
      obtain ⟨before, _, running, rfl⟩ := simulates.running standing rfl
      exact simulates.observe running ⟨system.world.db, rfl, rfl⟩
  | readRow standing =>
      obtain ⟨before, _, running, revDb, rfl, rfl⟩ := simulates.running standing rfl
      exact simulates.observe running rfl
  | @update client request kv atRead ts world standing moved =>
      obtain ⟨before, _, running, rfl⟩ := simulates.running standing rfl
      exact simulates.perform running moved (afterUpdate_left request _ _ _ _)
  | readReported readOk standing =>
      obtain rfl : readOk = true := errorFree
      obtain ⟨before, _, running, rfl⟩ := simulates.running standing rfl
      exact simulates.observe running rfl
  | fail => cases errorFree

end Steps

/-- Every run of concurrent puts without storage errors is a run of callers of
the service, with the same world and the same responses. -/
theorem puts_simulated {actions : List PutAction} {system : PutSystem}
    (errorFree : ∀ action ∈ actions, action.ErrorFree)
    (ran : Runs.run PutSystem.step .init actions = some system) :
    ∃ calls, Runs.Reaches CallSystem.step .init calls ∧ Simulates system calls := by
  have initially : Simulates .init .init := by
    refine ⟨rfl, fun _ => ⟨rfl, ?_⟩⟩
    rintro _ ⟨⟩
  exact Simulation.run_simulated (fun allowed related stepped => related.step allowed stepped)
    errorFree ran initially

end SpannerEtcd
