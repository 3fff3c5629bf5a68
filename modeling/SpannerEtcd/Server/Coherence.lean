import SpannerEtcd.Server.Revisions

/-!
# Clients of the key-value service

Any number of clients call the service on any replica.  Each call is a program
of its own, and the accesses of all running calls interleave with each other
and with every other step of the system.

A response that is returned is kept with the responses that had been returned
before its call started.
-/

namespace SpannerEtcd

inductive Request where
  | range (request : RangeRequest)
  | put (request : PutRequest)
  | deleteRange (request : DeleteRangeRequest)
  | txn (request : TxnRequest)
  deriving DecidableEq, Repr

inductive Response where
  | range (response : RangeResponse)
  | put (response : PutResponse)
  | deleteRange (response : DeleteRangeResponse)
  | txn (response : TxnResponse)
  deriving DecidableEq, Repr

namespace Response

def header : Response → ResponseHeader
  | .range response => response.header
  | .put response => response.header
  | .deleteRange response => response.header
  | .txn response => response.header

/-- Every key-value and previous key-value in the response. -/
def keyValues : Response → List KeyValue
  | .range response => response.kvs
  | .put response => response.keyValues
  | .deleteRange response => response.prevKvs
  | .txn response => response.keyValues

/-- The responses to the operations of a transaction. -/
def nested : Response → List ResponseOp
  | .txn response => response.responses
  | _ => []

/-- No key-value is newer than the header of the response, nor than that of
the nested response it stands in. -/
def Coherent (response : Response) : Prop :=
  (∀ kv ∈ response.keyValues, kv.modRevision ≤ response.header.revision) ∧
    ∀ inner ∈ response.nested, inner.Coherent

/-- The header and all key-values are at most as new as `rev`. -/
def NotAfter (response : Response) (rev : Int) : Prop :=
  response.header.revision ≤ rev ∧ ∀ kv ∈ response.keyValues, kv.modRevision ≤ rev

theorem NotAfter.mono {response : Response} {rev later : Int} (bounded : response.NotAfter rev)
    (le : rev ≤ later) : response.NotAfter later :=
  ⟨bounded.1.trans le, fun kv membership => (bounded.2 kv membership).trans le⟩

end Response

def handle : Request → Call (Except GrpcErr Response)
  | .range request => do return (← range request).map .range
  | .put request => do return (← put request).map .put
  | .deleteRange request => do return (← deleteRange request).map .deleteRange
  | .txn request => do return (← txn request).map .txn

/-- All range reads of the request are at revision 0. -/
def Request.ReadsCurrent : Request → Prop
  | .range request => request.revision = 0
  | .txn request => ∀ op ∈ request.success ++ request.failure, op.ReadsCurrent
  | _ => True

/-! ## The system -/

structure Served where
  response : Response
  before : List Response

inductive Caller where
  | idle
  | running (before : List Response) (rest : Call (Except GrpcErr Response))

structure CallSystem where
  world : World
  callers : Nat → Caller
  returned : List Served

def CallSystem.init : CallSystem :=
  { world := .init, callers := fun _ => .idle, returned := [] }

inductive CallAction where
  /-- Any other step of the system. -/
  | other (action : Action)
  | begin (client : Nat) (request : Request)
  | observe (client : Nat)
  | perform (client : Nat) (ts : CommitTs)
  | finish (client : Nat)

def CallSystem.setCaller (system : CallSystem) (client : Nat) (caller : Caller) : CallSystem :=
  { system with callers := Function.update system.callers client caller }

def CallSystem.step (system : CallSystem) : CallAction → Option CallSystem
  | .other action => (system.world.step action).map fun next => { system with world := next }
  | .begin client request =>
      match system.callers client with
      | .idle => some (system.setCaller client
          (.running (system.returned.map Served.response) (handle request)))
      | _ => none
  | .observe client =>
      match system.callers client with
      | .running before (.observe next) =>
          some (system.setCaller client (.running before (next system.world.db)))
      | _ => none
  | .perform client ts =>
      match system.callers client with
      | .running before (.act op next) =>
          (system.world.step (.write op ts)).map fun world =>
            { system with world := world }.setCaller client
              (.running before (next (op.answer system.world.db ts)))
      | _ => none
  | .finish client =>
      match system.callers client with
      | .running before (.ret (.ok response)) =>
          some { system.setCaller client .idle with
            returned := system.returned ++ [⟨response, before⟩] }
      | .running _ (.ret (.error _)) => some (system.setCaller client .idle)
      | _ => none

def BeginsCurrent (_ : CallSystem) : CallAction → Prop
  | .begin _ request => request.ReadsCurrent
  | _ => True

/-! ## What a running call will return -/

/-- What a call that started at the current revision `floor` returns. -/
def Returns (floor : Int) (world : World) (reply : Except GrpcErr Response) : Prop :=
  ∀ response, reply = .ok response →
    floor ≤ response.header.revision ∧
      response.header.revision ≤ currentRevision world.db ∧ response.Coherent

theorem Returns.later {floor : Int} {world next : World} {reply : Except GrpcErr Response}
    (passed : World.environment.later world next) (returns : Returns floor world reply) :
    Returns floor next reply := by
  intro response replied
  obtain ⟨lower, upper, coherent⟩ := returns response replied
  exact ⟨lower, upper.trans (currentRevision_later passed), coherent⟩

theorem Dated.coherent {floor : Int} {world : World} {response : Response}
    (dated : Dated floor world response.header.revision response.keyValues)
    (nested : ∀ inner ∈ response.nested, inner.Coherent) :
    floor ≤ response.header.revision ∧
      response.header.revision ≤ currentRevision world.db ∧ response.Coherent :=
  ⟨dated.floor_le, dated.le_current, dated.kvs_le, nested⟩

theorem handle_ensures (world : World) (request : Request) (current : request.ReadsCurrent) :
    (handle request).Ensures World.environment (Returns (currentRevision world.db)) world := by
  have above := le_refl (currentRevision world.db)
  have positive := one_le_currentRevision world.db
  cases request with
  | range request =>
      refine (range_ensures above positive request current).bind ?_
      rintro after (err | response) answers
      · rintro _ ⟨⟩
      · rintro _ ⟨⟩
        exact Dated.coherent (answers response rfl) (by simp [Response.nested])
  | put request =>
      refine (put_ensures above positive request).bind ?_
      rintro after (err | response) answers
      · rintro _ ⟨⟩
      · rintro _ ⟨⟩
        exact Dated.coherent (answers response rfl) (by simp [Response.nested])
  | deleteRange request =>
      refine (deleteRange_ensures above positive request).bind ?_
      rintro after (err | response) answers
      · rintro _ ⟨⟩
      · rintro _ ⟨⟩
        exact Dated.coherent (answers response rfl) (by simp [Response.nested])
  | txn request =>
      have branches : ∀ succeeded, ∀ op ∈ request.chosen succeeded, op.ReadsCurrent := by
        intro succeeded op membership
        refine current op (List.mem_append.mpr ?_)
        unfold TxnRequest.chosen at membership
        split at membership
        · exact .inl membership
        · exact .inr membership
      refine (txn_ensures above positive request branches).bind ?_
      rintro after (err | response) answers
      · rintro _ ⟨⟩
      · rintro _ ⟨⟩
        obtain ⟨dated, nested⟩ := answers response rfl
        exact Dated.coherent dated nested

/-! ## The invariant -/

/-- A running call returns nothing older than what had been returned before. -/
def Caller.Inv (world : World) : Caller → Prop
  | .idle => True
  | .running before rest => ∃ floor, (∀ earlier ∈ before, earlier.NotAfter floor) ∧
      rest.Ensures World.environment (Returns floor) world

/-- The property of a returned response. -/
def Served.Ordered (served : Served) : Prop :=
  served.response.Coherent ∧
    ∀ earlier ∈ served.before, earlier.NotAfter served.response.header.revision

structure CallSystem.Inv (system : CallSystem) : Prop where
  world : system.world.Inv
  callers : ∀ client, (system.callers client).Inv system.world
  ordered : ∀ served ∈ system.returned, served.Ordered
  current : ∀ served ∈ system.returned,
    served.response.header.revision ≤ currentRevision system.world.db

theorem Caller.Inv.later {world next : World} {caller : Caller} (inv : caller.Inv world)
    (passed : World.environment.later world next) : caller.Inv next := by
  cases caller with
  | idle => trivial
  | running before rest =>
      obtain ⟨floor, earlier, ensured⟩ := inv
      exact ⟨floor, earlier, ensured.later Returns.later passed⟩

theorem Served.Ordered.notAfter {served : Served} (ordered : served.Ordered) {rev : Int}
    (bounded : served.response.header.revision ≤ rev) : served.response.NotAfter rev :=
  ⟨bounded, fun kv membership => (ordered.1.1 kv membership).trans bounded⟩

section System

variable {system next : CallSystem}

theorem CallSystem.inv_init : CallSystem.init.Inv where
  world := World.init_inv
  callers := fun _ => trivial
  ordered := by simp [CallSystem.init]
  current := by simp [CallSystem.init]

theorem CallSystem.Inv.setCaller (inv : system.Inv) {client : Nat} {caller : Caller}
    (own : caller.Inv system.world) : (system.setCaller client caller).Inv where
  world := inv.world
  callers := by
    intro other
    simp only [CallSystem.setCaller, Function.update_apply]
    split
    · exact own
    · exact inv.callers other
  ordered := inv.ordered
  current := inv.current

theorem CallSystem.Inv.advance (inv : system.Inv) {action : Action} {world : World}
    (stepped : system.world.step action = some world) :
    CallSystem.Inv { system with world := world } := by
  have passed : World.environment.later system.world world := ⟨inv.world, .single stepped⟩
  exact ⟨inv.world.step stepped, fun client => (inv.callers client).later passed, inv.ordered,
    fun served membership =>
      (inv.current served membership).trans (currentRevision_later passed)⟩

theorem CallSystem.Inv.begin (inv : system.Inv) {client : Nat} {request : Request}
    (current : request.ReadsCurrent) :
    (system.setCaller client
      (.running (system.returned.map Served.response) (handle request))).Inv := by
  refine inv.setCaller ⟨currentRevision system.world.db, ?_, handle_ensures _ request current⟩
  intro earlier membership
  obtain ⟨served, listed, rfl⟩ := List.mem_map.mp membership
  exact (inv.ordered served listed).notAfter (inv.current served listed)

theorem CallSystem.Inv.finish (inv : system.Inv) {client : Nat} {before : List Response}
    {response : Response}
    (running : system.callers client = .running before (.ret (.ok response))) :
    CallSystem.Inv { system.setCaller client .idle with
      returned := system.returned ++ [⟨response, before⟩] } := by
  have known := inv.callers client
  rw [running] at known
  obtain ⟨floor, earlier, ensured⟩ := known
  obtain ⟨lower, upper, coherent⟩ := ensured response rfl
  have rest : (system.setCaller client .idle).Inv := inv.setCaller trivial
  refine ⟨rest.world, rest.callers, ?_, ?_⟩
  · refine List.forall_mem_append.mpr ⟨inv.ordered, List.forall_mem_singleton.mpr ?_⟩
    exact ⟨coherent, fun other listed => (earlier other listed).mono lower⟩
  · exact List.forall_mem_append.mpr ⟨inv.current, List.forall_mem_singleton.mpr upper⟩

theorem CallSystem.Inv.step (inv : system.Inv) {action : CallAction}
    (met : BeginsCurrent system action) (stepped : system.step action = some next) :
    next.Inv := by
  cases action with
  | other action =>
      obtain ⟨world, moved, rfl⟩ := Option.map_eq_some_iff.mp stepped
      exact inv.advance moved
  | begin client request =>
      simp only [CallSystem.step] at stepped
      split at stepped
      · exact Option.some.inj stepped ▸ inv.begin met
      · cases stepped
  | observe client =>
      have known := inv.callers client
      simp only [CallSystem.step] at stepped
      split at stepped
      case h_1 before resume running =>
        rw [running] at known
        obtain ⟨floor, earlier, ensured⟩ := known
        obtain rfl := Option.some.inj stepped
        exact inv.setCaller
          ⟨floor, earlier, ensured system.world ⟨inv.world, ⟨[], rfl⟩⟩⟩
      case h_2 => cases stepped
  | perform client ts =>
      have known := inv.callers client
      simp only [CallSystem.step] at stepped
      split at stepped
      case h_1 before op resume running =>
        rw [running] at known
        obtain ⟨floor, earlier, ensured⟩ := known
        obtain ⟨world, moved, rfl⟩ := Option.map_eq_some_iff.mp stepped
        exact (inv.advance moved).setCaller ⟨floor, earlier,
          ensured system.world _ world ⟨inv.world, ⟨[], rfl⟩⟩ ⟨ts, moved, rfl⟩⟩
      case h_2 => cases stepped
  | finish client =>
      simp only [CallSystem.step] at stepped
      split at stepped
      case h_1 before response running => exact Option.some.inj stepped ▸ inv.finish running
      case h_2 => exact Option.some.inj stepped ▸ inv.setCaller trivial
      case h_3 => cases stepped

end System

/-- In every run, a response is not older than anything in it, nor than
anything in a response that was returned before its call started. -/
theorem response_revisions_coherent {actions : List CallAction} {system : CallSystem}
    (guarded : Runs.Guarded CallSystem.step BeginsCurrent .init actions)
    (ran : Runs.run CallSystem.step .init actions = some system) :
    ∀ served ∈ system.returned, served.response.Coherent ∧
      ∀ earlier ∈ served.before,
        earlier.header.revision ≤ served.response.header.revision ∧
          ∀ kv ∈ earlier.keyValues, kv.modRevision ≤ served.response.header.revision := by
  have inv : system.Inv :=
    Runs.run_invariant_of_guarded (fun _ _ _ met stepped inv => inv.step met stepped) guarded ran
      CallSystem.inv_init
  exact inv.ordered

/-- One client puts a key, and another one reads it afterwards. -/
def putThenRange : List CallAction :=
  [.begin 0 (.put { key := ascii "k", value := some (ascii "v"), lease := 0, prevKv := false }),
    .perform 0 5, .finish 0,
    .begin 1 (.range { key := ascii "k", rangeEnd := [], limit := 0, revision := 0,
                       keysOnly := false, countOnly := false }),
    .observe 1, .observe 1, .finish 1]

theorem putThenRange_guarded :
    Runs.Guarded CallSystem.step BeginsCurrent .init putThenRange := by
  refine .of_forall ?_
  simp [putThenRange, BeginsCurrent, Request.ReadsCurrent]

def servedSystem : CallSystem :=
  (Runs.run CallSystem.step .init putThenRange).getD .init

theorem servedSystem_coherent :
    servedSystem.returned.map (fun served => (served.before.length,
      served.response.keyValues.map KeyValue.modRevision)) = [(0, []), (1, [5])] ∧
    ∀ served ∈ servedSystem.returned, served.response.Coherent ∧
      ∀ earlier ∈ served.before,
        earlier.header.revision ≤ served.response.header.revision ∧
          ∀ kv ∈ earlier.keyValues, kv.modRevision ≤ served.response.header.revision :=
  ⟨rfl, response_revisions_coherent putThenRange_guarded rfl⟩

end SpannerEtcd
