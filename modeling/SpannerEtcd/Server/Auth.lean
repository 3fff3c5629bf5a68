import SpannerEtcd.Lib.Expiring
import SpannerEtcd.Lib.Runs
import SpannerEtcd.Server.Response

/-!
# Authentication

A client that names a configured user with its password is given a token.  The
token lets requests through until it expires.  A background loop deletes
expired tokens; it reads the clock before it takes the lock.
-/

namespace SpannerEtcd

/-! ## The server -/

/-- Five minutes in nanoseconds. -/
def defaultTokenTTL : Int := 5 * 60 * 1000000000

def tokenHeader : Bytes := ascii "token"

def authHeaderKey : Bytes := ascii "authorization"

structure TokenInfo where
  username : Bytes
  expiresAt : Int
  deriving DecidableEq, Repr

structure AuthServer where
  users : List (Bytes × Bytes)
  tokens : Bytes → Option TokenInfo
  enabled : Bool
  ttl : Int

def newAuthServer (users : List (Bytes × Bytes)) (ttl : Int) : AuthServer :=
  { users := users
    tokens := fun _ => none
    enabled := !users.isEmpty
    ttl := if ttl ≤ 0 then defaultTokenTTL else ttl }

/-- What one round of `gcLoop` does under the lock, after it has read the
clock. -/
def AuthServer.gc (auth : AuthServer) (now : Int) : AuthServer :=
  { auth with
    tokens := fun tok =>
      match auth.tokens tok with
      | none => none
      | some info => if now > info.expiresAt then none else some info }

/-- The status errors of an RPC: those of the authentication, and those of the
handler behind it. -/
inductive RpcErr where
  | unauthenticated (message : String)
  | handler (err : GrpcErr)
  deriving DecidableEq, Repr

structure AuthenticateRequest where
  name : Bytes
  password : Bytes
  deriving DecidableEq, Repr

structure AuthenticateResponse where
  header : Option ResponseHeader
  token : Bytes
  deriving DecidableEq, Repr

def emptyHeader : ResponseHeader :=
  { clusterId := 0, memberId := 0, revision := 0, raftTerm := 0 }

def hexDigit (digit : Nat) : Byte :=
  if digit < 10 then Fin.ofNat 256 (48 + digit) else Fin.ofNat 256 (87 + digit)

/-- `hex.EncodeToString`. -/
def encodeToString (b : Bytes) : Bytes :=
  b.flatMap fun byte => [hexDigit (byte.val / 16), hexDigit (byte.val % 16)]

/-- The token made from what `rand.Read` has put into the buffer. -/
def generateToken (b : Vector Byte 16) : Bytes :=
  encodeToString b.toList

def AuthServer.authenticate (auth : AuthServer) (request : AuthenticateRequest)
    (random : Vector Byte 16) (now : Int) : Except RpcErr AuthenticateResponse × AuthServer :=
  if !auth.enabled then (.ok ⟨none, ascii "no-auth"⟩, auth)
  else if auth.users.lookup request.name ≠ some request.password then
    (.error (.unauthenticated "authentication failed"), auth)
  else
    let tok := generateToken random
    let info : TokenInfo := ⟨request.name, now + auth.ttl⟩
    (.ok ⟨some emptyHeader, tok⟩,
      { auth with tokens := Function.update auth.tokens tok (some info) })

/-! ## The check of a request -/

/-- The values of each header of a request. -/
def Metadata : Type := Bytes → List Bytes

def trimPrefix (s pre : Bytes) : Bytes :=
  if pre.isPrefixOf s then s.drop pre.length else s

def headerToken (md : Metadata) : Bytes :=
  match md tokenHeader with
  | value :: _ => value
  | [] =>
      match md authHeaderKey with
      | value :: _ => trimPrefix value (ascii "Bearer ")
      | [] => []

/-- The clock is read after the lock on the tokens has been released, so `now`
may be any reading since then. -/
def AuthServer.validate (auth : AuthServer) (ctx : Option Metadata) (now : Int) : Bool :=
  if !auth.enabled then true
  else
    match ctx with
    | none => false
    | some md =>
        let tok := headerToken md
        if tok = [] then false
        else
          match auth.tokens tok with
          | none => false
          | some info => !decide (now > info.expiresAt)

def invalidAuthTokenErr : RpcErr := .unauthenticated "etcdserver: invalid auth token"

/-- `strings.Contains`. -/
def contains (s substr : Bytes) : Bool :=
  s.tails.any fun tail => substr.isPrefixOf tail

def publicMethods : List Bytes :=
  [ascii "Auth/Authenticate", ascii "Auth/AuthEnable", ascii "Auth/AuthDisable",
    ascii "Auth/AuthStatus", ascii "Health/Check", ascii "grpc.health"]

def isPublicMethod (method : Bytes) : Bool :=
  publicMethods.any fun part => contains method part

/-- The test of both interceptors. -/
def AuthServer.intercept {Result : Type} (auth : AuthServer) (ctx : Option Metadata) (now : Int)
    (fullMethod : Bytes) (handler rejected : Result) : Result :=
  if isPublicMethod fullMethod || auth.validate ctx now then handler else rejected

section Interceptors

variable {Server Response : Type} (auth : AuthServer) (ctx : Option Metadata) (now : Int)
  (fullMethod : Bytes)

/-- A handler acts on the server and returns a response or an error. -/
def authUnaryInterceptor (handler : Server → Except RpcErr Response × Server) :
    Server → Except RpcErr Response × Server :=
  auth.intercept ctx now fullMethod handler fun server => (.error invalidAuthTokenErr, server)

def authStreamInterceptor (handler : Server → Option RpcErr × Server) :
    Server → Option RpcErr × Server :=
  auth.intercept ctx now fullMethod handler fun server => (some invalidAuthTokenErr, server)

end Interceptors

/-! ## Runs -/

/-- The server with its sweeping loop; `clock` is the latest reading of the
clock, and `sweep` one that the loop waits to apply. -/
structure AuthSystem where
  server : AuthServer
  clock : Int
  sweep : Option Int

def AuthSystem.init (users : List (Bytes × Bytes)) (ttl clock : Int) : AuthSystem :=
  { server := newAuthServer users ttl, clock := clock, sweep := none }

inductive AuthAction where
  | authenticate (request : AuthenticateRequest) (random : Vector Byte 16) (now : Int)
  | gcTick (now : Int)
  | gcSweep

def AuthSystem.step (system : AuthSystem) : AuthAction → Option AuthSystem
  | .authenticate request random now =>
      if system.clock ≤ now then
        some { system with
          server := (system.server.authenticate request random now).2
          clock := now }
      else none
  | .gcTick now =>
      match system.sweep with
      | some _ => none
      | none =>
          if system.clock ≤ now then some { system with clock := now, sweep := some now } else none
  | .gcSweep =>
      match system.sweep with
      | some now => some { system with server := system.server.gc now, sweep := none }
      | none => none

inductive AuthMove (system : AuthSystem) : AuthAction → AuthSystem → Prop where
  | authenticate {request : AuthenticateRequest} {random : Vector Byte 16} {now : Int}
      (reading : system.clock ≤ now) :
      AuthMove system (.authenticate request random now)
        { system with
          server := (system.server.authenticate request random now).2
          clock := now }
  | gcTick {now : Int} (reading : system.clock ≤ now) :
      AuthMove system (.gcTick now) { system with clock := now, sweep := some now }
  | gcSweep {now : Int} (pending : system.sweep = some now) :
      AuthMove system .gcSweep { system with server := system.server.gc now, sweep := none }

theorem AuthSystem.step_move {system next : AuthSystem} {action : AuthAction}
    (stepped : system.step action = some next) : AuthMove system action next := by
  cases action with
  | authenticate request random now =>
      simp only [AuthSystem.step, Option.ite_none_right_eq_some, Option.some.injEq] at stepped
      obtain ⟨reading, rfl⟩ := stepped
      exact .authenticate reading
  | gcTick now =>
      simp only [AuthSystem.step] at stepped
      split at stepped
      next => cases stepped
      next =>
        simp only [Option.ite_none_right_eq_some, Option.some.injEq] at stepped
        obtain ⟨reading, rfl⟩ := stepped
        exact .gcTick reading
  | gcSweep =>
      simp only [AuthSystem.step] at stepped
      split at stepped
      next now pending =>
        obtain rfl := Option.some.inj stepped
        exact .gcSweep pending
      next => cases stepped

/-! ## What the tokens table holds -/

/-- The entry that an action makes in a server that is enabled. -/
def AuthAction.issue (users : List (Bytes × Bytes)) (ttl : Int) :
    AuthAction → Option (Bytes × TokenInfo)
  | .authenticate request random now =>
      if users.lookup request.name = some request.password then
        some (generateToken random, ⟨request.name, now + ttl⟩)
      else none
  | .gcTick _ | .gcSweep => none

theorem AuthServer.gc_tokens (auth : AuthServer) (now : Int) :
    (auth.gc now).tokens = Expiring.alive TokenInfo.expiresAt now auth.tokens := by
  funext tok
  simp only [AuthServer.gc, Expiring.alive]
  cases auth.tokens tok with
  | none => rfl
  | some info =>
      by_cases expired : now > info.expiresAt
      · simp [Option.filter, expired]
      · simp [Option.filter, expired, not_lt.mp expired]

theorem AuthServer.authenticate_server {auth : AuthServer} (enabled : auth.enabled = true)
    (request : AuthenticateRequest) (random : Vector Byte 16) (now : Int) :
    (auth.authenticate request random now).2 =
      { auth with
        tokens := Expiring.record auth.tokens
          ((AuthAction.authenticate request random now).issue auth.users auth.ttl).toList } := by
  obtain ⟨users, tokens, on, ttl⟩ := auth
  obtain rfl : on = true := enabled
  by_cases known : users.lookup request.name = some request.password
  · simp [AuthServer.authenticate, AuthAction.issue, known, Expiring.record]
  · simp [AuthServer.authenticate, AuthAction.issue, known, Expiring.record]

/-- Up to what the sweeps may have deleted, the table holds the entries that
the run has made. -/
structure AuthSystem.Inv (users : List (Bytes × Bytes)) (ttl : Int)
    (log : List (Bytes × TokenInfo)) (system : AuthSystem) : Prop where
  users : system.server.users = users
  ttl : system.server.ttl = ttl
  enabled : system.server.enabled = true
  pending : ∀ now, system.sweep = some now → now ≤ system.clock
  tokens : Expiring.AgreeFrom TokenInfo.expiresAt system.clock system.server.tokens
    (Expiring.record (fun _ => none) log)

section Runs

variable {users : List (Bytes × Bytes)} {ttl : Int} {log : List (Bytes × TokenInfo)}
  {system next : AuthSystem}

theorem AuthSystem.Inv.step {action : AuthAction} (stepped : system.step action = some next)
    (inv : system.Inv users ttl log) :
    next.Inv users ttl (log ++ (action.issue users ttl).toList) := by
  cases AuthSystem.step_move stepped with
  | @authenticate request random now reading =>
      rw [AuthServer.authenticate_server inv.enabled, inv.users, inv.ttl]
      refine ⟨rfl, rfl, inv.enabled, ?_, ?_⟩
      · exact fun swept pending => (inv.pending swept pending).trans reading
      · rw [Expiring.record_append]
        exact (inv.tokens.mono reading).record _
  | @gcTick now reading =>
      refine ⟨inv.users, inv.ttl, inv.enabled, ?_, ?_⟩
      · exact fun swept pending => (Option.some.inj pending).ge
      · simpa [AuthAction.issue] using inv.tokens.mono reading
  | @gcSweep now pending =>
      refine ⟨inv.users, inv.ttl, inv.enabled, by simp, ?_⟩
      simpa [AuthAction.issue, AuthServer.gc_tokens] using
        inv.tokens.sweep (inv.pending now pending)

theorem AuthSystem.Inv.run {actions : List AuthAction}
    (ran : Runs.run AuthSystem.step system actions = some next)
    (inv : system.Inv users ttl log) :
    next.Inv users ttl (log ++ actions.filterMap (AuthAction.issue users ttl)) := by
  induction actions generalizing system log with
  | nil =>
      simp only [Runs.run_nil, Option.some.injEq] at ran
      simpa [ran] using inv
  | cons action rest inductionHypothesis =>
      obtain ⟨middle, stepped, finished⟩ := Runs.run_cons_eq_some.mp ran
      have reached := inductionHypothesis finished (inv.step stepped)
      rw [List.append_assoc] at reached
      cases issued : action.issue users ttl with
      | none => simpa [issued] using reached
      | some entry => simpa [issued] using reached

theorem AuthSystem.init_inv (configured : users ≠ []) (ttl clock : Int) :
    (AuthSystem.init users ttl clock).Inv users (newAuthServer users ttl).ttl [] where
  users := rfl
  ttl := rfl
  enabled := by simp [AuthSystem.init, newAuthServer, configured]
  pending := by simp [AuthSystem.init]
  tokens := fun _ _ => rfl

end Runs

/-! ## Which requests are let through -/

/-- The token that a request presents: the token header, or else the
authorization header without `Bearer `. -/
def Presents (ctx : Option Metadata) (token : Bytes) : Prop :=
  ∃ md : Metadata, ctx = some md ∧
    ((md tokenHeader).head? = some token ∨
      md tokenHeader = [] ∧ ∃ value, (md authHeaderKey).head? = some value ∧
        (value = ascii "Bearer " ++ token ∨ ¬ascii "Bearer " <+: value ∧ value = token))

/-- The token was given at `issuedAt` to a client that named a configured user
with its password. -/
def Issued (users : List (Bytes × Bytes)) (actions : List AuthAction) (token : Bytes)
    (issuedAt : Int) : Prop :=
  ∃ request random, .authenticate request random issuedAt ∈ actions ∧
    users.lookup request.name = some request.password ∧ generateToken random = token

/-- The request presents a token that was issued and has not expired. -/
def Admitted (users : List (Bytes × Bytes)) (ttl : Int) (actions : List AuthAction)
    (ctx : Option Metadata) (now : Int) : Prop :=
  ∃ token issuedAt, Presents ctx token ∧ Issued users actions token issuedAt ∧
    now ≤ issuedAt + ttl

/-- The tokens that the calls of a run generate. -/
def generatedTokens (users : List (Bytes × Bytes)) (actions : List AuthAction) : List Bytes :=
  (actions.filterMap (AuthAction.issue users 0)).map Prod.fst

theorem trimPrefix_eq_iff {value pre token : Bytes} :
    trimPrefix value pre = token ↔ value = pre ++ token ∨ ¬pre <+: value ∧ value = token := by
  unfold trimPrefix
  split
  next starts =>
    obtain ⟨rest, rfl⟩ := List.isPrefixOf_iff_prefix.mp starts
    simp
  next other =>
    have noPrefix : ¬pre <+: value := fun starts => other (List.isPrefixOf_iff_prefix.mpr starts)
    have different : value ≠ pre ++ token := fun same => noPrefix ⟨token, same.symm⟩
    simp [noPrefix, different]

theorem presents_iff {md : Metadata} {token : Bytes} (nonempty : token ≠ []) :
    Presents (some md) token ↔ headerToken md = token := by
  have reads : Presents (some md) token ↔ (md tokenHeader).head? = some token ∨
      md tokenHeader = [] ∧ ∃ value, (md authHeaderKey).head? = some value ∧
        trimPrefix value (ascii "Bearer ") = token := by
    simp only [Presents, Option.some.injEq, exists_eq_left', trimPrefix_eq_iff]
  rw [reads, headerToken]
  cases md tokenHeader with
  | cons value rest => simp
  | nil =>
      cases md authHeaderKey with
      | nil => simpa using nonempty.symm
      | cons value rest => simp

theorem generateToken_ne_nil (b : Vector Byte 16) : generateToken b ≠ [] := by
  intro empty
  have length := congrArg List.length empty
  simp [generateToken, encodeToString, List.length_flatMap] at length

/-- An enabled server lets a request through if and only if its token counts
at that instant. -/
theorem AuthServer.validate_iff {auth : AuthServer} (enabled : auth.enabled = true)
    {ctx : Option Metadata} {now : Int} :
    auth.validate ctx now = true ↔ ∃ token ≠ [], Presents ctx token ∧
      ∃ info, Expiring.alive TokenInfo.expiresAt now auth.tokens token = some info := by
  cases ctx with
  | none => simp [AuthServer.validate, enabled, Presents]
  | some md =>
      have presented : (∃ token ≠ [], Presents (some md) token ∧
            ∃ info, Expiring.alive TokenInfo.expiresAt now auth.tokens token = some info) ↔
          headerToken md ≠ [] ∧ ∃ info, auth.tokens (headerToken md) = some info ∧
            now ≤ info.expiresAt := by
        simp only [Expiring.alive_eq_some]
        constructor
        · intro request
          obtain ⟨token, nonempty, presents, info, counts⟩ := request
          obtain rfl := (presents_iff nonempty).mp presents
          exact ⟨nonempty, info, counts⟩
        · intro request
          obtain ⟨nonempty, info, counts⟩ := request
          exact ⟨_, nonempty, (presents_iff nonempty).mpr rfl, info, counts⟩
      rw [presented]
      by_cases empty : headerToken md = []
      · simp [AuthServer.validate, enabled, empty]
      · cases found : auth.tokens (headerToken md) with
        | none => simp [AuthServer.validate, enabled, found]
        | some info => simp [AuthServer.validate, enabled, empty, found]

section Admission

variable {users : List (Bytes × Bytes)} {ttl clock : Int} {actions : List AuthAction}
  {system : AuthSystem}

theorem map_fst_issues (users : List (Bytes × Bytes)) (ttl : Int) (actions : List AuthAction) :
    (actions.filterMap (AuthAction.issue users ttl)).map Prod.fst =
      generatedTokens users actions := by
  rw [generatedTokens, List.map_filterMap, List.map_filterMap]
  congr 1
  funext action
  cases action with
  | authenticate request random now =>
      simp only [AuthAction.issue]
      split <;> rfl
  | gcTick now => rfl
  | gcSweep => rfl

theorem mem_issues {token : Bytes} {info : TokenInfo} :
    (token, info) ∈ actions.filterMap (AuthAction.issue users ttl) ↔
      ∃ request random issuedAt, .authenticate request random issuedAt ∈ actions ∧
        users.lookup request.name = some request.password ∧ generateToken random = token ∧
        info = ⟨request.name, issuedAt + ttl⟩ := by
  rw [List.mem_filterMap]
  constructor
  · intro issued
    obtain ⟨action, membership, made⟩ := issued
    cases action with
    | authenticate request random now =>
        simp only [AuthAction.issue, Option.ite_none_right_eq_some, Option.some.injEq,
          Prod.mk.injEq] at made
        exact ⟨request, random, now, membership, made.1, made.2.1, made.2.2.symm⟩
    | gcTick now => cases made
    | gcSweep => cases made
  · intro issued
    obtain ⟨request, random, issuedAt, membership, known, rfl, rfl⟩ := issued
    exact ⟨_, membership, if_pos known⟩

theorem validate_iff_admitted (configured : users ≠ [])
    (distinct : (generatedTokens users actions).Nodup)
    (ran : Runs.run AuthSystem.step (AuthSystem.init users ttl clock) actions = some system)
    (ctx : Option Metadata) {now : Int} (reading : system.clock ≤ now) :
    system.server.validate ctx now = true ↔
      Admitted users (newAuthServer users ttl).ttl actions ctx now := by
  have inv := (AuthSystem.init_inv configured ttl clock).run ran
  rw [List.nil_append] at inv
  rw [← map_fst_issues users (newAuthServer users ttl).ttl] at distinct
  have holds : ∀ token info,
      Expiring.alive TokenInfo.expiresAt now system.server.tokens token = some info ↔
        (token, info) ∈ actions.filterMap (AuthAction.issue users (newAuthServer users ttl).ttl) ∧
          now ≤ info.expiresAt := by
    intro token info
    rw [inv.tokens now reading, Expiring.alive_eq_some, Expiring.record_eq_some_iff distinct rfl]
  simp only [AuthServer.validate_iff inv.enabled, holds, mem_issues]
  constructor
  · intro passed
    obtain ⟨token, _, presents, _, ⟨request, random, issuedAt, called, known, same, rfl⟩,
      unexpired⟩ := passed
    exact ⟨token, issuedAt, presents, ⟨request, random, called, known, same⟩, unexpired⟩
  · intro admitted
    obtain ⟨token, issuedAt, presents, ⟨request, random, called, known, same⟩, unexpired⟩ :=
      admitted
    exact ⟨token, same ▸ generateToken_ne_nil random, presents, _,
      ⟨request, random, issuedAt, called, known, same, rfl⟩, unexpired⟩

/-- The two interceptors hand a request that may pass to its handler; any other
is refused, and the server stays as it is. -/
def Gates (auth : AuthServer) (ctx : Option Metadata) (now : Int) (fullMethod : Bytes)
    (mayPass : Prop) : Prop :=
  ∀ (Server Response : Type) (unary : Server → Except RpcErr Response × Server)
    (stream : Server → Option RpcErr × Server) (server : Server),
    (mayPass →
      authUnaryInterceptor auth ctx now fullMethod unary server = unary server ∧
        authStreamInterceptor auth ctx now fullMethod stream server = stream server) ∧
    (¬mayPass →
      authUnaryInterceptor auth ctx now fullMethod unary server =
          (.error invalidAuthTokenErr, server) ∧
        authStreamInterceptor auth ctx now fullMethod stream server =
          (some invalidAuthTokenErr, server))

theorem gates_of_validate {auth : AuthServer} {ctx : Option Metadata} {now : Int}
    {fullMethod : Bytes} (secured : isPublicMethod fullMethod = false) {mayPass : Prop}
    (validated : auth.validate ctx now = true ↔ mayPass) :
    Gates auth ctx now fullMethod mayPass := by
  intro Server Response unary stream server
  rw [← validated]
  constructor
  · intro accepted
    simp [authUnaryInterceptor, authStreamInterceptor, AuthServer.intercept, accepted]
  · intro refused
    simp [authUnaryInterceptor, authStreamInterceptor, AuthServer.intercept, secured, refused]

def AuthAction.isAuthenticate : AuthAction → Bool
  | .authenticate _ _ _ => true
  | .gcTick _ | .gcSweep => false

theorem issues_of_calls {others : List AuthAction}
    (sameCalls : others.filter AuthAction.isAuthenticate =
      actions.filter AuthAction.isAuthenticate) (ttl : Int) :
    others.filterMap (AuthAction.issue users ttl) =
      actions.filterMap (AuthAction.issue users ttl) := by
  have calls : ∀ list : List AuthAction, list.filterMap (AuthAction.issue users ttl) =
      (list.filter AuthAction.isAuthenticate).filterMap (AuthAction.issue users ttl) := by
    intro list
    rw [List.filterMap_filter]
    congr 1
    funext action
    cases action <;> rfl
  rw [calls others, sameCalls, ← calls]

/-- Runs with the same calls of `Authenticate` let the same requests through. -/
theorem validate_eq_of_calls (configured : users ≠ []) {others : List AuthAction}
    {other : AuthSystem}
    (sameCalls : others.filter AuthAction.isAuthenticate =
      actions.filter AuthAction.isAuthenticate)
    (ran : Runs.run AuthSystem.step (AuthSystem.init users ttl clock) actions = some system)
    (otherRan : Runs.run AuthSystem.step (AuthSystem.init users ttl clock) others = some other)
    (ctx : Option Metadata) {now : Int} (reading : system.clock ≤ now)
    (otherReading : other.clock ≤ now) :
    other.server.validate ctx now = system.server.validate ctx now := by
  have inv := (AuthSystem.init_inv configured ttl clock).run ran
  have otherInv := (AuthSystem.init_inv configured ttl clock).run otherRan
  rw [Bool.eq_iff_iff, AuthServer.validate_iff inv.enabled,
    AuthServer.validate_iff otherInv.enabled, inv.tokens now reading,
    otherInv.tokens now otherReading, issues_of_calls sameCalls]

/-- At every instant of a run a request passes if and only if it presents a
token that was issued to a configured user and has not expired; no choice of
sweeps changes that, and a method that is not public is not reached
otherwise. -/
theorem requests_pass_iff_admitted (configured : users ≠ [])
    (distinct : (generatedTokens users actions).Nodup)
    (ran : Runs.run AuthSystem.step (AuthSystem.init users ttl clock) actions = some system)
    (ctx : Option Metadata) {now : Int} (reading : system.clock ≤ now) :
    (system.server.validate ctx now = true ↔
        Admitted users (newAuthServer users ttl).ttl actions ctx now) ∧
      (∀ others other,
        others.filter AuthAction.isAuthenticate = actions.filter AuthAction.isAuthenticate →
        Runs.run AuthSystem.step (AuthSystem.init users ttl clock) others = some other →
        other.clock ≤ now → other.server.validate ctx now = system.server.validate ctx now) ∧
      ∀ fullMethod, isPublicMethod fullMethod = false →
        Gates system.server ctx now fullMethod
          (Admitted users (newAuthServer users ttl).ttl actions ctx now) := by
  have validated := validate_iff_admitted configured distinct ran ctx reading
  refine ⟨validated, ?_, fun fullMethod secured => gates_of_validate secured validated⟩
  intro others other sameCalls otherRan otherReading
  exact validate_eq_of_calls configured sameCalls ran otherRan ctx reading otherReading

end Admission

/-- A client is given a token for a hundred nanoseconds; a sweep runs before
the token expires. -/
def loginRun : List AuthAction :=
  [.authenticate ⟨ascii "root", ascii "secret"⟩ (Vector.replicate 16 171) 10, .gcTick 60, .gcSweep]

def bearer (token : Bytes) : Metadata :=
  fun key => if key = authHeaderKey then [ascii "Bearer " ++ token] else []

def loginToken : Bytes := generateToken (Vector.replicate 16 171)

/-- The token lets requests through up to the instant 110 and no later. -/
theorem login_passes :
    ∃ system, Runs.run AuthSystem.step
        (AuthSystem.init [(ascii "root", ascii "secret")] 100 0) loginRun = some system ∧
      system.server.validate (some (bearer loginToken)) 110 = true ∧
      system.server.validate (some (bearer loginToken)) 111 = false := by
  have ran : ∃ system, Runs.run AuthSystem.step
      (AuthSystem.init [(ascii "root", ascii "secret")] 100 0) loginRun = some system ∧
        system.clock = 60 := ⟨_, rfl, rfl⟩
  obtain ⟨system, ran, clock⟩ := ran
  have distinct : (generatedTokens [(ascii "root", ascii "secret")] loginRun).Nodup := by decide
  have presents : Presents (some (bearer loginToken)) loginToken :=
    ⟨_, rfl, .inr ⟨rfl, _, rfl, .inl rfl⟩⟩
  have issued : Issued [(ascii "root", ascii "secret")] loginRun loginToken 10 :=
    ⟨_, _, List.mem_cons_self, rfl, rfl⟩
  have passes := requests_pass_iff_admitted (by simp) distinct ran (some (bearer loginToken))
    (show system.clock ≤ 110 by omega)
  refine ⟨system, ran, passes.1.mpr ⟨_, _, presents, issued, by decide⟩, ?_⟩
  cases ran
  decide

end SpannerEtcd
