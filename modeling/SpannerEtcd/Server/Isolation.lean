import SpannerEtcd.Server.Alone
import SpannerEtcd.Server.PutPhases
import SpannerEtcd.Store.History

/-!
# Clients with keys of their own

A call takes several accesses, and others write and compact between them.  To
a client whose keys nobody else writes this makes no difference: the server is
a map from keys to values and leases, and its calls take effect one after the
other.
-/

namespace SpannerEtcd

open VersionedLog Program

/-! ## Keys that are left alone -/

/-- Nobody writes the key between the two states. -/
def Quiet (start finish : World) (key : Bytes) : Prop :=
  latestRow start.history key = latestRow finish.history key

section Quiet

variable {start before middle finish : World} {key : Bytes}

theorem Quiet.between (quiet : Quiet start finish key) (inv : middle.Inv)
    (first : Extends start middle) (second : Extends middle finish) :
    latestRow middle.history key = latestRow finish.history key := by
  cases found : latestRow finish.history key with
  | none =>
      apply newest_eq_none_iff.mpr
      intro row membership sameKey
      exact newest_eq_none_iff.mp found row (second.mem_history membership) sameKey
  | some row =>
      have old : row ∈ start.history := newest_mem (quiet.trans found)
      apply (newest_eq_some_iff inv.distinctRows).mpr
      refine ⟨newest_key found, first.mem_history old, rfl, ?_⟩
      intro other membership sameKey _
      exact newest_le found (second.mem_history membership) (sameKey.trans (newest_key found)) rfl

/-- The newest row of such a key is never deleted and never too new for a
reader. -/
theorem Quiet.read (quiet : Quiet start finish key) (beforeInv : before.Inv)
    (middleInv : middle.Inv) (first : Extends start before) (second : Extends before middle)
    (third : Extends middle finish) :
    latestRowAt middle.db.kv key (currentRevision before.db) = latestRow finish.history key := by
  have atMiddle := quiet.between middleInv (first.trans second) third
  cases found : latestRow finish.history key with
  | none =>
      rw [found] at atMiddle
      apply newest_eq_none_iff.mpr
      intro row membership sameKey
      have hidden := newest_eq_none_iff.mp atMiddle row (middleInv.mem_history membership) sameKey
      simp at hidden
  | some row =>
      have old : row ∈ start.history := newest_mem (quiet.trans found)
      have visible : row.rev ≤ currentRevision before.db :=
        beforeInv.le_currentRevision (first.mem_history old)
      apply (newest_eq_some_iff middleInv.storedDistinct).mpr
      refine ⟨newest_key found, middleInv.newest_stored (atMiddle.trans found),
        by simpa using visible, ?_⟩
      intro other membership sameKey _
      exact newest_le found (third.mem_history (middleInv.mem_history membership))
        (sameKey.trans (newest_key found)) rfl

theorem Quiet.entry (quiet : Quiet start finish key) (startInv : start.Inv)
    (finishInv : finish.Inv) :
    getLatestTxn finish.db.kv key = getLatestTxn start.db.kv key := by
  rw [finishInv.getLatestTxn_eq, startInv.getLatestTxn_eq]
  exact congrArg liveKV (Eq.symm quiet)

end Quiet

/-- Others take any steps, but they do not write these keys. -/
def World.sparing (keys : Set Bytes) : Program.Environment World DB WriteOp.Answer where
  later before after :=
    World.environment.later before after ∧ ∀ key ∈ keys, Quiet before after key
  view := World.environment.view
  performs := World.environment.performs
  trans first second :=
    ⟨World.environment.trans first.1 second.1,
      fun key spared => (first.2 key spared).trans (second.2 key spared)⟩

/-- The entries of the spared keys are as in the map. -/
structure Agrees (keys : Set Bytes) (map : PlainMap) (world : World) : Prop where
  inv : world.Inv
  shown : ∀ key ∈ keys, world.plain key = map key

section Agrees

variable {keys : Set Bytes} {map : PlainMap} {world next : World}

theorem Agrees.later (agrees : Agrees keys map world)
    (passed : (World.sparing keys).later world next) : Agrees keys map next := by
  have inv := agrees.inv.reaches passed.1.2
  refine ⟨inv, ?_⟩
  intro key spared
  rw [← agrees.shown key spared]
  unfold World.plain AbstractMap.plain
  rw [(passed.2 key spared).entry agrees.inv inv]

theorem Agrees.update (agrees : Agrees keys map world) {key : Bytes} {entry : Option Plain}
    (inv : next.Inv) (written : next.plain = Function.update world.plain key entry) :
    Agrees keys (Function.update map key entry) next := by
  refine ⟨inv, ?_⟩
  intro other spared
  rw [written]
  by_cases same : other = key
  · rw [same, Function.update_self, Function.update_self]
  · rw [Function.update_of_ne same, Function.update_of_ne same, agrees.shown other spared]

theorem Agrees.plain_eq (agrees : Agrees keys map world) {key : Bytes} (spared : key ∈ keys) :
    (getLatestTxn world.db.kv key).map KV.plain = map key :=
  agrees.shown key spared

/-- The two reads of a `Get` see the entry as it is. -/
theorem get_quiet (agrees : Agrees keys map world) {key : Bytes} (spared : key ∈ keys) :
    (Store.get key 0).Ensures (World.sparing keys)
      (fun final got => got.2 = .ok (getLatestTxn final.db.kv key) ∧ Agrees keys map final)
      world := by
  intro first passed second passedAgain
  have firstAgrees := agrees.later passed
  have secondAgrees := firstAgrees.later passedAgain
  have quiet : Quiet world second key := (passed.2 key spared).trans (passedAgain.2 key spared)
  have read := quiet.read firstAgrees.inv secondAgrees.inv (extends_of_reaches passed.1.2)
    (extends_of_reaches passedAgain.1.2) (.refl second)
  refine ⟨?_, secondAgrees⟩
  rw [secondAgrees.inv.getLatestTxn_eq]
  refine (get_current first.db first.db second.db key).trans ?_
  rw [read]
  rfl

theorem ready_once (inv : world.Inv) {ts : CommitTs} (later : world.db.clock < ts.ns) :
    Ready (fun _ => ts) 0 1 world :=
  Ready.of_supply inv (fun _ _ => later) fun j below i order => by omega

theorem step_write_eq {op : WriteOp} {ts : CommitTs}
    (stepped : world.step (.write op ts) = some next) :
    world.db.clock < ts.ns ∧ next = world.write op ts := by
  simp only [World.step, Option.ite_none_right_eq_some, Option.some.injEq] at stepped
  exact ⟨stepped.1, stepped.2.symm⟩

end Agrees

/-! ## Runs among others -/

theorem list_interleaved {environment : Program.Environment World DB WriteOp.Answer}
    (views : environment.view = World.db) {pre startKey : Bytes} {limit : Int}
    {start middle : World} {accesses : List (World × World)}
    {result : Int × Int × Except StoreErr (List KV)}
    (ran : Interleaved environment (Store.list pre startKey limit 0) start accesses middle
      result) :
    ∃ before compactRev, environment.later start before ∧ environment.later before middle ∧
      (∀ access ∈ accesses, access.2 = access.1) ∧
      result = (currentRevision before.db, compactRev, .ok ((limitClause limit
        (listRows middle.db.kv pre startKey (currentRevision before.db))).map scanKV)) := by
  cases ran with
  | @observe _ _ before _ _ _ passed rest =>
      cases rest with
      | @observe _ _ checked _ _ _ passedAgain rest =>
          cases rest with
          | observe passedThird rest =>
              cases rest with
              | ret =>
                  have passedOn := environment.trans passedAgain passedThird
                  refine ⟨before, compactRevision checked.db, passed, passedOn, by simp, ?_⟩
                  simp [list, refusedAt, revCap, views,
                    revToTS_of_one_le (one_le_currentRevision before.db)]

theorem interleaved_extends {Result : Type} {program : Call Result} {start finish : World}
    {accesses : List (World × World)} {result : Result}
    (ran : Interleaved World.environment program start accesses finish result)
    (inv : start.Inv) : finish.Inv ∧ Extends start finish := by
  induction ran with
  | ret result state => exact ⟨inv, .refl state⟩
  | observe passed rest inductionHypothesis =>
      obtain ⟨finishInv, extended⟩ := inductionHypothesis (inv.reaches passed.2)
      exact ⟨finishInv, (extends_of_reaches passed.2).trans extended⟩
  | act passed performed rest inductionHypothesis =>
      obtain ⟨ts, stepped, _⟩ := performed
      obtain ⟨finishInv, extended⟩ := inductionHypothesis ((inv.reaches passed.2).step stepped)
      exact ⟨finishInv, ((extends_of_reaches passed.2).trans
        (World.step_effect stepped).extends).trans extended⟩

/-! ## The calls of a client -/

/-- A call on a single key. -/
inductive KeyCall where
  | get (key : Bytes)
  | put (request : PutRequest)
  | delete (key : Bytes) (prevKv : Bool)
  deriving DecidableEq, Repr

def KeyCall.key : KeyCall → Bytes
  | .get key => key
  | .put request => request.key
  | .delete key _ => key

def getRequest (key : Bytes) : RangeRequest :=
  { key := key, rangeEnd := [], limit := 0, revision := 0, keysOnly := false, countOnly := false }

def KeyCall.request : KeyCall → RequestOp
  | .get key => .range (getRequest key)
  | .put request => .put request
  | .delete key prevKv => .deleteRange { key := key, rangeEnd := [], prevKv := prevKv }

/-- The handlers of the service. -/
def KeyCall.serve : KeyCall → Call (Except GrpcErr ResponseOp)
  | .get key => do return (← range (getRequest key)).map .range
  | .put request => do return (← SpannerEtcd.put request).map .put
  | .delete key prevKv => do
      return (← deleteRange { key := key, rangeEnd := [], prevKv := prevKv }).map .deleteRange

/-- The client learns what the response holds besides revisions, or that the
call has failed. -/
def KeyCall.ask (call : KeyCall) : Call (Option PlainResponse) := do
  match ← call.serve with
  | .error _ => return none
  | .ok response => return some response.plain

/-- The answer is that of the map, and the effect is that on the map. -/
def TakesEffect (keys : Set Bytes) (map : PlainMap) (call : KeyCall) (final : World)
    (reply : Except GrpcErr ResponseOp) : Prop :=
  (∃ response, reply = .ok response ∧ some response.plain = call.request.respond map) ∧
    Agrees keys (call.request.effect map) final

section Serve

variable {keys : Set Bytes} {map : PlainMap} {world : World}

theorem range_quiet (agrees : Agrees keys map world) {key : Bytes} (spared : key ∈ keys) :
    (range (getRequest key)).Ensures (World.sparing keys)
      (fun final reply => TakesEffect keys map (.get key) final (reply.map .range)) world := by
  have single : (getRequest key).rangeEnd = [] := rfl
  unfold range
  rw [if_pos single]
  refine (get_quiet agrees spared).bind ?_
  rintro final ⟨curRev, _⟩ ⟨rfl, later⟩
  have shown := later.plain_eq spared
  cases found : getLatestTxn final.db.kv key with
  | none =>
      rw [found] at shown
      refine ⟨⟨_, rfl, ?_⟩, later⟩
      simp [KeyCall.request, RequestOp.respond, getRequest, ← shown, ResponseOp.plain, boolToInt]
  | some kv =>
      rw [found] at shown
      have live := (later.inv.entry_exact found).2.2
      have named := getLatestTxn_key found
      dsimp only
      rw [if_neg (by simp [live])]
      refine ⟨⟨_, rfl, ?_⟩, later⟩
      simp [KeyCall.request, RequestOp.respond, getRequest, ← shown, ResponseOp.plain, boolToInt,
        toProtoKV, KeyValue.plain, KV.plain, named]

/-- A create that finds the key is followed by an update of what is there. -/
theorem put_quiet (agrees : Agrees keys map world) {request : PutRequest}
    (spared : request.key ∈ keys) :
    (put request).Ensures (World.sparing keys)
      (fun final reply => TakesEffect keys map (.put request) final (reply.map .put)) world := by
  rw [put_eq]
  rintro current _ next passed ⟨ts, stepped, rfl⟩
  have present := agrees.later passed
  obtain ⟨later, rfl⟩ := step_write_eq stepped
  have shown := present.plain_eq spared
  cases found : getLatestTxn current.db.kv request.key with
  | none =>
      have written := (create_writes (ready_once present.inv later) Nat.one_pos request.value
        request.lease found).1
      simp only [WriteOp.answer, create_of_absent ts request.value request.lease found]
      rw [found] at shown
      refine ⟨⟨_, rfl, ?_⟩, present.update (present.inv.step stepped) written⟩
      simp [KeyCall.request, RequestOp.respond, ← shown, ResponseOp.plain]
  | some prev =>
      simp only [WriteOp.answer, create_of_present ts request.value request.lease found]
      rw [World.write_create_present _ _ _ found]
      refine (get_quiet present spared).bind ?_
      rintro read ⟨_, _⟩ ⟨rfl, readAgrees⟩
      -- The key is there still, and the update finds what the read has found.
      obtain ⟨kv, holding⟩ : ∃ kv, getLatestTxn read.db.kv request.key = some kv := by
        rw [found] at shown
        apply Option.isSome_iff_exists.mp
        rw [← Option.isSome_map (f := KV.plain), readAgrees.plain_eq spared, ← shown]
        rfl
      rw [holding]
      rintro updating _ updated passedAgain ⟨commitTs, committing, rfl⟩
      have updatingAgrees := readAgrees.later passedAgain
      have same : getLatestTxn updating.db.kv request.key = some kv :=
        ((passedAgain.2 request.key spared).entry readAgrees.inv updatingAgrees.inv).trans holding
      obtain ⟨commitLater, rfl⟩ := step_write_eq committing
      have written := (update_writes (ready_once updatingAgrees.inv commitLater) Nat.one_pos
        request.value request.lease same).1
      have shownLater := updatingAgrees.plain_eq spared
      simp only [WriteOp.answer, prevModRev,
        update_of_match commitTs none request.value request.lease same]
      refine ⟨⟨_, rfl, ?_⟩, updatingAgrees.update (updatingAgrees.inv.step committing) written⟩
      rw [same] at shownLater
      have named := getLatestTxn_key same
      simp only [KeyCall.request, RequestOp.respond, ← shownLater, ResponseOp.plain, putResponse]
      cases request.prevKv
      · rfl
      · simp [toProtoKV, KeyValue.plain, KV.plain, named]

theorem deleteRange_quiet (agrees : Agrees keys map world) {key : Bytes} (prevKv : Bool)
    (spared : key ∈ keys) :
    (deleteRange { key := key, rangeEnd := [], prevKv := prevKv }).Ensures (World.sparing keys)
      (fun final reply =>
        TakesEffect keys map (.delete key prevKv) final (reply.map .deleteRange)) world := by
  rintro current _ next passed ⟨ts, stepped, rfl⟩
  have present := agrees.later passed
  obtain ⟨later, rfl⟩ := step_write_eq stepped
  have shown := present.plain_eq spared
  cases found : getLatestTxn current.db.kv key with
  | none =>
      rw [found] at shown
      simp only [WriteOp.answer, delete_of_absent ts none 0 found]
      rw [World.write_delete_absent ts found]
      intro reading passedAgain
      have gone : map key = none := shown.symm
      have unchanged : Function.update map key none = map := by rw [← gone, Function.update_eq_self]
      refine ⟨⟨_, rfl, ?_⟩, ?_⟩
      · simp [KeyCall.request, RequestOp.respond, gone, ResponseOp.plain, boolToInt, prevKvsOf]
      · simp only [KeyCall.request, RequestOp.effect, unchanged]
        exact present.later passedAgain
  | some prev =>
      have written := (delete_writes (ready_once present.inv later) Nat.one_pos found).1
      have named := getLatestTxn_key found
      rw [found] at shown
      simp only [WriteOp.answer, delete_of_match ts none found (.inl rfl)]
      refine ⟨⟨_, rfl, ?_⟩, present.update (present.inv.step stepped) written⟩
      simp only [KeyCall.request, RequestOp.respond, ← shown, ResponseOp.plain, prevKvsOf]
      cases prevKv
      · rfl
      · simp [toProtoKV, KeyValue.plain, KV.plain, named, boolToInt]

theorem ask_quiet (agrees : Agrees keys map world) {call : KeyCall} (spared : call.key ∈ keys) :
    call.ask.Ensures (World.sparing keys)
      (fun final answer => answer = call.request.respond map ∧
        Agrees keys (call.request.effect map) final) world := by
  have served : call.serve.Ensures (World.sparing keys) (TakesEffect keys map call) world := by
    cases call with
    | get key => exact (range_quiet agrees spared).bind fun _ _ effect => effect
    | put request => exact (put_quiet agrees spared).bind fun _ _ effect => effect
    | delete key prevKv =>
        exact (deleteRange_quiet agrees prevKv spared).bind fun _ _ effect => effect
  refine served.bind ?_
  rintro final _ ⟨⟨response, rfl, answered⟩, later⟩
  exact ⟨answered, later⟩

end Serve

/-! ## Sessions -/

/-- What a client does: its calls one after the other, each chosen by the
answers to those before. -/
abbrev Session (Result : Type) : Type :=
  Program Unit (fun _ : KeyCall => Option PlainResponse) Result

namespace Session

variable {Result : Type}

def onServer : Session Result → Call Result
  | .ret result => .ret result
  | .observe next => onServer (next ())
  | .act call next => do
      let answer ← call.ask
      onServer (next answer)

/-- The same calls on a map, with their number. -/
def onMap (session : Session Result) (count : Nat) (map : PlainMap) : Result × Nat × PlainMap :=
  session.exec (fun _ => ())
    (fun _ call map => (call.request.respond map, call.request.effect map)) count map

/-- Whatever it is answered, the client calls for these keys only. -/
def Within (keys : Set Bytes) : Session Result → Prop
  | .ret _ => True
  | .observe next => Within keys (next ())
  | .act call next => call.key ∈ keys ∧ ∀ answer, Within keys (next answer)

theorem onServer_ensures {keys : Set Bytes} {session : Session Result} (count : Nat)
    (within : Within keys session) {map : PlainMap} {world : World}
    (agrees : Agrees keys map world) :
    (onServer session).Ensures (World.sparing keys)
      (fun final result => result = (onMap session count map).1 ∧
        Agrees keys (onMap session count map).2.2 final) world := by
  induction session generalizing count map world with
  | ret result => exact ⟨rfl, agrees⟩
  | observe next inductionHypothesis => exact inductionHypothesis () count within agrees
  | act call next inductionHypothesis =>
      refine (ask_quiet agrees within.1).bind ?_
      rintro middle answer ⟨rfl, later⟩
      exact inductionHypothesis _ (count + 1) (within.2 _) later

end Session

/-- A client whose keys nobody else writes is answered as by a map, whatever
the others do to their keys and whatever is compacted in between, and at the
end its keys are as in the map. -/
theorem isolated_sessions_see_a_map {Result : Type} {keys : Set Bytes} (session : Session Result)
    (within : Session.Within keys session) {world : World} (reachable : Reachable world) :
    (Session.onServer session).Ensures (World.sparing keys)
      (fun final result => result = (Session.onMap session 0 world.plain).1 ∧
        ∀ key ∈ keys, final.plain key = (Session.onMap session 0 world.plain).2.2 key) world := by
  have agrees : Agrees keys world.plain world := ⟨reachable.inv, fun _ _ => rfl⟩
  refine (Session.onServer_ensures 0 within agrees).mono ?_
  rintro final result ⟨answered, later⟩
  exact ⟨answered, later.shown⟩

/-- Put the key if it is absent and delete it if it is there. -/
def toggle (key : Bytes) : Session (Option PlainResponse) := do
  match ← (Program.act (.get key) .ret : Session (Option PlainResponse)) with
  | some (.range [] _) =>
      .act (.put { key := key, value := some (ascii "v"), lease := 0, prevKv := true }) .ret
  | _ => .act (.delete key true) .ret

theorem toggle_within (key : Bytes) : Session.Within {key} (toggle key) := by
  refine ⟨rfl, ?_⟩
  intro answer
  rcases answer with _ | ⟨_ | _, _⟩ | _ | _ <;> exact ⟨rfl, fun _ => trivial⟩

theorem toggle_sees_a_map :
    (Session.onServer (toggle (ascii "k"))).Ensures (World.sparing {ascii "k"})
      (fun final result => result = some (.deleteRange 1 [(ascii "k", ⟨some (ascii "v"), 7⟩)]) ∧
        final.plain (ascii "k") = none) createdWorld := by
  refine (isolated_sessions_see_a_map (toggle (ascii "k")) (toggle_within _)
    createdWorld_reachable).mono ?_
  rintro final result ⟨rfl, shown⟩
  exact ⟨rfl, (shown (ascii "k") rfl).trans rfl⟩

end SpannerEtcd
