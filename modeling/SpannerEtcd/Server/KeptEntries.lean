import SpannerEtcd.Store.History
import SpannerEtcd.Server.Handlers

/-!
# Puts that keep the value or the lease

A put of a transaction that keeps the value or the lease of the current entry
reads the entry and swaps it at the revision it has read.  Other clients may
write the key before, between and after these accesses.
-/

namespace SpannerEtcd

open Program VersionedLog

/-- The put keeps something. -/
def PutRequest.Ignores (request : PutRequest) : Prop :=
  (request.ignoreValue || request.ignoreLease) = true

/-- The row that a put has committed keeps what it should of the row before it,
and nobody has written the key since the put began to read. -/
structure KeepsEntry (request : PutRequest) (rev : Int) (read update after : World)
    (before row : Row) : Prop where
  committed : after.history = update.history ++ [row]
  key : row.key = request.key
  acknowledged : row.rev = rev
  directlyAfter : DirectlyAfter after.history before row
  live : before.deleted = false
  value : request.ignoreValue = true → row.value = before.value
  lease : request.ignoreLease = true → row.leaseId = before.leaseId
  prevRevision : row.prevRevision = some before.rev
  undisturbed : ∀ other ∈ update.history, other.key = request.key → other ∈ read.history

def Acknowledged (request : PutRequest) (response : PutResponse)
    (accesses : List (World × World)) : Prop :=
  ∃ first second update after before row,
    accesses = [(first, first), (second, second), (update, after)] ∧
      KeepsEntry request response.header.revision first update after before row

def WritesNothing (accesses : List (World × World)) : Prop :=
  ∀ access ∈ accesses, access.2.db = access.1.db ∧ access.2.history = access.1.history

/-- The key was written between the read, which is two accesses, and the
update. -/
def Intervened (key : Bytes) (accesses : List (World × World)) : Prop :=
  ∃ first second update rest, accesses = first :: second :: update :: rest ∧
    ∃ row ∈ update.1.history, row.key = key ∧ row ∉ first.1.history

/-! ## The update -/

theorem update_step_cases {world next : World} {key : Bytes} {value : Option Bytes}
    {revision leaseID : Int} {ts : CommitTs}
    (stepped : world.step (.write (.update key value revision leaseID) ts) = some next) :
    (∃ prev, getLatestTxn world.db.kv key = some prev ∧ prev.rev = revision ∧
      world.db.clock < ts.ns ∧
      (WriteOp.update key value revision leaseID).answer world.db ts =
        .ok ⟨tsToRev ts.ns, some prev, true⟩ ∧
      next.history =
        world.history ++ [(updateInsert key value leaseID prev).toRow world.db.nextId ts.ns]) ∨
    ∃ result, (WriteOp.update key value revision leaseID).answer world.db ts = .ok result ∧
      result.ok = false ∧ next.db = world.db ∧ next.history = world.history := by
  simp only [World.step, Option.ite_none_right_eq_some, Option.some.injEq] at stepped
  obtain ⟨later, rfl⟩ := stepped
  cases found : getLatestTxn world.db.kv key with
  | none =>
      right
      have same := update_of_absent ts none value revision leaseID found
      exact ⟨_, congrArg Prod.fst same, rfl, by simp [WriteOp.apply, same],
        by simp [WriteOp.apply, same]⟩
  | some prev =>
      by_cases agrees : prev.rev = revision
      · left
        subst agrees
        have same := update_of_match ts none value leaseID found
        refine ⟨prev, rfl, rfl, later, congrArg Prod.fst same, ?_⟩
        simp [WriteOp.apply, same, DB.commit, committedRows]
      · right
        have same := update_of_mismatch ts none value leaseID found agrees
        exact ⟨_, congrArg Prod.fst same, rfl, by simp [WriteOp.apply, same],
          by simp [WriteOp.apply, same]⟩

/-- Of two entries of a key, read in different states, one revision means one
row. -/
theorem World.Inv.row_eq_of_rev {world : World} (inv : world.Inv) {first second : Row}
    (firstMembership : first ∈ world.history) (secondMembership : second ∈ world.history)
    (sameKey : first.key = second.key) (sameRev : (scanKV first).rev = (scanKV second).rev) :
    first = second := by
  simp only [scanKV, tsToRev_of_exact (inv.exact first firstMembership),
    tsToRev_of_exact (inv.exact second secondMembership)] at sameRev
  exact inv.distinctRows first firstMembership second secondMembership sameKey sameRev

theorem World.Inv.directlyAfter_commit {world : World} (inv : world.Inv) {before row : Row}
    {ts : CommitTs} (later : world.db.clock < ts.ns)
    (latest : latestRow world.history row.key = some before) (dated : row.rev = ts.ns) :
    DirectlyAfter (world.history ++ [row]) before row where
  membership := List.mem_append_left _ (newest_mem latest)
  sameKey := newest_key latest
  earlier := by
    have bounded := inv.bounded before (newest_mem latest)
    omega
  adjacent := by
    intro other membership sameKey earlier
    rcases List.mem_append.mp membership with old | new
    · exact newest_le latest old sameKey rfl
    · rw [List.mem_singleton.mp new] at earlier
      exact absurd earlier (lt_irrefl _)

/-! ## The put -/

def PutRequest.keptValue (request : PutRequest) (cur : KV) : Option Bytes :=
  if request.ignoreValue then cur.value else request.value

def PutRequest.keptLease (request : PutRequest) (cur : KV) : Int :=
  if request.ignoreLease then cur.leaseID else request.lease

/-- The revision that was read names the row that the update replaces: it is
the newest still, so nothing came in between. -/
theorem keepsEntry_of_update {request : PutRequest} {first second update after : World}
    (firstInv : first.Inv) (secondInv : second.Inv) (inv : update.Inv)
    (extended : Extends first second) (further : Extends second update) {cur prev : KV}
    (read : liveKV (latestRowAt second.db.kv request.key (currentRevision first.db)) = some cur)
    (present : getLatestTxn update.db.kv request.key = some prev) (agrees : prev.rev = cur.rev)
    {ts : CommitTs} {id : Nat} (later : update.db.clock < ts.ns)
    (committed : after.history = update.history ++
      [(updateInsert request.key (request.keptValue cur) (request.keptLease cur) prev).toRow id
        ts.ns]) :
    ∃ before row, KeepsEntry request (tsToRev ts.ns) first update after before row := by
  obtain ⟨before, found, live, rfl⟩ := liveKV_eq_some_iff.mp read
  obtain ⟨latest, latestFound, _, rfl⟩ := latestRow_of_getLatestTxn_some present
  have old : before ∈ update.history :=
    further.mem_history (secondInv.mem_history (newest_mem found))
  rw [inv.latestRow_eq] at latestFound
  obtain rfl : latest = before :=
    inv.row_eq_of_rev (newest_mem latestFound) old
      ((newest_key latestFound).trans (newest_key found).symm) agrees
  refine ⟨latest, _, committed, rfl, ?_, ?_, live, ?_, ?_, ?_, ?_⟩
  · exact (tsToRev_of_exact ts.exact).symm
  · rw [committed]
    exact inv.directlyAfter_commit later latestFound rfl
  · intro ignores
    simp [KvInsert.toRow, updateInsert, PutRequest.keptValue, ignores, scanKV]
  · intro ignores
    simp [KvInsert.toRow, updateInsert, PutRequest.keptLease, ignores, scanKV]
  · exact congrArg some (revToTS_rev (inv.exact latest old))
  · intro other membership sameKey
    apply (extended.trans further).mem_of_old membership
    have newer := newest_le latestFound membership sameKey rfl
    have visible : latest.rev ≤ currentRevision first.db := by
      simpa using newest_visible found
    exact newer.trans (visible.trans firstInv.currentRevision_le_clock)

theorem get_interleaved {key : Bytes} {start middle : World}
    {accesses : List (World × World)} {got : Int × Except StoreErr (Option KV)}
    (ran : Interleaved World.environment (Store.get key 0) start accesses middle got) :
    ∃ first, accesses = [(first, first), (middle, middle)] ∧
      World.environment.later start first ∧ World.environment.later first middle ∧
      got.2 = .ok (liveKV (latestRowAt middle.db.kv key (currentRevision first.db))) := by
  cases ran with
  | observe passed rest =>
      cases rest with
      | observe passedAgain rest =>
          cases rest with
          | ret => exact ⟨_, rfl, passed, passedAgain, get_current _ _ _ key⟩

theorem update_interleaved {key : Bytes} {value : Option Bytes} {revision leaseID : Int}
    {start finish : World} {accesses : List (World × World)} {result : Except StoreErr CasResult}
    (ran : Interleaved World.environment (Store.update key value revision leaseID) start accesses
      finish result) :
    (∃ update after prev, ∃ ts : CommitTs, accesses = [(update, after)] ∧
      World.environment.later start update ∧ getLatestTxn update.db.kv key = some prev ∧
      prev.rev = revision ∧ update.db.clock < ts.ns ∧
      result = .ok ⟨tsToRev ts.ns, some prev, true⟩ ∧
      after.history = update.history ++
        [(updateInsert key value leaseID prev).toRow update.db.nextId ts.ns]) ∨
    ∃ failed, result = .ok failed ∧ failed.ok = false ∧ WritesNothing accesses := by
  cases ran with
  | act passed performed rest =>
      obtain ⟨ts, stepped, rfl⟩ := performed
      rcases update_step_cases stepped with
        ⟨prev, present, agrees, later, answered, committed⟩ | ⟨failed, answered, mismatch, same⟩
      · left
        rw [answered] at rest
        cases rest with
        | ret =>
            exact ⟨_, _, prev, ts, rfl, passed, present, agrees, later, rfl, committed⟩
      · right
        rw [answered] at rest
        obtain ⟨rev, prev, ok⟩ := failed
        obtain rfl : ok = false := mismatch
        cases rest with
        | observe passedAgain rest =>
            cases rest with
            | ret =>
                refine ⟨_, rfl, rfl, ?_⟩
                simp [WritesNothing, same]

/-- An acknowledged put keeps what it should, and any other one writes
nothing. -/
theorem putIgnoring_interleaved {request : PutRequest} {start finish : World}
    {accesses : List (World × World)} {reply : Except GrpcErr PutResponse}
    (ran : Interleaved World.environment (putIgnoring request) start accesses finish reply) :
    (∃ response, reply = .ok response ∧ Acknowledged request response accesses) ∨
      ∃ err, reply = .error err ∧ WritesNothing accesses := by
  obtain ⟨reads, rest, middle, ⟨rev, got⟩, rfl, reading, ran⟩ := ran.of_bind
  obtain ⟨first, rfl, passed, passedAgain, read⟩ := get_interleaved reading
  dsimp only at read
  subst read
  cases found : liveKV (latestRowAt middle.db.kv request.key (currentRevision first.db)) with
  | none =>
      rw [found] at ran
      cases ran with
      | ret => exact .inr ⟨_, rfl, by simp [WritesNothing]⟩
  | some cur =>
      rw [found] at ran
      obtain ⟨updates, rest, last, result, rfl, updating, ran⟩ := ran.of_bind
      rcases update_interleaved updating with
        ⟨update, after, prev, ts, rfl, passedThird, present, agrees, later, rfl, committed⟩ |
          ⟨failed, rfl, mismatch, nothing⟩
      · left
        cases ran with
        | ret =>
            have inv := passedThird.1.reaches passedThird.2
            obtain ⟨before, row, kept⟩ := keepsEntry_of_update passedAgain.1 passedThird.1 inv
              (extends_of_reaches passedAgain.2) (extends_of_reaches passedThird.2) found present
              agrees later committed
            exact ⟨_, rfl, first, middle, update, after, before, row, rfl, kept⟩
      · right
        obtain ⟨rev, prev, ok⟩ := failed
        obtain rfl : ok = false := mismatch
        cases ran with
        | ret =>
            refine ⟨_, rfl, ?_⟩
            simpa [WritesNothing] using nothing

theorem Acknowledged.not_intervened {request : PutRequest} {response : PutResponse}
    {accesses : List (World × World)} (acknowledged : Acknowledged request response accesses) :
    ¬Intervened request.key accesses := by
  obtain ⟨first, second, update, after, before, row, rfl, kept⟩ := acknowledged
  rintro ⟨_, _, _, _, same, other, membership, sameKey, new⟩
  simp only [List.cons.injEq] at same
  obtain ⟨rfl, _, rfl, _⟩ := same
  exact new (kept.undisturbed other membership sameKey)

/-! ## The branch of a transaction -/

theorem executeOp_put_interleaved {request : PutRequest} (ignores : request.Ignores)
    {start finish : World} {accesses : List (World × World)} {reply : Except GrpcErr ResponseOp}
    (ran : Interleaved World.environment (executeOp (.put request)) start accesses finish reply) :
    (∃ response, reply = .ok (.put response) ∧ Acknowledged request response accesses) ∨
      ∃ err, reply = .error err ∧ WritesNothing accesses := by
  obtain ⟨own, rest, middle, result, rfl, putting, ran⟩ := ran.of_bind
  cases ran with
  | ret =>
      have keeping : (request.ignoreValue || request.ignoreLease) = true := ignores
      rw [executePut, if_pos keeping] at putting
      rw [List.append_nil]
      rcases putIgnoring_interleaved putting with
        ⟨response, rfl, acknowledged⟩ | ⟨err, rfl, nothing⟩
      · exact .inl ⟨response, rfl, acknowledged⟩
      · exact .inr ⟨err, rfl, nothing⟩

/-- Every operation of a branch that is answered has run by itself, in a part
of the accesses. -/
theorem executeOps_interleaved {ops : List RequestOp} {responses all : List ResponseOp}
    {lastRev rev : Int} {start finish : World} {accesses : List (World × World)}
    (ran : Interleaved World.environment (executeOps responses lastRev ops) start accesses finish
      (.ok (all, rev))) :
    ∃ answers, all = responses ++ answers ∧
      List.Forall₂ (fun op response => ∃ before part after, part <:+: accesses ∧
        Interleaved World.environment (executeOp op) before part after (.ok response))
        ops answers := by
  induction ops generalizing responses lastRev start accesses with
  | nil =>
      obtain ⟨_, _, _, _, _, _, ran⟩ := ran.of_bind
      cases ran with
      | ret => exact ⟨[], by simp, .nil⟩
  | cons op rest inductionHypothesis =>
      obtain ⟨own, others, middle, result, rfl, running, ran⟩ := ran.of_bind
      cases result with
      | error err => cases ran
      | ok response =>
          obtain ⟨answers, rfl, answered⟩ := inductionHypothesis ran
          refine ⟨response :: answers, by simp, .cons ?_ ?_⟩
          · exact ⟨start, own, middle, List.infix_append' [] own others, running⟩
          · refine answered.imp fun op response ran => ?_
            obtain ⟨before, part, after, within, running⟩ := ran
            exact ⟨before, part, after, within.trans (List.suffix_append own others).isInfix,
              running⟩

/-- However other clients interleave, a put that keeps the value or the lease
and is acknowledged has committed a row that keeps it of the row directly
before; one that fails has written nothing, and it fails if the key was written
after the read began. -/
theorem ignoring_puts_keep_entries :
    (∀ (request : PutRequest) (start finish : World) (accesses : List (World × World))
        (reply : Except GrpcErr ResponseOp), request.Ignores →
      Interleaved World.environment (executeOp (.put request)) start accesses finish reply →
      (∀ response, reply = .ok response →
        ∃ answer, response = .put answer ∧ Acknowledged request answer accesses) ∧
      (∀ err, reply = .error err → WritesNothing accesses) ∧
      (Intervened request.key accesses → ∃ err, reply = .error err)) ∧
    ∀ (ops : List RequestOp) (start finish : World) (accesses : List (World × World))
        (responses : List ResponseOp) (rev : Int),
      Interleaved World.environment (executeOps [] 0 ops) start accesses finish
        (.ok (responses, rev)) →
      List.Forall₂ (fun op response => ∀ request, op = .put request → request.Ignores →
        ∃ answer part, response = .put answer ∧ part <:+: accesses ∧
          Acknowledged request answer part) ops responses := by
  constructor
  · intro request start finish accesses reply ignores ran
    rcases executeOp_put_interleaved ignores ran with
      ⟨answer, rfl, acknowledged⟩ | ⟨err, rfl, nothing⟩
    · refine ⟨?_, ?_, ?_⟩
      · rintro response ⟨⟩
        exact ⟨answer, rfl, acknowledged⟩
      · intro err failed
        cases failed
      · intro intervened
        exact absurd intervened acknowledged.not_intervened
    · refine ⟨?_, fun _ _ => nothing, fun _ => ⟨err, rfl⟩⟩
      intro response succeeded
      cases succeeded
  · intro ops start finish accesses responses rev ran
    obtain ⟨answers, rfl, answered⟩ := executeOps_interleaved ran
    refine answered.imp ?_
    rintro op response ⟨before, part, after, within, running⟩ request rfl ignores
    rcases executeOp_put_interleaved ignores running with
      ⟨answer, same, acknowledged⟩ | ⟨err, failed, _⟩
    · obtain rfl := Except.ok.inj same
      exact ⟨answer, part, rfl, within, acknowledged⟩
    · cases failed

/-- A put of `k` with a new lease that keeps the value. -/
def ignoringPut : PutRequest :=
  { key := ascii "k", value := none, lease := 9, prevKv := false, ignoreValue := true
    ignoreLease := false }

def keptWorld : World :=
  (createdWorld.step (.write (.update (ascii "k") (some (ascii "v")) 5 9) 6)).getD createdWorld

theorem ignoringPut_interleaved :
    Interleaved World.environment (executeOps [] 0 [.put ignoringPut]) createdWorld
      [(createdWorld, createdWorld), (createdWorld, createdWorld), (createdWorld, keptWorld)]
      keptWorld (.ok ([.put (putResponse ignoringPut 6 none)], 6)) := by
  have passed : World.environment.later createdWorld createdWorld :=
    ⟨createdWorld_reachable.inv, [], rfl⟩
  exact .observe passed (.observe passed (.act passed ⟨6, rfl, rfl⟩ (.ret _ _)))

theorem ignoringPut_keeps_entry : ∃ answer part, Acknowledged ignoringPut answer part := by
  have answered := ignoring_puts_keep_entries.2 _ _ _ _ _ _ ignoringPut_interleaved
  cases answered with
  | cons first _ =>
      obtain ⟨answer, part, _, _, acknowledged⟩ := first ignoringPut rfl rfl
      exact ⟨answer, part, acknowledged⟩

end SpannerEtcd
