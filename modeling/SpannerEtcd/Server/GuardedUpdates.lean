import SpannerEtcd.Server.Isolation
import SpannerEtcd.Server.KeptEntries
import SpannerEtcd.Server.CompareAndSwap

/-!
# Updates guarded by a revision

Clients change a key by reading it, computing a new value and putting that in a
transaction that compares the revision; the failure branch reads the key, and
the client tries again with what it has read.  Whatever others write meanwhile,
an update that succeeds replaces the very entry that it was computed from, and
every attempt that fails is owed to a write of somebody else.
-/

namespace SpannerEtcd

open VersionedLog Program

/-! ## The client -/

def modRevisionOf (current : Option KeyValue) : Int :=
  (current.map KeyValue.modRevision).getD 0

/-- `If(ModRevision(key) = r).Then(Put(key, value)).Else(Get(key))`. -/
def guardedPut (key : Bytes) (current : Option KeyValue) (new : Plain) : TxnRequest :=
  { compare :=
      [{ target := .mod, result := .equal, key := key
         targetUnion := .modRevision (modRevisionOf current) }]
    success := [.put { key := key, value := new.value, lease := new.lease, prevKv := false }]
    failure := [.range (getRequest key)] }

/-- What the failure branch has read. -/
def TxnResponse.found (response : TxnResponse) : Option KeyValue :=
  match response.responses with
  | [.range read] => read.kvs.head?
  | _ => none

/-- Attempts until one succeeds; it returns the entry that it has replaced and
the revision of the new one. -/
def attempt (key : Bytes) (compute : Option KeyValue → Plain) :
    Nat → Option KeyValue → Call (Option (Option KeyValue × Int))
  | 0, _ => return none
  | attempts + 1, current => do
      match ← txn (guardedPut key current (compute current)) with
      | .error _ => return none
      | .ok response =>
          if response.succeeded then return some (current, response.header.revision)
          else attempt key compute attempts response.found

def guardedUpdate (key : Bytes) (compute : Option KeyValue → Plain) (attempts : Nat) :
    Call (Option (Option KeyValue × Int)) := do
  match ← range (getRequest key) with
  | .error _ => return none
  | .ok response => attempt key compute attempts response.kvs.head?

/-! ## One attempt -/

section Attempt

variable {key : Bytes} {current : Option KeyValue} {new : Plain}

/-- The operation of the success branch, as the store gets it. -/
def guardPutOp (key : Bytes) (new : Plain) : TxnOp :=
  { type := .put, key := key, value := new.value, leaseID := new.lease }

/-- The operation of the failure branch. -/
def guardReadOp (key : Bytes) : TxnOp := { type := .get, key := key, value := none, leaseID := 0 }

def guards (key : Bytes) (current : Option KeyValue) : List TxnCompare :=
  [Compare.toStore
    { target := .mod, result := .equal, key := key
      targetUnion := .modRevision (modRevisionOf current) }]

theorem guards_hold_iff (rows : List Row) :
    evaluateCompares rows (guards key current) = true ↔
      prevModRev (getLatestTxn rows key) = modRevisionOf current := by
  simp only [guards, evaluateCompares, Compare.toStore, CompareTarget.unsupported, Compare.holds,
    compareInt, Compare.getModRevision, Bool.not_eq_true']
  by_cases same : prevModRev (getLatestTxn rows key) = modRevisionOf current <;> simp [same]

theorem atomicTxn_of_match (new : Plain) {db : DB} (ts : CommitTs)
    (same : prevModRev (getLatestTxn db.kv key) = modRevisionOf current) :
    atomicTxn db ts (guards key current) [guardPutOp key new] [guardReadOp key] =
      (.ok ⟨true, [⟨getLatestTxn db.kv key, true⟩], tsToRev ts.ns⟩,
        db.commit ts [putInsert key new.value new.lease (getLatestTxn db.kv key)]) := by
  have held := (guards_hold_iff db.kv).mpr same
  have chosen : chosenOps db.kv (guards key current) [guardPutOp key new] [guardReadOp key] =
      [guardPutOp key new] := if_pos held
  have checked : branchCheck [guardPutOp key new] = .ok () := rfl
  rw [← chosen] at checked
  refine (atomicTxn_of_ok ts rfl checked).trans ?_
  rw [chosen, held]
  rfl

theorem atomicTxn_of_mismatch (new : Plain) {db : DB} (ts : CommitTs)
    (different : prevModRev (getLatestTxn db.kv key) ≠ modRevisionOf current) :
    atomicTxn db ts (guards key current) [guardPutOp key new] [guardReadOp key] =
      (.ok ⟨false, [⟨getLatestTxn db.kv key, (getLatestTxn db.kv key).isSome⟩],
          txnRevision db.kv ts []⟩, db.commit ts []) := by
  have failed : evaluateCompares db.kv (guards key current) = false :=
    Bool.eq_false_iff.mpr (mt (guards_hold_iff db.kv).mp different)
  have chosen : chosenOps db.kv (guards key current) [guardPutOp key new] [guardReadOp key] =
      [guardReadOp key] := if_neg (by simp [failed])
  have checked : branchCheck [guardReadOp key] = .ok () := rfl
  rw [← chosen] at checked
  refine (atomicTxn_of_ok ts rfl checked).trans ?_
  rw [chosen, failed]
  rfl

/-- What the handler makes of the result. -/
def txnReply (request : TxnRequest) (result : AtomicTxnResult) :
    Call (Except GrpcErr TxnResponse) := do
  let commitRev ← revisionOrCurrent result.commitRev
  return .ok
    { header := header commitRev
      succeeded := result.succeeded
      responses := txnResponseOps commitRev (request.chosen result.succeeded) result.results }

/-- The request takes the atomic path. -/
theorem txn_guardedPut :
    txn (guardedPut key current new) = (do
      match ← Store.atomicTxn (guards key current) [guardPutOp key new] [guardReadOp key] with
      | .error err => return .error (passThrough err)
      | .ok result => txnReply (guardedPut key current new) result) := by
  have simple : txnNeedsNonAtomicFallback (guardedPut key current new) = false := rfl
  have compiled : (guardedPut key current new).toStore =
      .ok (guards key current, [guardPutOp key new], [guardReadOp key]) := rfl
  unfold txn txnAtomic
  rw [if_neg (by simp [simple]), compiled]
  rfl

theorem txnReply_of_ne {request : TxnRequest} {result : AtomicTxnResult}
    (known : result.commitRev ≠ 0) :
    txnReply request result = .ret (.ok
      { header := header result.commitRev
        succeeded := result.succeeded
        responses := txnResponseOps result.commitRev (request.chosen result.succeeded)
          result.results }) := by
  unfold txnReply revisionOrCurrent
  rw [if_neg known]
  rfl

/-- The transaction finds the revision and commits the put, or it finds
another one and reads the entry. -/
inductive Attempted (key : Bytes) (current : Option KeyValue) (new : Plain) (before after : World) :
    TxnResponse → Prop where
  | won {response : TxnResponse} {ts : CommitTs} (later : before.db.clock < ts.ns)
      (same : prevModRev (getLatestTxn before.db.kv key) = modRevisionOf current)
      (committed : after.history = before.history ++
        [(putInsert key new.value new.lease (getLatestTxn before.db.kv key)).toRow
          before.db.nextId ts.ns])
      (succeeded : response.succeeded = true)
      (dated : response.header.revision = tsToRev ts.ns) :
      Attempted key current new before after response
  | lost {response : TxnResponse}
      (different : prevModRev (getLatestTxn before.db.kv key) ≠ modRevisionOf current)
      (unchanged : after.history = before.history) (failed : response.succeeded = false)
      (found : response.found = (getLatestTxn before.db.kv key).map toProtoKV) :
      Attempted key current new before after response

theorem attempt_interleaved {start finish : World} {accesses : List (World × World)}
    {reply : Except GrpcErr TxnResponse}
    (ran : Interleaved World.environment (txn (guardedPut key current new)) start accesses finish
      reply) :
    ∃ before response, World.environment.later start before ∧ accesses = [(before, finish)] ∧
      before.Inv ∧ finish.Inv ∧ Extends before finish ∧ reply = .ok response ∧
      Attempted key current new before finish response := by
  rw [txn_guardedPut] at ran
  obtain ⟨own, others, middle, result, rfl, acting, ran⟩ := ran.of_bind
  cases acting with
  | @act _ _ _ before _ _ _ _ _ passed performed rest =>
      cases rest with
      | ret =>
          obtain ⟨ts, stepped, rfl⟩ := performed
          have inv := passed.1.reaches passed.2
          have extended := (World.step_effect stepped).extends
          have middleInv := inv.step stepped
          obtain ⟨later, rfl⟩ := step_write_eq stepped
          by_cases same : prevModRev (getLatestTxn before.db.kv key) = modRevisionOf current
          · have done := atomicTxn_of_match new ts same
            have dated : tsToRev ts.ns ≠ 0 := by
              rw [tsToRev_of_exact ts.exact]
              have := ts.exact.1
              omega
            rw [WriteOp.answer, done] at ran
            dsimp only at ran
            rw [txnReply_of_ne dated] at ran
            cases ran with
            | ret =>
                refine ⟨before, _, passed, rfl, inv, middleInv, extended, rfl,
                  .won later same ?_ rfl rfl⟩
                simp [World.write, WriteOp.apply, done, DB.commit, committedRows]
          · have done := atomicTxn_of_mismatch new ts same
            have dated : txnRevision before.db.kv ts [] ≠ 0 := by
              simp only [txnRevision, List.isEmpty_nil, if_true]
              split <;> omega
            rw [WriteOp.answer, done] at ran
            dsimp only at ran
            rw [txnReply_of_ne dated] at ran
            cases ran with
            | ret =>
                refine ⟨before, _, passed, rfl, inv, middleInv, extended, rfl,
                  .lost same ?_ rfl ?_⟩
                · simp [World.write, WriteOp.apply, done, DB.commit, committedRows]
                · cases getLatestTxn before.db.kv key <;> rfl

end Attempt

/-! ## Many attempts -/

/-- How often the key was written. -/
def World.writesOf (world : World) (key : Bytes) : Nat :=
  world.history.countP fun row => decide (row.key = key)

section Writes

variable {world next : World} {key : Bytes}

theorem Extends.writesOf_le (extended : Extends world next) :
    world.writesOf key ≤ next.writesOf key := by
  obtain ⟨added, grown, _⟩ := extended.history
  unfold World.writesOf
  rw [grown, List.countP_append]
  exact Nat.le_add_right _ _

theorem Extends.quiet (extended : Extends world next)
    (same : next.writesOf key = world.writesOf key) : Quiet world next key := by
  obtain ⟨added, grown, _⟩ := extended.history
  have other : ∀ row ∈ added, row.key ≠ key := by
    unfold World.writesOf at same
    rw [grown, List.countP_append, Nat.add_eq_left, List.countP_eq_zero] at same
    intro row membership
    simpa using same row membership
  unfold Quiet latestRow
  rw [grown]
  exact (newest_append_of_hidden fun row membership sameKey =>
    absurd sameKey (other row membership)).symm

end Writes

/-- What the client knows: an entry that the key has had, and which is still
there as long as the key was not written more than `base` times. -/
structure Knows (key : Bytes) (current : Option KeyValue) (base : Nat) (world : World) : Prop where
  shown : ∀ kv, current = some kv →
    ∃ row ∈ world.history, row.key = key ∧ toProtoKV (scanKV row) = kv
  reached : base ≤ world.writesOf key
  matching : ∀ later, later.Inv → Extends world later → later.writesOf key = base →
    prevModRev (getLatestTxn later.db.kv key) = modRevisionOf current

section Knows

variable {key : Bytes} {current : Option KeyValue} {base : Nat} {world next : World}

theorem Knows.later (knows : Knows key current base world) (extended : Extends world next) :
    Knows key current base next where
  shown := by
    intro kv known
    obtain ⟨row, membership, sameKey, shows⟩ := knows.shown kv known
    exact ⟨row, extended.mem_history membership, sameKey, shows⟩
  reached := knows.reached.trans extended.writesOf_le
  matching later inv further same := knows.matching later inv (extended.trans further) same

theorem modRevisionOf_entry (entry : Option KV) :
    modRevisionOf (entry.map toProtoKV) = prevModRev entry := by
  cases entry <;> rfl

theorem Knows.of_entry (inv : world.Inv) :
    Knows key ((getLatestTxn world.db.kv key).map toProtoKV) (world.writesOf key) world where
  shown := by
    intro kv known
    obtain ⟨entry, found, rfl⟩ := Option.map_eq_some_iff.mp known
    obtain ⟨row, latest, _, rfl⟩ := latestRow_of_getLatestTxn_some found
    exact ⟨row, inv.mem_history (newest_mem latest), newest_key latest, rfl⟩
  reached := le_refl _
  matching later laterInv further same := by
    rw [(further.quiet same).entry inv laterInv, modRevisionOf_entry]

/-- A revision names one entry of the key. -/
theorem Knows.replaced (knows : Knows key current base world) (inv : world.Inv)
    (same : prevModRev (getLatestTxn world.db.kv key) = modRevisionOf current) :
    (getLatestTxn world.db.kv key).map toProtoKV = current := by
  cases present : getLatestTxn world.db.kv key with
  | none =>
      rw [present] at same
      cases shows : current with
      | none => rfl
      | some kv =>
          obtain ⟨row, membership, _, rfl⟩ := knows.shown kv shows
          have exact := inv.exact row membership
          rw [shows] at same
          have revision : (0 : Int) = tsToRev row.rev := same
          rw [tsToRev_of_exact exact] at revision
          exact absurd exact.1 (by omega)
  | some prev =>
      rw [present] at same
      cases shows : current with
      | none =>
          rw [shows] at same
          have revision : prev.rev = 0 := same
          have exact := (inv.entry_exact present).1.1
          omega
      | some kv =>
          obtain ⟨row, membership, sameKey, rfl⟩ := knows.shown kv shows
          obtain ⟨latest, found, _, rfl⟩ := latestRow_of_getLatestTxn_some present
          rw [shows] at same
          rw [inv.row_eq_of_rev (inv.mem_history (newest_mem found)) membership
            ((newest_key found).trans sameKey.symm) same]
          rfl

end Knows

/-- The new entry takes the place of the one that was read. -/
structure Replaces (key : Bytes) (current : Option KeyValue) (new : Plain) (rev : Int)
    (before after : World) : Prop where
  replaced : (getLatestTxn before.db.kv key).map toProtoKV = current
  committed : ∃ row, after.history = before.history ++ [row] ∧ row.key = key ∧ row.rev = rev ∧
    row.deleted = false ∧ row.value = new.value ∧ row.leaseId = new.lease

def Untouched (accesses : List (World × World)) : Prop :=
  ∀ access ∈ accesses, access.2.history = access.1.history

/-- The last access replaces the entry and the others write nothing, or nothing
is written at all and others have written the key `attempts` times. -/
inductive Updated (key : Bytes) (compute : Option KeyValue → Plain) (base attempts : Nat)
    (finish : World) : List (World × World) → Option (Option KeyValue × Int) → Prop where
  | done {current : Option KeyValue} {rev : Int} {earlier : List (World × World)} {before : World}
      (untouched : Untouched earlier)
      (replaces : Replaces key current (compute current) rev before finish) :
      Updated key compute base attempts finish (earlier ++ [(before, finish)]) (some (current, rev))
  | givenUp {accesses : List (World × World)} (untouched : Untouched accesses)
      (overtaken : base + attempts ≤ finish.writesOf key) :
      Updated key compute base attempts finish accesses none

/-- A failed attempt before. -/
theorem Updated.cons {key : Bytes} {compute : Option KeyValue → Plain} {base later attempts : Nat}
    {finish : World} {accesses : List (World × World)} {result : Option (Option KeyValue × Int)}
    (updated : Updated key compute later attempts finish accesses result) {before after : World}
    (unchanged : after.history = before.history) (more : base + 1 ≤ later) :
    Updated key compute base (attempts + 1) finish ((before, after) :: accesses) result := by
  cases updated with
  | @done _ _ earlier _ untouched replaces =>
      have all : Untouched ((before, after) :: earlier) :=
        List.forall_mem_cons.mpr ⟨unchanged, untouched⟩
      exact .done all replaces
  | givenUp untouched overtaken =>
      exact .givenUp (List.forall_mem_cons.mpr ⟨unchanged, untouched⟩) (by omega)

theorem attempts_interleaved {key : Bytes} {compute : Option KeyValue → Plain} {attempts : Nat}
    {current : Option KeyValue} {base : Nat} {start finish : World}
    (knows : Knows key current base start) {accesses : List (World × World)}
    {result : Option (Option KeyValue × Int)}
    (ran : Interleaved World.environment (attempt key compute attempts current) start accesses
      finish result) :
    Updated key compute base attempts finish accesses result := by
  have nothing : Untouched [] := by simp [Untouched]
  induction attempts generalizing current base start accesses with
  | zero =>
      cases ran with
      | ret => exact .givenUp nothing knows.reached
  | succ attempts inductionHypothesis =>
      obtain ⟨own, others, middle, reply, rfl, attempting, ran⟩ := ran.of_bind
      obtain ⟨before, response, passed, rfl, inv, middleInv, extended, rfl, attempted⟩ :=
        attempt_interleaved attempting
      have known := knows.later (extends_of_reaches passed.2)
      cases attempted with
      | @won ts later same committed succeeded dated =>
          dsimp only at ran
          rw [if_pos succeeded] at ran
          cases ran with
          | ret =>
              have replaces : Replaces key current (compute current) response.header.revision before
                  finish := by
                refine ⟨known.replaced inv same, _, committed, rfl, ?_, rfl, rfl, rfl⟩
                rw [dated, tsToRev_of_exact ts.exact]
                rfl
              exact .done nothing replaces
      | lost different unchanged failed found =>
          dsimp only at ran
          rw [if_neg (by simp [failed]), found] at ran
          have more : base + 1 ≤ before.writesOf key := by
            apply Nat.lt_of_le_of_ne known.reached
            exact fun same => different (known.matching before inv (.refl before) same.symm)
          have again : Knows key ((getLatestTxn before.db.kv key).map toProtoKV)
              (before.writesOf key) middle := (Knows.of_entry inv).later extended
          exact (inductionHypothesis again ran).cons unchanged more

/-- The first read may come from between two writes, but not without one. -/
theorem range_knows {key : Bytes} {start middle : World} (inv : start.Inv)
    {accesses : List (World × World)} {reply : Except GrpcErr RangeResponse}
    (ran : Interleaved World.environment (range (getRequest key)) start accesses middle reply) :
    ∃ response, reply = .ok response ∧ Untouched accesses ∧
      Knows key response.kvs.head? (start.writesOf key) middle := by
  have single : (getRequest key).rangeEnd = [] := rfl
  unfold range at ran
  rw [if_pos single] at ran
  obtain ⟨own, others, reached, ⟨curRev, got⟩, rfl, getting, ran⟩ := ran.of_bind
  obtain ⟨first, rfl, passed, passedAgain, read⟩ := get_interleaved getting
  have firstInv := inv.reaches passed.2
  have reachedInv := firstInv.reaches passedAgain.2
  obtain rfl : got = .ok (liveKV (latestRowAt reached.db.kv key (currentRevision first.db))) := read
  generalize entered : liveKV (latestRowAt reached.db.kv key (currentRevision first.db)) = entry
    at ran
  have extended := extends_of_reaches passed.2
  have extendedAgain := extends_of_reaches passedAgain.2
  have knows : Knows key (entry.map toProtoKV) (start.writesOf key) reached := by
    refine ⟨?_, (extended.trans extendedAgain).writesOf_le, ?_⟩
    · intro kv known
      obtain ⟨shown, rfl, rfl⟩ := Option.map_eq_some_iff.mp known
      obtain ⟨row, found, _, rfl⟩ := liveKV_eq_some_iff.mp entered
      exact ⟨row, reachedInv.mem_history (newest_mem found), newest_key found, rfl⟩
    · intro later laterInv further same
      have whole := (extended.trans extendedAgain).trans further
      have quiet : Quiet start later key := whole.quiet same
      have read := quiet.read firstInv reachedInv extended extendedAgain further
      rw [modRevisionOf_entry, ← entered, read, laterInv.getLatestTxn_eq]
      rfl
  have untouched : Untouched [(first, first), (reached, reached)] := by simp [Untouched]
  cases entry with
  | none =>
      cases ran with
      | ret => exact ⟨_, rfl, by simpa using untouched, knows⟩
  | some kv =>
      obtain ⟨row, found, live, rfl⟩ := liveKV_eq_some_iff.mp entered
      have shown : (scanKV row).deleted = false := live
      dsimp only at ran
      rw [if_neg (by simp [shown])] at ran
      cases ran with
      | ret => exact ⟨_, rfl, by simpa using untouched, knows⟩

/-- Whatever others write, an update that succeeds has replaced the very entry
that it was computed from, and it is the only thing that the client has
written; one that gives up has written nothing, and others have written the key
at least once for each of its attempts. -/
theorem guarded_updates_lose_nothing {key : Bytes} {compute : Option KeyValue → Plain}
    {attempts : Nat} {start finish : World} (reachable : Reachable start)
    {accesses : List (World × World)} {result : Option (Option KeyValue × Int)}
    (ran : Interleaved World.environment (guardedUpdate key compute attempts) start accesses finish
      result) :
    Updated key compute (start.writesOf key) attempts finish accesses result := by
  obtain ⟨own, others, middle, reply, rfl, reading, ran⟩ := ran.of_bind
  obtain ⟨response, rfl, untouched, knows⟩ := range_knows reachable.inv reading
  cases attempts_interleaved knows ran with
  | @done _ _ earlier _ untouchedLater replaces =>
      rw [← List.append_assoc]
      exact .done (List.forall_mem_append.mpr ⟨untouched, untouchedLater⟩) replaces
  | givenUp untouchedLater overtaken =>
      exact .givenUp (List.forall_mem_append.mpr ⟨untouched, untouchedLater⟩) overtaken

/-- The value with a mark behind it. -/
def marked (current : Option KeyValue) : Plain :=
  ⟨some (((current.bind KeyValue.value).getD []) ++ ascii "!"), 0⟩

/-- The entry `w` of revision 6, which another client has put after the first
read. -/
def overtakingKV : KeyValue := ⟨ascii "k", some (ascii "w"), 6, 5, 2, 0⟩

def overtakenWorld : World :=
  createdWorld.write (.update (ascii "k") (some (ascii "w")) 5 0) 6

def attemptedWorld : World :=
  overtakenWorld.write
    (.atomicTxn (guards (ascii "k") (some ⟨ascii "k", some (ascii "v"), 5, 5, 1, 7⟩))
      [guardPutOp (ascii "k") ⟨some (ascii "v!"), 0⟩] [guardReadOp (ascii "k")]) 7

def markedWorld : World :=
  attemptedWorld.write (.atomicTxn (guards (ascii "k") (some overtakingKV))
    [guardPutOp (ascii "k") (marked (some overtakingKV))] [guardReadOp (ascii "k")]) 8

theorem marked_interleaved :
    Interleaved World.environment (guardedUpdate (ascii "k") marked 2) createdWorld
      [(createdWorld, createdWorld), (createdWorld, createdWorld),
        (overtakenWorld, attemptedWorld), (attemptedWorld, markedWorld)] markedWorld
      (some (some overtakingKV, 8)) := by
  have passed : World.environment.later createdWorld createdWorld :=
    ⟨createdWorld_reachable.inv, [], rfl⟩
  have overtaken : World.environment.later createdWorld overtakenWorld :=
    ⟨createdWorld_reachable.inv, [.write (.update (ascii "k") (some (ascii "w")) 5 0) 6], rfl⟩
  have overtakenInv := createdWorld_reachable.inv.reaches overtaken.2
  have attemptedInv : attemptedWorld.Inv :=
    overtakenInv.step (World.step_write _ (by decide : overtakenWorld.db.clock < (7 : CommitTs).ns))
  have passedAgain : World.environment.later attemptedWorld attemptedWorld :=
    ⟨attemptedInv, [], rfl⟩
  exact .observe passed (.observe passed (.act overtaken ⟨7, rfl, rfl⟩
    (.act passedAgain ⟨8, rfl, rfl⟩ (.ret _ _))))

theorem marked_replaces_overtaking :
    ∃ before, Replaces (ascii "k") (some overtakingKV) ⟨some (ascii "w!"), 0⟩ 8 before
      markedWorld := by
  obtain ⟨accesses, updated⟩ : ∃ accesses, Updated (ascii "k") marked
      (createdWorld.writesOf (ascii "k")) 2 markedWorld accesses (some (some overtakingKV, 8)) :=
    ⟨_, guarded_updates_lose_nothing createdWorld_reachable marked_interleaved⟩
  cases updated with
  | done untouched replaces => exact ⟨_, replaces⟩

end SpannerEtcd
