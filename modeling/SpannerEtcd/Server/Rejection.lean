import SpannerEtcd.Server.Execution
import SpannerEtcd.Server.PathsAgree

/-!
# Transactions that are rejected

The atomic path finds everything that it refuses before it writes.  The other
path finds an operation that is not supported only when its turn comes, after
the operations before it have been carried out.
-/

namespace SpannerEtcd

/-! ## Operations in their turn -/

/-- The first error of a branch. -/
def firstRefusal (db : DB) (map : PlainMap) : List RequestOp → Option Code
  | [] => none
  | op :: rest =>
      match op.refusal db map with
      | some code => some code
      | none => firstRefusal db (op.fullEffect map) rest

/-- Some operation writes before the branch ends or is refused. -/
def WritesInTurn (db : DB) (map : PlainMap) : List RequestOp → Prop
  | [] => False
  | op :: rest =>
      op.refusal db map = none ∧ (op.Writes map ∨ WritesInTurn db (op.fullEffect map) rest)

theorem refusedAt_congr {db other : DB} (horizon : other.kvRev = db.kvRev) (revision : Int) :
    refusedAt other revision = refusedAt db revision := by
  have same : compactRevision other = compactRevision db := by
    unfold compactRevision
    rw [horizon]
  simp only [refusedAt, same]

/-- Writes do not move the horizon, so only the map matters in its turn. -/
theorem RequestOp.refusal_congr {db other : DB} (horizon : other.kvRev = db.kvRev)
    (map : PlainMap) (op : RequestOp) : op.refusal other map = op.refusal db map := by
  cases op with
  | range request => simp only [RequestOp.refusal, refusedAt_congr horizon]
  | put request => rfl
  | deleteRange request => rfl
  | unsupported => rfl

theorem firstRefusal_congr {db other : DB} (horizon : other.kvRev = db.kvRev) (map : PlainMap)
    (ops : List RequestOp) : firstRefusal other map ops = firstRefusal db map ops := by
  induction ops generalizing map with
  | nil => rfl
  | cons op rest inductionHypothesis =>
      simp only [firstRefusal, op.refusal_congr horizon, inductionHypothesis]

theorem writesInTurn_congr {db other : DB} (horizon : other.kvRev = db.kvRev) (map : PlainMap)
    (ops : List RequestOp) : WritesInTurn other map ops ↔ WritesInTurn db map ops := by
  induction ops generalizing map with
  | nil => rfl
  | cons op rest inductionHypothesis =>
      simp only [WritesInTurn, op.refusal_congr horizon, inductionHypothesis]

/-- A log that only grows is the same in the end if it is the same after each
part. -/
theorem eq_iff_of_grows {Item : Type} {first second third : List Item} (grown : first <+: second)
    (grownAgain : second <+: third) : third = first ↔ second = first ∧ third = second := by
  constructor
  · intro same
    subst same
    have middle : second = third := grownAgain.eq_of_length_le grown.length_le
    exact ⟨middle, middle.symm⟩
  · intro same
    exact same.2.trans same.1

section Branch

variable {supply : Nat → CommitTs} {count bound : Nat} {world : World}

/-- The branch stops at its first error, and the log is as before exactly if
nothing was written until then. -/
theorem executeOps_inTurn (ready : Ready supply count bound world) (ops : List RequestOp)
    (done : List ResponseOp) (lastRev : Int)
    (enough : (alone supply (executeOps done lastRev ops) count world).2.1 ≤ bound) :
    codeOf (alone supply (executeOps done lastRev ops) count world).1 =
        firstRefusal world.db world.plain ops ∧
      ((alone supply (executeOps done lastRev ops) count world).2.2.db.kv = world.db.kv ↔
        ¬WritesInTurn world.db world.plain ops) := by
  induction ops generalizing count world done lastRev with
  | nil =>
      obtain ⟨current, read⟩ := alone_revisionOrCurrent supply lastRev
      rw [executeOps, alone_bind_of read]
      exact ⟨rfl, by simp [WritesInTurn]⟩
  | cons op rest inductionHypothesis =>
      rw [executeOps] at enough ⊢
      have spent := alone_bind_spent enough
      have grows := alone_grows (executeOp op) ready spent
      have executed := executeOp_executed ready op spent
      rw [alone_bind] at enough ⊢
      cases refusal : op.refusal world.db world.plain with
      | some code =>
          obtain ⟨⟨err, replied, same⟩, unchanged⟩ := executed.refused code refusal
          rw [replied, unchanged]
          simp [codeOf, firstRefusal, WritesInTurn, refusal, same]
      | none =>
          obtain ⟨⟨response, replied⟩, left, written⟩ := executed.accepted refusal
          rw [replied] at enough ⊢
          obtain ⟨stopped, later⟩ := inductionHypothesis grows.ready (done ++ [response])
            response.header.revision enough
          have laterGrows := alone_grows _ grows.ready enough
          rw [firstRefusal_congr grows.horizon, left] at stopped
          rw [writesInTurn_congr grows.horizon, left] at later
          refine ⟨?_, ?_⟩
          · simpa only [firstRefusal, refusal] using stopped
          · dsimp only at laterGrows ⊢
            rw [eq_iff_of_grows grows.kept laterGrows.kept, written, later]
            simp only [WritesInTurn, refusal, true_and, not_or]

end Branch

/-! ## Up to the operation that is not supported -/

section Unsupported

variable {db : DB} {map : PlainMap} {before after ops : List RequestOp}

theorem RequestOp.refusal_eq_invalidArgument_iff {op : RequestOp} :
    op.refusal db map = some .invalidArgument ↔ op = .unsupported := by
  cases op with
  | range request => simp [RequestOp.refusal]
  | put request => simp [RequestOp.refusal]
  | deleteRange request => simp [RequestOp.refusal]
  | unsupported => simp [RequestOp.refusal]

theorem firstRefusal_unsupported (passed : firstRefusal db map before = none) :
    firstRefusal db map (before ++ .unsupported :: after) = some .invalidArgument := by
  induction before generalizing map with
  | nil => rfl
  | cons op rest inductionHypothesis =>
      cases refusal : op.refusal db map with
      | some code => simp [firstRefusal, refusal] at passed
      | none =>
          simp only [firstRefusal, refusal, List.cons_append] at passed ⊢
          exact inductionHypothesis passed

theorem exists_unsupported (refused : firstRefusal db map ops = some .invalidArgument) :
    ∃ before after, ops = before ++ .unsupported :: after ∧ .unsupported ∉ before ∧
      firstRefusal db map before = none := by
  induction ops generalizing map with
  | nil => cases refused
  | cons op rest inductionHypothesis =>
      cases refusal : op.refusal db map with
      | some code =>
          simp only [firstRefusal, refusal] at refused
          obtain rfl := RequestOp.refusal_eq_invalidArgument_iff.mp (refusal.trans refused)
          exact ⟨[], rest, rfl, List.not_mem_nil, rfl⟩
      | none =>
          simp only [firstRefusal, refusal] at refused
          obtain ⟨before, after, rfl, supported, passed⟩ := inductionHypothesis refused
          refine ⟨op :: before, after, rfl, ?_, ?_⟩
          · intro listed
            obtain rfl | later := List.mem_cons.mp listed
            · cases refusal
            · exact supported later
          · simpa only [firstRefusal, refusal] using passed

/-- As long as nothing writes, the map stays as it was, so the operations may
all be judged by the map at the start. -/
theorem writesInTurn_unsupported (passed : firstRefusal db map before = none) :
    WritesInTurn db map (before ++ .unsupported :: after) ↔ ∃ op ∈ before, op.Writes map := by
  induction before generalizing map with
  | nil => simp [WritesInTurn, RequestOp.refusal]
  | cons op rest inductionHypothesis =>
      cases refusal : op.refusal db map with
      | some code => simp [firstRefusal, refusal] at passed
      | none =>
          simp only [firstRefusal, refusal] at passed
          simp only [List.cons_append, WritesInTurn, refusal, true_and, List.exists_mem_cons_iff,
            inductionHypothesis passed]
          by_cases writes : op.Writes map
          · simp [writes]
          · rw [RequestOp.fullEffect_of_not_writes writes]

theorem stopsBeforeWriting_iff :
    (firstRefusal db map ops = some .invalidArgument → ¬WritesInTurn db map ops) ↔
      ∀ before after, ops = before ++ .unsupported :: after → .unsupported ∉ before →
        firstRefusal db map before ≠ none ∨ ∀ op ∈ before, ¬op.Writes map := by
  constructor
  · intro silent before after split _
    subst split
    by_cases passed : firstRefusal db map before = none
    · have unwritten := silent (firstRefusal_unsupported passed)
      rw [writesInTurn_unsupported passed] at unwritten
      exact .inr fun op listed writes => unwritten ⟨op, listed, writes⟩
    · exact .inl passed
  · intro condition refused
    obtain ⟨before, after, split, supported, passed⟩ := exists_unsupported refused
    have unwritten := (condition before after split supported).resolve_left
      fun other => other passed
    subst split
    rw [writesInTurn_unsupported passed]
    intro written
    obtain ⟨op, listed, writes⟩ := written
    exact unwritten op listed writes

end Unsupported

/-! ## Transactions -/

/-- Either nothing is carried out before the refusal, or what is carried out
before the first operation that is not supported is refused for another reason
or writes nothing. -/
def TxnRequest.StopsBeforeWriting (world : World) (request : TxnRequest) : Prop :=
  txnNeedsNonAtomicFallback request = false ∨ request.RepeatsNamed ∨
    ∀ succeeded before after,
      verdict (getLatestTxn world.db.kv) request.compare = .ok succeeded →
      request.chosen succeeded = before ++ .unsupported :: after → .unsupported ∉ before →
      firstRefusal world.db world.plain before ≠ none ∨ ∀ op ∈ before, ¬op.Writes world.plain

section Transactions

variable {supply : Nat → CommitTs} {bound : Nat} {world : World} {request : TxnRequest}

/-- A transaction that is answered with `InvalidArgument` has left the log as
it was. -/
def RejectedUnchanged (supply : Nat → CommitTs) (world : World) (request : TxnRequest) : Prop :=
  codeOf (alone supply (txn request) 0 world).1 = some .invalidArgument →
    (alone supply (txn request) 0 world).2.2.db.kv = world.db.kv

theorem rejectedUnchanged_atomic (atomic : txnNeedsNonAtomicFallback request = false) :
    RejectedUnchanged supply world request := by
  have path : txn request = txnAtomic request := if_neg (by simp [atomic])
  unfold RejectedUnchanged
  rw [path]
  by_cases refused : request.Refused
  · obtain ⟨err, after, ran, _⟩ := alone_txnAtomic_refused refused
    rw [ran]
    exact fun _ => rfl
  · obtain ⟨response, after, final, ran⟩ := alone_txnAtomic_accepted refused
    rw [ran]
    intro rejected
    cases rejected

/-- On the other path a branch decides, once the compares have. -/
theorem rejectedUnchanged_sequence (ready : Ready supply 0 bound world)
    (enough : (alone supply (txnSequence request) 0 world).2.1 ≤ bound) :
    (codeOf (alone supply (txnSequence request) 0 world).1 = some .invalidArgument →
        (alone supply (txnSequence request) 0 world).2.2.db.kv = world.db.kv) ↔
      ∀ succeeded, verdict (getLatestTxn world.db.kv) request.compare = .ok succeeded →
        firstRefusal world.db world.plain (request.chosen succeeded) = some .invalidArgument →
          ¬WritesInTurn world.db world.plain (request.chosen succeeded) := by
  obtain ⟨reply, compared, decided⟩ := evaluateCompare_verdict supply 0 ready.inv request.compare
  unfold txnSequence at enough ⊢
  rw [alone_bind_of compared] at enough ⊢
  rw [← decided]
  cases reply with
  | error err => simp [Except.mapError]
  | ok succeeded =>
      obtain ⟨stopped, written⟩ :=
        executeOps_inTurn ready (request.chosen succeeded) [] 0 (alone_bind_spent enough)
      rw [alone_bind]
      simp only [Except.mapError, Except.ok.injEq, forall_eq', ← stopped, ← written]
      cases (alone supply (executeOps [] 0 (request.chosen succeeded)) 0 world).1 with
      | error err => rfl
      | ok result => simp [codeOf]

/-- With commit timestamps ahead of the clock and in order, a rejected
transaction has no effect if and only if it stops before it writes. -/
theorem rejected_txn_unchanged_iff (reachable : Reachable world)
    (ahead : ∀ i < (alone supply (txn request) 0 world).2.1, world.db.clock < (supply i).ns)
    (ordered : ∀ j < (alone supply (txn request) 0 world).2.1, ∀ i < j,
      (supply i).ns < (supply j).ns) :
    RejectedUnchanged supply world request ↔ request.StopsBeforeWriting world := by
  have ready : Ready supply 0 (alone supply (txn request) 0 world).2.1 world :=
    .of_supply reachable.inv ahead ordered
  unfold TxnRequest.StopsBeforeWriting
  cases path : txnNeedsNonAtomicFallback request with
  | false => exact iff_of_true (rejectedUnchanged_atomic path) (.inl rfl)
  | true =>
      have nonAtomic : txn request = txnNonAtomic request := if_pos path
      simp only [Bool.true_eq_false, false_or]
      by_cases repeats : request.RepeatsNamed
      · refine iff_of_true ?_ (.inl repeats)
        obtain ⟨err, ran, _⟩ := alone_txnNonAtomic_repeated repeats
        unfold RejectedUnchanged
        rw [nonAtomic, ran]
        exact fun _ => rfl
      · unfold RejectedUnchanged
        rw [nonAtomic, txnNonAtomic_of_distinct repeats] at ready ⊢
        rw [rejectedUnchanged_sequence ready (le_refl _), or_iff_right repeats]
        refine forall_congr' fun succeeded => ?_
        rw [stopsBeforeWriting_iff]
        exact ⟨fun holds before after decided => holds decided before after,
          fun holds decided before after => holds before after decided⟩

end Transactions

/-- A count over a range, which no single transaction can make. -/
def countOp : RequestOp := .range ⟨ascii "a", ascii "b", 0, 0, false, true⟩

/-- A nested transaction after a read. -/
def readThenNested : TxnRequest :=
  { compare := [], success := [countOp, .unsupported], failure := [] }

theorem readThenNested_unchanged : RejectedUnchanged ticking World.init readThenNested := by
  refine (rejected_txn_unchanged_iff ⟨[], rfl⟩ (by decide) (by decide)).mpr
    (.inr (.inr fun succeeded before after decided split supported => .inr ?_))
  cases decided
  intro op listed
  cases before with
  | nil => cases listed
  | cons first rest =>
      obtain ⟨same, last⟩ := List.cons.inj split
      cases rest with
      | nil =>
          obtain rfl := List.mem_singleton.mp listed
          simp [← same, countOp, RequestOp.Writes]
      | cons second rest => simp at last

/-- A nested transaction after a put. -/
def putThenNested : TxnRequest :=
  { compare := [], success := [putOp, countOp, .unsupported], failure := [] }

/-- The put stays. -/
theorem rejected_txn_leaves_put :
    codeOf (alone ticking (txn putThenNested) 0 World.init).1 = some .invalidArgument ∧
      (alone ticking (txn putThenNested) 0 World.init).2.2.db.kv.map Row.key = [ascii "k"] ∧
      ¬RejectedUnchanged ticking World.init putThenNested := by
  have rejected : codeOf (alone ticking (txn putThenNested) 0 World.init).1 =
      some .invalidArgument := rfl
  have left : (alone ticking (txn putThenNested) 0 World.init).2.2.db.kv.map Row.key =
      [ascii "k"] := rfl
  refine ⟨rejected, left, fun unchanged => ?_⟩
  rw [unchanged rejected] at left
  cases left

end SpannerEtcd
