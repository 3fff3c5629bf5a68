import SpannerEtcd.Server.TxnPaths

/-!
# Where the two paths agree

On a request that either path could run, they agree if what the atomic path
refuses at once stops the other one before it has changed anything, and if no
read comes after a write that changes its key.
-/

namespace SpannerEtcd

/-- Both paths show the same outcome, and it is the one of the operations of a
branch in request order. -/
structure PathsAgree (supply : Nat → CommitTs) (world : World) (request : TxnRequest) : Prop where
  same :
    outcomeOf (alone supply (txnAtomic request) 0 world) =
      outcomeOf (alone supply (txnNonAtomic request) 0 world)
  ordered : ∀ succeeded responses,
    (outcomeOf (alone supply (txnAtomic request) 0 world)).reply = .ok (succeeded, responses) →
      inOrder world.plain (request.chosen succeeded) =
        (.ok responses, (outcomeOf (alone supply (txnAtomic request) 0 world)).final)

/-! ## The condition -/

/-- The branch reaches an operation that is not supported with nothing
changed. -/
def StopsUntouched (map : PlainMap) (ops : List RequestOp) : Prop :=
  ∃ before after, ops = before ++ .unsupported :: after ∧ .unsupported ∉ before ∧
    leaves map before = map

/-- The operations before a read leave its key as it was. -/
def ReadsUntouched (map : PlainMap) (ops : List RequestOp) : Prop :=
  ∀ before request after, ops = before ++ .range request :: after →
    leaves map before request.key = map request.key

def TxnRequest.Coincides (entries : AbstractMap) (request : TxnRequest) : Prop :=
  request.RepeatsNamed ∨ ∀ succeeded, verdict entries request.compare = .ok succeeded →
    (request.Refused → StopsUntouched entries.plain (request.chosen succeeded)) ∧
      (¬request.Refused → ReadsUntouched entries.plain (request.chosen succeeded))

theorem verdict_error {entries : AbstractMap} {compares : List Compare} {code : Code}
    (refused : verdict entries compares = .error code) : code = .invalidArgument := by
  induction compares with
  | nil => cases refused
  | cons compare rest inductionHypothesis =>
      simp only [verdict] at refused
      split at refused
      · cases refused
        rfl
      · split at refused
        · exact inductionHypothesis refused
        · cases refused

theorem inOrder_stops_iff {map : PlainMap} {ops : List RequestOp} :
    inOrder map ops = (.error .invalidArgument, map) ↔ StopsUntouched map ops := by
  constructor
  · intro stopped
    by_cases listed : .unsupported ∈ ops
    · obtain ⟨before, after, rfl, supported⟩ := List.eq_append_cons_of_mem listed
      rw [inOrder_unsupported supported] at stopped
      exact ⟨before, after, rfl, supported, (Prod.mk.inj stopped).2⟩
    · rw [inOrder_supported listed] at stopped
      cases (Prod.mk.inj stopped).1
  · rintro ⟨before, after, rfl, supported, untouched⟩
    rw [inOrder_unsupported supported, untouched]

theorem respond_range_iff {map other : PlainMap} {request : RangeRequest} :
    (RequestOp.range request).respond map = (RequestOp.range request).respond other ↔
      map request.key = other request.key := by
  constructor
  · intro same
    simp only [RequestOp.respond, Option.some.injEq, PlainResponse.range.injEq] at same
    cases found : map request.key <;> cases foundOther : other request.key <;>
      simp [found, foundOther] at same ⊢
    exact same
  · intro same
    simp only [RequestOp.respond, same]

theorem respond_of_mutated {map other : PlainMap} {op : RequestOp} {key : Bytes}
    (mutated : op.mutatedKey = some key) (same : map key = other key) :
    op.respond map = op.respond other := by
  cases op with
  | put request =>
      cases mutated
      simp only [RequestOp.respond, same]
  | deleteRange request =>
      cases mutated
      simp only [RequestOp.respond, same]
  | range request => cases mutated
  | unsupported => cases mutated

theorem replies_eq_iff_reads {map : PlainMap} {ops : List RequestOp}
    (supported : .unsupported ∉ ops) (distinct : (ops.filterMap RequestOp.mutatedKey).Nodup) :
    replies map ops = ops.filterMap (RequestOp.respond map) ↔ ReadsUntouched map ops := by
  rw [replies_eq_iff supported]
  constructor
  · intro answers before request after split
    exact respond_range_iff.mp (answers before (.range request) after split)
  · rintro untouched before op after rfl
    cases mutated : op.mutatedKey with
    | some key =>
        refine respond_of_mutated mutated (leaves_other ?_ map)
        rw [List.filterMap_append, List.filterMap_cons_some mutated] at distinct
        exact fun listed => List.disjoint_of_nodup_append distinct listed List.mem_cons_self
    | none =>
        cases op with
        | range request => exact respond_range_iff.mpr (untouched before request after rfl)
        | unsupported => rfl
        | put request => cases mutated
        | deleteRange request => cases mutated

/-! ## The paths -/

theorem sequential_ordered {entries : AbstractMap} {request : TxnRequest} {succeeded : Bool}
    {responses : List PlainResponse}
    (replied : (sequential entries request).reply = .ok (succeeded, responses)) :
    inOrder entries.plain (request.chosen succeeded) =
      (.ok responses, (sequential entries request).final) := by
  unfold sequential at replied ⊢
  cases decided : verdict entries request.compare with
  | error code =>
      rw [decided] at replied
      cases replied
  | ok chosen =>
      rw [decided] at replied
      cases branch : inOrder entries.plain (request.chosen chosen) with
      | mk shown final =>
          cases shown with
          | error code => simp [branch, Except.map] at replied
          | ok answers =>
              simp only [branch, Except.map, Except.ok.injEq, Prod.mk.injEq] at replied
              obtain ⟨rfl, rfl⟩ := replied
              simp only [branch]

section Paths

variable {supply : Nat → CommitTs} {bound : Nat} {world : World} {request : TxnRequest}

/-- Where the paths show the same, it is what the operations do in order,
since that is what the non-atomic path does. -/
theorem pathsAgree_iff_same (ready : Ready supply 0 bound world)
    (room : ∀ ops ∈ request.branches, 2 * ops.length ≤ bound)
    (atomic : txnNeedsNonAtomicFallback request = false) :
    PathsAgree supply world request ↔
      outcomeOf (alone supply (txnAtomic request) 0 world) =
        outcomeOf (alone supply (txnNonAtomic request) 0 world) := by
  refine ⟨PathsAgree.same, fun same => ⟨same, fun succeeded responses replied => ?_⟩⟩
  by_cases repeats : request.RepeatsNamed
  · rw [txnAtomic_refused repeats.refused] at replied
    cases replied
  · rw [same, txnNonAtomic_sequential ready room atomic repeats] at replied ⊢
    exact sequential_ordered replied

/-- Refused at once on the one path. -/
theorem same_iff_of_refused (ready : Ready supply 0 bound world)
    (room : ∀ ops ∈ request.branches, 2 * ops.length ≤ bound)
    (atomic : txnNeedsNonAtomicFallback request = false) (distinct : ¬request.RepeatsNamed)
    (refused : request.Refused) :
    outcomeOf (alone supply (txnAtomic request) 0 world) =
        outcomeOf (alone supply (txnNonAtomic request) 0 world) ↔
      ∀ succeeded, verdict (getLatestTxn world.db.kv) request.compare = .ok succeeded →
        StopsUntouched world.plain (request.chosen succeeded) := by
  rw [txnAtomic_refused refused, txnNonAtomic_sequential ready room atomic distinct]
  cases decided : verdict (getLatestTxn world.db.kv) request.compare with
  | error code =>
      obtain rfl := verdict_error decided
      simp [sequential, decided, World.plain]
  | ok succeeded =>
      simp only [sequential, decided, Except.ok.injEq, forall_eq', Outcome.mk.injEq,
        ← inOrder_stops_iff, World.plain]
      rcases inOrder (AbstractMap.plain (getLatestTxn world.db.kv)) (request.chosen succeeded)
        with ⟨shown, final⟩
      cases shown with
      | error code => simp [Except.map, eq_comm]
      | ok answers => simp [Except.map]

theorem same_iff_of_accepted (ready : Ready supply 0 bound world) (positive : 0 < bound)
    (room : ∀ ops ∈ request.branches, 2 * ops.length ≤ bound)
    (atomic : txnNeedsNonAtomicFallback request = false) (accepted : ¬request.Refused) :
    outcomeOf (alone supply (txnAtomic request) 0 world) =
        outcomeOf (alone supply (txnNonAtomic request) 0 world) ↔
      ∀ succeeded, verdict (getLatestTxn world.db.kv) request.compare = .ok succeeded →
        ReadsUntouched world.plain (request.chosen succeeded) := by
  obtain ⟨branches, supported⟩ := TxnRequest.accepted_iff.mp accepted
  rw [txnAtomic_batched ready positive accepted,
    txnNonAtomic_sequential ready room atomic fun repeats => accepted repeats.refused]
  have decided : verdict (getLatestTxn world.db.kv) request.compare = .ok _ :=
    verdict_supported supported
  obtain ⟨clean, distinct⟩ := branches _ (chosen_mem_branches request
    (request.compare.all fun compare => compare.holds (getLatestTxn world.db.kv compare.key)))
  simp only [batched, sequential, decided, Except.ok.injEq, forall_eq', Outcome.mk.injEq,
    inOrder_supported clean, ← replies_eq_iff_reads clean distinct, Except.map, Prod.mk.injEq,
    true_and, and_true]
  exact eq_comm

/-- With commit timestamps ahead of the clock and in order, the paths agree on
a request that the atomic one takes if and only if the condition holds. -/
theorem paths_agree_iff (reachable : Reachable world)
    (atomic : txnNeedsNonAtomicFallback request = false)
    (ahead : ∀ i ≤ 2 * (request.success.length + request.failure.length),
      world.db.clock < (supply i).ns)
    (ordered : ∀ j ≤ 2 * (request.success.length + request.failure.length), ∀ i < j,
      (supply i).ns < (supply j).ns) :
    PathsAgree supply world request ↔ request.Coincides (getLatestTxn world.db.kv) := by
  have ready : Ready supply 0 (2 * (request.success.length + request.failure.length) + 1) world :=
    .of_supply reachable.inv (fun i below => ahead i (Nat.le_of_lt_succ below))
      (fun j below => ordered j (Nat.le_of_lt_succ below))
  have room : ∀ ops ∈ request.branches,
      2 * ops.length ≤ 2 * (request.success.length + request.failure.length) + 1 := by
    simp only [TxnRequest.branches, List.forall_mem_cons, List.not_mem_nil, false_implies,
      implies_true, and_true]
    omega
  rw [pathsAgree_iff_same ready room atomic]
  by_cases repeats : request.RepeatsNamed
  · rw [txnAtomic_refused repeats.refused, txnNonAtomic_of_repeated repeats]
    exact iff_of_true rfl (.inl repeats)
  · rw [TxnRequest.Coincides, or_iff_right repeats]
    by_cases refused : request.Refused
    · rw [same_iff_of_refused ready room atomic repeats refused]
      simp only [refused, true_implies, not_true_eq_false, false_implies, and_true]
      rfl
    · rw [same_iff_of_accepted ready (Nat.succ_pos _) room atomic refused]
      simp only [refused, false_implies, not_false_eq_true, true_implies, true_and]
      rfl

end Paths

def ticking : Nat → CommitTs
  | 0 => 5
  | 1 => 6
  | 2 => 7
  | 3 => 8
  | _ => 9

def putOp : RequestOp :=
  .put { key := ascii "k", value := some (ascii "v"), lease := 0, prevKv := false }

def readOp : RequestOp := .range ⟨ascii "k", [], 0, 0, false, false⟩

/-- Read a key, then put it. -/
def readFirst : TxnRequest := { compare := [], success := [readOp, putOp], failure := [] }

theorem readFirst_paths_agree : PathsAgree ticking World.init readFirst := by
  have accepted : ¬readFirst.Refused :=
    TxnRequest.accepted_iff.mpr ⟨by decide, by decide⟩
  refine (paths_agree_iff ⟨[], rfl⟩ rfl (by decide) (by decide)).mpr
    (.inr fun succeeded decided => ⟨fun refused => absurd refused accepted, fun _ => ?_⟩)
  cases decided
  intro before request after split
  cases before with
  | nil => rfl
  | cons first rest =>
      obtain ⟨_, last⟩ := List.cons.inj split
      cases rest with
      | nil => cases last
      | cons second rest => simp [putOp] at last

/-- Put a key, then read it. -/
def putFirst : TxnRequest := { compare := [], success := [putOp, readOp], failure := [] }

/-- The atomic path answers the read without the put. -/
theorem putFirst_paths_disagree :
    Reachable World.init ∧ txnNeedsNonAtomicFallback putFirst = false ∧
      (outcomeOf (alone ticking (txnAtomic putFirst) 0 World.init)).reply =
        .ok (true, [.put none, .range [] 0]) ∧
      (outcomeOf (alone ticking (txnNonAtomic putFirst) 0 World.init)).reply =
        .ok (true, [.put none, .range [(ascii "k", ⟨some (ascii "v"), 0⟩)] 1]) ∧
      ¬PathsAgree ticking World.init putFirst := by
  have atomic : (outcomeOf (alone ticking (txnAtomic putFirst) 0 World.init)).reply =
      .ok (true, [.put none, .range [] 0]) := rfl
  have nonAtomic : (outcomeOf (alone ticking (txnNonAtomic putFirst) 0 World.init)).reply =
      .ok (true, [.put none, .range [(ascii "k", ⟨some (ascii "v"), 0⟩)] 1]) := rfl
  refine ⟨⟨[], rfl⟩, rfl, atomic, nonAtomic, fun agree => ?_⟩
  have same := congrArg Outcome.reply agree.same
  rw [atomic, nonAtomic] at same
  simp at same

end SpannerEtcd
