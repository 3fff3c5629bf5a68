import SpannerEtcd.Server.Alone
import SpannerEtcd.Server.CompareAndSwap

/-!
# The two paths of a transaction

A transaction of simple operations could run on either path.  The atomic one
checks everything first and answers all its operations from the entries before
the transaction; the other one finds out as it goes, and each operation sees
what the ones before it left.
-/

namespace SpannerEtcd

/-! ## A branch, operation after operation -/

/-- What the operations leave behind. -/
def leaves (map : PlainMap) (ops : List RequestOp) : PlainMap := ops.foldl RequestOp.effect map

/-- The answers, each from what the operations before have left. -/
def replies (map : PlainMap) : List RequestOp → List PlainResponse
  | [] => []
  | op :: rest => (op.respond map).toList ++ replies (op.effect map) rest

/-- The branch in request order, up to the first operation that is not
supported. -/
def inOrder (map : PlainMap) : List RequestOp → Except Code (List PlainResponse) × PlainMap
  | [] => (.ok [], map)
  | op :: rest =>
      match op.respond map with
      | none => (.error .invalidArgument, map)
      | some response =>
          ((inOrder (op.effect map) rest).1.map (response :: ·), (inOrder (op.effect map) rest).2)

theorem exists_respond {op : RequestOp} (supported : .unsupported ≠ op) (map : PlainMap) :
    ∃ response, op.respond map = some response := by
  cases op with
  | unsupported => exact absurd rfl supported
  | range request => exact ⟨_, rfl⟩
  | put request => exact ⟨_, rfl⟩
  | deleteRange request => exact ⟨_, rfl⟩

theorem inOrder_append {before : List RequestOp} (supported : .unsupported ∉ before)
    (after : List RequestOp) (map : PlainMap) :
    inOrder map (before ++ after) =
      ((inOrder (leaves map before) after).1.map (replies map before ++ ·),
        (inOrder (leaves map before) after).2) := by
  induction before generalizing map with
  | nil => exact Prod.ext (congrFun Except.map_id _).symm rfl
  | cons op rest inductionHypothesis =>
      obtain ⟨first, others⟩ := not_or.mp (List.mem_cons.not.mp supported)
      obtain ⟨response, answered⟩ := exists_respond first map
      simp only [List.cons_append, inOrder, answered, inductionHypothesis others, replies, leaves,
        List.foldl_cons, Option.toList_some]
      cases (inOrder (rest.foldl RequestOp.effect (op.effect map)) after).1 <;> rfl

theorem inOrder_supported {ops : List RequestOp} (supported : .unsupported ∉ ops)
    (map : PlainMap) : inOrder map ops = (.ok (replies map ops), leaves map ops) := by
  have whole := inOrder_append supported [] map
  rw [List.append_nil] at whole
  simpa [inOrder, Except.map] using whole

theorem inOrder_unsupported {before after : List RequestOp} (supported : .unsupported ∉ before)
    (map : PlainMap) :
    inOrder map (before ++ .unsupported :: after) =
      (.error .invalidArgument, leaves map before) :=
  inOrder_append supported (.unsupported :: after) map

def RequestOp.mutatedKey : RequestOp → Option Bytes
  | .put request => some request.key
  | .deleteRange request => some request.key
  | .range _ => none
  | .unsupported => none

theorem leaves_other {key : Bytes} {ops : List RequestOp}
    (untouched : key ∉ ops.filterMap RequestOp.mutatedKey) (map : PlainMap) :
    leaves map ops key = map key := by
  induction ops generalizing map with
  | nil => rfl
  | cons op rest inductionHypothesis =>
      have others : key ∉ rest.filterMap RequestOp.mutatedKey := fun listed =>
        untouched (((List.sublist_cons_self op rest).filterMap _).subset listed)
      have first : op.effect map key = map key := by
        cases op with
        | put request =>
            refine Function.update_of_ne (fun same => untouched ?_) _ _
            simp [RequestOp.mutatedKey, same]
        | deleteRange request =>
            refine Function.update_of_ne (fun same => untouched ?_) _ _
            simp [RequestOp.mutatedKey, same]
        | range request => rfl
        | unsupported => rfl
      exact (inductionHypothesis others (op.effect map)).trans first

/-- The answers in order are those from the start, if and only if each
operation finds what it would have found then. -/
theorem replies_eq_iff {ops : List RequestOp} (supported : .unsupported ∉ ops)
    (start map : PlainMap) :
    replies map ops = ops.filterMap (RequestOp.respond start) ↔
      ∀ before op after, ops = before ++ op :: after →
        op.respond (leaves map before) = op.respond start := by
  induction ops generalizing map with
  | nil => simp [replies]
  | cons op rest inductionHypothesis =>
      obtain ⟨first, others⟩ := not_or.mp (List.mem_cons.not.mp supported)
      obtain ⟨response, answered⟩ := exists_respond first map
      obtain ⟨other, answeredFirst⟩ := exists_respond first start
      simp only [replies, answered, Option.toList_some, List.singleton_append,
        List.filterMap_cons_some answeredFirst, List.cons.injEq, inductionHypothesis others]
      constructor
      · rintro ⟨rfl, later⟩ before next after split
        rcases List.cons_eq_append_iff.mp split with ⟨rfl, same⟩ | ⟨before, rfl, inner⟩
        · obtain ⟨rfl, -⟩ := List.cons.inj same
          exact answered.trans answeredFirst.symm
        · exact later before next after inner
      · intro all
        refine ⟨?_, fun before next after split => ?_⟩
        · have head := all [] op rest rfl
          exact Option.some.inj (answered.symm.trans (head.trans answeredFirst))
        · exact all (op :: before) next after (by rw [split]; rfl)

/-! ## What the paths decide before they write -/

/-- The compares in order, up to the first that has no evaluation or does not
hold. -/
def verdict (entries : AbstractMap) : List Compare → Except Code Bool
  | [] => .ok true
  | compare :: rest =>
      match compare.target.unsupported with
      | some _ => .error .invalidArgument
      | none => if compare.holds (entries compare.key) then verdict entries rest else .ok false

theorem verdict_supported {entries : AbstractMap} {compares : List Compare}
    (supported : ∀ compare ∈ compares, compare.target.unsupported = none) :
    verdict entries compares =
      .ok (compares.all fun compare => compare.holds (entries compare.key)) := by
  induction compares with
  | nil => rfl
  | cons compare rest inductionHypothesis =>
      obtain ⟨first, others⟩ := List.forall_mem_cons.mp supported
      simp only [verdict, first, inductionHypothesis others, List.all_cons]
      cases compare.holds (entries compare.key) <;> rfl

/-- A branch mutates a key twice, an empty key aside. -/
def TxnRequest.RepeatsNamed (request : TxnRequest) : Prop :=
  ∃ ops ∈ request.branches, ¬(ops.filterMap RequestOp.checkedKey).Nodup

/-- Something in the request is not supported, or a branch mutates a key
twice. -/
def TxnRequest.Refused (request : TxnRequest) : Prop :=
  (∃ ops ∈ request.branches, .unsupported ∈ ops ∨ ¬(ops.filterMap RequestOp.mutatedKey).Nodup) ∨
    ∃ compare ∈ request.compare, compare.target.unsupported ≠ none

theorem checkedKeys_sublist (ops : List RequestOp) :
    (ops.filterMap RequestOp.checkedKey).Sublist (ops.filterMap RequestOp.mutatedKey) := by
  induction ops with
  | nil => exact .slnil
  | cons op rest inductionHypothesis =>
      cases op with
      | put request =>
          by_cases empty : request.key = []
          · simpa [RequestOp.checkedKey, RequestOp.mutatedKey, empty] using
              inductionHypothesis.cons []
          · simpa [RequestOp.checkedKey, RequestOp.mutatedKey, empty] using inductionHypothesis
      | deleteRange request =>
          by_cases checked : request.rangeEnd = [] ∧ request.key ≠ []
          · simpa [RequestOp.checkedKey, RequestOp.mutatedKey, checked] using inductionHypothesis
          · simpa [RequestOp.checkedKey, RequestOp.mutatedKey, checked] using
              inductionHypothesis.cons request.key
      | range request => exact inductionHypothesis
      | unsupported => exact inductionHypothesis

theorem TxnRequest.accepted_iff {request : TxnRequest} :
    ¬request.Refused ↔
      (∀ ops ∈ request.branches,
        .unsupported ∉ ops ∧ (ops.filterMap RequestOp.mutatedKey).Nodup) ∧
      ∀ compare ∈ request.compare, compare.target.unsupported = none := by
  simp only [TxnRequest.Refused, not_or, not_exists, not_and, not_not, ne_eq]

theorem TxnRequest.RepeatsNamed.refused {request : TxnRequest} (repeats : request.RepeatsNamed) :
    request.Refused := by
  obtain ⟨ops, membership, twice⟩ := repeats
  exact .inl ⟨ops, membership, .inr fun distinct =>
    twice (distinct.sublist (checkedKeys_sublist ops))⟩

/-- The check for repeated keys. -/
theorem firstRepeated_eq_none_iff (keys seen : List Bytes) :
    firstRepeated seen keys = none ↔ keys.Nodup ∧ ∀ key ∈ keys, key ∉ seen := by
  induction keys generalizing seen with
  | nil => simp [firstRepeated]
  | cons key rest inductionHypothesis =>
      by_cases repeated : key ∈ seen
      · simp [firstRepeated, repeated]
      · rw [firstRepeated, if_neg (by simpa using repeated), inductionHypothesis, List.nodup_cons,
          List.forall_mem_cons]
        simp only [List.mem_cons, not_or]
        constructor
        · rintro ⟨distinct, fresh⟩
          exact ⟨⟨fun listed => (fresh key listed).1 rfl, distinct⟩, repeated,
            fun other listed => (fresh other listed).2⟩
        · rintro ⟨⟨fresh, distinct⟩, _, unseen⟩
          refine ⟨distinct, fun other listed => ⟨?_, unseen other listed⟩⟩
          rintro rfl
          exact fresh listed

theorem refuseRepeated_of_nodup {keys : List Bytes} (distinct : keys.Nodup) :
    refuseRepeated keys = .ok () := by
  have none := (firstRepeated_eq_none_iff keys []).mpr ⟨distinct, by simp⟩
  simp [refuseRepeated, none]

theorem refuseRepeated_of_repeated {keys : List Bytes} (twice : ¬keys.Nodup) :
    ∃ err, refuseRepeated keys = .error err ∧ err.code = .invalidArgument := by
  cases found : firstRepeated [] keys with
  | none => exact absurd ((firstRepeated_eq_none_iff keys []).mp found).1 twice
  | some key => exact ⟨_, by simp only [refuseRepeated, found]; rfl, rfl⟩

/-! ## The non-atomic path -/

/-- What a client sees of a transaction, revisions aside, and the map it
leaves. -/
structure Outcome where
  reply : Except Code (Bool × List PlainResponse)
  final : PlainMap

def TxnResponse.plain (response : TxnResponse) : Bool × List PlainResponse :=
  (response.succeeded, response.responses.map ResponseOp.plain)

def outcomeOf (ran : Except GrpcErr TxnResponse × Nat × World) : Outcome :=
  ⟨(ran.1.mapError GrpcErr.code).map TxnResponse.plain, ran.2.2.plain⟩

/-- The compares, then the branch in request order. -/
def sequential (entries : AbstractMap) (request : TxnRequest) : Outcome :=
  match verdict entries request.compare with
  | .error code => ⟨.error code, entries.plain⟩
  | .ok succeeded =>
      let done := inOrder entries.plain (request.chosen succeeded)
      ⟨done.1.map (succeeded, ·), done.2⟩

section NonAtomic

variable {supply : Nat → CommitTs} {count bound : Nat} {world : World}

theorem executeOp_performs (ready : Ready supply count bound world) (room : count + 2 ≤ bound)
    {op : RequestOp} (simple : op.complex = false) (supported : op ≠ .unsupported) :
    Performs supply count bound world op := by
  cases op with
  | range request => exact range_performs ready simple
  | put request => exact put_performs ready room simple
  | deleteRange request => exact deleteRange_performs ready room simple
  | unsupported => exact absurd rfl supported

theorem alone_revisionOrCurrent (supply : Nat → CommitTs) (rev : Int) :
    ∃ current, alone supply (revisionOrCurrent rev) count world = (current, count, world) := by
  unfold revisionOrCurrent
  split
  · exact ⟨_, alone_currentRevision⟩
  · exact ⟨rev, rfl⟩

theorem executeOps_inOrder (ready : Ready supply count bound world) {ops : List RequestOp}
    (room : count + 2 * ops.length ≤ bound) (simple : ∀ op ∈ ops, op.complex = false)
    (done : List ResponseOp) (lastRev : Int) :
    ∃ reply after final,
      alone supply (executeOps done lastRev ops) count world = (reply, after, final) ∧
        (reply.mapError GrpcErr.code).map (fun shown => shown.1.map ResponseOp.plain) =
          (inOrder world.plain ops).1.map (done.map ResponseOp.plain ++ ·) ∧
        final.plain = (inOrder world.plain ops).2 := by
  induction ops generalizing count world done lastRev with
  | nil =>
      obtain ⟨current, read⟩ := alone_revisionOrCurrent supply lastRev
      refine ⟨_, _, _, alone_bind_of read, ?_, rfl⟩
      simp [inOrder, Except.mapError, Except.map]
  | cons op rest inductionHypothesis =>
      obtain ⟨first, others⟩ := List.forall_mem_cons.mp simple
      rw [List.length_cons] at room
      by_cases supported : op = .unsupported
      · subst supported
        exact ⟨_, _, _, rfl, rfl, rfl⟩
      · obtain ⟨response, between, middle, ran, answered, left, spent, again⟩ :=
          executeOp_performs ready (by omega) first supported
        obtain ⟨reply, after, final, ranRest, shown, leftRest⟩ :=
          inductionHypothesis again (by omega) others (done ++ [response])
            response.header.revision
        refine ⟨reply, after, final, (alone_bind_of ran).trans ranRest, ?_, ?_⟩
        · rw [shown, left]
          simp only [inOrder, ← answered]
          cases (inOrder (op.effect world.plain) rest).1 with
          | error code => rfl
          | ok responses => simp [Except.map]
        · rw [leftRest, left]
          simp only [inOrder, ← answered]

theorem evaluateCompare_verdict (supply : Nat → CommitTs) (count : Nat) (inv : world.Inv)
    (compares : List Compare) :
    ∃ reply, alone supply (evaluateCompare compares) count world = (reply, count, world) ∧
      reply.mapError GrpcErr.code = verdict (getLatestTxn world.db.kv) compares := by
  induction compares with
  | nil => exact ⟨_, rfl, rfl⟩
  | cons compare rest inductionHypothesis =>
      have opened : ∀ {reply}, alone supply
          (match compare.target.unsupported with
            | some code => return .error ⟨.invalidArgument, .errorOf (.compareErr code)⟩
            | none =>
                if compare.holds (getLatestTxn world.db.kv compare.key) then evaluateCompare rest
                else return .ok false) count world = reply →
          alone supply (evaluateCompare (compare :: rest)) count world = reply :=
        fun ran => (alone_bind_of (alone_get inv compare.key)).trans ran
      cases target : compare.target.unsupported with
      | some code =>
          refine ⟨_, opened (by rw [target]; rfl), ?_⟩
          simp [verdict, target, Except.mapError]
      | none =>
          cases held : compare.holds (getLatestTxn world.db.kv compare.key) with
          | false =>
              refine ⟨_, opened (by rw [target, held]; rfl), ?_⟩
              simp [verdict, target, held, Except.mapError]
          | true =>
              obtain ⟨reply, ran, decided⟩ := inductionHypothesis
              refine ⟨reply, opened (by rw [target, held]; exact ran), ?_⟩
              simp [verdict, target, held, decided]

theorem alone_evaluateCompare (supply : Nat → CommitTs) (count : Nat) (inv : world.Inv)
    {compares : List Compare}
    (supported : ∀ compare ∈ compares, compare.target.unsupported = none) :
    alone supply (evaluateCompare compares) count world =
      (.ok (compares.all fun compare => compare.holds (getLatestTxn world.db.kv compare.key)),
        count, world) := by
  obtain ⟨reply, ran, decided⟩ := evaluateCompare_verdict supply count inv compares
  rw [verdict_supported supported] at decided
  cases reply with
  | error err => cases decided
  | ok held =>
      obtain rfl := Except.ok.inj decided
      exact ran

/-- The rest of the path once the keys are found to be distinct. -/
def txnSequence (request : TxnRequest) : Call (Except GrpcErr TxnResponse) := do
  match ← evaluateCompare request.compare with
  | .error err => return .error err
  | .ok succeeded =>
      match ← executeOps [] 0 (request.chosen succeeded) with
      | .error err => return .error err
      | .ok (responses, rev) =>
          return .ok { header := header rev, succeeded := succeeded, responses := responses }

theorem alone_txnNonAtomic_repeated {request : TxnRequest} (repeats : request.RepeatsNamed) :
    ∃ err, alone supply (txnNonAtomic request) count world = (.error err, count, world) ∧
      err.code = .invalidArgument := by
  unfold txnNonAtomic
  by_cases success : (request.success.filterMap RequestOp.checkedKey).Nodup
  · have failure : ¬(request.failure.filterMap RequestOp.checkedKey).Nodup := by
      obtain ⟨ops, branch, twice⟩ := repeats
      simp only [TxnRequest.branches, List.mem_cons, List.not_mem_nil, or_false] at branch
      rcases branch with rfl | rfl
      · exact absurd success twice
      · exact twice
    obtain ⟨err, refused, code⟩ := refuseRepeated_of_repeated failure
    rw [refuseRepeated_of_nodup success, refused]
    exact ⟨err, rfl, code⟩
  · obtain ⟨err, refused, code⟩ := refuseRepeated_of_repeated success
    rw [refused]
    exact ⟨err, rfl, code⟩

theorem txnNonAtomic_of_repeated {request : TxnRequest} (repeats : request.RepeatsNamed) :
    outcomeOf (alone supply (txnNonAtomic request) count world) =
      ⟨.error .invalidArgument, world.plain⟩ := by
  obtain ⟨err, ran, code⟩ := alone_txnNonAtomic_repeated repeats
  rw [ran]
  simp [outcomeOf, Except.mapError, Except.map, code]

theorem txnNonAtomic_of_distinct {request : TxnRequest} (distinct : ¬request.RepeatsNamed) :
    txnNonAtomic request = txnSequence request := by
  have branch : ∀ ops ∈ request.branches, (ops.filterMap RequestOp.checkedKey).Nodup := by
    intro ops membership
    by_contra twice
    exact distinct ⟨ops, membership, twice⟩
  unfold txnNonAtomic
  rw [refuseRepeated_of_nodup (branch request.success List.mem_cons_self),
    refuseRepeated_of_nodup
      (branch request.failure (List.mem_cons_of_mem _ List.mem_cons_self))]
  rfl

theorem branches_simple {request : TxnRequest}
    (atomic : txnNeedsNonAtomicFallback request = false) {ops : List RequestOp}
    (branch : ops ∈ request.branches) : ∀ op ∈ ops, op.complex = false := by
  intro op listed
  simp only [txnNeedsNonAtomicFallback, List.any_eq_false, Bool.not_eq_true] at atomic
  exact atomic ops branch op listed

theorem chosen_mem_branches (request : TxnRequest) (succeeded : Bool) :
    request.chosen succeeded ∈ request.branches := by
  cases succeeded <;> simp [TxnRequest.chosen, TxnRequest.branches]

theorem txnNonAtomic_sequential {request : TxnRequest} (ready : Ready supply 0 bound world)
    (room : ∀ ops ∈ request.branches, 2 * ops.length ≤ bound)
    (atomic : txnNeedsNonAtomicFallback request = false) (distinct : ¬request.RepeatsNamed) :
    outcomeOf (alone supply (txnNonAtomic request) 0 world) =
      sequential (getLatestTxn world.db.kv) request := by
  rw [txnNonAtomic_of_distinct distinct]
  obtain ⟨reply, compared, decided⟩ := evaluateCompare_verdict supply 0 ready.inv request.compare
  unfold txnSequence sequential
  rw [alone_bind_of compared, ← decided]
  cases reply with
  | error err => rfl
  | ok succeeded =>
      have branch := chosen_mem_branches request succeeded
      obtain ⟨reply, after, final, ran, shown, left⟩ :=
        executeOps_inOrder ready (by simpa using room _ branch) (branches_simple atomic branch) [] 0
      have answers : (reply.mapError GrpcErr.code).map (fun shown => shown.1.map ResponseOp.plain) =
          (inOrder world.plain (request.chosen succeeded)).1 := by
        rw [shown]
        exact congrFun Except.map_id _
      simp only [Except.mapError]
      change outcomeOf (alone _ _ 0 world) =
        ⟨(inOrder world.plain _).1.map _, (inOrder world.plain _).2⟩
      rw [alone_bind_of ran, ← left, ← answers]
      cases reply <;> rfl

end NonAtomic

/-! ## The atomic path -/

/-- All compares, then all operations on the entries from before. -/
def batched (entries : AbstractMap) (request : TxnRequest) : Outcome :=
  let succeeded := request.compare.all fun compare => compare.holds (entries compare.key)
  let ops := request.chosen succeeded
  ⟨.ok (succeeded, ops.filterMap (RequestOp.respond entries.plain)), leaves entries.plain ops⟩

theorem AbstractMap.bound_plain (map : AbstractMap) (key : Bytes) (value : Option Bytes)
    (leaseID r : Int) : (map.bound key value leaseID r).plain = ⟨value, leaseID⟩ := by
  unfold AbstractMap.bound
  cases map key <;> rfl

theorem toStoreOps_unsupported {ops : List RequestOp} (listed : .unsupported ∈ ops) :
    ∃ err, toStoreOps ops = .error err ∧ err.code = .invalidArgument := by
  induction ops with
  | nil => cases listed
  | cons op rest inductionHypothesis =>
      by_cases first : op = .unsupported
      · subst first
        exact ⟨_, rfl, rfl⟩
      · have later : .unsupported ∈ rest :=
          (List.mem_cons.mp listed).resolve_left fun same => first same.symm
        obtain ⟨err, failed, code⟩ := inductionHypothesis later
        refine ⟨err, ?_, code⟩
        cases op <;> simp_all [toStoreOps, RequestOp.toStore, bind, Except.bind]

theorem toStoreOps_supported {ops : List RequestOp} (supported : .unsupported ∉ ops) :
    ∃ storeOps, toStoreOps ops = .ok storeOps := by
  induction ops with
  | nil => exact ⟨[], rfl⟩
  | cons op rest inductionHypothesis =>
      obtain ⟨first, others⟩ := not_or.mp (List.mem_cons.not.mp supported)
      obtain ⟨storeOps, compiled⟩ := inductionHypothesis others
      cases op with
      | unsupported => exact absurd rfl first
      | range request => exact ⟨_, by rw [toStoreOps, compiled]; rfl⟩
      | put request => exact ⟨_, by rw [toStoreOps, compiled]; rfl⟩
      | deleteRange request => exact ⟨_, by rw [toStoreOps, compiled]; rfl⟩

theorem txnResponseOp_plain (rows : List Row) (commitRev : Int) {op : RequestOp} {storeOp : TxnOp}
    (compiled : op.toStore = .ok storeOp) :
    (txnResponseOp commitRev (txnResult rows storeOp) op).map ResponseOp.plain =
      op.respond (AbstractMap.plain (getLatestTxn rows)) := by
  have shown : ∀ key, ((getLatestTxn rows key).map toProtoKV).map KeyValue.plain =
      (AbstractMap.plain (getLatestTxn rows) key).map (key, ·) :=
    fun key => KV.plain_toProtoKV fun _ => getLatestTxn_key
  have there : ∀ key, (AbstractMap.plain (getLatestTxn rows) key).isSome =
      (getLatestTxn rows key).isSome := fun key => Option.isSome_map
  cases op with
  | range request =>
      cases compiled
      simp only [txnResponseOp, txnResult, RequestOp.respond, Option.map_some, ResponseOp.plain,
        ← shown, there, Option.toList_map]
  | put request =>
      cases compiled
      simp only [txnResponseOp, txnResult, RequestOp.respond, Option.map_some, ResponseOp.plain,
        ← shown, putResponse]
      cases request.prevKv <;> rfl
  | deleteRange request =>
      cases compiled
      simp only [txnResponseOp, txnResult, RequestOp.respond, Option.map_some, ResponseOp.plain,
        ← shown, there, prevKvsOf]
      cases request.prevKv <;> simp [Option.toList_map]
  | unsupported => cases compiled

section Compiled

variable {ops : List RequestOp} {storeOps : List TxnOp}
  (compiled : List.Forall₂ (fun op storeOp => op.toStore = .ok storeOp) ops storeOps)

include compiled

theorem compiled_mutatedKeys : mutatedKeys storeOps = ops.filterMap RequestOp.mutatedKey := by
  induction compiled with
  | nil => rfl
  | @cons op storeOp rest storeRest first _ inductionHypothesis =>
      cases op with
      | range request =>
          cases first
          exact inductionHypothesis
      | put request =>
          cases first
          exact congrArg (request.key :: ·) inductionHypothesis
      | deleteRange request =>
          cases first
          exact congrArg (request.key :: ·) inductionHypothesis
      | unsupported => cases first

theorem compiled_known : storeOps.findSome? unknownType = none := by
  induction compiled with
  | nil => rfl
  | @cons op storeOp rest storeRest first _ inductionHypothesis =>
      cases op <;> cases first <;> simpa [unknownType] using inductionHypothesis

theorem compiled_responses (rows : List Row) (commitRev : Int) :
    (txnResponseOps commitRev ops (storeOps.map (txnResult rows))).map ResponseOp.plain =
      ops.filterMap (RequestOp.respond (AbstractMap.plain (getLatestTxn rows))) := by
  induction compiled with
  | nil => rfl
  | @cons op storeOp rest storeRest first _ inductionHypothesis =>
      have answered := txnResponseOp_plain rows commitRev first
      rw [List.map_cons, txnResponseOps, List.headD_cons, List.tail_cons, List.map_append,
        inductionHypothesis]
      cases replied : txnResponseOp commitRev (txnResult rows storeOp) op with
      | none =>
          rw [replied] at answered
          rw [List.filterMap_cons_none answered.symm]
          rfl
      | some response =>
          rw [replied] at answered
          rw [List.filterMap_cons_some answered.symm]
          rfl

theorem compiled_leaves (map current : AbstractMap) (r : Int) :
    (storeOps.foldl (map.perform r) current).plain = leaves current.plain ops := by
  induction compiled generalizing current with
  | nil => rfl
  | @cons op storeOp rest storeRest first _ inductionHypothesis =>
      have performed : (map.perform r current storeOp).plain = op.effect current.plain := by
        cases op with
        | put request =>
            cases first
            refine (AbstractMap.plain_set current request.key _).trans ?_
            simp only [AbstractMap.outcome, Option.map_some, AbstractMap.bound_plain]
            rfl
        | deleteRange request =>
            cases first
            exact AbstractMap.plain_set current request.key none
        | range request =>
            cases first
            rfl
        | unsupported => cases first
      rw [List.foldl_cons, inductionHypothesis, performed]
      rfl

end Compiled

/-- Once both branches compile, only the check for repeated keys is left. -/
theorem toStore_supported {request : TxnRequest} (success : .unsupported ∉ request.success)
    (failure : .unsupported ∉ request.failure) :
    ∃ successOps failureOps, request.toStore = (do
      refuseRepeated (request.success.filterMap RequestOp.mutatedKey)
      refuseRepeated (request.failure.filterMap RequestOp.mutatedKey)
      return (request.compare.map Compare.toStore, successOps, failureOps)) := by
  obtain ⟨successOps, compiled⟩ := toStoreOps_supported success
  obtain ⟨failureOps, compiledToo⟩ := toStoreOps_supported failure
  refine ⟨successOps, failureOps, ?_⟩
  rw [TxnRequest.toStore, compiled, compiledToo,
    ← compiled_mutatedKeys (toStoreOps_eq_ok compiled),
    ← compiled_mutatedKeys (toStoreOps_eq_ok compiledToo)]
  rfl

theorem toStore_refused {request : TxnRequest} {ops : List RequestOp}
    (branch : ops ∈ request.branches)
    (refused : .unsupported ∈ ops ∨ ¬(ops.filterMap RequestOp.mutatedKey).Nodup) :
    ∃ err, request.toStore = .error err ∧ err.code = .invalidArgument := by
  by_cases success : .unsupported ∈ request.success
  · obtain ⟨err, failed, code⟩ := toStoreOps_unsupported success
    exact ⟨err, by rw [TxnRequest.toStore, failed]; rfl, code⟩
  by_cases failure : .unsupported ∈ request.failure
  · obtain ⟨successOps, compiled⟩ := toStoreOps_supported success
    obtain ⟨err, failed, code⟩ := toStoreOps_unsupported failure
    exact ⟨err, by rw [TxnRequest.toStore, compiled, failed]; rfl, code⟩
  -- Both branches compile, so one of them mutates a key twice.
  obtain ⟨successOps, failureOps, compiled⟩ := toStore_supported success failure
  rw [compiled]
  by_cases distinct : (request.success.filterMap RequestOp.mutatedKey).Nodup
  · have twice : ¬(request.failure.filterMap RequestOp.mutatedKey).Nodup := by
      simp only [TxnRequest.branches, List.mem_cons, List.not_mem_nil, or_false] at branch
      rcases branch with rfl | rfl
      · exact absurd distinct (refused.resolve_left success)
      · exact refused.resolve_left failure
    obtain ⟨err, failed, code⟩ := refuseRepeated_of_repeated twice
    exact ⟨err, by rw [refuseRepeated_of_nodup distinct, failed]; rfl, code⟩
  · obtain ⟨err, failed, code⟩ := refuseRepeated_of_repeated distinct
    exact ⟨err, by rw [failed]; rfl, code⟩

theorem toStore_accepted {request : TxnRequest}
    (accepted : ∀ ops ∈ request.branches,
      .unsupported ∉ ops ∧ (ops.filterMap RequestOp.mutatedKey).Nodup) :
    ∃ successOps failureOps,
      request.toStore = .ok (request.compare.map Compare.toStore, successOps, failureOps) := by
  obtain ⟨success, distinct⟩ := accepted request.success List.mem_cons_self
  obtain ⟨failure, distinctToo⟩ :=
    accepted request.failure (List.mem_cons_of_mem _ List.mem_cons_self)
  obtain ⟨successOps, failureOps, compiled⟩ := toStore_supported success failure
  refine ⟨successOps, failureOps, ?_⟩
  rw [compiled, refuseRepeated_of_nodup distinct, refuseRepeated_of_nodup distinctToo]
  rfl

theorem validateCompares_supported {compares : List Compare}
    (supported : ∀ compare ∈ compares, compare.target.unsupported = none) :
    validateCompares (compares.map Compare.toStore) = .ok () := by
  induction compares with
  | nil => rfl
  | cons compare rest inductionHypothesis =>
      obtain ⟨first, others⟩ := List.forall_mem_cons.mp supported
      simpa [validateCompares, Compare.toStore, first] using inductionHypothesis others

theorem validateCompares_unsupported {compares : List Compare} {compare : Compare}
    (listed : compare ∈ compares) (unsupported : compare.target.unsupported ≠ none) :
    ∃ code, validateCompares (compares.map Compare.toStore) = .error (.compareErr code) := by
  induction compares with
  | nil => cases listed
  | cons head rest inductionHypothesis =>
      cases first : head.target.unsupported with
      | some code => exact ⟨code, by simp [validateCompares, Compare.toStore, first]⟩
      | none =>
          have later : compare ∈ rest := by
            rcases List.mem_cons.mp listed with rfl | later
            · exact absurd first unsupported
            · exact later
          obtain ⟨code, failed⟩ := inductionHypothesis later
          exact ⟨code, by simpa [validateCompares, Compare.toStore, first] using failed⟩

theorem evaluateCompares_supported {rows : List Row} {compares : List Compare}
    (supported : ∀ compare ∈ compares, compare.target.unsupported = none) :
    evaluateCompares rows (compares.map Compare.toStore) =
      compares.all fun compare => compare.holds (getLatestTxn rows compare.key) := by
  rw [evaluateCompares_eq, List.all_map]
  rw [Bool.eq_iff_iff, List.all_eq_true, List.all_eq_true]
  refine forall₂_congr fun compare listed => ?_
  simp only [Function.comp_apply, AbstractMap.holds, Compare.toStore, supported compare listed]

/-! ### Its outcome -/

section Atomic

variable {supply : Nat → CommitTs} {count bound : Nat} {world : World} {request : TxnRequest}

theorem alone_txnAtomic_refused (refused : request.Refused) :
    ∃ err after, alone supply (txnAtomic request) count world = (.error err, after, world) ∧
      err.code = .invalidArgument := by
  unfold txnAtomic
  by_cases uncompiled : ∃ ops ∈ request.branches,
      .unsupported ∈ ops ∨ ¬(ops.filterMap RequestOp.mutatedKey).Nodup
  · obtain ⟨ops, branch, fault⟩ := uncompiled
    obtain ⟨err, failed, code⟩ := toStore_refused branch fault
    rw [failed]
    exact ⟨err, count, rfl, code⟩
  · obtain ⟨compare, listed, unsupported⟩ := refused.resolve_left uncompiled
    have accepted : ∀ ops ∈ request.branches,
        .unsupported ∉ ops ∧ (ops.filterMap RequestOp.mutatedKey).Nodup := by
      intro ops branch
      simpa [not_or] using fun fault => uncompiled ⟨ops, branch, fault⟩
    obtain ⟨successOps, failureOps, compiled⟩ := toStore_accepted accepted
    obtain ⟨code, invalid⟩ := validateCompares_unsupported listed unsupported
    have failed : atomicTxn world.db (supply count) (request.compare.map Compare.toStore)
        successOps failureOps = (.error (.compareErr code), world.db) :=
      atomicTxn_of_invalid (supply count) successOps failureOps invalid
    have unchanged : (WriteOp.atomicTxn (request.compare.map Compare.toStore) successOps
        failureOps).apply world.db (supply count) = world.db := by
      simp only [WriteOp.apply, failed]
    rw [compiled]
    dsimp only [Store.atomicTxn]
    rw [alone_bind_of (alone_transaction _), World.write_of_unchanged unchanged]
    simp only [WriteOp.answer, failed]
    exact ⟨_, count + 1, rfl, rfl⟩

theorem txnAtomic_refused (refused : request.Refused) :
    outcomeOf (alone supply (txnAtomic request) count world) =
      ⟨.error .invalidArgument, world.plain⟩ := by
  obtain ⟨err, after, ran, code⟩ := alone_txnAtomic_refused refused
  rw [ran]
  simp [outcomeOf, Except.mapError, Except.map, code]

theorem alone_txnAtomic {compares : List TxnCompare} {successOps failureOps : List TxnOp}
    (compiled : request.toStore = .ok (compares, successOps, failureOps))
    {result : AtomicTxnResult} {db : DB}
    (done : atomicTxn world.db (supply count) compares successOps failureOps = (.ok result, db)) :
    ∃ rev, alone supply (txnAtomic request) count world =
      (.ok { header := header rev
             succeeded := result.succeeded
             responses := txnResponseOps rev (request.chosen result.succeeded) result.results },
        count + 1, world.write (.atomicTxn compares successOps failureOps) (supply count)) := by
  obtain ⟨rev, read⟩ : ∃ rev, alone supply (revisionOrCurrent result.commitRev) (count + 1)
      (world.write (.atomicTxn compares successOps failureOps) (supply count)) =
        (rev, count + 1, _) := alone_revisionOrCurrent supply result.commitRev
  refine ⟨rev, ?_⟩
  unfold txnAtomic
  rw [compiled]
  dsimp only [Store.atomicTxn]
  rw [alone_bind_of (alone_transaction _)]
  simp only [WriteOp.answer, done]
  exact alone_bind_of read

/-- An accepted transaction compiles, and the chosen branch passes the checks
of `AtomicTxn`. -/
theorem TxnRequest.compiles (accepted : ¬request.Refused) (rows : List Row) :
    ∃ successOps failureOps,
      request.toStore = .ok (request.compare.map Compare.toStore, successOps, failureOps) ∧
      validateCompares (request.compare.map Compare.toStore) = .ok () ∧
      List.Forall₂ (fun op storeOp => op.toStore = .ok storeOp)
        (request.chosen (evaluateCompares rows (request.compare.map Compare.toStore)))
        (chosenOps rows (request.compare.map Compare.toStore) successOps failureOps) ∧
      (mutatedKeys (chosenOps rows (request.compare.map Compare.toStore) successOps
        failureOps)).Nodup := by
  obtain ⟨branches, supported⟩ := TxnRequest.accepted_iff.mp accepted
  obtain ⟨successOps, failureOps, compiled⟩ := toStore_accepted branches
  obtain ⟨_, success, failure⟩ := toStore_eq_ok compiled
  have branch : List.Forall₂ (fun op storeOp => op.toStore = .ok storeOp)
      (request.chosen (evaluateCompares rows (request.compare.map Compare.toStore)))
      (chosenOps rows (request.compare.map Compare.toStore) successOps failureOps) := by
    unfold chosenOps TxnRequest.chosen
    split
    · exact toStoreOps_eq_ok success
    · exact toStoreOps_eq_ok failure
  refine ⟨successOps, failureOps, compiled, validateCompares_supported supported, branch, ?_⟩
  rw [compiled_mutatedKeys branch]
  exact (branches _ (chosen_mem_branches request _)).2

theorem alone_txnAtomic_accepted (accepted : ¬request.Refused) :
    ∃ response after final,
      alone supply (txnAtomic request) count world = (.ok response, after, final) := by
  obtain ⟨successOps, failureOps, compiled, valid, branch, distinct⟩ :=
    TxnRequest.compiles accepted world.db.kv
  have done := atomicTxn_of_ok (supply count) valid
    ((branchCheck_ok_iff _).mpr ⟨distinct, compiled_known branch⟩)
  obtain ⟨rev, ran⟩ := alone_txnAtomic compiled done
  exact ⟨_, _, _, ran⟩

theorem txnAtomic_batched (ready : Ready supply count bound world) (room : count < bound)
    (accepted : ¬request.Refused) :
    outcomeOf (alone supply (txnAtomic request) count world) =
      batched (getLatestTxn world.db.kv) request := by
  obtain ⟨successOps, failureOps, compiled, valid, branch, distinct⟩ :=
    TxnRequest.compiles accepted world.db.kv
  have done := atomicTxn_of_ok (supply count) valid
    ((branchCheck_ok_iff _).mpr ⟨distinct, compiled_known branch⟩)
  have later := ready.ahead count (le_refl count) room
  have left : (world.write (.atomicTxn (request.compare.map Compare.toStore) successOps
      failureOps) (supply count)).plain = leaves world.plain (request.chosen
        (evaluateCompares world.db.kv (request.compare.map Compare.toStore))) := by
    simp only [World.plain, World.write, WriteOp.apply, done]
    rw [commit_performs ready.inv later distinct]
    exact compiled_leaves branch _ _ _
  obtain ⟨rev, ran⟩ := alone_txnAtomic compiled done
  have held : evaluateCompares world.db.kv (request.compare.map Compare.toStore) =
      request.compare.all fun compare => compare.holds (getLatestTxn world.db.kv compare.key) :=
    evaluateCompares_supported (TxnRequest.accepted_iff.mp accepted).2
  rw [ran, outcomeOf, left]
  simp only [Except.mapError, Except.map, TxnResponse.plain, compiled_responses branch]
  rw [held]
  rfl

end Atomic

end SpannerEtcd
