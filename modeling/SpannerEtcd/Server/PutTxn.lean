import SpannerEtcd.Server.Execution
import SpannerEtcd.Server.PathsAgree

/-!
# A put, bare and in a transaction

The bare call writes the value and the lease of its request, whatever its
flags.  In a transaction the flags decide the path, and a put that ignores its
value or its lease takes them from the entry that it must find.
-/

namespace SpannerEtcd

def PutRequest.ignores (request : PutRequest) : Bool := request.ignoreValue || request.ignoreLease

/-- A transaction of nothing but the put. -/
def PutRequest.txn (request : PutRequest) : TxnRequest :=
  { compare := [], success := [.put request], failure := [] }

def PutRequest.storeOp (request : PutRequest) : TxnOp :=
  { type := .put, key := request.key, value := request.value, leaseID := request.lease }

/-- What a put does when it runs alone, on the map and on the entry of its
key. -/
structure Puts (request : PutRequest) (world : World) (stored : Plain)
    (prevKv : Option KeyValue) (final : World) : Prop where
  shown : prevKv =
    if request.prevKv then (getLatestTxn world.db.kv request.key).map toProtoKV else none
  left : final.plain = Function.update world.plain request.key (some stored)

/-! ## The bare call -/

section

variable {supply : Nat → CommitTs} {world : World} {request : PutRequest}

theorem alone_put_puts (ready : Ready supply 0 2 world) :
    ∃ response after final, alone supply (put request) 0 world = (.ok response, after, final) ∧
      Puts request world ⟨request.value, request.lease⟩ response.prevKv final := by
  cases found : getLatestTxn world.db.kv request.key with
  | none =>
      refine ⟨_, _, _, alone_put_absent found, ?_, ?_⟩
      · simp [found]
      · exact (create_writes ready (by decide) request.value request.lease found).1
  | some prev =>
      have again : Ready supply 1 2 world := by
        have written := ready.write (by decide) (.create request.key request.value request.lease)
        rwa [World.write_create_present _ _ _ found] at written
      refine ⟨_, _, _, alone_put_present ready.inv found, ?_, ?_⟩
      · simp [putResponse, found]
      · exact (update_writes again (by decide) request.value request.lease found).1

/-! ## The transaction -/

theorem txn_of_simple (simple : request.ignores = false) :
    txn request.txn = txnAtomic request.txn := by
  refine if_neg ?_
  simpa [txnNeedsNonAtomicFallback, TxnRequest.branches, PutRequest.txn, RequestOp.complex,
    PutRequest.ignores] using simple

theorem alone_txn_simple (ready : Ready supply 0 2 world) (simple : request.ignores = false) :
    ∃ response putResponse after final,
      alone supply (txn request.txn) 0 world = (.ok response, after, final) ∧
      response.responses = [.put putResponse] ∧
      Puts request world ⟨request.value, request.lease⟩ putResponse.prevKv final := by
  have accepted : ¬request.txn.Refused := TxnRequest.accepted_iff.mpr (by
    simp [PutRequest.txn, TxnRequest.branches, RequestOp.mutatedKey])
  have compiled : request.txn.toStore = .ok ([], [request.storeOp], []) := rfl
  have done : atomicTxn world.db (supply 0) [] [request.storeOp] [] =
      (.ok ⟨true, [txnResult world.db.kv request.storeOp], _⟩, _) :=
    atomicTxn_of_ok (supply 0) rfl rfl
  obtain ⟨rev, ran⟩ := alone_txnAtomic compiled done
  have outcome := congrArg Outcome.final (txnAtomic_batched ready (by decide) accepted)
  rw [txn_of_simple simple]
  refine ⟨_, putResponse request rev (getLatestTxn world.db.kv request.key), _, _, ran, rfl, rfl,
    ?_⟩
  rw [ran] at outcome
  exact outcome

theorem txn_of_ignoring (ignoring : request.ignores = true) :
    txn request.txn = txnSequence request.txn := by
  have path : txn request.txn = txnNonAtomic request.txn := by
    refine if_pos ?_
    simpa [txnNeedsNonAtomicFallback, TxnRequest.branches, PutRequest.txn, RequestOp.complex,
      PutRequest.ignores] using ignoring
  rw [path]
  apply txnNonAtomic_of_distinct
  intro repeats
  obtain ⟨ops, branch, twice⟩ := repeats
  simp only [TxnRequest.branches, PutRequest.txn, List.mem_cons, List.not_mem_nil, or_false]
    at branch
  obtain rfl | rfl := branch
  · cases named : (RequestOp.put request).checkedKey <;> simp [named] at twice
  · simp at twice

/-- What the transaction makes of the outcome of its put. -/
theorem alone_txn_ignoring_error (ignoring : request.ignores = true) {err : GrpcErr} {after : Nat}
    {final : World}
    (ran : alone supply (putIgnoring request) 0 world = (.error err, after, final)) :
    alone supply (txn request.txn) 0 world = (.error err, after, final) := by
  have kept : executePut request = putIgnoring request := if_pos ignoring
  have executed : alone supply (executeOps [] 0 [.put request]) 0 world =
      (.error err, after, final) :=
    (alone_bind_of (alone_executePut (kept ▸ ran))).trans rfl
  rw [txn_of_ignoring ignoring]
  exact (alone_bind_of executed).trans rfl

theorem alone_txn_ignoring_ok (ignoring : request.ignores = true) {putResponse : PutResponse}
    {after : Nat} {final : World}
    (ran : alone supply (putIgnoring request) 0 world = (.ok putResponse, after, final)) :
    ∃ response, alone supply (txn request.txn) 0 world = (.ok response, after, final) ∧
      response.responses = [.put putResponse] := by
  have kept : executePut request = putIgnoring request := if_pos ignoring
  obtain ⟨current, read⟩ : ∃ current, alone supply
      (revisionOrCurrent putResponse.header.revision) after final = (current, after, final) :=
    alone_revisionOrCurrent supply _
  have executed : alone supply (executeOps [] 0 [.put request]) 0 world =
      (.ok ([.put putResponse], current), after, final) :=
    (alone_bind_of (alone_executePut (kept ▸ ran))).trans (alone_bind_of read)
  rw [txn_of_ignoring ignoring]
  exact ⟨_, alone_bind_of executed, rfl⟩

theorem alone_putIgnoring_puts (ready : Ready supply 0 2 world) {prev : KV}
    (present : getLatestTxn world.db.kv request.key = some prev) :
    ∃ response after final,
      alone supply (putIgnoring request) 0 world = (.ok response, after, final) ∧
      Puts request world (request.stored (some prev.plain)) response.prevKv final := by
  refine ⟨_, _, _, alone_putIgnoring_present ready.inv present, ?_, ?_⟩
  · simp [putResponse, present]
  · exact (update_writes ready (by decide) _ _ present).1

end

/-! ## Where they agree -/

/-- The outcome of the bare call is that of the transaction: the same status,
the same entry of the key, which the flags let keep its old value and lease,
the same previous key-value, and no other key changed. -/
structure SamePut (supply : Nat → CommitTs) (world : World) (request : PutRequest) : Prop where
  status : codeOf (alone supply (put request) 0 world).1 =
    codeOf (alone supply (txn request.txn) 0 world).1
  entry : (alone supply (put request) 0 world).2.2.plain request.key =
    (alone supply (txn request.txn) 0 world).2.2.plain request.key
  kept : ∀ response, (alone supply (txn request.txn) 0 world).1 = .ok response →
    (alone supply (txn request.txn) 0 world).2.2.plain request.key =
      some (request.stored (world.plain request.key))
  prevKv : ∀ bare response, (alone supply (put request) 0 world).1 = .ok bare →
    (alone supply (txn request.txn) 0 world).1 = .ok response →
      ∃ inTxn, response.responses = [.put inTxn] ∧ inTxn.prevKv = bare.prevKv
  others : ∀ key ≠ request.key,
    (alone supply (put request) 0 world).2.2.plain key = world.plain key ∧
      (alone supply (txn request.txn) 0 world).2.2.plain key = world.plain key

/-- The flags are unset, or ask for what the request says anyway. -/
def PutRequest.FlagsIdle (request : PutRequest) (current : Option Plain) : Prop :=
  request.ignores = false ∨ ∃ entry, current = some entry ∧
    (request.ignoreValue = true → request.value = entry.value) ∧
    (request.ignoreLease = true → request.lease = entry.lease)

theorem PutRequest.stored_eq_iff {request : PutRequest} {entry : Plain} :
    request.stored (some entry) = ⟨request.value, request.lease⟩ ↔
      (request.ignoreValue = true → request.value = entry.value) ∧
        (request.ignoreLease = true → request.lease = entry.lease) := by
  simp only [PutRequest.stored, Plain.mk.injEq]
  cases request.ignoreValue <;> cases request.ignoreLease <;> simp [eq_comm]

section

variable {supply : Nat → CommitTs} {world : World} {request : PutRequest}

/-- Two calls that both put. -/
theorem samePut_iff_of_puts {bare inTxn : PutResponse} {response : TxnResponse} {stored : Plain}
    {after txnAfter : Nat} {final txnFinal : World}
    (ran : alone supply (put request) 0 world = (.ok bare, after, final))
    (txnRan : alone supply (txn request.txn) 0 world = (.ok response, txnAfter, txnFinal))
    (answered : response.responses = [.put inTxn])
    (puts : Puts request world ⟨request.value, request.lease⟩ bare.prevKv final)
    (txnPuts : Puts request world stored inTxn.prevKv txnFinal)
    (keeps : stored = request.stored (world.plain request.key)) :
    SamePut supply world request ↔ stored = ⟨request.value, request.lease⟩ := by
  constructor
  · intro same
    have entry := same.entry
    rw [ran, txnRan] at entry
    simp only [puts.left, txnPuts.left, Function.update_self, Option.some.injEq] at entry
    exact entry.symm
  · intro equal
    constructor
    · rw [ran, txnRan]
      rfl
    · rw [ran, txnRan]
      simp only [puts.left, txnPuts.left, equal]
    · rw [txnRan]
      intro _ _
      simp only [txnPuts.left, Function.update_self, keeps]
    · rw [ran, txnRan]
      intro shown replied same txnSame
      cases same
      cases txnSame
      exact ⟨inTxn, answered, txnPuts.shown.trans puts.shown.symm⟩
    · rw [ran, txnRan]
      intro key different
      simp only [puts.left, txnPuts.left, Function.update_of_ne different, and_self]

/-- With commit timestamps ahead of the clock and in order, a put has the same
outcome on its own and in a transaction if and only if its flags are idle. -/
theorem put_same_in_txn_iff (reachable : Reachable world)
    (ahead : ∀ i < 2, world.db.clock < (supply i).ns) (ordered : (supply 0).ns < (supply 1).ns) :
    SamePut supply world request ↔ request.FlagsIdle (world.plain request.key) := by
  have ready : Ready supply 0 2 world := by
    refine ⟨reachable.inv, fun i _ below => ahead i below, fun i j _ order below => ?_⟩
    obtain ⟨rfl, rfl⟩ : i = 0 ∧ j = 1 := by omega
    exact ordered
  obtain ⟨bare, after, final, ran, puts⟩ := alone_put_puts ready
  cases ignoring : request.ignores with
  | false =>
      obtain ⟨response, inTxn, txnAfter, txnFinal, txnRan, answered, txnPuts⟩ :=
        alone_txn_simple ready ignoring
      have keeps := (request.stored_of_simple ignoring (world.plain request.key)).symm
      rw [samePut_iff_of_puts ran txnRan answered puts txnPuts keeps]
      exact iff_of_true rfl (.inl ignoring)
  | true =>
      have idle : request.FlagsIdle (world.plain request.key) ↔ _ :=
        or_iff_right (by simp [ignoring])
      rw [idle]
      cases found : getLatestTxn world.db.kv request.key with
      | none =>
          have refused : alone supply (txn request.txn) 0 world = _ :=
            alone_txn_ignoring_error ignoring (alone_putIgnoring_absent ready.inv found)
          refine iff_of_false (fun same => ?_) (fun matching => ?_)
          · have status := same.status
            rw [ran, refused] at status
            cases status
          · obtain ⟨entry, present, _⟩ := matching
            rw [World.plain_eq_none_iff.mpr found] at present
            cases present
      | some prev =>
          have there := World.plain_of_present found
          obtain ⟨inTxn, txnAfter, txnFinal, putRan, txnPuts⟩ :=
            alone_putIgnoring_puts ready found
          obtain ⟨response, txnRan, answered⟩ := alone_txn_ignoring_ok ignoring putRan
          rw [samePut_iff_of_puts ran txnRan answered puts txnPuts (there ▸ rfl),
            PutRequest.stored_eq_iff]
          simp [there]

end

/-- A put that asks for the old value. -/
def keepingPut (value : Option Bytes) : PutRequest :=
  { key := ascii "k", value := value, lease := 0, prevKv := true, ignoreValue := true }

/-- The key is there with the value `v`. -/
def valuedRun : List Action := [.write (.create (ascii "k") (some (ascii "v")) 0) 3]

def valuedWorld : World := (Runs.run World.step World.init valuedRun).getD World.init

theorem keepingPut_same : SamePut ticking valuedWorld (keepingPut (some (ascii "v"))) :=
  (put_same_in_txn_iff ⟨valuedRun, rfl⟩ (by decide) (by decide)).mpr
    (.inr ⟨⟨some (ascii "v"), 0⟩, rfl, fun _ => rfl, nofun⟩)

/-- The bare put overwrites what the transaction keeps, and creates what the
transaction does not find. -/
theorem bare_put_ignores_flags :
    Reachable valuedWorld ∧
      (alone ticking (put (keepingPut none)) 0 valuedWorld).2.2.plain (ascii "k") =
        some ⟨none, 0⟩ ∧
      (alone ticking (txn (keepingPut none).txn) 0 valuedWorld).2.2.plain (ascii "k") =
        some ⟨some (ascii "v"), 0⟩ ∧
      ¬SamePut ticking valuedWorld (keepingPut none) ∧
      codeOf (alone ticking (put (keepingPut none)) 0 World.init).1 = none ∧
      codeOf (alone ticking (txn (keepingPut none).txn) 0 World.init).1 = some .notFound ∧
      ¬SamePut ticking World.init (keepingPut none) := by
  have overwritten : (alone ticking (put (keepingPut none)) 0 valuedWorld).2.2.plain (ascii "k") =
      some ⟨none, 0⟩ := rfl
  have kept : (alone ticking (txn (keepingPut none).txn) 0 valuedWorld).2.2.plain (ascii "k") =
      some ⟨some (ascii "v"), 0⟩ := rfl
  have created : codeOf (alone ticking (put (keepingPut none)) 0 World.init).1 = none := rfl
  have refused : codeOf (alone ticking (txn (keepingPut none).txn) 0 World.init).1 =
      some .notFound := rfl
  refine ⟨⟨valuedRun, rfl⟩, overwritten, kept, fun same => ?_, created, refused, fun same => ?_⟩
  · have entry := same.entry
    rw [show (keepingPut none).key = ascii "k" from rfl, overwritten, kept] at entry
    cases entry
  · have status := same.status
    rw [created, refused] at status
    cases status

end SpannerEtcd
