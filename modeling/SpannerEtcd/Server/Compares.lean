import SpannerEtcd.Server.RangeReads
import SpannerEtcd.Server.Versions

/-!
# Compares as etcd defines them

A compare relates the version, a revision or the value of an entry to an
operand.  An absent key has version and revisions 0 and no value, and a compare
with a range end speaks of all the keys of the range.  The server reads the
entry of the key and nothing else.
-/

namespace SpannerEtcd

/-- The compare of a request.  The server does not look at `rangeEnd`. -/
structure CompareMessage extends Compare where
  rangeEnd : Bytes
  deriving DecidableEq, Repr

/-! ## What a compare means -/

/-- The relation that an operator asks for. -/
def CompareResult.Relates {Target : Type} [LT Target] (result : CompareResult)
    (actual expected : Target) : Prop :=
  match result with
  | .equal => actual = expected
  | .notEqual => actual ≠ expected
  | .greater => expected < actual
  | .less => actual < expected
  | .other _ => False

/-- Of the three orders exactly one holds, and inequality is the negation of
equality. -/
theorem CompareResult.relates_exactly_one {Target : Type} [LinearOrder Target]
    (actual expected : Target) :
    (∃! result, result ∈ [CompareResult.less, .equal, .greater] ∧
      result.Relates actual expected) ∧
    (CompareResult.notEqual.Relates actual expected ↔
      ¬CompareResult.equal.Relates actual expected) := by
  refine ⟨?_, Iff.rfl⟩
  rcases lt_trichotomy actual expected with less | same | greater
  · refine ⟨.less, by simpa [Relates] using less, ?_⟩
    simp [Relates, less.ne, less.not_gt]
  · refine ⟨.equal, by simpa [Relates] using same, ?_⟩
    simp [Relates, same]
  · refine ⟨.greater, by simpa [Relates] using greater, ?_⟩
    simp [Relates, greater.ne', greater.not_gt]

/-- A compare of one entry. -/
def Compare.HoldsOf (compare : Compare) (kv : Option KV) : Prop :=
  match compare.target with
  | .version => compare.result.Relates (versionOf kv) compare.getVersion
  | .create => compare.result.Relates (createRevOf kv) compare.getCreateRevision
  | .mod => compare.result.Relates (prevModRev kv) compare.getModRevision
  | .value =>
      match kv with
      | none => False
      | some kv => compare.result.Relates (kv.value.getD []) (compare.getValue.getD [])
  | .other _ => False

def CompareMessage.Holds (message : CompareMessage) (entries : AbstractMap) : Prop :=
  if message.rangeEnd = [] then message.HoldsOf (entries message.key)
  else ∀ key kv, Within message.key message.rangeEnd key → entries key = some kv →
    message.HoldsOf (some kv)

/-! ## What the server decides -/

def CompareMessage.decided (message : CompareMessage) (entries : AbstractMap) : Bool :=
  message.toCompare.holds (entries message.key)

theorem compareInt_iff {actual expected : Int} {result : CompareResult} :
    compareInt actual expected result = true ↔ result.Relates actual expected := by
  cases result <;> simp [compareInt, CompareResult.Relates]

/-- The value compares that `compareBytes` gets right: an absent key equals
nothing, and no order is ever asked of a value where it holds. -/
def Compare.Ordinary (compare : Compare) (kv : Option KV) : Prop :=
  compare.target = .value →
    match compare.result, kv with
    | .equal, none => compare.getValue.getD [] ≠ []
    | .notEqual, none => compare.getValue.getD [] = []
    | .greater, some kv => ¬compare.getValue.getD [] < kv.value.getD []
    | .less, some kv => ¬kv.value.getD [] < compare.getValue.getD []
    | _, _ => True

/-- `compareBytes` tells equality from inequality, and takes no other order to
hold. -/
theorem compareBytes_iff_iff {actual expected : Option Bytes} {result : CompareResult} :
    (compareBytes actual expected result = true ↔
        result.Relates (actual.getD []) (expected.getD [])) ↔
      (result = .greater → ¬expected.getD [] < actual.getD []) ∧
        (result = .less → ¬actual.getD [] < expected.getD []) := by
  cases result with
  | equal | notEqual =>
      apply iff_of_true
      · exact decide_eq_true_iff
      · simp
  | greater | less | other => simp [compareBytes, CompareResult.Relates]

theorem Compare.holds_iff_holdsOf_iff (compare : Compare) (kv : Option KV) :
    (compare.holds kv = true ↔ compare.HoldsOf kv) ↔ compare.Ordinary kv := by
  cases target : compare.target with
  | value =>
      cases kv with
      | none =>
          cases result : compare.result <;>
            simp [holds, HoldsOf, Ordinary, target, result, compareBytes, valueOf]
      | some kv =>
          simp only [holds, HoldsOf, Ordinary, target, valueOf, compareBytes_iff_iff]
          cases compare.result <;> simp
  | version | create | mod => simp [holds, HoldsOf, Ordinary, target, compareInt_iff]
  | other code => simp [holds, HoldsOf, Ordinary, target]

/-- What holds of the key alone holds of the whole range, and only that. -/
def CompareMessage.KeyDecides (message : CompareMessage) (entries : AbstractMap) : Prop :=
  message.rangeEnd ≠ [] →
    (message.HoldsOf (entries message.key) ↔
      ∀ key kv, Within message.key message.rangeEnd key → entries key = some kv →
        message.HoldsOf (some kv))

theorem CompareMessage.decided_iff_holds_iff (message : CompareMessage) (entries : AbstractMap) :
    (message.decided entries = true ↔ message.Holds entries) ↔
      (message.Ordinary (entries message.key) ↔ message.KeyDecides entries) := by
  rw [← Compare.holds_iff_holdsOf_iff]
  unfold decided Holds KeyDecides
  by_cases point : message.rangeEnd = []
  · simp [point]
  · simp only [point, if_false, ne_eq, not_false_eq_true, true_imp_iff]
    tauto

/-- The condition under which a compare is decided as etcd defines it. -/
def CompareMessage.Faithful (message : CompareMessage) (entries : AbstractMap) : Prop :=
  message.Ordinary (entries message.key) ↔ message.KeyDecides entries

/-- In every reachable store both evaluators answer a list of compares with the
conjunction of the same decisions, and a decision is that of etcd exactly if
the value compare is ordinary and the key decides for its range, or neither. -/
theorem compares_decided_as_etcd_iff {world : World} (reachable : Reachable world)
    {messages : List CompareMessage}
    (supported : ∀ message ∈ messages, message.target.unsupported = none) :
    evaluateCompares world.db.kv (messages.map fun message => message.toCompare.toStore) =
        messages.all (·.decided (getLatestTxn world.db.kv)) ∧
      (∀ supply count,
        alone supply (evaluateCompare (messages.map CompareMessage.toCompare)) count world =
          (.ok (messages.all (·.decided (getLatestTxn world.db.kv))), count, world)) ∧
      ∀ message ∈ messages,
        (message.decided (getLatestTxn world.db.kv) = true ↔
            message.Holds (getLatestTxn world.db.kv)) ↔
          message.Faithful (getLatestTxn world.db.kv) := by
  have supportedCompares : ∀ compare ∈ messages.map CompareMessage.toCompare,
      compare.target.unsupported = none := by
    rw [List.forall_mem_map]
    exact supported
  refine ⟨?_, ?_, ?_⟩
  · have evaluated : evaluateCompares world.db.kv _ = _ :=
      evaluateCompares_supported supportedCompares
    rw [List.map_map, List.all_map] at evaluated
    exact evaluated
  · intro supply count
    rw [alone_evaluateCompare supply count reachable.inv supportedCompares, List.all_map]
    rfl
  · intro message _
    exact message.decided_iff_holds_iff (getLatestTxn world.db.kv)

def modCompare : CompareMessage :=
  { target := .mod, result := .equal, key := ascii "k", targetUnion := .modRevision 5
    rangeEnd := [] }

theorem modCompare_decided_as_etcd :
    evaluateCompares createdWorld.db.kv [modCompare.toCompare.toStore] = true ∧
      modCompare.Holds (getLatestTxn createdWorld.db.kv) := by
  have supported : ∀ message ∈ [modCompare], message.target.unsupported = none := by decide
  have decided := compares_decided_as_etcd_iff createdWorld_reachable supported
  have faithful : modCompare.Faithful (getLatestTxn createdWorld.db.kv) :=
    iff_of_true (fun value => CompareTarget.noConfusion value) fun ranged => absurd rfl ranged
  have same := (decided.2.2 modCompare List.mem_cons_self).mpr faithful
  exact ⟨by decide, same.mp (by decide)⟩

/-- The value of `k` is greater than `a`, an absent key has no value, and `k` in
the range from `a` to `z` has a version; the server decides otherwise. -/
theorem compares_decided_wrong :
    (∃ message : CompareMessage, message.key = ascii "k" ∧ message.target = .value ∧
        message.result = .greater ∧ message.rangeEnd = [] ∧
        message.Holds (getLatestTxn createdWorld.db.kv) ∧
        message.decided (getLatestTxn createdWorld.db.kv) = false) ∧
      (∃ message : CompareMessage, message.target = .value ∧ message.result = .equal ∧
        message.rangeEnd = [] ∧ getLatestTxn createdWorld.db.kv message.key = none ∧
        ¬message.Holds (getLatestTxn createdWorld.db.kv) ∧
        message.decided (getLatestTxn createdWorld.db.kv) = true) ∧
      ∃ message : CompareMessage, message.target = .version ∧ message.result = .equal ∧
        message.rangeEnd = ascii "z" ∧
        ¬message.Holds (getLatestTxn createdWorld.db.kv) ∧
        message.decided (getLatestTxn createdWorld.db.kv) = true := by
  refine ⟨⟨⟨⟨.value, .greater, ascii "k", .value (some (ascii "a"))⟩, []⟩, rfl, rfl, rfl, rfl, ?_,
      by decide⟩, ⟨⟨⟨.value, .equal, ascii "x", .unset⟩, []⟩, rfl, rfl, rfl, by decide, ?_,
      by decide⟩, ⟨⟨⟨.version, .equal, ascii "a", .unset⟩, ascii "z"⟩, rfl, rfl, rfl, ?_,
      by decide⟩⟩
  · show ascii "a" < ascii "v"
    decide
  · exact id
  · intro ranged
    have zero : versionOf (getLatestTxn createdWorld.db.kv (ascii "k")) = 0 :=
      ranged (ascii "k") _ (by decide) rfl
    exact absurd zero (by decide)

end SpannerEtcd
