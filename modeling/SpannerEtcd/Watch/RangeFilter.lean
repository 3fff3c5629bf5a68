import SpannerEtcd.Lib.Byte
import SpannerEtcd.Lib.PrefixRange
import SpannerEtcd.Watch.Subscribe

/-!
# The key range of a watch

A watch asks for a range of keys.  The server turns the range into a prefix
and `dispatchEvents` compares keys with that prefix, less a final `%`.  The
two agree on the whole key space and on prefixes that end in `0xff`; on all
other ranges, the single keys among them, the watch sees other keys as well.
-/

namespace SpannerEtcd

structure WatchCreateRequest where
  key : Bytes
  rangeEnd : Bytes
  startRevision : Int
  deriving DecidableEq, Repr

/-- The prefix that stands for the range of a watch in the store. -/
def watchPrefix (key rangeEnd : Bytes) : Bytes :=
  if rangeEnd = [] then key
  else if rangeEnd = [0] then []
  else if 0 < key.length ∧ rangeEnd.length = key.length then key.dropLast
  else key

def WatchCreateRequest.subscription (request : WatchCreateRequest) : Subscription :=
  { pre := watchPrefix request.key request.rangeEnd, afterRev := request.startRevision }

/-- The keys a watch asks for. -/
def WatchCreateRequest.Requests (request : WatchCreateRequest) (key : Bytes) : Prop :=
  if request.rangeEnd = [] then key = request.key
  else if request.rangeEnd = [0] then request.key ≤ key
  else request.key ≤ key ∧ key < request.rangeEnd

instance (request : WatchCreateRequest) (key : Bytes) : Decidable (request.Requests key) := by
  unfold WatchCreateRequest.Requests
  infer_instance

/-- The events that a dispatch puts on their way to the subscriber. -/
def handedOver (before after : SubscribeSystem) : List Event :=
  (after.inFlight.drop before.inFlight.length).flatMap Flight.matching

/-- Every dispatch hands over exactly the events on requested keys. -/
def WatchCreateRequest.Filtered (request : WatchCreateRequest) : Prop :=
  ∀ (system : SubscribeSystem) (producer : Producer) (events : List Event), ∀ event ∈ events,
    event ∈ handedOver system (system.dispatchEvents request.subscription producer events) ↔
      request.Requests event.kv.key

/-! ## What is handed over -/

theorem handedOver_dispatchEvents (system : SubscribeSystem) (sub : Subscription)
    (producer : Producer) (events : List Event) :
    handedOver system (system.dispatchEvents sub producer events) =
      events.filter fun event => sub.accepts event.kv.key := by
  unfold SubscribeSystem.dispatchEvents handedOver
  dsimp only
  split
  next empty => simp [List.isEmpty_iff.mp empty]
  next => simp

theorem accepts_iff_isPrefix (sub : Subscription) (key : Bytes) :
    sub.accepts key = true ↔ trimPercent sub.pre <+: key := by
  simp only [Subscription.accepts, Bool.or_eq_true, decide_eq_true_eq, List.isPrefixOf_iff_prefix]
  constructor
  · rintro (empty | begins)
    · exact empty ▸ List.nil_prefix
    · exact begins
  · exact .inr

theorem trimPercent_isPrefix (s : Bytes) : trimPercent s <+: s := by
  unfold trimPercent
  split
  · exact List.dropLast_prefix s
  · exact List.prefix_rfl

theorem watchPrefix_isPrefix (key rangeEnd : Bytes) : watchPrefix key rangeEnd <+: key := by
  unfold watchPrefix
  split
  · exact List.prefix_rfl
  split
  · exact List.nil_prefix
  split
  · exact List.dropLast_prefix key
  · exact List.prefix_rfl

/-- Filtering is a matter of the keys alone: there are events on every key. -/
theorem WatchCreateRequest.filtered_iff (request : WatchCreateRequest) :
    request.Filtered ↔
      ∀ key, trimPercent request.subscription.pre <+: key ↔ request.Requests key := by
  constructor
  · intro filtered key
    let event : Event := ⟨⟨key, none, none, 0, false, true, 2, 2, 0⟩, .put⟩
    have handed := filtered (.subscribe .init 1 .idle) .pollLoop [event] event (by simp)
    rw [handedOver_dispatchEvents, List.mem_filter, accepts_iff_isPrefix] at handed
    simpa using handed
  · intro sameKeys system producer events event membership
    rw [handedOver_dispatchEvents, List.mem_filter, accepts_iff_isPrefix]
    simpa [membership] using sameKeys event.kv.key

/-! ## Which ranges are filtered exactly -/

/-- The whole key space, or the keys with a prefix that ends in `0xff`. -/
def WatchCreateRequest.Expressible (request : WatchCreateRequest) : Prop :=
  (request.key = [] ∧ request.rangeEnd = [0]) ∨
    ∃ front byte count, byte < 255 ∧
      request.key = front ++ byte :: List.replicate (count + 1) 255 ∧
      request.rangeEnd = front ++ [byte + 1]

theorem exists_next_byte (byte : Byte) (smaller : byte ≠ ⊤) : ∃ next, byte ⋖ next :=
  ⟨byte + 1, byte_covBy_iff.mpr ⟨lt_top_iff_ne_top.mpr smaller, rfl⟩⟩

theorem trimmed_isPrefix (request : WatchCreateRequest) :
    trimPercent request.subscription.pre <+: request.key :=
  (trimPercent_isPrefix _).trans (watchPrefix_isPrefix request.key request.rangeEnd)

/-- A single key is a prefix of longer ones. -/
theorem not_filtered_single {request : WatchCreateRequest} (single : request.rangeEnd = []) :
    ¬request.Filtered := by
  rw [WatchCreateRequest.filtered_iff]
  intro sameKeys
  have longer := (sameKeys (request.key ++ [0])).mp
    ((trimmed_isPrefix request).trans (List.prefix_append _ _))
  simp [WatchCreateRequest.Requests, single] at longer

theorem filtered_from_iff {request : WatchCreateRequest} (toEnd : request.rangeEnd = [0]) :
    request.Filtered ↔ request.key = [] := by
  have everything : trimPercent request.subscription.pre = [] := by
    simp [WatchCreateRequest.subscription, watchPrefix, toEnd, trimPercent]
  have above : ∀ key, request.Requests key ↔ request.key ≤ key := by
    simp [WatchCreateRequest.Requests, toEnd]
  simp only [WatchCreateRequest.filtered_iff, everything, above, List.nil_prefix, true_iff]
  constructor
  · exact fun lowest => le_antisymm (lowest []) (PrefixRange.nil_le _)
  · intro empty key
    rw [empty]
    exact PrefixRange.nil_le key

/-- In a bounded range the lowest key is requested, so the trimmed prefix is
the key itself. -/
theorem trimmed_eq_key {request : WatchCreateRequest}
    (requests : ∀ key, request.Requests key ↔ request.key ≤ key ∧ key < request.rangeEnd)
    (filtered : request.Filtered) : trimPercent request.subscription.pre = request.key := by
  have own := (request.filtered_iff.mp filtered _).mp List.prefix_rfl
  exact le_antisymm (PrefixRange.le_of_isPrefix (trimmed_isPrefix request))
    ((requests _).mp own).1

theorem subscription_pre_of_ne_length {request : WatchCreateRequest}
    (bounded : request.rangeEnd ≠ []) (notToEnd : request.rangeEnd ≠ [0])
    (lengths : request.rangeEnd.length ≠ request.key.length) :
    request.subscription.pre = request.key := by
  simp [WatchCreateRequest.subscription, watchPrefix, bounded, notToEnd, lengths]

/-- A range end as long as the key costs the key its last byte. -/
theorem trimmed_ne_key_of_length {request : WatchCreateRequest}
    (bounded : request.rangeEnd ≠ []) (notToEnd : request.rangeEnd ≠ [0])
    (lengths : request.rangeEnd.length = request.key.length) :
    trimPercent request.subscription.pre ≠ request.key := by
  have positive : 0 < request.key.length := lengths ▸ List.length_pos_of_ne_nil bounded
  intro same
  have shorter := (trimPercent_isPrefix request.subscription.pre).length_le
  rw [same] at shorter
  simp [WatchCreateRequest.subscription, watchPrefix, bounded, notToEnd, lengths, positive]
    at shorter
  omega

theorem trimPercent_of_last {s : Bytes} (byte : Byte) (other : byte ≠ 37) :
    trimPercent (s ++ [byte]) = s ++ [byte] := by
  simp [trimPercent, other]

/-- A watch is handed exactly the events on the keys it asks for in the two
cases of `Expressible`, and in no other case. -/
theorem watch_filtered_iff (request : WatchCreateRequest) :
    request.Filtered ↔ request.Expressible := by
  by_cases single : request.rangeEnd = []
  · refine iff_of_false (not_filtered_single single) ?_
    rintro (⟨_, toEnd⟩ | ⟨front, byte, count, _, _, ending⟩)
    · simp [single] at toEnd
    · simp [single] at ending
  by_cases toEnd : request.rangeEnd = [0]
  · rw [filtered_from_iff toEnd]
    constructor
    · exact fun empty => .inl ⟨empty, toEnd⟩
    · rintro (⟨empty, _⟩ | ⟨front, byte, count, below, _, ending⟩)
      · exact empty
      · have wrapped : byte + 1 = 0 := by
          simpa using congrArg List.getLast? (ending.symm.trans toEnd)
        have higher : byte < byte + 1 := (byte_covBy_iff.mpr ⟨below, rfl⟩).lt
        exact absurd (wrapped ▸ higher) (Fin.not_lt_zero byte)
  have requests : ∀ key, request.Requests key ↔ request.key ≤ key ∧ key < request.rangeEnd := by
    simp [WatchCreateRequest.Requests, single, toEnd]
  constructor
  · intro filtered
    have trimmed := trimmed_eq_key requests filtered
    have range := request.filtered_iff.mp filtered
    simp only [trimmed, requests] at range
    obtain ⟨front, byte, next, count, covers, lower, upper⟩ :=
      (PrefixRange.isPrefix_iff_range_iff exists_next_byte).mp range
    obtain ⟨below, rfl⟩ := byte_covBy_iff.mp covers
    cases count with
    | zero =>
        refine absurd trimmed (trimmed_ne_key_of_length single toEnd ?_)
        simp [lower, upper]
    | succ count => exact .inr ⟨front, byte, count, below, lower, upper⟩
  · rintro (⟨_, fromStart⟩ | ⟨front, byte, count, below, lower, upper⟩)
    · exact absurd fromStart toEnd
    · have whole : request.subscription.pre = request.key :=
        subscription_pre_of_ne_length single toEnd (by simp [lower, upper])
      have trimmed : trimPercent request.key = request.key := by
        rw [lower, List.replicate_succ', ← List.cons_append, ← List.append_assoc]
        exact trimPercent_of_last 255 (by decide)
      rw [request.filtered_iff, whole, trimmed]
      intro key
      rw [requests, lower, upper]
      exact PrefixRange.isPrefix_iff_between (byte_covBy_iff.mpr ⟨below, rfl⟩) front (count + 1)

def putEvent (key : Bytes) : Event :=
  { kv := ⟨key, some (ascii "v"), none, 0, false, true, 5, 5, 0⟩, type := .put }

/-- A watch on the key `foo` is handed an event on `foobar`, and a watch on
the prefix `foo` one on `fox`. -/
theorem watch_sees_other_keys :
    (∃ event ∈ handedOver (.subscribe .init 1 .idle)
        (SubscribeSystem.dispatchEvents (.subscribe .init 1 .idle)
          (WatchCreateRequest.subscription ⟨ascii "foo", [], 0⟩) .pollLoop
          [putEvent (ascii "foobar")]),
      ¬WatchCreateRequest.Requests ⟨ascii "foo", [], 0⟩ event.kv.key) ∧
    ∃ event ∈ handedOver (.subscribe .init 1 .idle)
        (SubscribeSystem.dispatchEvents (.subscribe .init 1 .idle)
          (WatchCreateRequest.subscription ⟨ascii "foo", ascii "fop", 0⟩) .pollLoop
          [putEvent (ascii "fox")]),
      ¬WatchCreateRequest.Requests ⟨ascii "foo", ascii "fop", 0⟩ event.kv.key :=
  ⟨⟨putEvent (ascii "foobar"), by decide, by decide⟩,
    putEvent (ascii "fox"), by decide, by decide⟩

end SpannerEtcd
