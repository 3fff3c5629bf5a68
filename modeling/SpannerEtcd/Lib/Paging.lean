import Mathlib

/-!
# Pages of an ordered list

A reader takes the first items of a list ordered by some rank and goes on
above a rank that it believes to have covered.
-/

namespace Paging

universe u v

variable {Item : Type u} {Rank : Type v} [LinearOrder Rank] {rank : Item → Rank}
  {items : List Item}

/-- The first page holds everything up to a rank when no more items than fit
on it are that low. -/
theorem mem_take_of_count_le {bound : Rank} {size : Nat}
    (ordered : items.Pairwise fun first second => rank first ≤ rank second)
    (few : (items.filter fun item => decide (rank item ≤ bound)).length ≤ size)
    {item : Item} (membership : item ∈ items) (low : rank item ≤ bound) :
    item ∈ items.take size := by
  induction items generalizing size with
  | nil => simp at membership
  | cons head rest inductionHypothesis =>
      obtain ⟨headLowest, restOrdered⟩ := List.pairwise_cons.mp ordered
      have headLow : rank head ≤ bound := by
        rcases List.mem_cons.mp membership with rfl | inRest
        · exact low
        · exact (headLowest item inRest).trans low
      simp only [List.filter_cons, headLow, decide_true, if_true, List.length_cons] at few
      obtain ⟨smaller, rfl⟩ : ∃ smaller, size = smaller + 1 := ⟨size - 1, by omega⟩
      rw [List.take_succ_cons, List.mem_cons]
      rcases List.mem_cons.mp membership with rfl | inRest
      · exact .inl rfl
      · exact .inr (inductionHypothesis restOrdered (by omega) inRest)

/-- With ranks that tell the items apart, an item is on the first page, or the
page is full and ends below it. -/
theorem mem_take_or_last_lt {size : Nat} (positive : 0 < size)
    (ordered : items.Pairwise fun first second => rank first < rank second)
    {item : Item} (membership : item ∈ items) :
    item ∈ items.take size ∨ (items.take size).length = size ∧
      ∃ last, (items.take size).getLast? = some last ∧ rank last < rank item := by
  rw [← List.take_append_drop size items] at membership ordered
  obtain taken | dropped := List.mem_append.mp membership
  · exact .inl taken
  · right
    have longer := List.length_pos_of_mem dropped
    rw [List.length_drop] at longer
    have full : (items.take size).length = size := List.length_take_of_le (by omega)
    have nonempty : items.take size ≠ [] := List.ne_nil_of_length_pos (by omega)
    refine ⟨full, _, List.getLast?_eq_some_getLast nonempty, ?_⟩
    exact (List.pairwise_append.mp ordered).2.2 _ (List.getLast_mem nonempty) item dropped

/-- Where what passes a test comes first, it does not matter whether a page is
tested or what passes is paged. -/
theorem filter_take {passes : Item → Bool} (size : Nat)
    (first : items.Pairwise fun earlier later => passes later = true → passes earlier = true) :
    (items.take size).filter passes = (items.filter passes).take size := by
  induction items generalizing size with
  | nil => simp
  | cons head rest inductionHypothesis =>
      obtain ⟨headFirst, restFirst⟩ := List.pairwise_cons.mp first
      cases size with
      | zero => simp
      | succ size =>
          cases passed : passes head with
          | true => simp [passed, inductionHypothesis size restFirst]
          | false =>
              have none : ∀ item ∈ rest, ¬passes item = true := by
                intro item membership passedLater
                rw [headFirst item membership passedLater] at passed
                cases passed
              have nothing : (rest.take size).filter passes = [] :=
                List.filter_eq_nil_iff.mpr fun item taken => none item (List.mem_of_mem_take taken)
              simp [passed, nothing, List.filter_eq_nil_iff.mpr none]

/-! ## Loops that collect -/

section Collect

variable {State : Type u} {Output : Type v}

/-- What a loop has put out when it stops; each round says what it puts out
and from where the next one goes on. -/
def collect (round : State → List Output × Option State) : Nat → State → Option (List Output)
  | 0, _ => none
  | fuel + 1, state =>
      match round state with
      | (output, none) => some output
      | (output, some next) => (collect round fuel next).map fun rest => output ++ rest

theorem collect_mono {round : State → List Output × Option State} {fuel : Nat} {state : State}
    {outputs : List Output} (finished : collect round fuel state = some outputs) (more : Nat) :
    collect round (fuel + more) state = some outputs := by
  induction fuel generalizing state outputs with
  | zero => cases finished
  | succ fuel inductionHypothesis =>
      rw [Nat.add_right_comm]
      simp only [collect] at finished ⊢
      generalize round state = result at finished ⊢
      obtain ⟨output, next⟩ := result
      cases next with
      | none => exact finished
      | some next =>
          obtain ⟨rest, collected, rfl⟩ := Option.map_eq_some_iff.mp finished
          simp only [inductionHypothesis collected, Option.map_some]

/-- Two loops whose rounds put out the same, up to a grouping of the one and a
renaming of the other, collect the same. -/
theorem collect_flatten_eq {Item : Type v} {round : State → List (List Output) × Option State}
    {other : State → List Item × Option State} {rename : Item → Output} {inv : State → Prop}
    (agree : ∀ state, inv state →
      (round state).1.flatten = (other state).1.map rename ∧ (round state).2 = (other state).2)
    (preserved : ∀ state next, inv state → (other state).2 = some next → inv next)
    (fuel : Nat) {state : State} (holds : inv state) :
    (collect round fuel state).map List.flatten =
      (collect other fuel state).map (List.map rename) := by
  induction fuel generalizing state with
  | zero => rfl
  | succ fuel inductionHypothesis =>
      have sameOutput := (agree state holds).1
      have sameNext := (agree state holds).2
      have kept := preserved state
      simp only [collect]
      generalize round state = result at sameOutput sameNext ⊢
      generalize other state = otherResult at sameOutput sameNext kept ⊢
      obtain ⟨output, next⟩ := result
      obtain ⟨items, otherNext⟩ := otherResult
      obtain rfl : next = otherNext := sameNext
      cases next with
      | none => simpa using sameOutput
      | some next =>
          calc ((collect round fuel next).map fun rest => output ++ rest).map List.flatten
            _ = ((collect round fuel next).map List.flatten).map fun rest =>
                  output.flatten ++ rest := by simp [Function.comp_def]
            _ = ((collect other fuel next).map (List.map rename)).map fun rest =>
                  items.map rename ++ rest := by
                rw [inductionHypothesis (kept next holds rfl), sameOutput]
            _ = ((collect other fuel next).map fun rest => items ++ rest).map
                  (List.map rename) := by simp [Function.comp_def]

end Collect

/-! ## Reading page after page -/

/-- A query answers with the items above a rank, lowest first; items of one
rank may come in any order. -/
structure IsQuery (rank : Item → Rank) (items : List Item) (query : Rank → List Item) :
    Prop where
  perm : ∀ cursor, (query cursor).Perm (items.filter fun item => decide (cursor < rank item))
  ordered : ∀ cursor, (query cursor).Pairwise fun first second => rank first ≤ rank second

/-- One page of `size` items; a full page is followed by another one, above
its last item. -/
def readPage (rank : Item → Rank) (size : Nat) (query : Rank → List Item) (cursor : Rank) :
    List Item × Option Rank :=
  let page := (query cursor).take size
  if page.length < size then (page, none) else (page, page.getLast?.map rank)

/-- Everything that is read page after page, until a page is short. -/
def readAll (rank : Item → Rank) (size : Nat) (query : Rank → List Item) :
    Nat → Rank → Option (List Item) :=
  collect (readPage rank size query)

/-- No page ends inside the block of the items of one rank: where the block
begins before the end of a page, it does not reach beyond it. -/
def Aligned (size : Nat) (ranks : List Rank) : Prop :=
  ∀ value page, ranks.countP (fun other => decide (other < value)) < page * size →
    ranks.countP (fun other => decide (other ≤ value)) ≤ page * size

theorem Aligned.perm {size : Nat} {ranks others : List Rank} (same : ranks.Perm others) :
    Aligned size ranks ↔ Aligned size others := by
  simp only [Aligned, same.countP_eq]

theorem aligned_of_length_lt {size : Nat} {ranks : List Rank} (short : ranks.length < size) :
    Aligned size ranks := by
  intro value page begins
  have positive : 0 < page := Nat.pos_of_ne_zero fun zero => by simp [zero] at begins
  calc ranks.countP (fun other => decide (other ≤ value))
    _ ≤ ranks.length := List.countP_le_length
    _ ≤ size := short.le
    _ ≤ page * size := Nat.le_mul_of_pos_left size positive

section Blocks

variable {front back : List Rank} {last : Rank}

theorem not_aligned_append (lastIn : last ∈ front) (low : ∀ next ∈ back, last ≤ next)
    (highest : ∀ value ∈ front, value ≤ last) (goesOn : last ∈ back) :
    ¬Aligned front.length (front ++ back) := by
  intro aligned
  have begins : front.countP (fun other => decide (other < last)) < front.length := by
    apply List.countP_lt_length_iff.mpr
    exact ⟨last, lastIn, by simp⟩
  have none : back.countP (fun other => decide (other < last)) = 0 := by
    rw [List.countP_eq_zero]
    intro next membership
    simpa using low next membership
  have all : front.countP (fun other => decide (other ≤ last)) = front.length := by
    rw [List.countP_eq_length]
    simpa using highest
  have beyond : 0 < back.countP (fun other => decide (other ≤ last)) :=
    List.countP_pos_iff.mpr ⟨last, goesOn, by simp⟩
  have ends := aligned last 1 (by rw [List.countP_append]; omega)
  rw [List.countP_append] at ends
  omega

theorem aligned_append_iff (highest : ∀ value ∈ front, value ≤ last)
    (ends : ∀ next ∈ back, last < next) :
    Aligned front.length (front ++ back) ↔ Aligned front.length back := by
  have below : ∀ value, last < value →
      front.countP (fun other => decide (other < value)) = front.length ∧
      front.countP (fun other => decide (other ≤ value)) = front.length := by
    intro value above
    simp only [List.countP_eq_length, decide_eq_true_eq]
    exact ⟨fun other membership => (highest other membership).trans_lt above,
      fun other membership => ((highest other membership).trans_lt above).le⟩
  have nothing : ∀ value, ¬last < value →
      back.countP (fun other => decide (other ≤ value)) = 0 := by
    intro value low
    simp only [List.countP_eq_zero, decide_eq_true_eq, not_le]
    exact fun next membership => (not_lt.mp low).trans_lt (ends next membership)
  constructor
  · intro aligned value page begins
    by_cases above : last < value
    · obtain ⟨before, upTo⟩ := below value above
      have fits := aligned value (page + 1)
      rw [List.countP_append, List.countP_append, before, upTo, Nat.succ_mul] at fits
      omega
    · rw [nothing value above]
      exact Nat.zero_le _
  · intro aligned value page begins
    rw [List.countP_append] at begins ⊢
    cases page with
    | zero => omega
    | succ page =>
        by_cases above : last < value
        · obtain ⟨before, upTo⟩ := below value above
          have fits := aligned value page
          rw [Nat.succ_mul] at begins ⊢
          omega
        · have atMost := front.countP_le_length (p := fun other => decide (other ≤ value))
          rw [nothing value above, Nat.succ_mul]
          omega

end Blocks

section Rounds

variable {query : Rank → List Item} {size fuel : Nat} {cursor : Rank}

omit [LinearOrder Rank] in
theorem readPage_short (short : (query cursor).length < size) :
    readPage rank size query cursor = (query cursor, none) := by
  have whole : (query cursor).take size = query cursor := List.take_of_length_le short.le
  simp only [readPage, whole, short, if_true]

omit [LinearOrder Rank] in
theorem readPage_full (positive : 0 < size) (full : size ≤ (query cursor).length) :
    ∃ last, ((query cursor).take size).getLast? = some last ∧
      readPage rank size query cursor = ((query cursor).take size, some (rank last)) := by
  have length : ((query cursor).take size).length = size := List.length_take_of_le full
  have nonempty : (query cursor).take size ≠ [] := List.ne_nil_of_length_pos (by omega)
  have found := List.getLast?_eq_some_getLast nonempty
  refine ⟨_, found, ?_⟩
  simp only [readPage, length, lt_irrefl, if_false, found, Option.map_some]

omit [LinearOrder Rank] in
theorem readPage_next {next : Rank} (goesOn : (readPage rank size query cursor).2 = some next) :
    ∃ last ∈ query cursor, rank last = next := by
  simp only [readPage] at goesOn
  split at goesOn
  · cases goesOn
  · obtain ⟨last, found, same⟩ := Option.map_eq_some_iff.mp goesOn
    exact ⟨last, List.mem_of_mem_take (List.mem_of_getLast? found), same⟩

omit [LinearOrder Rank] in
theorem readAll_short (short : (query cursor).length < size) :
    readAll rank size query (fuel + 1) cursor = some (query cursor) := by
  simp only [readAll, collect, readPage_short short]

omit [LinearOrder Rank] in
theorem readAll_full (positive : 0 < size) (full : size ≤ (query cursor).length) :
    ∃ last, ((query cursor).take size).getLast? = some last ∧
      readAll rank size query (fuel + 1) cursor =
        (readAll rank size query fuel (rank last)).map fun rest =>
          (query cursor).take size ++ rest := by
  obtain ⟨last, found, read⟩ : ∃ last, _ ∧ readPage rank size query cursor = _ :=
    readPage_full positive full
  refine ⟨last, found, ?_⟩
  simp only [readAll, collect, read]

omit [LinearOrder Rank] in
/-- A round that ends with a result reads a full page and goes on after its
last item, or a short page and stops. -/
theorem readAll_cases (positive : 0 < size) {taken : List Item}
    (finished : readAll rank size query (fuel + 1) cursor = some taken) :
    (size ≤ (query cursor).length ∧ ∃ last rest,
      ((query cursor).take size).getLast? = some last ∧
      readAll rank size query fuel (rank last) = some rest ∧
      taken = (query cursor).take size ++ rest) ∨
    ((query cursor).length < size ∧ taken = query cursor) := by
  rcases le_or_gt size (query cursor).length with full | short
  · obtain ⟨last, found, round⟩ := readAll_full positive full
    rw [round] at finished
    obtain ⟨rest, read, joined⟩ := Option.map_eq_some_iff.mp finished
    exact .inl ⟨full, last, rest, found, read, joined.symm⟩
  · rw [readAll_short short] at finished
    exact .inr ⟨short, (Option.some.inj finished).symm⟩

namespace IsQuery

variable (isQuery : IsQuery rank items query)

include isQuery

theorem mem_iff {item : Item} : item ∈ query cursor ↔ item ∈ items ∧ cursor < rank item := by
  rw [(isQuery.perm cursor).mem_iff, List.mem_filter, decide_eq_true_iff]

/-- A later query returns what is left of an earlier one. -/
theorem perm_later {later : Rank} (le : cursor ≤ later) :
    (query later).Perm ((query cursor).filter fun item => decide (later < rank item)) := by
  refine (isQuery.perm later).trans (.trans (.of_eq ?_) ((isQuery.perm cursor).filter _).symm)
  rw [List.filter_filter]
  apply List.filter_congr
  intro item membership
  simpa using fun above => le.trans_lt above

theorem cursor_lt_last {last : Item} (found : ((query cursor).take size).getLast? = some last) :
    cursor < rank last :=
  (isQuery.mem_iff.mp (List.mem_of_mem_take (List.mem_of_getLast? found))).2

theorem le_last {last item : Item} (found : ((query cursor).take size).getLast? = some last)
    (taken : item ∈ (query cursor).take size) : rank item ≤ rank last := by
  obtain ⟨front, split⟩ := List.getLast?_eq_some_iff.mp found
  have ordered : (front ++ [last]).Pairwise fun first second => rank first ≤ rank second :=
    split ▸ (isQuery.ordered cursor).sublist (List.take_sublist size _)
  rw [split, List.mem_append, List.mem_singleton] at taken
  rcases taken with before | same
  · exact (List.pairwise_append.mp ordered).2.2 item before last (List.mem_singleton_self last)
  · rw [same]

theorem last_le {last item : Item} (found : ((query cursor).take size).getLast? = some last)
    (left : item ∈ (query cursor).drop size) : rank last ≤ rank item := by
  have ordered := isQuery.ordered cursor
  rw [← List.take_append_drop size (query cursor)] at ordered
  exact (List.pairwise_append.mp ordered).2.2 last (List.mem_of_getLast? found) item left

/-- Each round leaves fewer items to read. -/
theorem exists_readAll (positive : 0 < size) (enough : (query cursor).length < fuel) :
    ∃ taken, readAll rank size query fuel cursor = some taken := by
  induction fuel generalizing cursor with
  | zero => omega
  | succ fuel inductionHypothesis =>
      by_cases full : size ≤ (query cursor).length
      · obtain ⟨last, found, round⟩ := readAll_full positive full
        have fewer : (query (rank last)).length < (query cursor).length := by
          rw [(isQuery.perm_later (isQuery.cursor_lt_last found).le).length_eq]
          apply List.length_filter_lt_length_iff_exists.mpr
          exact ⟨last, List.mem_of_mem_take (List.mem_of_getLast? found), by simp⟩
        obtain ⟨rest, read⟩ := inductionHypothesis (Nat.lt_of_lt_of_le fewer (by omega))
        exact ⟨_, by rw [round, read, Option.map_some]⟩
      · exact ⟨_, readAll_short (by omega)⟩

theorem readAll_above (positive : 0 < size) {taken : List Item}
    (finished : readAll rank size query fuel cursor = some taken) :
    ∀ item ∈ taken, item ∈ items ∧ cursor < rank item := by
  induction fuel generalizing cursor taken with
  | zero => cases finished
  | succ fuel inductionHypothesis =>
      intro item membership
      rcases readAll_cases positive finished with ⟨_, last, rest, found, read, rfl⟩ | ⟨_, rfl⟩
      · rcases List.mem_append.mp membership with inPage | inRest
        · exact isQuery.mem_iff.mp (List.mem_of_mem_take inPage)
        · obtain ⟨inItems, above⟩ := inductionHypothesis read item inRest
          exact ⟨inItems, (isQuery.cursor_lt_last found).trans above⟩
      · exact isQuery.mem_iff.mp membership

/-- Nothing is read twice: a page ends below everything that comes after it. -/
theorem readAll_nodup (positive : 0 < size) (distinct : items.Nodup) {taken : List Item}
    (finished : readAll rank size query fuel cursor = some taken) : taken.Nodup := by
  have distinctQuery : ∀ cursor, (query cursor).Nodup := fun cursor =>
    (isQuery.perm cursor).nodup_iff.mpr (distinct.filter _)
  induction fuel generalizing cursor taken with
  | zero => cases finished
  | succ fuel inductionHypothesis =>
      rcases readAll_cases positive finished with ⟨_, last, rest, found, read, rfl⟩ | ⟨_, rfl⟩
      · apply List.Nodup.append
        · exact (distinctQuery cursor).sublist (List.take_sublist size _)
        · exact inductionHypothesis read
        · intro item inPage inRest
          have above := (isQuery.readAll_above positive read item inRest).2
          exact absurd (isQuery.le_last found inPage) (not_le.mpr above)
      · exact distinctQuery cursor

/-- Where the items of the last rank of a full page go on, the page is not
aligned. -/
theorem not_aligned_of_split {last next : Item} (full : size ≤ (query cursor).length)
    (found : ((query cursor).take size).getLast? = some last)
    (left : next ∈ (query cursor).drop size) (low : rank next ≤ rank last) :
    ¬Aligned size ((query cursor).map rank) := by
  have same : rank next = rank last := le_antisymm low (isQuery.last_le found left)
  have split := not_aligned_append (List.mem_map_of_mem (List.mem_of_getLast? found))
    (List.forall_mem_map.mpr fun _ left => isQuery.last_le found left)
    (List.forall_mem_map.mpr fun _ taken => isQuery.le_last found taken)
    (same ▸ List.mem_map_of_mem left)
  rwa [List.length_map, List.length_take_of_le full, ← List.map_append,
    List.take_append_drop] at split

/-- Where they end with the page, the next query returns the rest. -/
theorem perm_rest {last : Item} (found : ((query cursor).take size).getLast? = some last)
    (ends : ∀ next ∈ (query cursor).drop size, rank last < rank next) :
    (query (rank last)).Perm ((query cursor).drop size) := by
  refine (isQuery.perm_later (isQuery.cursor_lt_last found).le).trans (.of_eq ?_)
  have none : ((query cursor).take size).filter (fun item => decide (rank last < rank item)) =
      [] := by
    rw [List.filter_eq_nil_iff]
    intro item taken
    simpa using isQuery.le_last found taken
  have all : ((query cursor).drop size).filter (fun item => decide (rank last < rank item)) =
      (query cursor).drop size := by
    rw [List.filter_eq_self]
    simpa using ends
  conv_lhs => rw [← List.take_append_drop size (query cursor), List.filter_append, none, all,
    List.nil_append]

theorem aligned_iff_of_ends {last : Item} (full : size ≤ (query cursor).length)
    (found : ((query cursor).take size).getLast? = some last)
    (ends : ∀ next ∈ (query cursor).drop size, rank last < rank next) :
    Aligned size ((query cursor).map rank) ↔ Aligned size ((query (rank last)).map rank) := by
  have highest : ∀ value ∈ ((query cursor).take size).map rank, value ≤ rank last :=
    List.forall_mem_map.mpr fun _ taken => isQuery.le_last found taken
  have split := aligned_append_iff highest (List.forall_mem_map.mpr ends)
  rw [List.length_map, List.length_take_of_le full, ← List.map_append,
    List.take_append_drop] at split
  exact split.trans (Aligned.perm ((isQuery.perm_rest found ends).map rank)).symm

theorem complete_append_iff {last : Item} {rest : List Item}
    (found : ((query cursor).take size).getLast? = some last)
    (ends : ∀ next ∈ (query cursor).drop size, rank last < rank next) :
    (∀ item ∈ items, cursor < rank item → item ∈ (query cursor).take size ++ rest) ↔
      ∀ item ∈ items, rank last < rank item → item ∈ rest := by
  constructor
  · intro complete item inItems above
    have beyond := (isQuery.cursor_lt_last found).trans above
    rcases List.mem_append.mp (complete item inItems beyond) with inPage | inRest
    · exact absurd (isQuery.le_last found inPage) (not_le.mpr above)
    · exact inRest
  · intro complete item inItems above
    have inQuery := isQuery.mem_iff.mpr ⟨inItems, above⟩
    rw [← List.take_append_drop size (query cursor), List.mem_append] at inQuery
    rw [List.mem_append]
    exact inQuery.imp_right fun left => complete item inItems (ends item left)

/-- Everything above the cursor is read exactly when no page ends inside a
block of items of one rank. -/
theorem readAll_complete_iff (positive : 0 < size) (distinct : items.Nodup) {taken : List Item}
    (finished : readAll rank size query fuel cursor = some taken) :
    (∀ item ∈ items, cursor < rank item → item ∈ taken) ↔
      Aligned size ((query cursor).map rank) := by
  induction fuel generalizing cursor taken with
  | zero => cases finished
  | succ fuel inductionHypothesis =>
      rcases readAll_cases positive finished with
        ⟨full, last, rest, found, read, rfl⟩ | ⟨short, rfl⟩
      · by_cases ends : ∀ next ∈ (query cursor).drop size, rank last < rank next
        · rw [isQuery.aligned_iff_of_ends full found ends, ← inductionHypothesis read]
          exact isQuery.complete_append_iff found ends
        · push Not at ends
          obtain ⟨next, left, low⟩ := ends
          refine iff_of_false ?_ (isQuery.not_aligned_of_split full found left low)
          intro complete
          have inQuery := List.mem_of_mem_drop left
          obtain ⟨inItems, above⟩ := isQuery.mem_iff.mp inQuery
          rcases List.mem_append.mp (complete next inItems above) with inPage | inRest
          · have unrepeated : ((query cursor).take size ++ (query cursor).drop size).Nodup := by
              rw [List.take_append_drop]
              exact (isQuery.perm cursor).nodup_iff.mpr (distinct.filter _)
            exact List.disjoint_of_nodup_append unrepeated inPage left
          · exact absurd (isQuery.readAll_above positive read next inRest).2 (not_lt.mpr low)
      · apply iff_of_true
        · exact fun item inItems above => isQuery.mem_iff.mpr ⟨inItems, above⟩
        · exact aligned_of_length_lt (by rwa [List.length_map])

end IsQuery

/-! ### Ranks that tell the items apart -/

section Ascending

variable (ascending : items.Pairwise fun first second => rank first < rank second)

include ascending

/-- Above the last item of a page is what the page has left over. -/
theorem filter_above_last {last : Item}
    (found : ((items.filter fun item => decide (cursor < rank item)).take size).getLast? =
      some last) :
    items.filter (fun item => decide (rank last < rank item)) =
      (items.filter fun item => decide (cursor < rank item)).drop size := by
  have inPage := List.mem_of_getLast? found
  have behind : cursor < rank last := by
    simpa using (List.mem_filter.mp (List.mem_of_mem_take inPage)).2
  have narrowed : items.filter (fun item => decide (rank last < rank item)) =
      (items.filter fun item => decide (cursor < rank item)).filter
        fun item => decide (rank last < rank item) := by
    rw [List.filter_filter]
    apply List.filter_congr
    intro item _
    rw [Bool.eq_iff_iff, Bool.and_eq_true, decide_eq_true_eq, decide_eq_true_eq]
    exact ⟨fun above => ⟨above, behind.trans above⟩, fun both => both.1⟩
  have ordered := ascending.sublist
    (List.filter_sublist (p := fun item => decide (cursor < rank item)))
  rw [narrowed]
  generalize items.filter (fun item => decide (cursor < rank item)) = rest at found ordered ⊢
  nth_rewrite 1 [← List.take_append_drop size rest]
  rw [← List.take_append_drop size rest, List.pairwise_append] at ordered
  obtain ⟨front, page⟩ := List.getLast?_eq_some_iff.mp found
  rw [List.filter_append, List.filter_eq_nil_iff.mpr, List.nil_append, List.filter_eq_self.mpr]
  · intro item left
    simpa using ordered.2.2 last (List.mem_of_getLast? found) item left
  · intro item inFront
    rw [page, List.pairwise_append] at ordered
    rw [page, List.mem_append, List.mem_singleton] at inFront
    rcases inFront with earlier | rfl
    · simpa using (ordered.1.2.2 item earlier last (List.mem_singleton_self last)).le
    · simp

/-- Such items are all read, in their order. -/
theorem readAll_ascending
    (answers : ∀ cursor, query cursor = items.filter fun item => decide (cursor < rank item))
    (positive : 0 < size) (enough : (query cursor).length < fuel) :
    readAll rank size query fuel cursor = some (query cursor) := by
  induction fuel generalizing cursor with
  | zero => exact absurd enough (Nat.not_lt_zero _)
  | succ fuel inductionHypothesis =>
      by_cases full : size ≤ (query cursor).length
      · obtain ⟨last, found, read⟩ : ∃ last, ((query cursor).take size).getLast? = some last ∧
            readAll rank size query (fuel + 1) cursor = _ := readAll_full positive full
        have rest : query (rank last) = (query cursor).drop size := by
          rw [answers cursor] at found
          rw [answers, answers, filter_above_last ascending found]
        have shorter : (query (rank last)).length < fuel := by
          rw [rest, List.length_drop]
          omega
        rw [read, inductionHypothesis shorter, rest, Option.map_some, List.take_append_drop]
      · exact readAll_short (not_le.mp full)

end Ascending

end Rounds

end Paging
