import SpannerEtcd.Lib.Runs

/-!
# Reading a stream again from where it stopped

The items of a stream have a rank that never decreases.  A reader asks for the
items from a rank on, reads what it is given one by one, and can be cut off at
any of them; it then asks again from the highest rank that it has read.  Items
of that rank are read twice, but none is passed over.
-/

namespace Resume

universe u v

variable {Item : Type u} {Rank : Type v} [LinearOrder Rank]

structure State (Item : Type u) (Rank : Type v) where
  cursor : Rank
  /-- What is left of the answer that is being read. -/
  answer : Option (List Item)
  log : List Item

def State.start (cursor : Rank) : State Item Rank :=
  { cursor := cursor, answer := none, log := [] }

inductive Action where
  | query
  | next
  | cut
  deriving DecidableEq, Repr

def itemsFrom (rank : Item → Rank) (items : List Item) (cursor : Rank) : List Item :=
  items.filter fun item => decide (cursor ≤ rank item)

def step (rank : Item → Rank) (items : List Item) (state : State Item Rank) :
    Action → Option (State Item Rank)
  | .query =>
      match state.answer with
      | none => some { state with answer := some (itemsFrom rank items state.cursor) }
      | some _ => none
  | .next =>
      match state.answer with
      | some (item :: rest) =>
          some
            { cursor := max state.cursor (rank item)
              answer := some rest
              log := state.log ++ [item] }
      | _ => none
  | .cut =>
      match state.answer with
      | some _ => some { state with answer := none }
      | none => none

/-- What is still to be read if nothing is cut off. -/
def State.left (rank : Item → Rank) (items : List Item) (state : State Item Rank) : List Item :=
  state.answer.getD (itemsFrom rank items state.cursor)

/-- The items are numbered in the order of the stream. -/
def Ordered (rank : Item → Rank) (number : Item → Nat) (items : List Item) : Prop :=
  items.Pairwise fun earlier later => number earlier < number later ∧ rank earlier ≤ rank later

/-- Each entry of a log meets a condition on the entries before it. -/
def Justified (condition : List Item → Item → Prop) (log : List Item) : Prop :=
  ∀ before item after, log = before ++ item :: after → condition before item

theorem Justified.append_singleton {condition : List Item → Item → Prop} {log : List Item}
    (justified : Justified condition log) {item : Item} (met : condition log item) :
    Justified condition (log ++ [item]) := by
  intro before entry after split
  rcases List.eq_nil_or_concat after with rfl | ⟨middle, last, rfl⟩
  · obtain ⟨rfl, same⟩ := List.append_inj' split rfl
    rwa [← List.singleton_inj.mp same]
  · rw [List.concat_eq_append, ← List.cons_append, ← List.append_assoc] at split
    exact justified before entry middle (List.append_inj' split rfl).1

/-- Everything from `start` on is still to be read or has been read, and before
anything was read everything in front of it had been. -/
structure Inv (rank : Item → Rank) (number : Item → Nat) (items : List Item) (start : Rank)
    (state : State Item Rank) : Prop where
  sublist : (state.left rank items).Sublist items
  above : ∀ item ∈ state.left rank items, state.cursor ≤ rank item
  seen : ∀ item ∈ items, start ≤ rank item → item ∉ state.left rank items → item ∈ state.log
  inOrder : Justified (fun before item => ∀ earlier ∈ items, start ≤ rank earlier →
    number earlier < number item → earlier ∈ before) state.log

variable {rank : Item → Rank} {number : Item → Nat} {items : List Item} {start : Rank}
  {state : State Item Rank}

theorem mem_itemsFrom {cursor : Rank} {item : Item} :
    item ∈ itemsFrom rank items cursor ↔ item ∈ items ∧ cursor ≤ rank item := by
  simp [itemsFrom]

theorem start_inv (start : Rank) : Inv rank number items start (State.start start) where
  sublist := List.filter_sublist
  above := fun _ membership => (mem_itemsFrom.mp membership).2
  seen := fun _ membership late missing => absurd (mem_itemsFrom.mpr ⟨membership, late⟩) missing
  inOrder := by
    intro before item after split
    cases before <;> cases split

theorem Inv.query (resting : state.answer = none) (inv : Inv rank number items start state) :
    Inv rank number items start
      { state with answer := some (itemsFrom rank items state.cursor) } := by
  have left : state.left rank items = itemsFrom rank items state.cursor := by
    rw [State.left, resting]
    rfl
  exact ⟨left ▸ inv.sublist, left ▸ inv.above, left ▸ inv.seen, inv.inOrder⟩

theorem Inv.next (ordered : Ordered rank number items) {item : Item} {rest : List Item}
    (reading : state.answer = some (item :: rest)) (inv : Inv rank number items start state) :
    Inv rank number items start
      { cursor := max state.cursor (rank item)
        answer := some rest
        log := state.log ++ [item] } := by
  have left : state.left rank items = item :: rest := by
    rw [State.left, reading]
    rfl
  have sublist := inv.sublist
  have above := inv.above
  have seen := inv.seen
  rw [left] at sublist above seen
  obtain ⟨first, _⟩ := List.pairwise_cons.mp (ordered.sublist sublist)
  refine ⟨(List.sublist_cons_self item rest).trans sublist, ?_, ?_, ?_⟩
  · intro other later
    exact max_le (above other (List.mem_cons_of_mem item later)) (first other later).2
  · intro other membership late missing
    rw [List.mem_append, List.mem_singleton]
    by_cases same : other = item
    · exact .inr same
    · exact .inl (seen other membership late (List.not_mem_cons_of_ne_of_not_mem same missing))
  · apply inv.inOrder.append_singleton
    intro earlier membership late front
    -- what comes before the item cannot be left
    apply seen earlier membership late
    intro isLeft
    rcases List.mem_cons.mp isLeft with same | later
    · exact absurd front (same ▸ lt_irrefl _)
    · exact absurd front (first earlier later).1.asymm

theorem Inv.cut (inv : Inv rank number items start state) :
    Inv rank number items start { state with answer := none } := by
  refine ⟨List.filter_sublist, fun item membership => (mem_itemsFrom.mp membership).2, ?_,
    inv.inOrder⟩
  intro item membership late missing
  apply inv.seen item membership late
  intro isLeft
  exact missing (mem_itemsFrom.mpr ⟨membership, inv.above item isLeft⟩)

theorem Inv.step (ordered : Ordered rank number items) {action : Action}
    {next : State Item Rank} (stepped : step rank items state action = some next)
    (inv : Inv rank number items start state) : Inv rank number items start next := by
  unfold Resume.step at stepped
  split at stepped
  · split at stepped
    next resting =>
      obtain rfl := Option.some.inj stepped
      exact inv.query resting
    next => cases stepped
  · split at stepped
    next item rest reading =>
      obtain rfl := Option.some.inj stepped
      exact inv.next ordered reading
    next => cases stepped
  · split at stepped
    next =>
      obtain rfl := Option.some.inj stepped
      exact inv.cut
    next => cases stepped

theorem reaches_inv (ordered : Ordered rank number items)
    (reached : Runs.Reaches (step rank items) (State.start start) state) :
    Inv rank number items start state :=
  reached.invariant (fun _ _ _ stepped => Inv.step ordered stepped) (start_inv start)

/-- An answer that was read to its end leaves nothing out. -/
theorem Inv.complete (inv : Inv rank number items start state)
    (exhausted : state.answer = some []) {item : Item} (membership : item ∈ items)
    (late : start ≤ rank item) : item ∈ state.log := by
  apply inv.seen item membership late
  rw [State.left, exhausted]
  exact List.not_mem_nil

/-- Nothing below the cursor is passed over. -/
theorem Inv.behind (inv : Inv rank number items start state) {item : Item}
    (membership : item ∈ items) (late : start ≤ rank item) (below : rank item < state.cursor) :
    item ∈ state.log := by
  apply inv.seen item membership late
  intro isLeft
  exact absurd below (not_lt.mpr (inv.above item isLeft))

end Resume
