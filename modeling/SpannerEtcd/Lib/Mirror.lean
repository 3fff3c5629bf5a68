import Mathlib

/-!
# A table mirrored in memory

Several processes share a table, and each keeps a copy of it in memory.  A
process fills its copy from one scan of the table when it starts.  From then
on it learns of nothing but its own updates: it inserts into the table and
then enters the key into its copy, or removes a key from the table and then
forgets it.

The copies agree with the table as long as nobody inserts while another
process has begun to scan, and nobody removes what another process knows or
is about to know.
-/

namespace Mirror

universe u v

variable {Key : Type u} {Value : Type v}

inductive Phase where
  /-- The scan has not begun, or has failed and is repeated. -/
  | pending
  | scanning
  | loaded
  deriving DecidableEq, Repr

def Phase.afterRow : List (Key × Value) → Phase
  | [] => .loaded
  | _ :: _ => .scanning

/-- What one process holds of the table. -/
structure View (Key : Type u) (Value : Type v) where
  known : Key → Option Value
  /-- The rows of its scan that are still to come. -/
  toLoad : List (Key × Value)
  /-- Inserted into the table by this process, but not entered. -/
  arriving : Key → Value → Prop
  /-- Removed from the table by this process, but not forgotten. -/
  leaving : Key → Prop

/-- The copy of a process in its phase agrees with the table. -/
structure View.Mirrors (table : Key → Option Value) (phase : Phase) (view : View Key Value) :
    Prop where
  known : ∀ key value, view.known key = some value → table key = some value ∨ view.leaving key
  loading : ∀ key value, (key, value) ∈ view.toLoad → table key = some value
  arriving : ∀ key value, view.arriving key value → table key = some value
  leaving : ∀ key, view.leaving key → table key = none
  resting : phase ≠ .scanning → view.toLoad = []
  complete : phase ≠ .pending → ∀ key value, table key = some value →
    view.known key = some value ∨ (key, value) ∈ view.toLoad ∨ view.arriving key value

theorem View.Mirrors.finds {table : Key → Option Value} {view : View Key Value}
    (mirrors : view.Mirrors table .loaded) {key : Key} {value : Value}
    (stored : table key = some value) (entered : ¬view.arriving key value) :
    view.known key = some value := by
  have nothing : view.toLoad = [] := mirrors.resting (by simp)
  obtain known | coming | arriving := mirrors.complete (by simp) key value stored
  · exact known
  · simp [nothing] at coming
  · exact absurd arriving entered

theorem View.Mirrors.forgets {table : Key → Option Value} {phase : Phase} {view : View Key Value}
    (mirrors : view.Mirrors table phase) {key : Key} (removed : table key = none)
    (forgotten : ¬view.leaving key) : view.known key = none := by
  cases held : view.known key with
  | none => rfl
  | some value =>
      obtain stored | leaving := mirrors.known key value held
      · simp [removed] at stored
      · exact absurd leaving forgotten

/-! ## What a process does -/

variable [DecidableEq Key]

/-- One step of a process: the table, its view and its phase before and after. -/
inductive Change (table : Key → Option Value) (view : View Key Value) (phase : Phase) :
    (Key → Option Value) → View Key Value → Phase → Prop where
  | quiet {after : View Key Value} (known : after.known = view.known)
      (toLoad : after.toLoad = view.toLoad) (arriving : after.arriving = view.arriving)
      (leaving : after.leaving = view.leaving) : Change table view phase table after phase
  /-- The process starts, or stops. -/
  | reset {after : View Key Value} (known : ∀ key, after.known key = none)
      (toLoad : after.toLoad = []) (arriving : ∀ key value, ¬after.arriving key value)
      (leaving : ∀ key, ¬after.leaving key) : Change table view phase table after .pending
  | scan {after : View Key Value} (known : after.known = view.known)
      (toLoad : ∀ key value, (key, value) ∈ after.toLoad ↔ table key = some value)
      (arriving : after.arriving = view.arriving) (leaving : after.leaving = view.leaving) :
      Change table view phase table after (.afterRow after.toLoad)
  /-- One row of the scan; a key that is known keeps its value. -/
  | load {after : View Key Value} {key : Key} {value : Value} {rest : List (Key × Value)}
      (next : view.toLoad = (key, value) :: rest)
      (known : after.known =
        if (view.known key).isSome then view.known
        else Function.update view.known key (some value))
      (toLoad : after.toLoad = rest) (arriving : after.arriving = view.arriving)
      (leaving : after.leaving = view.leaving) :
      Change table view phase table after (.afterRow rest)
  | giveUp {after : View Key Value} (known : after.known = view.known)
      (toLoad : after.toLoad = []) (arriving : after.arriving = view.arriving)
      (leaving : after.leaving = view.leaving) : Change table view phase table after .pending
  | insert {after : View Key Value} {key : Key} {value : Value} (absent : table key = none)
      (known : after.known = view.known) (toLoad : after.toLoad = view.toLoad)
      (arriving : ∀ other held, after.arriving other held ↔
        view.arriving other held ∨ (other = key ∧ held = value))
      (leaving : after.leaving = view.leaving) :
      Change table view phase (Function.update table key (some value)) after phase
  | enter {after : View Key Value} {key : Key} {value : Value} (arrives : view.arriving key value)
      (known : after.known = Function.update view.known key (some value))
      (toLoad : after.toLoad = view.toLoad)
      (arriving : ∀ other held, after.arriving other held → view.arriving other held)
      (others : ∀ other held, view.arriving other held →
        after.arriving other held ∨ (other = key ∧ held = value))
      (leaving : after.leaving = view.leaving) : Change table view phase table after phase
  | remove {after : View Key Value} {key : Key} (known : after.known = view.known)
      (toLoad : after.toLoad = view.toLoad) (arriving : after.arriving = view.arriving)
      (leaving : ∀ other, after.leaving other ↔ view.leaving other ∨ other = key) :
      Change table view phase (Function.update table key none) after phase
  | forget {after : View Key Value} {key : Key} (leaves : view.leaving key)
      (known : after.known = Function.update view.known key none)
      (toLoad : after.toLoad = view.toLoad) (arriving : after.arriving = view.arriving)
      (leaving : ∀ other, after.leaving other → view.leaving other)
      (others : ∀ other, view.leaving other → after.leaving other ∨ other = key) :
      Change table view phase table after phase

/-! ## One view -/

section
variable {table : Key → Option Value} {view later : View Key Value} {phase : Phase} {key : Key}
  {value : Value}

/-- After a row of the scan its key is known, with the value of the table. -/
theorem View.Mirrors.load (mirrors : view.Mirrors table phase) {rest : List (Key × Value)}
    (row : view.toLoad = (key, value) :: rest)
    (known : later.known =
      if (view.known key).isSome then view.known else Function.update view.known key (some value))
    (toLoad : later.toLoad = rest) (arriving : later.arriving = view.arriving)
    (leaving : later.leaving = view.leaving) : later.Mirrors table (.afterRow rest) := by
  have stored : table key = some value := mirrors.loading key value (by simp [row])
  have others : ∀ other ≠ key, later.known other = view.known other := by
    intro other different
    rw [known]
    split
    · rfl
    · exact Function.update_of_ne different _ _
  have own : later.known key = some value := by
    rw [known]
    split
    next held =>
      obtain ⟨before, held⟩ := Option.isSome_iff_exists.mp held
      obtain same | leaves := mirrors.known key before held
      · rw [held, ← same, stored]
      · simp [mirrors.leaving key leaves] at stored
    next => exact Function.update_self ..
  have begun : phase ≠ .pending := by
    intro pending
    have empty := mirrors.resting (by simp [pending])
    simp [row] at empty
  constructor
  · intro other held knows
    by_cases same : other = key
    · subst same
      exact .inl (stored.trans (own.symm.trans knows))
    · rw [leaving]
      exact mirrors.known other held (others other same ▸ knows)
  · intro other held loading
    apply mirrors.loading other held
    rw [row]
    exact List.mem_cons_of_mem _ (toLoad ▸ loading)
  · simpa only [arriving] using mirrors.arriving
  · simpa only [leaving] using mirrors.leaving
  · rw [toLoad]
    cases rest with
    | nil => exact fun _ => rfl
    | cons => exact fun scanning => absurd rfl scanning
  · intro _ other held inTable
    by_cases same : other = key
    · subst same
      exact .inl (own.trans (stored.symm.trans inTable))
    · rw [others other same, toLoad, arriving]
      refine (mirrors.complete begun other held inTable).imp_right (Or.imp_left fun coming => ?_)
      rw [row] at coming
      obtain equal | later := List.mem_cons.mp coming
      · exact absurd (congrArg Prod.fst equal) same
      · exact later

theorem View.Mirrors.insert (mirrors : view.Mirrors table phase) (absent : table key = none)
    (notLeaving : ¬view.leaving key) (known : later.known = view.known)
    (toLoad : later.toLoad = view.toLoad)
    (arriving : ∀ other held, later.arriving other held ↔
      view.arriving other held ∨ (other = key ∧ held = value))
    (leaving : later.leaving = view.leaving) :
    later.Mirrors (Function.update table key (some value)) phase := by
  have old : ∀ other held, table other = some held →
      Function.update table key (some value) other = some held := by
    intro other held stored
    have different : other ≠ key := fun same => by simp [same, absent] at stored
    rwa [Function.update_of_ne different]
  constructor
  · intro other held knows
    rw [known] at knows
    rw [leaving]
    exact (mirrors.known other held knows).imp_left (old other held)
  · intro other held loading
    exact old other held (mirrors.loading other held (toLoad ▸ loading))
  · intro other held arrives
    obtain before | ⟨rfl, rfl⟩ := (arriving other held).mp arrives
    · exact old other held (mirrors.arriving other held before)
    · exact Function.update_self ..
  · intro other leaves
    rw [leaving] at leaves
    have different : other ≠ key := fun same => notLeaving (same ▸ leaves)
    rw [Function.update_of_ne different]
    exact mirrors.leaving other leaves
  · simpa only [toLoad] using mirrors.resting
  · intro begun other held stored
    by_cases same : other = key
    · subst same
      rw [Function.update_self, Option.some.injEq] at stored
      exact .inr (.inr ((arriving other held).mpr (.inr ⟨rfl, stored.symm⟩)))
    · rw [Function.update_of_ne same] at stored
      rw [known, toLoad, arriving]
      exact (mirrors.complete begun other held stored).imp_right (Or.imp_right .inl)

theorem View.Mirrors.enter (mirrors : view.Mirrors table phase) (arrives : view.arriving key value)
    (known : later.known = Function.update view.known key (some value))
    (toLoad : later.toLoad = view.toLoad)
    (arriving : ∀ other held, later.arriving other held → view.arriving other held)
    (others : ∀ other held, view.arriving other held →
      later.arriving other held ∨ (other = key ∧ held = value))
    (leaving : later.leaving = view.leaving) : later.Mirrors table phase := by
  have stored : table key = some value := mirrors.arriving key value arrives
  have own : later.known key = some value := by rw [known, Function.update_self]
  have rest : ∀ other ≠ key, later.known other = view.known other := by
    intro other different
    rw [known, Function.update_of_ne different]
  constructor
  · intro other held knows
    by_cases same : other = key
    · subst same
      exact .inl (stored.trans (own.symm.trans knows))
    · rw [leaving]
      exact mirrors.known other held (rest other same ▸ knows)
  · simpa only [toLoad] using mirrors.loading
  · exact fun other held stillArrives =>
      mirrors.arriving other held (arriving other held stillArrives)
  · simpa only [leaving] using mirrors.leaving
  · simpa only [toLoad] using mirrors.resting
  · intro begun other held inTable
    by_cases same : other = key
    · subst same
      exact .inl (own.trans (stored.symm.trans inTable))
    · rw [rest other same, toLoad]
      refine (mirrors.complete begun other held inTable).imp_right (Or.imp_right fun before => ?_)
      exact (others other held before).resolve_right fun equal => same equal.1

theorem View.Mirrors.remove (mirrors : view.Mirrors table phase)
    (unloaded : ∀ held, (key, held) ∉ view.toLoad ∧ ¬view.arriving key held)
    (known : later.known = view.known) (toLoad : later.toLoad = view.toLoad)
    (arriving : later.arriving = view.arriving)
    (leaving : ∀ other, later.leaving other ↔ view.leaving other ∨ other = key) :
    later.Mirrors (Function.update table key none) phase := by
  constructor
  · intro other held knows
    rw [known] at knows
    rw [leaving]
    by_cases same : other = key
    · exact .inr (.inr same)
    · rw [Function.update_of_ne same]
      exact (mirrors.known other held knows).imp_right .inl
  · intro other held loading
    rw [toLoad] at loading
    have different : other ≠ key := fun same => (unloaded held).1 (same ▸ loading)
    rw [Function.update_of_ne different]
    exact mirrors.loading other held loading
  · intro other held arrives
    rw [arriving] at arrives
    have different : other ≠ key := fun same => (unloaded held).2 (same ▸ arrives)
    rw [Function.update_of_ne different]
    exact mirrors.arriving other held arrives
  · intro other leaves
    by_cases same : other = key
    · rw [same, Function.update_self]
    · rw [Function.update_of_ne same]
      exact mirrors.leaving other (((leaving other).mp leaves).resolve_right same)
  · simpa only [toLoad] using mirrors.resting
  · intro begun other held stored
    have different : other ≠ key := fun same => by simp [same] at stored
    rw [Function.update_of_ne different] at stored
    rw [known, toLoad, arriving]
    exact mirrors.complete begun other held stored

theorem View.Mirrors.forget (mirrors : view.Mirrors table phase) (leaves : view.leaving key)
    (known : later.known = Function.update view.known key none)
    (toLoad : later.toLoad = view.toLoad) (arriving : later.arriving = view.arriving)
    (leaving : ∀ other, later.leaving other → view.leaving other)
    (others : ∀ other, view.leaving other → later.leaving other ∨ other = key) :
    later.Mirrors table phase := by
  have removed : table key = none := mirrors.leaving key leaves
  have rest : ∀ other ≠ key, later.known other = view.known other := by
    intro other different
    rw [known, Function.update_of_ne different]
  constructor
  · intro other held knows
    have different : other ≠ key := fun same => by simp [known, same] at knows
    rw [rest other different] at knows
    refine (mirrors.known other held knows).imp_right fun before => ?_
    exact (others other before).resolve_right different
  · simpa only [toLoad] using mirrors.loading
  · simpa only [arriving] using mirrors.arriving
  · exact fun other stillLeaves => mirrors.leaving other (leaving other stillLeaves)
  · simpa only [toLoad] using mirrors.resting
  · intro begun other held stored
    have different : other ≠ key := fun same => by simp [same, removed] at stored
    rw [rest other different, toLoad, arriving]
    exact mirrors.complete begun other held stored

end

/-! ## Several processes -/

/-- What a process may do to the table, in view of all processes. -/
structure Careful (table after : Key → Option Value) (views : Nat → View Key Value)
    (phases : Nat → Phase) (actor : Nat) : Prop where
  inserts : ∀ key value, table key = none → after key = some value →
    (∀ process, ¬(views process).leaving key) ∧ ∀ other ≠ actor, phases other = .pending
  removes : ∀ key value, table key = some value → after key = none →
    (∀ other ≠ actor, (views other).known key = none) ∧
      ∀ process held, (key, held) ∉ (views process).toLoad ∧ ¬(views process).arriving key held

section
variable {table : Key → Option Value} {views : Nat → View Key Value} {phases : Nat → Phase}
  {actor : Nat} {key : Key}

omit [DecidableEq Key] in
theorem Careful.of_unchanged : Careful table table views phases actor := by
  constructor
  · intro key value absent stored
    simp [absent] at stored
  · intro key value stored absent
    simp [absent] at stored

theorem Careful.of_insert {value : Value} (notLeaving : ∀ process, ¬(views process).leaving key)
    (pending : ∀ other ≠ actor, phases other = .pending) :
    Careful table (Function.update table key (some value)) views phases actor := by
  constructor
  · intro inserted held absent stored
    by_cases same : inserted = key
    · exact same ▸ ⟨notLeaving, pending⟩
    · simp [Function.update_of_ne same, absent] at stored
  · intro removed held stored absent
    by_cases same : removed = key
    · simp [same] at absent
    · simp [Function.update_of_ne same, stored] at absent

theorem Careful.of_remove (unknown : ∀ other ≠ actor, (views other).known key = none)
    (unloaded : ∀ process held,
      (key, held) ∉ (views process).toLoad ∧ ¬(views process).arriving key held) :
    Careful table (Function.update table key none) views phases actor := by
  constructor
  · intro inserted held absent stored
    by_cases same : inserted = key
    · simp [same] at stored
    · simp [Function.update_of_ne same, absent] at stored
  · intro removed held stored absent
    by_cases same : removed = key
    · exact same ▸ ⟨unknown, unloaded⟩
    · simp [Function.update_of_ne same, stored] at absent

end

/-- A key of the table keeps its value, appears or disappears. -/
theorem Change.table_cases {table after : Key → Option Value} {view later : View Key Value}
    {phase next : Phase} (change : Change table view phase after later next) (key : Key) :
    after key = table key ∨ (table key = none ∧ ∃ value, after key = some value) ∨
      (∃ value, table key = some value) ∧ after key = none := by
  cases change with
  | @insert _ inserted value absent =>
      by_cases same : key = inserted
      · subst same
        exact .inr (.inl ⟨absent, value, Function.update_self ..⟩)
      · exact .inl (Function.update_of_ne same _ _)
  | @remove _ removed =>
      by_cases same : key = removed
      · subst same
        rw [Function.update_self]
        cases stored : table key with
        | none => exact .inl rfl
        | some value => exact .inr (.inr ⟨⟨value, rfl⟩, rfl⟩)
      · exact .inl (Function.update_of_ne same _ _)
  | quiet | reset | scan | load | giveUp | enter | forget => exact .inl rfl

section
variable {table after : Key → Option Value} {views : Nat → View Key Value} {phases : Nat → Phase}
  {actor : Nat} {later : View Key Value} {next : Phase}

/-- The processes that do not act keep mirroring the table. -/
theorem View.Mirrors.of_other {other : Nat} (different : other ≠ actor)
    (mirrors : (views other).Mirrors table (phases other))
    (careful : Careful table after views phases actor)
    (change : Change table (views actor) (phases actor) after later next) :
    (views other).Mirrors after (phases other) := by
  -- what the process holds of a key is in the table after the step as well
  have stays : ∀ key value, table key = some value →
      ((views other).known key = some value ∨ (key, value) ∈ (views other).toLoad ∨
        (views other).arriving key value) → after key = some value := by
    intro key value stored held
    obtain same | ⟨absent, _⟩ | ⟨_, gone⟩ := change.table_cases key
    · exact same.trans stored
    · simp [absent] at stored
    · obtain ⟨unknown, unloaded⟩ := careful.removes key value stored gone
      obtain known | loading | arriving := held
      · simp [unknown other different] at known
      · exact absurd loading (unloaded other value).1
      · exact absurd arriving (unloaded other value).2
  refine ⟨fun key value known => ?_, fun key value loading => ?_, fun key value arriving => ?_,
    fun key leaving => ?_, mirrors.resting, fun scanned key value stored => ?_⟩
  · exact (mirrors.known key value known).imp_left fun stored => stays key value stored (.inl known)
  · exact stays key value (mirrors.loading key value loading) (.inr (.inl loading))
  · exact stays key value (mirrors.arriving key value arriving) (.inr (.inr arriving))
  · obtain same | ⟨absent, value, appeared⟩ | ⟨_, gone⟩ := change.table_cases key
    · exact same.trans (mirrors.leaving key leaving)
    · exact absurd leaving ((careful.inserts key value absent appeared).1 other)
    · exact gone
  · obtain same | ⟨absent, _⟩ | ⟨_, gone⟩ := change.table_cases key
    · exact mirrors.complete scanned key value (same.symm.trans stored)
    · exact absurd ((careful.inserts key value absent stored).2 other different) scanned
    · simp [gone] at stored

/-- So does the process that takes the step. -/
theorem View.Mirrors.of_actor (mirrors : (views actor).Mirrors table (phases actor))
    (careful : Careful table after views phases actor)
    (change : Change table (views actor) (phases actor) after later next) :
    later.Mirrors after next := by
  cases change with
  | quiet known toLoad arriving leaving =>
      constructor
      · simpa only [known, leaving] using mirrors.known
      · simpa only [toLoad] using mirrors.loading
      · simpa only [arriving] using mirrors.arriving
      · simpa only [leaving] using mirrors.leaving
      · simpa only [toLoad] using mirrors.resting
      · simpa only [known, toLoad, arriving] using mirrors.complete
  | reset known toLoad arriving leaving =>
      constructor
      · simp [known]
      · simp [toLoad]
      · exact fun key value arrives => absurd arrives (arriving key value)
      · exact fun key leaves => absurd leaves (leaving key)
      · exact fun _ => toLoad
      · exact fun pending => absurd rfl pending
  | scan known toLoad arriving leaving =>
      constructor
      · simpa only [known, leaving] using mirrors.known
      · exact fun key value => (toLoad key value).mp
      · simpa only [arriving] using mirrors.arriving
      · simpa only [leaving] using mirrors.leaving
      · cases rows : later.toLoad with
        | nil => exact fun _ => rfl
        | cons row rest => exact fun scanning => absurd rfl scanning
      · exact fun _ key value stored => .inr (.inl ((toLoad key value).mpr stored))
  | load row known toLoad arriving leaving => exact mirrors.load row known toLoad arriving leaving
  | giveUp known toLoad arriving leaving =>
      constructor
      · simpa only [known, leaving] using mirrors.known
      · simp [toLoad]
      · simpa only [arriving] using mirrors.arriving
      · simpa only [leaving] using mirrors.leaving
      · exact fun _ => toLoad
      · exact fun pending => absurd rfl pending
  | @insert _ key value absent known toLoad arriving leaving =>
      have notLeaving :=
        (careful.inserts key value absent (Function.update_self ..)).1 actor
      exact mirrors.insert absent notLeaving known toLoad arriving leaving
  | enter arrives known toLoad arriving others leaving =>
      exact mirrors.enter arrives known toLoad arriving others leaving
  | @remove _ key known toLoad arriving leaving =>
      refine mirrors.remove (fun held => ?_) known toLoad arriving leaving
      cases stored : table key with
      | none =>
          exact ⟨fun loading => by simp [mirrors.loading key held loading] at stored,
            fun arrives => by simp [mirrors.arriving key held arrives] at stored⟩
      | some value =>
          exact (careful.removes key value stored (Function.update_self ..)).2 actor held
  | forget leaves known toLoad arriving leaving others =>
      exact mirrors.forget leaves known toLoad arriving leaving others

end

end Mirror
