import Mathlib

/-!
# Runs of a guarded step function

A concurrent system is a partial step function.  An action carries every
choice that the schedule makes, so a run is a list of actions and an instant
of the run is a prefix of that list.
-/

namespace Runs

universe u v

variable {State : Type u} {Action : Type v}

/-- Perform the actions in order; a refused action refuses the whole run. -/
def run (step : State → Action → Option State) (start : State) :
    List Action → Option State
  | [] => some start
  | action :: rest => (step start action).bind fun next => run step next rest

/-- The states at the instants of a run, from its start on. -/
def visited (step : State → Action → Option State) (start : State) :
    List Action → List State
  | [] => [start]
  | action :: rest =>
      start :: match step start action with
        | none => []
        | some next => visited step next rest

variable {step : State → Action → Option State}

theorem start_mem_visited (start : State) (actions : List Action) :
    start ∈ visited step start actions := by
  cases actions <;> simp [visited]

@[simp]
theorem run_nil (start : State) : run step start [] = some start := rfl

theorem run_cons_eq_some {start finish : State} {action : Action} {rest : List Action} :
    run step start (action :: rest) = some finish ↔
      ∃ next, step start action = some next ∧ run step next rest = some finish := by
  simp [run, Option.bind_eq_some_iff]

theorem run_append_eq_some {start finish : State} {first second : List Action} :
    run step start (first ++ second) = some finish ↔
      ∃ middle, run step start first = some middle ∧
        run step middle second = some finish := by
  induction first generalizing start with
  | nil => simp
  | cons action rest inductionHypothesis =>
      simp only [List.cons_append, run_cons_eq_some, inductionHypothesis]
      constructor
      · rintro ⟨next, stepped, middle, reached, finished⟩
        exact ⟨middle, ⟨next, stepped, reached⟩, finished⟩
      · rintro ⟨middle, ⟨next, stepped, reached⟩, finished⟩
        exact ⟨next, stepped, middle, reached, finished⟩

def Reaches (step : State → Action → Option State) (start finish : State) : Prop :=
  ∃ actions, run step start actions = some finish

theorem Reaches.single {start next : State} {action : Action}
    (stepped : step start action = some next) : Reaches step start next :=
  ⟨[action], run_cons_eq_some.mpr ⟨next, stepped, rfl⟩⟩

theorem Reaches.trans {start middle finish : State} (first : Reaches step start middle)
    (second : Reaches step middle finish) : Reaches step start finish := by
  obtain ⟨firstActions, firstRan⟩ := first
  obtain ⟨secondActions, secondRan⟩ := second
  exact ⟨firstActions ++ secondActions, run_append_eq_some.mpr ⟨middle, firstRan, secondRan⟩⟩

/-- A property kept by every step is kept by every run. -/
theorem run_invariant {property : State → Prop}
    (preserved : ∀ state action next, step state action = some next →
      property state → property next)
    {start finish : State} {actions : List Action}
    (ran : run step start actions = some finish) (initially : property start) :
    property finish := by
  induction actions generalizing start with
  | nil =>
      simp only [run_nil, Option.some.injEq] at ran
      exact ran ▸ initially
  | cons action rest inductionHypothesis =>
      obtain ⟨next, stepped, finished⟩ := run_cons_eq_some.mp ran
      exact inductionHypothesis finished (preserved start action next stepped initially)

theorem Reaches.invariant {property : State → Prop}
    (preserved : ∀ state action next, step state action = some next →
      property state → property next)
    {start finish : State} (reached : Reaches step start finish)
    (initially : property start) : property finish := by
  obtain ⟨actions, ran⟩ := reached
  exact run_invariant preserved ran initially

theorem Reaches.chain {relation : State → State → Prop}
    (included : ∀ state action next, step state action = some next → relation state next)
    {start finish : State} (reached : Reaches step start finish) :
    Relation.ReflTransGen relation start finish := by
  obtain ⟨actions, ran⟩ := reached
  induction actions generalizing start with
  | nil =>
      simp only [run_nil, Option.some.injEq] at ran
      exact ran ▸ .refl
  | cons action rest inductionHypothesis =>
      obtain ⟨next, stepped, finished⟩ := run_cons_eq_some.mp ran
      exact .head (included start action next stepped) (inductionHypothesis finished)

/-- A preorder that contains every step contains every run. -/
theorem Reaches.relates (relation : State → State → Prop)
    (refl : ∀ state, relation state state)
    (trans : ∀ {first second third}, relation first second → relation second third →
      relation first third)
    (included : ∀ state action next, step state action = some next → relation state next)
    {start finish : State} (reached : Reaches step start finish) : relation start finish := by
  have steps := reached.chain included
  clear reached
  induction steps with
  | refl => exact refl start
  | tail _ stepped inductionHypothesis => exact trans inductionHypothesis stepped

/-- The states at the instants of a run follow each other in every preorder
that contains the steps. -/
theorem visited_pairwise (relation : State → State → Prop)
    (refl : ∀ state, relation state state)
    (trans : ∀ {first second third}, relation first second → relation second third →
      relation first third)
    (included : ∀ state action next, step state action = some next → relation state next)
    (start : State) (actions : List Action) :
    (∀ later ∈ visited step start actions, relation start later) ∧
      (visited step start actions).Pairwise relation := by
  induction actions generalizing start with
  | nil => simp [visited, refl]
  | cons action rest inductionHypothesis =>
      simp only [visited]
      cases stepped : step start action with
      | none => simp [refl]
      | some next =>
          obtain ⟨following, chain⟩ := inductionHypothesis next
          have first : ∀ later ∈ visited step next rest, relation start later :=
            fun later membership => trans (included start action next stepped)
              (following later membership)
          exact ⟨List.forall_mem_cons.mpr ⟨refl start, first⟩,
            List.pairwise_cons.mpr ⟨first, chain⟩⟩

/-- Every step the run takes meets a condition on the state before it. -/
def Guarded (step : State → Action → Option State) (condition : State → Action → Prop)
    (start : State) : List Action → Prop
  | [] => True
  | action :: rest => condition start action ∧
      match step start action with
      | none => True
      | some next => Guarded step condition next rest

instance Guarded.decidable {condition : State → Action → Prop}
    [decidable : ∀ state action, Decidable (condition state action)] (start : State) :
    (actions : List Action) → Decidable (Guarded step condition start actions)
  | [] => .isTrue trivial
  | action :: rest =>
      have : Decidable (match step start action with
          | none => True
          | some next => Guarded step condition next rest) :=
        match step start action with
        | none => .isTrue trivial
        | some next => Guarded.decidable next rest
      inferInstanceAs (Decidable (condition start action ∧ _))

theorem guarded_cons {condition : State → Action → Prop} {start next : State}
    {action : Action} {rest : List Action} (stepped : step start action = some next) :
    Guarded step condition start (action :: rest) ↔
      condition start action ∧ Guarded step condition next rest := by
  simp only [Guarded, stepped]

theorem Guarded.of_forall {condition : State → Action → Prop} {start : State}
    {actions : List Action} (always : ∀ action ∈ actions, ∀ state, condition state action) :
    Guarded step condition start actions := by
  induction actions generalizing start with
  | nil => trivial
  | cons action rest inductionHypothesis =>
      refine ⟨always action List.mem_cons_self start, ?_⟩
      cases stepped : step start action with
      | none => trivial
      | some next =>
          exact inductionHypothesis fun other membership =>
            always other (List.mem_cons_of_mem action membership)

theorem Guarded.mono {condition weaker : State → Action → Prop} {start : State}
    {actions : List Action} (guarded : Guarded step condition start actions)
    (implied : ∀ state action, condition state action → weaker state action) :
    Guarded step weaker start actions := by
  induction actions generalizing start with
  | nil => trivial
  | cons action rest inductionHypothesis =>
      refine ⟨implied start action guarded.1, ?_⟩
      have guardedRest := guarded.2
      cases stepped : step start action with
      | none => trivial
      | some next =>
          rw [stepped] at guardedRest
          exact inductionHypothesis guardedRest

theorem Guarded.and {condition other : State → Action → Prop} {start : State}
    {actions : List Action} (guarded : Guarded step condition start actions)
    (otherGuarded : Guarded step other start actions) :
    Guarded step (fun state action => condition state action ∧ other state action) start
      actions := by
  induction actions generalizing start with
  | nil => trivial
  | cons action rest inductionHypothesis =>
      refine ⟨⟨guarded.1, otherGuarded.1⟩, ?_⟩
      have guardedRest := guarded.2
      have otherRest := otherGuarded.2
      cases stepped : step start action with
      | none => trivial
      | some next =>
          rw [stepped] at guardedRest otherRest
          exact inductionHypothesis guardedRest otherRest

/-- A guarded run consists of a guarded beginning and a guarded rest. -/
theorem Guarded.append {condition : State → Action → Prop} {start middle : State}
    {first second : List Action} (guarded : Guarded step condition start (first ++ second))
    (ran : run step start first = some middle) :
    Guarded step condition start first ∧ Guarded step condition middle second := by
  induction first generalizing start with
  | nil =>
      simp only [run_nil, Option.some.injEq] at ran
      exact ⟨trivial, ran ▸ guarded⟩
  | cons action rest inductionHypothesis =>
      obtain ⟨next, stepped, finished⟩ := run_cons_eq_some.mp ran
      rw [List.cons_append, guarded_cons stepped] at guarded
      obtain ⟨restGuarded, secondGuarded⟩ := inductionHypothesis guarded.2 finished
      exact ⟨(guarded_cons stepped).mpr ⟨guarded.1, restGuarded⟩, secondGuarded⟩

theorem Guarded.trans {condition : State → Action → Prop} {start middle : State}
    {first second : List Action} (guarded : Guarded step condition start first)
    (ran : run step start first = some middle)
    (guardedRest : Guarded step condition middle second) :
    Guarded step condition start (first ++ second) := by
  induction first generalizing start with
  | nil =>
      simp only [run_nil, Option.some.injEq] at ran
      exact ran ▸ guardedRest
  | cons action rest inductionHypothesis =>
      obtain ⟨next, stepped, finished⟩ := run_cons_eq_some.mp ran
      rw [guarded_cons stepped] at guarded
      exact (guarded_cons stepped).mpr ⟨guarded.1, inductionHypothesis guarded.2 finished⟩

/-- A property kept by every step that meets the condition is kept by every
run whose steps all meet it. -/
theorem run_invariant_of_guarded {condition : State → Action → Prop}
    {property : State → Prop}
    (preserved : ∀ state action next, condition state action →
      step state action = some next → property state → property next)
    {start finish : State} {actions : List Action}
    (guarded : Guarded step condition start actions)
    (ran : run step start actions = some finish) (initially : property start) :
    property finish := by
  induction actions generalizing start with
  | nil =>
      simp only [run_nil, Option.some.injEq] at ran
      exact ran ▸ initially
  | cons action rest inductionHypothesis =>
      obtain ⟨next, stepped, finished⟩ := run_cons_eq_some.mp ran
      rw [guarded_cons stepped] at guarded
      exact inductionHypothesis guarded.2 finished
        (preserved start action next guarded.1 stepped initially)

/-- If a condition on the steps is sufficient for an invariant, and necessary
for a consequence of it after the step, then a run meets the condition
exactly if the consequence holds at each of its instants. -/
theorem guarded_iff_visited {condition : State → Action → Prop} {property goal : State → Prop}
    (sufficient : ∀ state action next, condition state action →
      step state action = some next → property state → property next)
    (implied : ∀ state, property state → goal state)
    (necessary : ∀ state action next, property state → step state action = some next →
      goal next → condition state action)
    {start finish : State} {actions : List Action}
    (ran : run step start actions = some finish) (initially : property start) :
    Guarded step condition start actions ↔
      ∀ state ∈ visited step start actions, goal state := by
  induction actions generalizing start with
  | nil => simpa [Guarded, visited] using implied start initially
  | cons action rest inductionHypothesis =>
      obtain ⟨next, stepped, finished⟩ := run_cons_eq_some.mp ran
      simp only [guarded_cons stepped, visited, stepped, List.forall_mem_cons,
        implied start initially, true_and]
      constructor
      · rintro ⟨met, guarded⟩
        exact (inductionHypothesis finished
          (sufficient start action next met stepped initially)).mp guarded
      · intro visits
        have met := necessary start action next initially stepped
          (visits next (start_mem_visited next rest))
        exact ⟨met, (inductionHypothesis finished
          (sufficient start action next met stepped initially)).mpr visits⟩

/-- Two conditions that agree on the steps from states with an invariant, which
one of them keeps, are met by the same runs. -/
theorem guarded_iff_guarded {condition goal : State → Action → Prop} {property : State → Prop}
    (kept : ∀ state action next, condition state action →
      step state action = some next → property state → property next)
    (agree : ∀ state action next, property state → step state action = some next →
      (condition state action ↔ goal state action))
    {start finish : State} {actions : List Action}
    (ran : run step start actions = some finish) (initially : property start) :
    Guarded step condition start actions ↔ Guarded step goal start actions := by
  induction actions generalizing start with
  | nil => exact Iff.rfl
  | cons action rest inductionHypothesis =>
      obtain ⟨next, stepped, finished⟩ := run_cons_eq_some.mp ran
      rw [guarded_cons stepped, guarded_cons stepped, ← agree start action next initially stepped]
      apply and_congr_right
      intro met
      exact inductionHypothesis finished (kept start action next met stepped initially)

end Runs
