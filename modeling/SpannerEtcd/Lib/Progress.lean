import SpannerEtcd.Lib.Runs

/-!
# Steps that use up a measure

One party works towards a goal among others.  If each of its steps lowers a
measure that the others do not raise, then the goal is reached after as many of
its steps as the measure says, whatever the others do in between.
-/

namespace Progress

universe u v

variable {State : Type u} {Action : Type v}

structure Drains (step : State → Action → Option State) (inv : State → Prop)
    (own : Action → Bool) (goal : State → Prop) (measure : State → Nat) : Prop where
  kept : ∀ state action next, step state action = some next → inv state → inv next
  positive : ∀ state, inv state → ¬goal state → 0 < measure state
  spends : ∀ state action next, inv state → ¬goal state → step state action = some next →
    measure next + (if own action then 1 else 0) ≤ measure state

variable {step : State → Action → Option State} {inv goal : State → Prop} {own : Action → Bool}
  {measure : State → Nat}

/-- As long as the goal is not reached, the measure pays for every own step. -/
theorem Drains.paid (drains : Drains step inv own goal measure) {start finish : State}
    {actions : List Action} (ran : Runs.run step start actions = some finish)
    (initially : inv start) (unreached : ∀ state ∈ Runs.visited step start actions, ¬goal state) :
    actions.countP own < measure start := by
  induction actions generalizing start with
  | nil => exact drains.positive start initially (unreached start (Runs.start_mem_visited start []))
  | cons action rest inductionHypothesis =>
      obtain ⟨next, stepped, finished⟩ := Runs.run_cons_eq_some.mp ran
      simp only [Runs.visited, stepped, List.forall_mem_cons] at unreached
      have later := inductionHypothesis finished
        (drains.kept start action next stepped initially) unreached.2
      have price := drains.spends start action next initially unreached.1 stepped
      rw [List.countP_cons]
      omega

theorem Drains.reached (drains : Drains step inv own goal measure) {start finish : State}
    {actions : List Action} (ran : Runs.run step start actions = some finish)
    (initially : inv start) (enough : measure start ≤ actions.countP own) :
    ∃ state ∈ Runs.visited step start actions, goal state := by
  by_contra unreached
  push Not at unreached
  exact absurd (drains.paid ran initially unreached) (not_lt.mpr enough)

end Progress
