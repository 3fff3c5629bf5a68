import SpannerEtcd.Lib.Runs

/-!
# Simulation along traces

A labelled transition relation takes a state to a next one and shows a label
to its environment.  When an abstraction maps every transition between good
states to an abstract transition with the same label, every trace of the
concrete system is a trace of the abstract one.

Between two step functions a relation takes the place of the abstraction, and
one step of the first may take the second any number of steps.
-/

namespace Simulation

universe u v w x

variable {State : Type u} {Label : Type v} {Abstract : Type w}

/-- The labels shown along a run, from the first state to the second. -/
inductive Trace (transition : State → Label → State → Prop) :
    State → List Label → State → Prop where
  | nil (state : State) : Trace transition state [] state
  | cons {first second third : State} {label : Label} {rest : List Label} :
      transition first label second → Trace transition second rest third →
        Trace transition first (label :: rest) third

variable {transition : State → Label → State → Prop}
  {specification : Abstract → Label → Abstract → Prop}

/-- Simulation of single transitions carries over to traces. -/
theorem Trace.simulated (abstraction : State → Abstract) {property : State → Prop}
    (preserved : ∀ state label next, transition state label next →
      property state → property next)
    (simulated : ∀ state label next, transition state label next → property state →
      specification (abstraction state) label (abstraction next))
    {start finish : State} {labels : List Label}
    (trace : Trace transition start labels finish) (initially : property start) :
    Trace specification (abstraction start) labels (abstraction finish) := by
  induction trace with
  | nil state => exact .nil _
  | cons stepped _ inductionHypothesis =>
      exact .cons (simulated _ _ _ stepped initially)
        (inductionHypothesis (preserved _ _ _ stepped initially))

/-- A relation that every allowed step carries along holds after every run of
allowed steps. -/
theorem run_simulated {Action : Type v} {Other : Type w} {OtherAction : Type x}
    {step : State → Action → Option State} {otherStep : Other → OtherAction → Option Other}
    {relation : State → Other → Prop} {allowed : Action → Prop}
    (simulated : ∀ {state other action next}, allowed action → relation state other →
      step state action = some next →
        ∃ otherNext, Runs.Reaches otherStep other otherNext ∧ relation next otherNext)
    {start finish : State} {other : Other} {actions : List Action}
    (all : ∀ action ∈ actions, allowed action) (ran : Runs.run step start actions = some finish)
    (initially : relation start other) :
    ∃ otherFinish, Runs.Reaches otherStep other otherFinish ∧ relation finish otherFinish := by
  induction actions generalizing start other with
  | nil =>
      simp only [Runs.run_nil, Option.some.injEq] at ran
      exact ⟨other, ⟨[], rfl⟩, ran ▸ initially⟩
  | cons action rest inductionHypothesis =>
      obtain ⟨first, others⟩ := List.forall_mem_cons.mp all
      obtain ⟨next, stepped, finished⟩ := Runs.run_cons_eq_some.mp ran
      obtain ⟨middle, reached, related⟩ := simulated first initially stepped
      obtain ⟨otherFinish, reachedRest, relatedRest⟩ :=
        inductionHypothesis others finished related
      exact ⟨otherFinish, reached.trans reachedRest, relatedRest⟩

/-- The same for steps that meet a condition on the state before them; the
second system's steps then meet one of its own. -/
theorem guarded_simulated {Action : Type v} {Other : Type w} {OtherAction : Type x}
    {step : State → Action → Option State} {otherStep : Other → OtherAction → Option Other}
    {condition : State → Action → Prop} {otherCondition : Other → OtherAction → Prop}
    {relation : State → Other → Prop}
    (simulated : ∀ {state other action next}, condition state action → relation state other →
      step state action = some next →
        ∃ others otherNext, Runs.run otherStep other others = some otherNext ∧
          Runs.Guarded otherStep otherCondition other others ∧ relation next otherNext)
    {start finish : State} {other : Other} {actions : List Action}
    (guarded : Runs.Guarded step condition start actions)
    (ran : Runs.run step start actions = some finish) (initially : relation start other) :
    ∃ others otherFinish, Runs.run otherStep other others = some otherFinish ∧
      Runs.Guarded otherStep otherCondition other others ∧ relation finish otherFinish := by
  induction actions generalizing start other with
  | nil =>
      simp only [Runs.run_nil, Option.some.injEq] at ran
      exact ⟨[], other, rfl, trivial, ran ▸ initially⟩
  | cons action rest inductionHypothesis =>
      obtain ⟨next, stepped, finished⟩ := Runs.run_cons_eq_some.mp ran
      rw [Runs.guarded_cons stepped] at guarded
      obtain ⟨first, middle, firstRan, firstGuarded, related⟩ :=
        simulated guarded.1 initially stepped
      obtain ⟨second, otherFinish, secondRan, secondGuarded, relatedRest⟩ :=
        inductionHypothesis guarded.2 finished related
      exact ⟨first ++ second, otherFinish,
        Runs.run_append_eq_some.mpr ⟨middle, firstRan, secondRan⟩,
        firstGuarded.trans firstRan secondGuarded, relatedRest⟩

end Simulation
