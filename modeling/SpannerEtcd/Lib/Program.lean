import Mathlib

/-!
# Programs over a shared state

A call that makes several accesses to a shared state is a tree: it returns, or
it looks at the state and goes on, or it performs an operation and goes on
with the answer.  The tree says nothing about what happens between two
accesses.

`Program.exec` runs a tree with nothing in between.  `Program.Ensures` is what
a tree guarantees when, before each access, others may take the state to any
later one.  `Program.Interleaved` is one such run, with the states on either
side of each access.
-/

inductive Program (Snapshot : Type) {Op : Type} (Answer : Op → Type) (Result : Type) where
  | ret (result : Result)
  | observe (next : Snapshot → Program Snapshot Answer Result)
  | act (op : Op) (next : Answer op → Program Snapshot Answer Result)

namespace Program

variable {Snapshot Op State Result Other : Type} {Answer : Op → Type}

def bind (program : Program Snapshot Answer Result)
    (next : Result → Program Snapshot Answer Other) : Program Snapshot Answer Other :=
  match program with
  | .ret result => next result
  | .observe resume => .observe fun snapshot => (resume snapshot).bind next
  | .act op resume => .act op fun answer => (resume answer).bind next

instance : Monad (Program Snapshot Answer) where
  pure := .ret
  bind := .bind

@[simp]
theorem pure_eq (result : Result) : (pure result : Program Snapshot Answer Result) = .ret result :=
  rfl

@[simp]
theorem ret_bind (result : Result) (next : Result → Program Snapshot Answer Other) :
    (.ret result : Program Snapshot Answer Result) >>= next = next result := rfl

@[simp]
theorem observe_bind (resume : Snapshot → Program Snapshot Answer Result)
    (next : Result → Program Snapshot Answer Other) :
    .observe resume >>= next = .observe fun snapshot => resume snapshot >>= next := rfl

@[simp]
theorem act_bind (op : Op) (resume : Answer op → Program Snapshot Answer Result)
    (next : Result → Program Snapshot Answer Other) :
    .act op resume >>= next = .act op fun answer => resume answer >>= next := rfl

/-! ## Running alone -/

section Exec

variable (view : State → Snapshot) (perform : Nat → (op : Op) → State → Answer op × State)

/-- Run the program with no one else; the operations are numbered on from
`count`. -/
def exec : Program Snapshot Answer Result → Nat → State → Result × Nat × State
  | .ret result, count, state => (result, count, state)
  | .observe next, count, state => (next (view state)).exec count state
  | .act op next, count, state =>
      (next (perform count op state).1).exec (count + 1) (perform count op state).2

theorem exec_bind (program : Program Snapshot Answer Result)
    (next : Result → Program Snapshot Answer Other) (count : Nat) (state : State) :
    (program >>= next).exec view perform count state =
      (next (program.exec view perform count state).1).exec view perform
        (program.exec view perform count state).2.1
        (program.exec view perform count state).2.2 := by
  induction program generalizing count state with
  | ret result => rfl
  | observe resume inductionHypothesis =>
      exact inductionHypothesis (view state) count state
  | act op resume inductionHypothesis =>
      exact inductionHypothesis (perform count op state).1 (count + 1) (perform count op state).2

end Exec

/-! ## Running among others -/

/-- What the programs run in: `later` is what others may do to the state
between two accesses. -/
structure Environment (State Snapshot : Type) {Op : Type} (Answer : Op → Type) where
  later : State → State → Prop
  view : State → Snapshot
  performs : State → (op : Op) → Answer op → State → Prop
  trans : ∀ {first second third}, later first second → later second third → later first third

/-- However others interfere, the program returns a result that meets the
postcondition in the state of its last access. -/
def Ensures (environment : Environment State Snapshot Answer) (post : State → Result → Prop) :
    Program Snapshot Answer Result → State → Prop
  | .ret result, state => post state result
  | .observe next, state => ∀ current, environment.later state current →
      (next (environment.view current)).Ensures environment post current
  | .act op next, state => ∀ current answer after, environment.later state current →
      environment.performs current op answer after →
        (next answer).Ensures environment post after

variable {environment : Environment State Snapshot Answer} {post : State → Result → Prop}
  {goal : State → Other → Prop}

theorem Ensures.mono {weaker : State → Result → Prop} {program : Program Snapshot Answer Result}
    {state : State} (ensured : program.Ensures environment post state)
    (implies : ∀ state result, post state result → weaker state result) :
    program.Ensures environment weaker state := by
  induction program generalizing state with
  | ret result => exact implies state result ensured
  | observe next inductionHypothesis =>
      intro current passed
      exact inductionHypothesis _ (ensured current passed)
  | act op next inductionHypothesis =>
      intro current answer after passed performed
      exact inductionHypothesis _ (ensured current answer after passed performed)

theorem Ensures.bind {program : Program Snapshot Answer Result}
    {next : Result → Program Snapshot Answer Other} {state : State}
    (ensured : program.Ensures environment post state)
    (continues : ∀ state result, post state result →
      (next result).Ensures environment goal state) :
    (program >>= next).Ensures environment goal state := by
  induction program generalizing state with
  | ret result => exact continues state result ensured
  | observe resume inductionHypothesis =>
      intro current passed
      exact inductionHypothesis _ (ensured current passed)
  | act op resume inductionHypothesis =>
      intro current answer after passed performed
      exact inductionHypothesis _ (ensured current answer after passed performed)

/-- A guarantee outlives what others do, if the postcondition does. -/
theorem Ensures.later {program : Program Snapshot Answer Result} {state current : State}
    (ensured : program.Ensures environment post state)
    (stable : ∀ {state current result}, environment.later state current → post state result →
      post current result)
    (passed : environment.later state current) :
    program.Ensures environment post current := by
  cases program with
  | ret result => exact stable passed ensured
  | observe next =>
      intro further furtherPassed
      exact ensured further (environment.trans passed furtherPassed)
  | act op next =>
      intro further answer after furtherPassed performed
      exact ensured further answer after (environment.trans passed furtherPassed) performed

/-- A complete run of the program among others.  Each access has the state that
it found and the one that it left. -/
inductive Interleaved (environment : Environment State Snapshot Answer) :
    Program Snapshot Answer Result → State → List (State × State) → State → Result → Prop where
  | ret (result : Result) (state : State) :
      Interleaved environment (.ret result) state [] state result
  | observe {next : Snapshot → Program Snapshot Answer Result} {state current finish : State}
      {accesses : List (State × State)} {result : Result}
      (passed : environment.later state current)
      (rest : Interleaved environment (next (environment.view current)) current accesses finish
        result) :
      Interleaved environment (.observe next) state ((current, current) :: accesses) finish result
  | act {op : Op} {next : Answer op → Program Snapshot Answer Result}
      {state current after finish : State} {answer : Answer op} {accesses : List (State × State)}
      {result : Result} (passed : environment.later state current)
      (performed : environment.performs current op answer after)
      (rest : Interleaved environment (next answer) after accesses finish result) :
      Interleaved environment (.act op next) state ((current, after) :: accesses) finish result

/-- The accesses of a sequence are those of its parts. -/
theorem Interleaved.of_bind {program : Program Snapshot Answer Result}
    {next : Result → Program Snapshot Answer Other} {start finish : State}
    {accesses : List (State × State)} {reply : Other}
    (ran : Interleaved environment (program >>= next) start accesses finish reply) :
    ∃ first second middle result, accesses = first ++ second ∧
      Interleaved environment program start first middle result ∧
      Interleaved environment (next result) middle second finish reply := by
  induction program generalizing start accesses with
  | ret result => exact ⟨[], accesses, start, result, rfl, .ret result start, ran⟩
  | observe resume inductionHypothesis =>
      cases ran with
      | observe passed rest =>
          obtain ⟨first, second, middle, result, rfl, own, others⟩ := inductionHypothesis _ rest
          exact ⟨_, second, middle, result, rfl, .observe passed own, others⟩
  | act op resume inductionHypothesis =>
      cases ran with
      | act passed performed rest =>
          obtain ⟨first, second, middle, result, rfl, own, others⟩ := inductionHypothesis _ rest
          exact ⟨_, second, middle, result, rfl, .act passed performed own, others⟩

end Program
