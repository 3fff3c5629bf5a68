import Mathlib

/-!
# Transactions that are run again

A transaction is given as a callback.  The callback reads one snapshot,
buffers writes, and works on variables of its caller, which outlive it.  Every
access may come back with an error, which the callback handles.  When an
attempt ends with a retryable error the callback is run again, on a new
snapshot, with nothing buffered, and with the variables as the last attempt
left them.

`Callback.Assigns` says that a callback assigns the variables on each path
before it looks at them.  Then no attempt can see an earlier one, and a call
returns what its last attempt returns alone.
-/

namespace Retry

inductive Callback (Snapshot Vars Write Err Result : Type) where
  | ret (result : Result)
  | look (next : Vars → Callback Snapshot Vars Write Err Result)
  | assign (vars : Vars) (next : Callback Snapshot Vars Write Err Result)
  | read (next : Except Err Snapshot → Callback Snapshot Vars Write Err Result)
  | write (buffered : Write) (next : Except Err Unit → Callback Snapshot Vars Write Err Result)

variable {Snapshot Vars Write Err Result Other : Type}

/-- One attempt: the snapshot it reads, and the error that its accesses meet
after the given number of them. -/
structure Attempt (Snapshot Err : Type) where
  snapshot : Snapshot
  fault : Option (Nat × Err)

/-- An attempt under way. -/
structure Running (Vars Write Err : Type) where
  vars : Vars
  buffered : List Write
  fault : Option (Nat × Err)

def access : Option (Nat × Err) → Except Err Unit × Option (Nat × Err)
  | none => (.ok (), none)
  | some (0, err) => (.error err, some (0, err))
  | some (left + 1, err) => (.ok (), some (left, err))

namespace Callback

def bind (callback : Callback Snapshot Vars Write Err Result)
    (next : Result → Callback Snapshot Vars Write Err Other) :
    Callback Snapshot Vars Write Err Other :=
  match callback with
  | .ret result => next result
  | .look resume => .look fun vars => (resume vars).bind next
  | .assign vars resume => .assign vars (resume.bind next)
  | .read resume => .read fun answer => (resume answer).bind next
  | .write buffered resume => .write buffered fun answer => (resume answer).bind next

instance : Monad (Callback Snapshot Vars Write Err) where
  pure := .ret
  bind := .bind

def modify (change : Vars → Vars) : Callback Snapshot Vars Write Err Unit :=
  .look fun vars => .assign (change vars) (.ret ())

def exec (snapshot : Snapshot) : Callback Snapshot Vars Write Err Result →
    Running Vars Write Err → Result × Running Vars Write Err
  | .ret result, running => (result, running)
  | .look next, running => (next running.vars).exec snapshot running
  | .assign vars next, running => next.exec snapshot { running with vars := vars }
  | .read next, running =>
      let (answer, fault) := access running.fault
      (next (answer.map fun _ => snapshot)).exec snapshot { running with fault := fault }
  | .write buffered next, running =>
      match access running.fault with
      | (.ok _, fault) =>
          (next (.ok ())).exec snapshot
            { running with buffered := running.buffered ++ [buffered], fault := fault }
      | (.error err, fault) => (next (.error err)).exec snapshot { running with fault := fault }

@[simp]
theorem exec_pure (snapshot : Snapshot) (result : Result) (running : Running Vars Write Err) :
    (pure result : Callback Snapshot Vars Write Err Result).exec snapshot running =
      (result, running) := rfl

theorem exec_bind (callback : Callback Snapshot Vars Write Err Result)
    (next : Result → Callback Snapshot Vars Write Err Other) (snapshot : Snapshot)
    (running : Running Vars Write Err) :
    (callback >>= next).exec snapshot running =
      (next (callback.exec snapshot running).1).exec snapshot
        (callback.exec snapshot running).2 := by
  induction callback generalizing running with
  | ret result => rfl
  | look resume inductionHypothesis => exact inductionHypothesis running.vars running
  | assign vars resume inductionHypothesis => exact inductionHypothesis _
  | read resume inductionHypothesis => exact inductionHypothesis _ _
  | write buffered resume inductionHypothesis =>
      change (Callback.write buffered fun answer => resume answer >>= next).exec _ _ = _
      simp only [exec]
      split
      · exact inductionHypothesis _ _
      · exact inductionHypothesis _ _

/-! ## Callbacks that assign before they look -/

/-- Every path assigns the variables before it looks at them or returns.  An
error in `silent` may be returned without that: the caller shows nothing of
the variables then. -/
inductive Assigns (silent : Err → Prop) :
    Callback Snapshot Vars Write Err (Except Err Result) → Prop where
  | assign (vars next) : Assigns silent (.assign vars next)
  | fail {err} : silent err → Assigns silent (.ret (.error err))
  | read {next} : (∀ answer, Assigns silent (next answer)) → Assigns silent (.read next)
  | write {buffered next} : (∀ answer, Assigns silent (next answer)) →
      Assigns silent (.write buffered next)

/-- The variables that the callback finds do not matter: the executions are
the same, but for the variables left beside a silent error. -/
theorem Assigns.exec_eq {silent : Err → Prop}
    {callback : Callback Snapshot Vars Write Err (Except Err Result)}
    (assigns : callback.Assigns silent) (snapshot : Snapshot)
    (running : Running Vars Write Err) (vars : Vars) :
    callback.exec snapshot { running with vars := vars } = callback.exec snapshot running ∨
      ∃ err, silent err ∧ (callback.exec snapshot running).1 = .error err ∧
        (callback.exec snapshot { running with vars := vars }).1 = .error err := by
  induction assigns generalizing running with
  | assign assigned next => exact .inl rfl
  | fail isSilent => exact .inr ⟨_, isSilent, rfl, rfl⟩
  | read _ inductionHypothesis =>
      exact inductionHypothesis _ { running with fault := (access running.fault).2 }
  | @write buffered next _ inductionHypothesis =>
      rcases accessed : access running.fault with ⟨_ | _, fault⟩
      · simp only [exec, accessed]
        exact inductionHypothesis _ { running with fault := fault }
      · simp only [exec, accessed]
        exact inductionHypothesis _ ⟨running.vars, running.buffered ++ [buffered], fault⟩

end Callback

/-! ## Attempts -/

/-- What becomes of an attempt: its error, or the writes it commits; and the
variables it leaves.  An error not met by then is met by the commit. -/
def attempt (callback : Callback Snapshot Vars Write Err (Except Err Unit))
    (given : Attempt Snapshot Err) (vars : Vars) : Except Err (List Write) × Vars :=
  let (result, running) := callback.exec given.snapshot ⟨vars, [], given.fault⟩
  match result, running.fault with
  | .error err, _ => (.error err, running.vars)
  | .ok _, some (_, err) => (.error err, running.vars)
  | .ok _, none => (.ok running.buffered, running.vars)

/-- A call that runs a transaction: the callback, the variables it works on,
and what is made of the attempt that ends the transaction. -/
structure Call (Snapshot Vars Write Err Out : Type) where
  callback : Callback Snapshot Vars Write Err (Except Err Unit)
  initial : Vars
  answer : Snapshot → Except Err (List Write) → Vars → Out

namespace Call

variable {Out : Type} (call : Call Snapshot Vars Write Err Out) (retryable : Err → Bool)

/-- Run the transaction on the attempts in turn; `none` if each of them ends
with a retryable error. -/
def runAttempts (vars : Vars) : List (Attempt Snapshot Err) → Option Out
  | [] => none
  | given :: rest =>
      match attempt call.callback given vars with
      | (.error err, left) =>
          if retryable err then runAttempts left rest
          else some (call.answer given.snapshot (.error err) left)
      | (.ok writes, left) => some (call.answer given.snapshot (.ok writes) left)

def run (attempts : List (Attempt Snapshot Err)) : Option Out :=
  call.runAttempts retryable call.initial attempts

/-- The attempt, made first, ends with a retryable error. -/
def Aborts (given : Attempt Snapshot Err) : Prop :=
  ∃ err, (attempt call.callback given call.initial).1 = .error err ∧ retryable err = true

/-- A call whose result cannot depend on what an earlier attempt left in the
variables. -/
structure Fresh (silent : Err → Prop) : Prop where
  assigns : call.callback.Assigns silent
  answer : ∀ snapshot err first second, silent err →
    call.answer snapshot (.error err) first = call.answer snapshot (.error err) second

variable {call retryable} {silent : Err → Prop}

theorem Fresh.attempt_eq (fresh : call.Fresh silent) (given : Attempt Snapshot Err)
    (first second : Vars) :
    attempt call.callback given first = attempt call.callback given second ∨
      ∃ err, silent err ∧ (attempt call.callback given first).1 = .error err ∧
        (attempt call.callback given second).1 = .error err := by
  rcases fresh.assigns.exec_eq given.snapshot ⟨second, [], given.fault⟩ first with
    same | ⟨err, isSilent, failed, failedToo⟩
  · left
    simp only [attempt]
    rw [same]
  · refine .inr ⟨err, isSilent, ?_, ?_⟩
    · simp only [attempt]
      rw [failedToo]
    · simp only [attempt]
      rw [failed]

theorem Fresh.outcome_eq (fresh : call.Fresh silent) (given : Attempt Snapshot Err)
    (first second : Vars) :
    (attempt call.callback given first).1 = (attempt call.callback given second).1 := by
  rcases fresh.attempt_eq given first second with same | ⟨err, _, failed, failedToo⟩
  · rw [same]
  · rw [failed, failedToo]

/-- An attempt that ends the transaction returns what it returns as the first
one. -/
theorem Fresh.last_eq (fresh : call.Fresh silent) (final : Attempt Snapshot Err) (vars : Vars) :
    call.runAttempts retryable vars [final] = call.run retryable [final] := by
  unfold run
  simp only [runAttempts]
  rcases fresh.attempt_eq final vars call.initial with same | ⟨err, isSilent, failed, failedToo⟩
  · rw [same]
  · rw [← Prod.mk.eta (p := attempt call.callback final vars),
      ← Prod.mk.eta (p := attempt call.callback final call.initial), failed, failedToo]
    simp only [fresh.answer final.snapshot err _ call.initial isSilent]

theorem Fresh.runAttempts_append (fresh : call.Fresh silent)
    {aborted : List (Attempt Snapshot Err)}
    (aborts : ∀ given ∈ aborted, call.Aborts retryable given) (final : Attempt Snapshot Err)
    (vars : Vars) :
    call.runAttempts retryable vars (aborted ++ [final]) = call.run retryable [final] := by
  induction aborted generalizing vars with
  | nil => exact fresh.last_eq final vars
  | cons given rest inductionHypothesis =>
      obtain ⟨err, failed, isRetryable⟩ := aborts given List.mem_cons_self
      rw [← fresh.outcome_eq given vars call.initial] at failed
      rw [List.cons_append, runAttempts,
        ← Prod.mk.eta (p := attempt call.callback given vars), failed]
      simp only [isRetryable, if_true]
      exact inductionHypothesis (fun other membership =>
        aborts other (List.mem_cons_of_mem given membership)) _

/-- An attempt that meets no error commits what it buffers. -/
theorem run_of_ok {snapshot : Snapshot} {vars : Vars} {buffered : List Write}
    (executed : call.callback.exec snapshot ⟨call.initial, [], none⟩ =
      (.ok (), ⟨vars, buffered, none⟩)) :
    call.run retryable [⟨snapshot, none⟩] = some (call.answer snapshot (.ok buffered) vars) := by
  simp only [run, runAttempts, attempt, executed]

theorem run_of_error {given : Attempt Snapshot Err} {running : Running Vars Write Err} {err : Err}
    (executed : call.callback.exec given.snapshot ⟨call.initial, [], given.fault⟩ =
      (.error err, running)) (ends : retryable err = false) :
    call.run retryable [given] = some (call.answer given.snapshot (.error err) running.vars) := by
  simp [run, runAttempts, attempt, executed, ends]

theorem isSome_run_singleton {given : Attempt Snapshot Err}
    (ends : ¬call.Aborts retryable given) : (call.run retryable [given]).isSome = true := by
  simp only [run, runAttempts]
  rcases ended : attempt call.callback given call.initial with ⟨err | writes, vars⟩
  · have final : retryable err = false := by
      rw [← Bool.not_eq_true]
      intro isRetryable
      exact ends ⟨err, by rw [ended], isRetryable⟩
    simp [final]
  · rfl

/-- Aborted attempts are invisible: the call returns what its last attempt
returns as the only one. -/
theorem Fresh.run_append (fresh : call.Fresh silent) {aborted : List (Attempt Snapshot Err)}
    (aborts : ∀ given ∈ aborted, call.Aborts retryable given) (final : Attempt Snapshot Err) :
    call.run retryable (aborted ++ [final]) = call.run retryable [final] :=
  fresh.runAttempts_append aborts final call.initial

end Call

end Retry
