import Mathlib

/-!
# Tables whose entries expire

An entry counts up to its deadline.  Whether the entries that no longer count
are swept out of a table, and when, cannot be seen in what it holds later.
-/

namespace Expiring

universe u v w

variable {Key : Type u} {Entry : Type v} {Time : Type w} [LinearOrder Time]
  {deadline : Entry → Time}

/-- The entries that count at an instant. -/
def alive (deadline : Entry → Time) (now : Time) (table : Key → Option Entry) :
    Key → Option Entry :=
  fun key => (table key).filter fun entry => decide (now ≤ deadline entry)

theorem alive_eq_some {now : Time} {table : Key → Option Entry} {key : Key} {entry : Entry} :
    alive deadline now table key = some entry ↔ table key = some entry ∧ now ≤ deadline entry := by
  simp [alive, Option.filter_eq_some_iff]

/-- What counts at a later instant has counted at an earlier one. -/
theorem alive_alive {earlier now : Time} (le : earlier ≤ now) (table : Key → Option Entry) :
    alive deadline now (alive deadline earlier table) = alive deadline now table := by
  funext key
  apply Option.ext
  intro entry
  rw [alive_eq_some, alive_eq_some, alive_eq_some, and_assoc, and_congr_right_iff]
  exact fun _ => and_iff_right_of_imp le.trans

/-- From an instant on two tables cannot be told apart. -/
def AgreeFrom (deadline : Entry → Time) (clock : Time) (first second : Key → Option Entry) :
    Prop :=
  ∀ now, clock ≤ now → alive deadline now first = alive deadline now second

variable {clock : Time} {first second : Key → Option Entry}

theorem AgreeFrom.mono (agree : AgreeFrom deadline clock first second) {later : Time}
    (le : clock ≤ later) : AgreeFrom deadline later first second :=
  fun now reading => agree now (le.trans reading)

theorem AgreeFrom.sweep (agree : AgreeFrom deadline clock first second) {swept : Time}
    (le : swept ≤ clock) : AgreeFrom deadline clock (alive deadline swept first) second := by
  intro now reading
  rw [alive_alive (le.trans reading), agree now reading]

variable [DecidableEq Key]

theorem alive_update (now : Time) (table : Key → Option Entry) (key : Key) (entry : Entry) :
    alive deadline now (Function.update table key (some entry)) =
      Function.update (alive deadline now table) key
        ((some entry).filter fun entry => decide (now ≤ deadline entry)) := by
  funext other
  by_cases same : other = key
  · subst same
    simp [alive]
  · simp [alive, same]

theorem AgreeFrom.update (agree : AgreeFrom deadline clock first second) (key : Key)
    (entry : Entry) :
    AgreeFrom deadline clock (Function.update first key (some entry))
      (Function.update second key (some entry)) := by
  intro now reading
  rw [alive_update, alive_update, agree now reading]

/-- The table of a log of insertions that nothing has been swept out of. -/
def record (table : Key → Option Entry) (log : List (Key × Entry)) : Key → Option Entry :=
  log.foldl (fun table item => Function.update table item.1 (some item.2)) table

omit [LinearOrder Time] in
theorem record_append (table : Key → Option Entry) (log more : List (Key × Entry)) :
    record table (log ++ more) = record (record table log) more :=
  List.foldl_append

/-- Insertions cannot tell two tables apart that agree. -/
theorem AgreeFrom.record (agree : AgreeFrom deadline clock first second)
    (log : List (Key × Entry)) :
    AgreeFrom deadline clock (record first log) (record second log) := by
  induction log generalizing first second with
  | nil => exact agree
  | cons item rest inductionHypothesis => exact inductionHypothesis (agree.update item.1 item.2)

omit [LinearOrder Time] in
theorem record_of_not_mem {log : List (Key × Entry)} (table : Key → Option Entry) {key : Key}
    (missing : key ∉ log.map Prod.fst) : record table log key = table key := by
  induction log generalizing table with
  | nil => rfl
  | cons item rest inductionHypothesis =>
      rw [List.map_cons, List.mem_cons, not_or] at missing
      rw [record, List.foldl_cons, ← record, inductionHypothesis _ missing.2,
        Function.update_of_ne missing.1]

/-- Under distinct keys the table holds exactly what was inserted. -/
theorem record_eq_some_iff {log : List (Key × Entry)}
    (distinct : (log.map Prod.fst).Nodup) {table : Key → Option Entry} {key : Key}
    (fresh : table key = none) {entry : Entry} :
    record table log key = some entry ↔ (key, entry) ∈ log := by
  induction log generalizing table with
  | nil => simp [record, fresh]
  | cons item rest inductionHypothesis =>
      obtain ⟨newKey, newEntry⟩ := item
      rw [List.map_cons, List.nodup_cons] at distinct
      rw [record, List.foldl_cons, ← record, List.mem_cons, Prod.mk.injEq]
      by_cases same : key = newKey
      · subst same
        have only : (key, entry) ∉ rest := fun later =>
          distinct.1 (List.mem_map.mpr ⟨_, later, rfl⟩)
        rw [record_of_not_mem _ distinct.1, Function.update_self, Option.some.injEq, eq_comm]
        simp [only]
      · rw [inductionHypothesis distinct.2 (by rwa [Function.update_of_ne same])]
        simp [same]

end Expiring
