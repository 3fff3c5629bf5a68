import Mathlib

/-!
# Work that is announced while work is done

The nodes of a graph are worked on.  A node that is being worked on announces
the nodes that it leads to; they wait until they are started.  A running node
is not started again, but a node that was retired is no longer known.  It is
never started again if it is retired only when no live node leads to it.
-/

namespace Worklist

universe u

structure State (Node : Type u) where
  /-- The nodes that wait, and those that may still announce others. -/
  live : List Node
  running : List Node
  started : List Node

variable {Node : Type u}

/-- What can happen to the nodes. -/
inductive Move [DecidableEq Node] (leads : Node → Node → Prop) (state next : State Node) :
    Prop where
  /-- Nodes are announced, or nothing is to be expected of them any longer. -/
  | work
      (known : ∀ node ∈ next.live, node ∈ state.live ∨ ∃ parent ∈ state.live, leads parent node)
      (running : next.running = state.running) (started : next.started = state.started)
  | start {node : Node} (waits : node ∈ state.live) (idle : node ∉ state.running)
      (known : ∀ other ∈ next.live, other ∈ state.live)
      (running : next.running = state.running ++ [node])
      (started : next.started = state.started ++ [node])
  | retire {node : Node}
      (unreachable : ∀ other ∈ state.live, ¬Relation.ReflTransGen leads other node)
      (known : ∀ other ∈ next.live, other ∈ state.live)
      (running : next.running = state.running.filter fun other => other ≠ node)
      (started : next.started = state.started)

structure Inv (leads : Node → Node → Prop) (state : State Node) : Prop where
  nodup : state.started.Nodup
  running : ∀ node ∈ state.running, node ∈ state.started
  gone : ∀ node ∈ state.started, node ∉ state.running →
    ∀ live ∈ state.live, ¬Relation.ReflTransGen leads live node

theorem Inv.init (leads : Node → Node → Prop) (live : List Node) :
    Inv leads { live := live, running := [], started := [] } where
  nodup := List.nodup_nil
  running := by simp
  gone := by simp

theorem Inv.move [DecidableEq Node] {leads : Node → Node → Prop} {state next : State Node}
    (moved : Move leads state next) (inv : Inv leads state) : Inv leads next := by
  cases moved with
  | work known running started =>
      refine ⟨started ▸ inv.nodup, started ▸ running ▸ inv.running, ?_⟩
      intro node wasStarted retired live isLive path
      rw [started] at wasStarted
      rw [running] at retired
      rcases known live isLive with old | ⟨parent, parentLive, leading⟩
      · exact inv.gone node wasStarted retired live old path
      · exact inv.gone node wasStarted retired parent parentLive (path.head leading)
  | @start fresh waits idle known running started =>
      have unstarted : fresh ∉ state.started := fun wasStarted =>
        inv.gone fresh wasStarted idle fresh waits .refl
      refine ⟨?_, ?_, ?_⟩
      · rw [started, List.nodup_append_comm]
        exact List.nodup_cons.mpr ⟨unstarted, inv.nodup⟩
      · intro node runs
        rw [running, List.mem_append] at runs
        rw [started, List.mem_append]
        exact runs.imp_left (inv.running node)
      · intro node wasStarted retired live isLive
        rw [running, List.mem_append, not_or] at retired
        rw [started, List.mem_append] at wasStarted
        exact inv.gone node (wasStarted.resolve_right retired.2) retired.1 live (known live isLive)
  | @retire node unreachable known running started =>
      refine ⟨started ▸ inv.nodup, ?_, ?_⟩
      · intro other runs
        rw [running] at runs
        rw [started]
        exact inv.running other (List.mem_filter.mp runs).1
      · intro other wasStarted retired live isLive
        rw [started] at wasStarted
        rw [running, List.mem_filter, not_and, decide_eq_true_eq] at retired
        by_cases same : other = node
        · rw [same]
          exact unreachable live (known live isLive)
        · exact inv.gone other wasStarted (fun runs => retired runs same) live (known live isLive)

end Worklist
