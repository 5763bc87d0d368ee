import Mathlib.Algebra.BigOperators.Group.Finset.Basic

/-!
What the agents of a system owe together, when only finitely many of them owe
anything: the total, and how it changes with one agent.
-/

namespace Library

open Finset

variable {Agent : Type} {owes : Agent → Nat} {total : Nat}

/-- All that owe something are among finitely many agents, and together they owe the total. -/
def Owing (owes : Agent → Nat) (total : Nat) : Prop :=
  ∃ busy : Finset Agent, (∀ agent, agent ∉ busy → owes agent = 0) ∧ total = busy.sum owes

theorem Owing.none (settled : ∀ agent, owes agent = 0) : Owing owes 0 :=
  ⟨∅, fun agent _ => settled agent, rfl⟩

theorem Owing.sum [DecidableEq Agent] (owing : Owing owes total) (busy : Finset Agent)
    (among : ∀ agent, agent ∉ busy → owes agent = 0) : total = busy.sum owes := by
  obtain ⟨others, apart, rfl⟩ := owing
  have left : others.sum owes = (others ∪ busy).sum owes :=
    sum_subset subset_union_left fun agent _ absent => apart agent absent
  have right : busy.sum owes = (others ∪ busy).sum owes :=
    sum_subset subset_union_right fun agent _ absent => among agent absent
  rw [left, right]

theorem Owing.changed [DecidableEq Agent] {later : Agent → Nat} (owing : Owing owes total)
    (agent : Agent)
    (others : ∀ other, other ≠ agent → later other = owes other) :
    ∃ after, Owing later after ∧ after + owes agent = total + later agent := by
  obtain ⟨busy, apart, rfl⟩ := owing
  have without : ∑ other ∈ (insert agent busy).erase agent, later other =
      ∑ other ∈ (insert agent busy).erase agent, owes other :=
    sum_congr rfl fun other among => others other (ne_of_mem_erase among)
  have whole : busy.sum owes = (insert agent busy).sum owes :=
    sum_subset (subset_insert agent busy) fun other _ absent => apart other absent
  refine ⟨(insert agent busy).sum later, ⟨insert agent busy, ?_, rfl⟩, ?_⟩
  · intro other absent
    rw [mem_insert, not_or] at absent
    rw [others other absent.1, apart other absent.2]
  · rw [whole, ← sum_erase_add _ later (mem_insert_self agent busy),
      ← sum_erase_add _ owes (mem_insert_self agent busy), without]
    omega

end Library
