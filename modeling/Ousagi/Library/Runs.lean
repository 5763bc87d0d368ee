import Mathlib.Computability.StateTransition

/-!
Rules for the runs of a deterministic machine given by a step function that
ends with `none`.
-/

namespace Library

open Relation StateTransition

variable {State : Type} {next : State → Option State}

theorem reaches_invariant (holds : State → Prop) {first last : State}
    (reached : Reaches next first last) (start : holds first)
    (step : ∀ {before after : State}, Reaches next first before → next before = some after →
      holds before → holds after) : holds last := by
  induction reached with
  | refl => exact start
  | tail earlier last ih => exact step earlier last ih

theorem reaches_end (next : State → Option State) (measure : State → Nat)
    (shrinks : ∀ {before after : State}, next before = some after → measure after < measure before)
    (first : State) : ∃ last, Reaches next first last ∧ next last = none := by
  induction size : measure first using Nat.strongRecOn generalizing first with
  | ind size ih =>
      cases step : next first with
      | none => exact ⟨first, ReflTransGen.refl, step⟩
      | some second =>
          have smaller := shrinks step
          obtain ⟨last, reached, stopped⟩ := ih (measure second) (by omega) second rfl
          exact ⟨last, ReflTransGen.head step reached, stopped⟩

theorem reaches_before_end {first middle last : State} (reached : Reaches next first middle)
    (ends : Reaches next first last) (stopped : next last = none) : Reaches next middle last := by
  rcases reaches_total reached ends with onward | back
  · exact onward
  · rcases ReflTransGen.cases_head back with same | ⟨other, step, _⟩
    · rw [same]
      exact ReflTransGen.refl
    · simp [stopped] at step

theorem forall_reaches_onward {property : State → Prop} {first second : State}
    (step : next first = some second) :
    (∀ last, Reaches next first last → property last) ↔
      property first ∧ ∀ last, Reaches next second last → property last := by
  constructor
  · exact fun all => ⟨all first .refl, fun last onward => all last (.head step onward)⟩
  · rintro ⟨here, later⟩ last reached
    rcases ReflTransGen.cases_head reached with same | ⟨other, taken, onward⟩
    · exact same ▸ here
    · cases step.symm.trans taken
      exact later last onward

theorem forall_reaches_stopped {property : State → Prop} {first : State}
    (stopped : next first = none) :
    (∀ last, Reaches next first last → property last) ↔ property first := by
  refine ⟨fun all => all first .refl, ?_⟩
  intro here last reached
  rcases ReflTransGen.cases_head reached with same | ⟨other, taken, _⟩
  · exact same ▸ here
  · simp [stopped] at taken

end Library
