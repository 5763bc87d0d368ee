import Mathlib.Data.List.Basic

/-!
Runs of a machine that reads a list of inputs and gives an output for some of
them.  Two machines whose states stay related give the same outputs.
-/

namespace Library

variable {ι ο σ τ : Type}

def collect (step : ι → σ → Option ο × σ) : List ι → σ → List ο × σ
  | [], state => ([], state)
  | input :: rest, state =>
      let (output, state) := step input state
      let (outputs, state) := collect step rest state
      (output.toList ++ outputs, state)

/-- Each input of the run is allowed in the state that it finds. -/
def AllowedRun (allowed : ι → σ → Prop) (step : ι → σ → Option ο × σ) : List ι → σ → Prop
  | [], _ => True
  | input :: rest, state =>
      allowed input state ∧ AllowedRun allowed step rest (step input state).2

instance AllowedRun.decidable {allowed : ι → σ → Prop}
    [∀ input state, Decidable (allowed input state)] {step : ι → σ → Option ο × σ} :
    (inputs : List ι) → (state : σ) → Decidable (AllowedRun allowed step inputs state)
  | [], _ => isTrue trivial
  | input :: rest, state =>
      have : Decidable (AllowedRun allowed step rest (step input state).2) :=
        AllowedRun.decidable rest (step input state).2
      inferInstanceAs (Decidable (allowed input state ∧
        AllowedRun allowed step rest (step input state).2))

theorem allowedRun_of_forall {allowed : ι → σ → Prop} {step : ι → σ → Option ο × σ}
    (every : ∀ input state, allowed input state) (inputs : List ι) (state : σ) :
    AllowedRun allowed step inputs state := by
  induction inputs generalizing state with
  | nil => trivial
  | cons input rest ih => exact ⟨every input state, ih _⟩

theorem AllowedRun.and {first second : ι → σ → Prop} {step : ι → σ → Option ο × σ}
    {inputs : List ι} {state : σ} (left : AllowedRun first step inputs state)
    (right : AllowedRun second step inputs state) :
    AllowedRun (fun input state => first input state ∧ second input state) step inputs state := by
  induction inputs generalizing state with
  | nil => trivial
  | cons input rest ih => exact ⟨⟨left.1, right.1⟩, ih left.2 right.2⟩

theorem allowedRun_congr {given first second : ι → σ → Prop} (holds : σ → Prop)
    {step : ι → σ → Option ο × σ}
    (same : ∀ input state, given input state → holds state →
      (first input state ↔ second input state))
    (keeps : ∀ input state, given input state → holds state → first input state →
      holds (step input state).2)
    {inputs : List ι} {state : σ} (fine : AllowedRun given step inputs state)
    (start : holds state) :
    AllowedRun first step inputs state ↔ AllowedRun second step inputs state := by
  induction inputs generalizing state with
  | nil => exact Iff.rfl
  | cons input rest ih =>
      constructor
      · rintro ⟨here, later⟩
        have next := keeps input state fine.1 start here
        exact ⟨(same input state fine.1 start).mp here, (ih fine.2 next).mp later⟩
      · rintro ⟨here, later⟩
        have back := (same input state fine.1 start).mpr here
        exact ⟨back, (ih fine.2 (keeps input state fine.1 start back)).mpr later⟩

theorem collect_keeps {holds : σ → Prop} {step : ι → σ → Option ο × σ}
    (keeps : ∀ input state, holds state → holds (step input state).2) (inputs : List ι)
    {state : σ} (start : holds state) : holds (collect step inputs state).2 := by
  induction inputs generalizing state with
  | nil => exact start
  | cons input rest ih => exact ih (keeps input state start)

theorem collect_frame {holds : σ → Prop} {step : ι → σ → Option ο × σ} {inputs : List ι}
    (keeps : ∀ input ∈ inputs, ∀ state, holds state → holds (step input state).2)
    {state : σ} (start : holds state) : holds (collect step inputs state).2 := by
  induction inputs generalizing state with
  | nil => exact start
  | cons input rest ih =>
      exact ih (fun other among => keeps other (List.mem_cons_of_mem _ among))
        (keeps input (List.mem_cons_self ..) state start)

theorem collect_length {step : ι → σ → Option ο × σ}
    (gives : ∀ input state, (step input state).1.isSome) (inputs : List ι) (state : σ) :
    (collect step inputs state).1.length = inputs.length := by
  induction inputs generalizing state with
  | nil => rfl
  | cons input rest ih =>
      rw [collect, List.length_append, ih, Option.length_toList, if_pos (gives input state),
        List.length_cons, Nat.add_comm]

theorem collect_append {step : ι → σ → Option ο × σ} (earlier later : List ι) (state : σ) :
    collect step (earlier ++ later) state =
      ((collect step earlier state).1 ++ (collect step later (collect step earlier state).2).1,
        (collect step later (collect step earlier state).2).2) := by
  induction earlier generalizing state with
  | nil => rfl
  | cons input rest ih => simp only [List.cons_append, collect, ih, List.append_assoc]

theorem collect_observed {holds : List ο → σ → Prop} {step : ι → σ → Option ο × σ}
    (keeps : ∀ log input state, holds log state →
      holds (log ++ (step input state).1.toList) (step input state).2)
    (inputs : List ι) {log : List ο} {state : σ} (start : holds log state) :
    holds (log ++ (collect step inputs state).1) (collect step inputs state).2 := by
  induction inputs generalizing log state with
  | nil => simpa [collect] using start
  | cons input rest ih =>
      have later := ih (keeps log input state start)
      rw [List.append_assoc] at later
      exact later

/-- An input that is not mine is not seen and keeps the relation, and one that is mine is seen
to do the same on both sides.  Then a run shows what the run of my inputs alone does. -/
theorem collect_apart {ω : Type} (mine : ι → Bool) (seen : ο → Option ω) {related : σ → τ → Prop}
    {step : ι → σ → Option ο × σ} {other : ι → τ → Option ο × τ} {inputs : List ι}
    (own : ∀ input ∈ inputs, mine input → ∀ left right, related left right →
      (step input left).1.bind seen = (other input right).1.bind seen ∧
        related (step input left).2 (other input right).2)
    (foreign : ∀ input ∈ inputs, ¬mine input → ∀ left right, related left right →
      (step input left).1.bind seen = none ∧ related (step input left).2 right)
    {left : σ} {right : τ} (start : related left right) :
    (collect step inputs left).1.filterMap seen =
        (collect other (inputs.filter mine) right).1.filterMap seen ∧
      related (collect step inputs left).2 (collect other (inputs.filter mine) right).2 := by
  have shown : ∀ (output : Option ο) (outputs : List ο),
      (output.toList ++ outputs).filterMap seen =
        (output.bind seen).toList ++ outputs.filterMap seen := by
    intro output outputs
    cases output with
    | none => rfl
    | some output => cases view : seen output <;> simp [view]
  induction inputs generalizing left right with
  | nil => exact ⟨rfl, start⟩
  | cons input rest ih =>
      have owns := fun next among => own next (List.mem_cons_of_mem input among)
      have leaves := fun next among => foreign next (List.mem_cons_of_mem input among)
      by_cases here : mine input = true
      · obtain ⟨output, kept⟩ := own input (List.mem_cons_self ..) here left right start
        obtain ⟨outputs, ended⟩ := ih owns leaves kept
        rw [List.filter_cons_of_pos here, collect, collect]
        refine ⟨?_, ended⟩
        simp only [shown, output, outputs]
      · obtain ⟨output, kept⟩ := foreign input (List.mem_cons_self ..) here left right start
        obtain ⟨outputs, ended⟩ := ih owns leaves kept
        rw [List.filter_cons_of_neg here, collect]
        refine ⟨?_, ended⟩
        rw [shown, output, outputs]
        rfl

theorem collect_simulates {related : σ → τ → Prop} {allowed : ι → σ → Prop}
    {step : ι → σ → Option ο × σ} {other : ι → τ → Option ο × τ}
    (agrees : ∀ input left right, allowed input left → related left right →
      (step input left).1 = (other input right).1 ∧
        related (step input left).2 (other input right).2)
    {inputs : List ι} {left : σ} {right : τ} (fine : AllowedRun allowed step inputs left)
    (start : related left right) :
    (collect step inputs left).1 = (collect other inputs right).1 ∧
      related (collect step inputs left).2 (collect other inputs right).2 := by
  induction inputs generalizing left right with
  | nil => exact ⟨rfl, start⟩
  | cons input rest ih =>
      obtain ⟨output, kept⟩ := agrees input left right fine.1 start
      obtain ⟨outputs, ended⟩ := ih fine.2 kept
      refine ⟨?_, ended⟩
      simp only [collect]
      rw [output, outputs]

end Library
