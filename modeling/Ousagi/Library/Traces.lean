import Mathlib.Data.Option.Basic

/-!
Runs of a machine whose events may be disabled, and rules for what such a run
keeps.
-/

namespace Library

variable {ε σ : Type} {step : ε → σ → Option σ}

def run (step : ε → σ → Option σ) : List ε → σ → Option σ
  | [], state => some state
  | event :: rest, state => (step event state).bind (run step rest)

theorem run_cons {event : ε} {rest : List ε} {first last : σ}
    (reached : run step (event :: rest) first = some last) :
    ∃ second, step event first = some second ∧ run step rest second = some last :=
  Option.bind_eq_some_iff.mp reached

theorem run_append (earlier later : List ε) (first : σ) :
    run step (earlier ++ later) first = (run step earlier first).bind (run step later) := by
  induction earlier generalizing first with
  | nil => rfl
  | cons event rest ih =>
      rw [List.cons_append, run, run, Option.bind_assoc]
      congr 1
      funext second
      exact ih second

theorem run_split {earlier later : List ε} {event : ε} {first last : σ}
    (reached : run step (earlier ++ event :: later) first = some last) :
    ∃ before after, run step earlier first = some before ∧ step event before = some after ∧
      run step later after = some last := by
  induction earlier generalizing first with
  | nil =>
      obtain ⟨second, taken, rest⟩ := run_cons reached
      exact ⟨first, second, rfl, taken, rest⟩
  | cons head tail ih =>
      obtain ⟨second, taken, rest⟩ := run_cons reached
      obtain ⟨before, after, there, moved, onward⟩ := ih rest
      refine ⟨before, after, ?_, moved, onward⟩
      rw [run, taken]
      exact there

section Keeping

variable {holds within : σ → Prop}
  (back : ∀ {event before after}, step event before = some after → within after → within before)

include back

theorem run_back {events : List ε} {first last : σ} (reached : run step events first = some last)
    (bound : within last) : within first := by
  induction events generalizing first with
  | nil =>
      have same : first = last := Option.some.inj reached
      rwa [same]
  | cons event rest ih =>
      obtain ⟨second, taken, onward⟩ := run_cons reached
      exact back taken (ih onward)

/-- A bound that a state has whenever a later one has it, and a property that each step keeps
within the bound. -/
theorem run_keeps
    (keeps : ∀ {event before after}, step event before = some after → within after →
      holds before → holds after)
    {events : List ε} {first last : σ} (reached : run step events first = some last)
    (bound : within last) (start : holds first) : holds last := by
  induction events generalizing first with
  | nil =>
      have same : first = last := Option.some.inj reached
      rwa [← same]
  | cons event rest ih =>
      obtain ⟨second, taken, onward⟩ := run_cons reached
      exact ih onward (keeps taken (run_back back onward bound) start)

end Keeping

section Observing

variable {ο : Type}

def observe (step : ε → σ → Option σ) (seen : ε → σ → Option ο) : List ε → σ → List ο
  | [], _ => []
  | event :: rest, state =>
      (seen event state).toList ++ (step event state).elim [] (observe step seen rest)

/-- Each event of the run is allowed in the state that it finds. -/
def Throughout (step : ε → σ → Option σ) (allowed : ε → σ → Prop) : List ε → σ → Prop
  | [], _ => True
  | event :: rest, state =>
      allowed event state ∧ (step event state).elim True (Throughout step allowed rest)

instance Throughout.decidable {allowed : ε → σ → Prop}
    [∀ event state, Decidable (allowed event state)] :
    (events : List ε) → (state : σ) → Decidable (Throughout step allowed events state)
  | [], _ => isTrue trivial
  | event :: rest, state =>
      match taken : step event state with
      | none => decidable_of_iff (allowed event state) (by simp [Throughout, taken])
      | some next =>
          have : Decidable (Throughout step allowed rest next) := Throughout.decidable rest next
          decidable_of_iff (allowed event state ∧ Throughout step allowed rest next)
            (by simp [Throughout, taken])

theorem Throughout.weaken {strict allowed : ε → σ → Prop}
    (weaker : ∀ event state, strict event state → allowed event state) :
    ∀ {events : List ε} {first : σ}, Throughout step strict events first →
      Throughout step allowed events first := by
  intro events
  induction events with
  | nil => exact fun _ => trivial
  | cons event rest ih =>
      rintro first ⟨here, later⟩
      refine ⟨weaker event first here, ?_⟩
      cases taken : step event first with
      | none => trivial
      | some second =>
          rw [taken] at later
          exact ih later

theorem throughout_iff_forall {allowed : ε → Prop} {events : List ε} {first last : σ}
    (reached : run step events first = some last) :
    Throughout step (fun event _ => allowed event) events first ↔ ∀ event ∈ events, allowed event := by
  induction events generalizing first with
  | nil => simp [Throughout]
  | cons event rest ih =>
      obtain ⟨second, taken, onward⟩ := run_cons reached
      rw [Throughout, taken, List.forall_mem_cons]
      exact and_congr_right fun _ => ih onward

theorem run_observed {allowed : ε → σ → Prop} {seen : ε → σ → Option ο}
    {holds : List ο → σ → Prop}
    (keeps : ∀ {log event before after}, allowed event before → step event before = some after →
      holds log before → holds (log ++ (seen event before).toList) after)
    {events : List ε} {log : List ο} {first last : σ} (fine : Throughout step allowed events first)
    (reached : run step events first = some last) (start : holds log first) :
    holds (log ++ observe step seen events first) last := by
  induction events generalizing log first with
  | nil =>
      have same : first = last := Option.some.inj reached
      rw [observe, List.append_nil]
      rwa [← same]
  | cons event rest ih =>
      obtain ⟨second, taken, onward⟩ := run_cons reached
      rw [Throughout, taken] at fine
      rw [observe, taken, ← List.append_assoc]
      exact ih fine.2 onward (keeps fine.1 taken start)

theorem run_logged {seen : ε → σ → Option ο} {holds : List ο → σ → Prop}
    (keeps : ∀ {log event before after}, step event before = some after → holds log before →
      holds (log ++ (seen event before).toList) after)
    {events : List ε} {first last : σ} (reached : run step events first = some last)
    (start : holds [] first) : holds (observe step seen events first) last :=
  run_observed (fun _ => keeps) ((throughout_iff_forall reached).mpr fun _ _ => trivial) reached
    start

theorem observe_events {seen : ε → Option ο} {events : List ε} {first last : σ}
    (reached : run step events first = some last) :
    observe step (fun event _ => seen event) events first = events.filterMap seen := by
  induction events generalizing first with
  | nil => rfl
  | cons event rest ih =>
      obtain ⟨second, taken, onward⟩ := run_cons reached
      rw [observe, taken, Option.elim, ih onward, List.filterMap_cons]
      cases seen event <;> rfl

theorem run_allowed {allowed : ε → σ → Prop} {holds : σ → Prop}
    (keeps : ∀ {event before after}, allowed event before → step event before = some after →
      holds before → holds after)
    {events : List ε} {first last : σ} (fine : Throughout step allowed events first)
    (reached : run step events first = some last) (start : holds first) : holds last :=
  @run_observed _ _ step Unit allowed (fun _ _ => none) (fun _ => holds)
    (fun fine taken => keeps fine taken) events [] first last fine reached start

/-- A run without the events that are not one's own, where these are not seen and keep what relates
the two runs. -/
theorem run_purged {allowed : ε → Prop} {mine : ε → Bool} {related : σ → σ → Prop}
    {seen : ε → σ → Option ο}
    (own : ∀ {event left right after}, allowed event → mine event → related left right →
      step event left = some after →
      seen event left = seen event right ∧
        ∃ next, step event right = some next ∧ related after next)
    (foreign : ∀ {event left right after}, allowed event → mine event = false →
      related left right → step event left = some after →
      seen event left = none ∧ related after right)
    {events : List ε} {first last alone : σ} (fine : ∀ event ∈ events, allowed event)
    (reached : run step events first = some last) (start : related first alone) :
    ∃ purged, run step (events.filter mine) alone = some purged ∧ related last purged ∧
      observe step seen events first = observe step seen (events.filter mine) alone := by
  induction events generalizing first alone with
  | nil =>
      cases Option.some.inj reached
      exact ⟨alone, rfl, start, rfl⟩
  | cons event rest ih =>
      obtain ⟨second, taken, onward⟩ := run_cons reached
      rw [List.forall_mem_cons] at fine
      cases kept : mine event with
      | true =>
          obtain ⟨same, next, follows, still⟩ := own fine.1 kept start taken
          obtain ⟨purged, there, together, equal⟩ := ih fine.2 onward still
          rw [List.filter_cons_of_pos kept]
          refine ⟨purged, ?_, together, ?_⟩
          · rw [run, follows]
            exact there
          · rw [observe, observe, same, taken, follows]
            exact congrArg _ equal
      | false =>
          obtain ⟨unseen, still⟩ := foreign fine.1 kept start taken
          obtain ⟨purged, there, together, equal⟩ := ih fine.2 onward still
          rw [List.filter_cons_of_neg (by simp [kept])]
          refine ⟨purged, there, together, ?_⟩
          rw [observe, unseen, taken]
          exact equal

def Always (step : ε → σ → Option σ) (holds : σ → Prop) (events : List ε) (first : σ) : Prop :=
  ∀ earlier state, earlier <+: events → run step earlier first = some state → holds state

theorem always_cons {holds : σ → Prop} {event : ε} {rest : List ε} {first second : σ}
    (taken : step event first = some second) :
    Always step holds (event :: rest) first ↔ holds first ∧ Always step holds rest second := by
  constructor
  · intro always
    refine ⟨always [] first List.nil_prefix rfl, ?_⟩
    intro earlier state inside reached
    refine always (event :: earlier) state (List.cons_prefix_cons.mpr ⟨rfl, inside⟩) ?_
    rw [run, taken]
    exact reached
  · rintro ⟨start, always⟩ earlier state inside reached
    cases earlier with
    | nil => exact Option.some.inj reached ▸ start
    | cons head tail =>
        obtain ⟨rfl, within⟩ := List.cons_prefix_cons.mp inside
        rw [run, taken] at reached
        exact always tail state within reached

/-- Where a step keeps a property exactly if it is allowed, all the states of a run have the
property exactly if all its steps are allowed. -/
theorem always_iff_throughout {known holds : σ → Prop} {allowed : ε → σ → Prop}
    (stays : ∀ {event before after}, step event before = some after → known before → known after)
    (exact : ∀ {event before after}, step event before = some after → known before →
      holds before → (holds after ↔ allowed event before))
    {events : List ε} {first last : σ} (reached : run step events first = some last)
    (knows : known first) (start : holds first) :
    Always step holds events first ↔ Throughout step allowed events first := by
  induction events generalizing first with
  | nil =>
      refine ⟨fun _ => trivial, ?_⟩
      intro _ earlier state inside there
      rw [List.prefix_nil.mp inside] at there
      exact Option.some.inj there ▸ start
  | cons event rest ih =>
      obtain ⟨second, taken, onward⟩ := run_cons reached
      have kept := exact taken knows start
      rw [always_cons taken, Throughout, taken]
      constructor
      · rintro ⟨_, always⟩
        have next := always [] second List.nil_prefix rfl
        exact ⟨kept.mp next, (ih onward (stays taken knows) next).mp always⟩
      · rintro ⟨allowed, later⟩
        exact ⟨start, (ih onward (stays taken knows) (kept.mpr allowed)).mpr later⟩

end Observing

end Library
