import Ousagi.StoreRefinement

/-!
When a dead item stays dead: the one thing that brings it back is a delayed flush
that finds it in the cache, hidden by the cutoff that the flush replaces.
-/

namespace Ousagi

open Library

section Dead

variable {now : UInt64} {oldestLive : Option UInt64} {items : Cache Bytes Item} {key : Bytes}

theorem entry_dead {α : Type} {live : Item → α × Item}
    (dead : visibleItem now oldestLive items key = none) (other : Bytes) :
    visibleItem now oldestLive (items.entry other (liveOnly now oldestLive live)).2 key = none := by
  rw [entry_visible]
  by_cases same : key = other
  · rw [if_pos same, ← same, dead]
    rfl
  · rw [if_neg same, dead]

theorem erase_dead (dead : visibleItem now oldestLive items key = none) (other : Bytes) :
    visibleItem now oldestLive (AList.erase other items) key = none := by
  rw [erase_visible]
  by_cases same : key = other
  · rw [if_pos same]
  · rw [if_neg same, dead]

end Dead

def Clocked.Misses (key : Bytes) (clocked : Clocked Store) : Prop :=
  (clocked.state.get [key] false clocked.now).1 = .values []

theorem Clocked.misses_iff (key : Bytes) (clocked : Clocked Store) :
    clocked.Misses key ↔ clocked.state.visible clocked.now key = none := by
  obtain ⟨items, stats, result, _⟩ := Store.get_eq [key] false clocked.now clocked.state
  rw [Misses, result]
  cases found : clocked.state.visible clocked.now key <;> simp [found]

def StoreStep.StoresKey (key : Bytes) (step : StoreStep) (clocked : Clocked Store) : Prop :=
  match step with
  | .command (.store op args) =>
      (op = .set ∨ op = .add) ∧ args.key = key ∧
        (handle clocked.now (.store op args) clocked.state).1 = .stored
  | _ => False

/-- A delayed flush finds under the key no item that only the cutoff before it has expired. -/
def StoreStep.KeepsKeyDead (key : Bytes) (step : StoreStep) (clocked : Clocked Store) : Prop :=
  step.schedules → ∀ item ∈ clocked.state.items.lookup key,
    item.isExpired clocked.now clocked.state.oldestLive → item.isExpired clocked.now none

instance (key : Bytes) (clocked : Clocked Store) : Decidable (clocked.Misses key) :=
  inferInstanceAs (Decidable (_ = _))

instance (key : Bytes) (step : StoreStep) (clocked : Clocked Store) :
    Decidable (step.StoresKey key clocked) :=
  match step with
  | .command (.store _ _) => inferInstanceAs (Decidable (_ ∧ _))
  | .command (.get _ _) | .command (.delete _ _) | .command (.arithmetic _ _ _ _)
  | .command (.getAndTouch _ _ _) | .command (.touch _ _ _) | .command (.flushAll _ _)
  | .command .version | .command (.verbosity _ _) | .command .stats | .tick _ | .evict _ =>
      isFalse id

instance (key : Bytes) (step : StoreStep) (clocked : Clocked Store) :
    Decidable (step.KeepsKeyDead key clocked) :=
  inferInstanceAs (Decidable (_ → ∀ item ∈ clocked.state.items.lookup key, _ → _))

section Commands

variable {now : UInt64} {store : Store} {key : Bytes}

theorem store_dead (dead : store.visible now key = none) (op : StoreOp) (args : StoreArgs)
    (unstored : ¬(StoreStep.command (.store op args)).StoresKey key ⟨now, store⟩) :
    (store.store op args now).2.visible now key = none := by
  cases op with
  | set =>
      obtain ⟨stats, result⟩ := Store.set_eq args now store
      have other : key ≠ args.key := by
        intro same
        exact unstored ⟨Or.inl rfl, same.symm, by rw [handle, result]⟩
      rw [result]
      refine (insert_visible now store.oldestLive store.items args.key key _).trans ?_
      rw [if_neg other]
      exact dead
  | add =>
      obtain ⟨items, stats, result, looked⟩ := Store.add_eq args now store
      have other : key ≠ args.key := by
        intro same
        refine unstored ⟨Or.inr rfl, same.symm, ?_⟩
        rw [handle, result, ← same, dead]
        rfl
      rw [result]
      have unchanged : items.lookup key = store.items.lookup key := by
        rw [looked, if_neg other]
      refine Eq.trans ?_ dead
      simp only [Store.visible, visibleItem, unchanged]
      rfl
  | replace =>
      obtain ⟨stats, result⟩ := Store.replace_eq args now store
      rw [result]
      exact entry_dead dead args.key
  | append =>
      obtain ⟨stats, result⟩ := Store.concat_eq args now store (Or.inl rfl)
      rw [result]
      exact entry_dead dead args.key
  | prepend =>
      obtain ⟨stats, result⟩ := Store.concat_eq args now store (Or.inr rfl)
      rw [result]
      exact entry_dead dead args.key
  | cas =>
      cases token : args.cas with
      | none =>
          rw [Store.casMissing_eq args now store token]
          exact dead
      | some expected =>
          obtain ⟨stats, result⟩ := Store.cas_eq args now store token
          rw [result]
          exact entry_dead dead args.key

theorem getAndTouch_dead (dead : store.visible now key = none) (keys : List Bytes)
    (exptime : Int64) (withCas : Bool) :
    (store.getAndTouch keys exptime withCas now).2.visible now key = none := by
  let holds := fun state : Store =>
    state.oldestLive = store.oldestLive ∧ visibleItem now store.oldestLive state.items key = none
  have keeps : ∀ other state, holds state →
      holds (state.getAndTouchKey exptime now store.oldestLive withCas other).2 := by
    intro other state before
    obtain ⟨stats, result⟩ :=
      Store.getAndTouchKey_eq exptime now store.oldestLive withCas other state
    rw [result]
    exact ⟨before.1, entry_dead before.2 other⟩
  have start : holds (store.count .cmdGet keys.length) := ⟨rfl, dead⟩
  have last := collect_keeps keeps keys start
  rw [Store.visible]
  exact last.1 ▸ last.2

theorem handle_dead (dead : store.visible now key = none) (command : Command)
    (unstored : ¬(StoreStep.command command).StoresKey key ⟨now, store⟩)
    (unscheduled : (StoreStep.command command).schedules = false) :
    (handle now command store).2.visible now key = none := by
  cases command with
  | get keys withCas =>
      obtain ⟨items, stats, result, kept⟩ := Store.get_eq keys withCas now store
      rw [handle, result]
      exact (kept key).trans dead
  | getAndTouch keys exptime withCas => exact getAndTouch_dead dead keys exptime withCas
  | store op args => exact store_dead dead op args unstored
  | delete other noreply =>
      obtain ⟨stats, result⟩ := Store.delete_eq now store other
      rw [handle, result]
      exact erase_dead dead other
  | arithmetic op other delta noreply =>
      obtain ⟨stats, result⟩ := Store.arithmetic_eq now store op other delta
      rw [handle, result]
      exact entry_dead dead other
  | touch other exptime noreply =>
      obtain ⟨stats, result⟩ := Store.touch_eq now store other exptime
      rw [handle, result]
      exact entry_dead dead other
  | flushAll delay noreply =>
      obtain ⟨stats, result⟩ := Store.flush_eq delay now store
      have immediate : delay.getD 0 = 0 := by simpa [StoreStep.schedules] using unscheduled
      rw [handle, result, if_pos immediate]
      simp [Store.visible, visibleItem]
  | version | verbosity level noreply | stats => exact dead

theorem flush_dead (clock : inRange now) (dead : store.visible now key = none)
    {delay : Option UInt32} (delayed : delay.getD 0 ≠ 0) :
    (store.flush delay now).2.visible now key = none ↔
      ∀ item, store.items.lookup key = some item → item.isExpired now store.oldestLive →
        item.isExpired now none := by
  obtain ⟨stats, result⟩ := Store.flush_eq delay now store
  obtain ⟨cutoff, scheduled, ahead, _⟩ := flushAll_cutoff clock delayed store
  have seen : (store.flush delay now).2.visible now key =
      (store.items.lookup key).filter (alive now (some cutoff)) := by
    rw [result, if_neg delayed, ← scheduled]
    rfl
  rw [Store.visible, visibleItem] at dead
  rw [seen]
  cases found : store.items.lookup key with
  | none => simp
  | some item =>
      rw [found] at dead
      have expired : item.isExpired now store.oldestLive := by simpa [Option.filter, alive] using dead
      simp [Option.filter, alive, isExpired_scheduled item ahead, expired]

end Commands

def StoreStep.LeavesDead (key : Bytes) (step : StoreStep) (clocked : Clocked Store) : Prop :=
  (clocked.lazyStep step).2.Misses key

theorem keepsKeyDead_unscheduled {key : Bytes} {step : StoreStep} (clocked : Clocked Store)
    (unscheduled : step.schedules = false) : step.KeepsKeyDead key clocked := by
  intro scheduled
  rw [unscheduled] at scheduled
  cases scheduled

theorem Clocked.step_dead {key : Bytes} {step : StoreStep} {clocked : Clocked Store}
    (clock : inRange clocked.now) (admissible : step.Admissible clocked)
    (unstored : ¬step.StoresKey key clocked) (misses : clocked.Misses key) :
    step.LeavesDead key clocked ↔ step.KeepsKeyDead key clocked := by
  obtain ⟨now, store⟩ := clocked
  rw [misses_iff] at misses
  rw [StoreStep.LeavesDead, misses_iff]
  cases step with
  | tick later =>
      have gone : store.visible later key = none := by
        rw [visible_later admissible.1, misses]
        rfl
      exact iff_of_true gone (keepsKeyDead_unscheduled _ rfl)
  | evict other =>
      have gone : (store.evict other).visible now key = none := by
        rw [evict_visible, misses]
        exact ite_self none
      exact iff_of_true gone (keepsKeyDead_unscheduled _ rfl)
  | command command =>
      by_cases scheduled : (StoreStep.command command).schedules = true
      · cases command with
        | flushAll delay noreply =>
            have delayed : delay.getD 0 ≠ 0 := by simpa [StoreStep.schedules] using scheduled
            refine (flush_dead clock misses delayed).trans ?_
            simp only [StoreStep.KeepsKeyDead, scheduled, true_implies]
            rfl
        | _ => simp [StoreStep.schedules] at scheduled
      · have unscheduled := Bool.not_eq_true _ ▸ scheduled
        exact iff_of_true (handle_dead misses command unstored unscheduled)
          (keepsKeyDead_unscheduled _ unscheduled)

/-- From a moment at which the key is dead, and without a `set` or an `add` that stores it, every
state of a run leaves it dead exactly if no delayed flush of the run revives an item of it. -/
theorem dead_stays_dead (key : Bytes) (start : Clocked Store) (clock : inRange start.now)
    (misses : start.Misses key) (steps : List StoreStep)
    (admissible : AllowedRun StoreStep.Admissible Clocked.lazyStep steps start)
    (unstored : AllowedRun (fun step clocked => ¬step.StoresKey key clocked) Clocked.lazyStep
      steps start) :
    AllowedRun (StoreStep.LeavesDead key) Clocked.lazyStep steps start ↔
      AllowedRun (StoreStep.KeepsKeyDead key) Clocked.lazyStep steps start := by
  let holds := fun clocked : Clocked Store => inRange clocked.now ∧ clocked.Misses key
  refine allowedRun_congr holds ?_ ?_ (admissible.and unstored) ⟨clock, misses⟩
  · intro step clocked given before
    exact Clocked.step_dead before.1 given.1 given.2 before.2
  · intro step clocked given before leaves
    refine ⟨?_, leaves⟩
    cases step with
    | tick later => exact given.1.2
    | command command => exact before.1
    | evict other => exact before.1

section Revival

def hiddenItem : Clocked Store :=
  (collect Clocked.lazyStep [.command (.store .set flushArgs),
    .command (.flushAll (some 10) false), .tick 1011] ⟨1000, Store.new⟩).2

theorem hidden_stays_dead :
    AllowedRun (StoreStep.LeavesDead (ascii "k")) Clocked.lazyStep
      [.command (.store .append flushArgs), .tick 1012, .command (.flushAll (some 100) false),
        .command (.touch (ascii "k") 60 false), .tick 1112] hiddenItem :=
  (dead_stays_dead (ascii "k") hiddenItem (by decide) (by decide) _ (by decide) (by decide)).mpr
    (by decide)

/-- A second delayed flush puts off the cutoff, and the item is there again. -/
theorem hidden_returns :
    hiddenItem.Misses (ascii "k") ∧
      StoreStep.Admissible (.command (.flushAll (some 100) false)) hiddenItem ∧
      (collect Clocked.lazyStep [.command (.flushAll (some 100) false),
        .command (.get [ascii "k"] false)] hiddenItem).1 =
          [.ok, .values [(ascii "k", 0, ascii "v", none)]] := by
  decide

end Revival

end Ousagi
