import Ousagi.StoreFrames
import Ousagi.StoreReference

/-!
An item that is stored after an immediate flush, for as long as nothing but a
flush from before could hide it.
-/

namespace Ousagi

open Library

def StoreStep.flushes : StoreStep → Bool
  | .command request => request.flushes
  | _ => false

def StoreStep.Forward (step : StoreStep) (clocked : Clocked Store) : Prop :=
  match step with
  | .tick now => clocked.now ≤ now
  | _ => True

instance (step : StoreStep) (clocked : Clocked Store) : Decidable (step.Forward clocked) :=
  match step with
  | .tick now => inferInstanceAs (Decidable (clocked.now ≤ now))
  | .command _ | .evict _ => isTrue trivial

def Item.pastDeadline (item : Item) (now : UInt64) : Bool :=
  item.expiresAt.any fun time => time ≤ now

/-- What an update with this reply makes of an item that no flush has hidden, but for the token:
none when it replaces the item. -/
def Update.follow (now : UInt64) (reply : Response) (item : Item) : Update → Option Item
  | .store .append args => some { item with data := item.data ++ args.data }
  | .store .prepend args => some { item with data := args.data ++ item.data }
  | .store _ _ => if reply = .stored then none else some item
  | .arithmetic op _ delta =>
      match numericValue item.data with
      | none => some item
      | some value => some { item with data := decimal (op.apply value delta).toNat }
  | .touch _ exptime => some { item with expiresAt := Item.resolveExpiry exptime now }

def Retrieval.follow (now : UInt64) (item : Item) : Retrieval → Item
  | .get _ => item
  | .getAndTouch exptime _ => { item with expiresAt := Item.resolveExpiry exptime now }

def Command.follow (key : Bytes) (now : UInt64) (reply : Response) (item : Item)
    (command : Command) : Option Item :=
  match command.retrieval, command.update, command with
  | some (retrieval, keys), _, _ =>
      some (if key ∈ keys then retrieval.follow now item else item)
  | _, some update, _ => if update.key = key then update.follow now reply item else some item
  | _, _, .delete deleted _ => if deleted = key then none else some item
  | _, _, .flushAll _ _ => none
  | _, _, _ => some item

namespace Clocked

def follow (key : Bytes) (step : StoreStep) (clocked : Clocked Store) (item : Item) :
    Option Item :=
  let after := (clocked.lazyStep step).2
  let next :=
    match step with
    | .tick _ => some item
    | .evict evicted => if evicted = key then none else some item
    | .command command =>
        command.follow key clocked.now (handle clocked.now command clocked.state).1 item
  next.filter fun item => !item.pastDeadline after.now

def followed (key : Bytes) : List StoreStep → Clocked Store → Item → Option Item
  | [], _, item => some item
  | step :: rest, clocked, item =>
      (clocked.follow key step item).bind (followed key rest (clocked.lazyStep step).2)

end Clocked

def Present (key : Bytes) (item : Item) (store : Store) : Prop :=
  ∃ token, store.items.lookup key = some { item with cas := token }

def StoredAt (key : Bytes) (time : UInt64) (store : Store) : Prop :=
  ∀ item, store.items.lookup key = some item → item.storedAt = time

section Steps

variable {key : Bytes} {item next : Item} {now : UInt64} {store : Store}

theorem Present.visible {oldestLive : Option UInt64} {items : Cache Bytes Item} {token : UInt64}
    (present : items.lookup key = some { item with cas := token })
    (living : item.isExpired now oldestLive = false) :
    visibleItem now oldestLive items key = some { item with cas := token } := by
  have same : Item.isExpired { item with cas := token } now oldestLive =
      item.isExpired now oldestLive := rfl
  rw [visibleItem, present]
  simp [Option.filter, alive, same, living]

theorem Update.effect_follow {update : Update} {cas token : UInt64}
    (follows : update.follow now (update.effect now cas (some { item with cas := token })).1 item =
      some next) :
    ∃ fresh, (update.effect now cas (some { item with cas := token })).2 =
      some { next with cas := fresh } := by
  cases update with
  | store op args =>
      cases op with
      | set | replace => cases follows
      | append | prepend | add =>
          cases follows
          exact ⟨_, rfl⟩
      | cas =>
          simp only [effect, follow] at follows ⊢
          cases expected : args.cas with
          | none =>
              simp only [expected] at follows
              cases follows
              exact ⟨_, rfl⟩
          | some expected' =>
              simp only [expected] at follows
              by_cases other : token = expected'
              · simp [other] at follows
              · simp only [ne_eq, other, not_false_eq_true, if_true] at follows ⊢
                cases follows
                exact ⟨_, rfl⟩
  | arithmetic op changed delta =>
      simp only [effect, follow] at follows ⊢
      cases number : numericValue item.data with
      | none =>
          simp only [number] at follows ⊢
          cases follows
          exact ⟨_, rfl⟩
      | some value =>
          simp only [number] at follows ⊢
          cases follows
          exact ⟨_, rfl⟩
  | touch touched exptime =>
      cases follows
      exact ⟨_, rfl⟩

theorem update_present {command : Command} {update : Update}
    (updates : command.update = some update) (present : Present key item store)
    (living : item.isExpired now store.oldestLive = false)
    (follows : (if update.key = key then update.follow now (handle now command store).1 item
      else some item) = some next) :
    Present key next (handle now command store).2 := by
  obtain ⟨token, there⟩ := present
  obtain ⟨items, stats, result, outcome⟩ := handle_update now store updates
  rw [result] at follows ⊢
  by_cases here : update.key = key
  · subst here
    have found : store.visible now update.key = some { item with cas := token } :=
      Present.visible there living
    rw [if_pos rfl, found] at follows
    rw [found] at outcome
    obtain ⟨fresh, left⟩ := Update.effect_follow follows
    rcases outcome with leaves | ⟨_, same, kept⟩
    · exact ⟨fresh, leaves.here.trans left⟩
    · refine ⟨fresh, ?_⟩
      rw [same, there, ← kept, left]
  · rw [if_neg here] at follows
    cases follows
    rcases outcome with leaves | ⟨_, same, _⟩
    · exact ⟨token, (leaves.others key (Ne.symm here)).trans there⟩
    · exact ⟨token, by rw [same, there]⟩

theorem Retrieval.effect_follow (retrieval : Retrieval) (cas token : UInt64) :
    ∃ fresh, (retrieval.effect now cas key (some { item with cas := token })).2 =
      some { retrieval.follow now item with cas := fresh } := by
  cases retrieval <;> exact ⟨_, rfl⟩

theorem Retrieval.follow_follow (retrieval : Retrieval) :
    retrieval.follow now (retrieval.follow now item) = retrieval.follow now item := by
  cases retrieval <;> rfl

theorem visits_present {retrieval : Retrieval} {oldestLive : Option UInt64} {keys : List Bytes}
    (present : Present key item store) (living : item.isExpired now oldestLive = false)
    (after : key ∈ keys → (retrieval.follow now item).isExpired now oldestLive = false) :
    Present key (if key ∈ keys then retrieval.follow now item else item)
      (collect (fun key store => retrieval.visit now oldestLive key store) keys store).2 := by
  induction keys generalizing item store with
  | nil => exact present
  | cons visited rest ih =>
      obtain ⟨token, there⟩ := present
      obtain ⟨items, stats, result, leaves⟩ :=
        Retrieval.visit_effect now oldestLive store retrieval visited
      by_cases here : visited = key
      · subst here
        have found := Present.visible there living
        rw [found] at leaves
        obtain ⟨fresh, left⟩ := retrieval.effect_follow store.nextCasCell token
        have arrived : Present visited (retrieval.follow now item)
            (retrieval.visit now oldestLive visited store).2 := by
          rw [result]
          exact ⟨fresh, leaves.here.trans left⟩
        have touched := after (List.mem_cons_self ..)
        have later := ih arrived touched fun _ => by rwa [retrieval.follow_follow]
        rw [retrieval.follow_follow, ite_self] at later
        rw [if_pos (List.mem_cons_self ..)]
        exact later
      · have kept : Present key item (retrieval.visit now oldestLive visited store).2 := by
          rw [result]
          exact ⟨token, (leaves.others key (Ne.symm here)).trans there⟩
        have other : (key ∈ visited :: rest) = (key ∈ rest) := by
          simp [Ne.symm here]
        simp only [other] at after ⊢
        exact ih kept living after

theorem command_present {command : Command} (present : Present key item store)
    (living : item.isExpired now store.oldestLive = false)
    (follows : command.follow key now (handle now command store).1 item = some next)
    (after : next.isExpired now store.oldestLive = false) :
    Present key next (handle now command store).2 := by
  have retrieves : ∀ {retrieval : Retrieval} {keys : List Bytes},
      command.retrieval = some (retrieval, keys) →
      (if key ∈ keys then retrieval.follow now item else item) = next →
        Present key next (handle now command store).2 := by
    intro retrieval keys retrieves same
    have counted : Present key item (store.count .cmdGet keys.length) := present
    rw [handle_retrieval now store retrieves, ← same]
    apply visits_present counted living
    intro among
    rw [if_pos among] at same
    rwa [same]
  cases command with
  | get | getAndTouch => exact retrieves rfl (Option.some.inj follows)
  | store | arithmetic | touch => exact update_present rfl present living follows
  | delete deleted noreply =>
      obtain ⟨token, there⟩ := present
      obtain ⟨stats, result⟩ := Store.delete_eq now store deleted
      simp only [Command.follow, Command.retrieval, Command.update] at follows
      by_cases here : deleted = key
      · simp [here] at follows
      · rw [if_neg here] at follows
        cases follows
        refine ⟨token, ?_⟩
        rw [handle, result, Cache.erase_lookup, if_neg (Ne.symm here), there]
  | flushAll => cases follows
  | version | verbosity | stats =>
      cases follows
      exact present

theorem Update.effect_storedAt {update : Update} {cas : UInt64} {found : Option Item} {left : Item}
    (follows : (update.follow now (update.effect now cas found).1 item).isSome)
    (result : (update.effect now cas found).2 = some left) :
    ∃ current, found = some current ∧ left.storedAt = current.storedAt := by
  cases found with
  | none =>
      cases update with
      | store op args =>
          cases op with
          | set | add => cases follows
          | cas => cases token : args.cas <;> simp [effect, token] at result
          | replace | append | prepend => cases result
      | arithmetic | touch => cases result
  | some current =>
      refine ⟨current, rfl, ?_⟩
      cases update with
      | store op args =>
          cases op with
          | set | replace => cases follows
          | add | append | prepend =>
              cases result
              rfl
          | cas =>
              cases token : args.cas with
              | none =>
                  simp only [effect, token, Option.some.injEq] at result
                  rw [result]
              | some expected =>
                  by_cases other : current.cas = expected
                  · simp [effect, follow, token, other] at follows
                  · simp only [effect, token, ne_eq, other, not_false_eq_true, if_true,
                      Option.some.injEq] at result
                    rw [result]
      | arithmetic op changed delta =>
          cases number : numericValue current.data <;>
            simp only [effect, number, Option.some.injEq] at result <;> rw [← result]
      | touch =>
          cases result
          rfl

theorem visit_storedAt {time : UInt64} {retrieval : Retrieval} {oldestLive : Option UInt64}
    {visited : Bytes} (stored : StoredAt key time store) :
    StoredAt key time (retrieval.visit now oldestLive visited store).2 := by
  obtain ⟨items, stats, result, leaves⟩ :=
    Retrieval.visit_effect now oldestLive store retrieval visited
  rw [result]
  intro left there
  by_cases here : visited = key
  · subst here
    rw [leaves.here] at there
    cases found : visibleItem now oldestLive store.items visited with
    | none => cases retrieval <;> simp [found, Retrieval.effect] at there
    | some current =>
        rw [← stored current (visible_lookup found)]
        rw [found] at there
        cases retrieval <;> cases there <;> rfl
  · rw [leaves.others key (Ne.symm here)] at there
    exact stored left there

theorem Update.follow_storedAt {update : Update} {reply : Response}
    (follows : update.follow now reply item = some next) : next.storedAt = item.storedAt := by
  cases update with
  | store op args =>
      cases op with
      | append | prepend =>
          cases follows
          rfl
      | set | add | replace | cas =>
          simp only [follow] at follows
          split at follows <;> cases follows
          rfl
  | arithmetic op changed delta =>
      simp only [follow] at follows
      split at follows <;> cases follows <;> rfl
  | touch =>
      cases follows
      rfl

theorem Command.follow_storedAt {command : Command} {reply : Response}
    (follows : command.follow key now reply item = some next) : next.storedAt = item.storedAt := by
  have kept : ∀ {given : Prop} [Decidable given] {left : Option Item},
      (∀ next, left = some next → next.storedAt = item.storedAt) →
      (if given then left else some item) = some next → next.storedAt = item.storedAt := by
    intro given _ left each same
    split at same
    · exact each next same
    · cases same
      rfl
  cases command with
  | get | getAndTouch =>
      cases follows
      split <;> rfl
  | store | arithmetic | touch => exact kept (fun next => Update.follow_storedAt) follows
  | delete => exact kept (fun next never => by cases never) follows
  | flushAll => cases follows
  | version | verbosity | stats =>
      cases follows
      rfl

theorem command_storedAt {time : UInt64} {command : Command} (stored : StoredAt key time store)
    (follows : (command.follow key now (handle now command store).1 item).isSome) :
    StoredAt key time (handle now command store).2 := by
  have retrieves : ∀ {retrieval : Retrieval} {keys : List Bytes},
      command.retrieval = some (retrieval, keys) →
        StoredAt key time (handle now command store).2 := by
    intro retrieval keys retrieves
    rw [handle_retrieval now store retrieves]
    exact collect_keeps (fun visited between => visit_storedAt) keys stored
  have updates : ∀ {update : Update}, command.update = some update →
      (if update.key = key then update.follow now (handle now command store).1 item
        else some item).isSome → StoredAt key time (handle now command store).2 := by
    intro update updates follows
    obtain ⟨items, stats, result, outcome⟩ := handle_update now store updates
    rw [result] at follows ⊢
    rcases outcome with leaves | ⟨_, same, _⟩
    · intro left there
      by_cases here : update.key = key
      · subst here
        rw [if_pos rfl] at follows
        obtain ⟨current, found, same⟩ :=
          Update.effect_storedAt follows (leaves.here.symm.trans there)
        rw [same]
        exact stored current (visible_lookup found)
      · rw [leaves.others key (Ne.symm here)] at there
        exact stored left there
    · rw [same]
      exact stored
  cases command with
  | get | getAndTouch => exact retrieves rfl
  | store | arithmetic | touch => exact updates rfl follows
  | delete deleted noreply =>
      obtain ⟨stats, result⟩ := Store.delete_eq now store deleted
      rw [handle, result]
      intro left there
      rw [Cache.erase_lookup] at there
      by_cases here : key = deleted
      · simp [here] at there
      · rw [if_neg here] at there
        exact stored left there
  | flushAll => cases follows
  | version | verbosity | stats => exact stored

end Steps

namespace Clocked

section Runs

variable {key : Bytes} {clocked : Clocked Store} {item next : Item}

theorem step_cutoff {step : StoreStep} (unflushed : step.flushes = false) :
    (clocked.lazyStep step).2.state.oldestLive = clocked.state.oldestLive := by
  cases step with
  | tick now => rfl
  | command command =>
      have untouched := @handle_untouched (fun _ => False) command unflushed (fun _ _ => id)
        clocked.now clocked.state
      rw [lazyStep, Store.oldestLive, Store.oldestLive, untouched.cutoff]
  | evict evicted =>
      simp only [lazyStep, Store.evict]
      split <;> rfl

theorem steps_cutoff {steps : List StoreStep} (unflushed : ∀ step ∈ steps, step.flushes = false) :
    (collect lazyStep steps clocked).2.state.oldestLive = clocked.state.oldestLive := by
  induction steps generalizing clocked with
  | nil => rfl
  | cons step rest ih =>
      rw [collect, ih fun other among => unflushed other (List.mem_cons_of_mem _ among)]
      exact step_cutoff (unflushed step (List.mem_cons_self ..))

theorem follow_unflushed {step : StoreStep} (follows : clocked.follow key step item = some next) :
    step.flushes = false := by
  cases step with
  | command command =>
      cases command with
      | flushAll => simp [follow, Command.follow, Command.retrieval, Command.update] at follows
      | _ => rfl
  | tick | evict => rfl

theorem step_storedAt {step : StoreStep} {time : UInt64}
    (stored : StoredAt key time clocked.state) (follows : clocked.follow key step item = some next) :
    StoredAt key time (clocked.lazyStep step).2.state := by
  cases step with
  | tick now => exact stored
  | command command =>
      apply command_storedAt stored
      exact Option.isSome_of_mem (Option.filter_eq_some_iff.mp follows).1
  | evict evicted =>
      simp only [lazyStep, Store.evict]
      split
      · intro left there
        rw [Store.count_items, Cache.erase_lookup] at there
        split at there
        · cases there
        · exact stored left there
      · exact stored

theorem step_present {step : StoreStep} (present : Present key item clocked.state)
    (living : item.isExpired clocked.now clocked.state.oldestLive = false)
    (follows : clocked.follow key step item = some next)
    (after : next.isExpired (clocked.lazyStep step).2.now clocked.state.oldestLive = false) :
    Present key next (clocked.lazyStep step).2.state := by
  have kept := (Option.filter_eq_some_iff.mp follows).1
  cases step with
  | tick now =>
      cases kept
      exact present
  | command command => exact command_present present living kept after
  | evict evicted =>
      obtain ⟨token, there⟩ := present
      by_cases here : evicted = key
      · simp [here] at kept
      · simp only [if_neg here] at kept
        cases kept
        refine ⟨token, ?_⟩
        simp only [lazyStep, Store.evict]
        split
        · rw [Store.count_items, Cache.erase_lookup, if_neg (Ne.symm here), there]
        · exact there

theorem forward_le {steps : List StoreStep}
    (forward : AllowedRun StoreStep.Forward lazyStep steps clocked) :
    clocked.now ≤ (collect lazyStep steps clocked).2.now := by
  induction steps generalizing clocked with
  | nil => exact UInt64.le_refl _
  | cons step rest ih =>
      refine UInt64.le_trans ?_ (ih forward.2)
      cases step with
      | tick now => exact forward.1
      | command | evict => exact UInt64.le_refl _

/-- The cutoff does not come between the time of storing and a later time. -/
def Spares (cutoff : Option UInt64) (stored later : UInt64) : Prop :=
  ∀ time, cutoff = some time → ¬(stored < time ∧ time ≤ later)

theorem living_of_spares {now later : UInt64} {cutoff : Option UInt64}
    (fresh : item.pastDeadline now = false) (spares : Spares cutoff item.storedAt later)
    (before : now ≤ later) : item.isExpired now cutoff = false := by
  have deadline : ¬(item.expiresAt.any fun time => time ≤ now) = true := by
    rw [Item.pastDeadline] at fresh
    rw [fresh]
    exact Bool.false_ne_true
  simp only [Item.isExpired]
  rw [if_neg deadline]
  cases cutoff with
  | none => rfl
  | some time =>
      have apart := spares time rfl
      simp only [Bool.and_eq_false_iff, decide_eq_false_iff_not]
      by_cases reached : time ≤ now
      · exact Or.inr fun earlier => apart ⟨earlier, UInt64.le_trans reached before⟩
      · exact Or.inl reached

theorem follow_kept {step : StoreStep} (follows : clocked.follow key step item = some next) :
    next.storedAt = item.storedAt ∧
      next.pastDeadline (clocked.lazyStep step).2.now = false := by
  obtain ⟨kept, fresh⟩ := Option.filter_eq_some_iff.mp follows
  refine ⟨?_, by simpa using fresh⟩
  cases step with
  | tick now =>
      cases kept
      rfl
  | command command => exact Command.follow_storedAt kept
  | evict evicted =>
      by_cases here : evicted = key
      · simp [here] at kept
      · simp only [if_neg here] at kept
        cases kept
        rfl

theorem followed_storedAt {steps : List StoreStep} {time : UInt64} {last : Item}
    (stored : StoredAt key time clocked.state)
    (follows : followed key steps clocked item = some last) :
    StoredAt key time (collect lazyStep steps clocked).2.state := by
  induction steps generalizing clocked item with
  | nil => exact stored
  | cons step rest ih =>
      obtain ⟨next, first, later⟩ := Option.bind_eq_some_iff.mp follows
      exact ih (step_storedAt stored first) later

theorem followed_cutoff {steps : List StoreStep} {last : Item}
    (follows : followed key steps clocked item = some last) :
    (collect lazyStep steps clocked).2.state.oldestLive = clocked.state.oldestLive := by
  induction steps generalizing clocked item with
  | nil => rfl
  | cons step rest ih =>
      obtain ⟨next, first, later⟩ := Option.bind_eq_some_iff.mp follows
      rw [collect, ih later]
      exact step_cutoff (follow_unflushed first)

theorem followed_present {steps : List StoreStep} {last : Item}
    (forward : AllowedRun StoreStep.Forward lazyStep steps clocked)
    (present : Present key item clocked.state) (fresh : item.pastDeadline clocked.now = false)
    (spares : Spares clocked.state.oldestLive item.storedAt (collect lazyStep steps clocked).2.now)
    (follows : followed key steps clocked item = some last) :
    Present key last (collect lazyStep steps clocked).2.state ∧
      last.isExpired (collect lazyStep steps clocked).2.now clocked.state.oldestLive = false := by
  induction steps generalizing clocked item with
  | nil =>
      cases follows
      exact ⟨present, living_of_spares fresh spares (UInt64.le_refl _)⟩
  | cons step rest ih =>
      obtain ⟨next, first, later⟩ := Option.bind_eq_some_iff.mp follows
      obtain ⟨sameTime, nextFresh⟩ := follow_kept first
      have cutoff : (clocked.lazyStep step).2.state.oldestLive = clocked.state.oldestLive :=
        step_cutoff (follow_unflushed first)
      have before := forward_le forward
      have between := forward_le forward.2
      have living := living_of_spares fresh spares before
      rw [← sameTime] at spares
      have arrived := step_present present living first
        (living_of_spares nextFresh spares between)
      rw [← cutoff] at spares ⊢
      exact ih forward.2 arrived nextFresh spares later

end Runs

def after (steps : List StoreStep) (clocked : Clocked Store) : Clocked Store :=
  (collect lazyStep steps clocked).2

end Clocked

def StoreOp.writes : StoreOp → Bool
  | .append | .prepend => false
  | _ => true

theorem Update.effect_written {now cas : UInt64} {op : StoreOp} {args : StoreArgs}
    (writes : op.writes) {found : Option Item}
    (stored : ((Update.store op args).effect now cas found).1 = .stored) :
    ((Update.store op args).effect now cas found).2 =
      some (Item.new args.data args.flags args.exptime cas now) := by
  cases op with
  | set => rfl
  | add | replace => cases found <;> first | rfl | cases stored
  | cas =>
      simp only [effect] at stored ⊢
      cases token : args.cas with
      | none => simp [token] at stored
      | some expected =>
          cases found with
          | none => simp [token] at stored
          | some current =>
              by_cases other : current.cas = expected
              · simp [other]
              · simp [token, other] at stored
  | append | prepend => cases writes

theorem store_written {now : UInt64} {store : Store} {op : StoreOp} {args : StoreArgs}
    (writes : op.writes) (stored : (handle now (.store op args) store).1 = .stored) :
    (handle now (.store op args) store).2.items.lookup args.key =
      some (Item.new args.data args.flags args.exptime store.nextCasCell now) := by
  obtain ⟨items, stats, result, outcome⟩ :=
    handle_update now store (show (Command.store op args).update = some _ from rfl)
  rw [result] at stored ⊢
  have written := Update.effect_written writes stored
  rcases outcome with leaves | ⟨tokenless, _⟩
  · exact leaves.here.trans written
  · cases op with
    | cas =>
        simp only [Update.tokenless, Option.isNone_iff_eq_none] at tokenless
        simp [Update.effect, tokenless] at stored
    | _ => cases tokenless

theorem flush_cutoff {delay : Option UInt32} (immediate : delay.getD 0 = 0) (now : UInt64)
    (store : Store) : (store.flush delay now).2.oldestLive = store.oldestLive := by
  obtain ⟨stats, result⟩ := Store.flush_eq delay now store
  rw [result, if_pos immediate]
  rfl

theorem get_one (store : Store) (now : UInt64) (key : Bytes) :
    (handle now (.get [key] false) store).1 =
      .values ((store.visible now key).map (Store.valueOf false key)).toList := by
  obtain ⟨items, stats, result, _⟩ := Store.get_eq [key] false now store
  rw [handle, result]
  cases found : store.visible now key <;> simp [found]

/-- An item that is stored after an immediate flush, and that no later command, deadline, eviction
or flush removes or replaces, is there for a get, unless a flush from before has left a cutoff
between the two times. -/
theorem latest_flush_governs (flushed : Clocked Store) (delay : Option UInt32) (noreply : Bool)
    (immediate : delay.getD 0 = 0) (between later : List StoreStep)
    (unflushed : ∀ step ∈ between, step.flushes = false) (op : StoreOp) (args : StoreArgs)
    (writes : op.writes) :
    let storing := flushed.after (.command (.flushAll delay noreply) :: between)
    let stored := storing.after [.command (.store op args)]
    let last := stored.after later
    let written := Item.new args.data args.flags args.exptime 0 storing.now
    (storing.lazyStep (.command (.store op args))).1 = some .stored →
      written.pastDeadline storing.now = false →
      AllowedRun StoreStep.Forward Clocked.lazyStep later stored →
      ∀ item, Clocked.followed args.key later stored written = some item →
        ((handle last.now (.get [args.key] false) last.state).1 =
            .values [(args.key, item.flags, item.data, none)] ↔
          Clocked.Spares flushed.state.oldestLive storing.now last.now) := by
  intro storing stored last written replies fresh forward item follows
  have kept : storing.state.oldestLive = flushed.state.oldestLive :=
    (Clocked.steps_cutoff unflushed).trans (flush_cutoff immediate flushed.now flushed.state)
  have onward : stored.state.oldestLive = flushed.state.oldestLive :=
    (Clocked.step_cutoff (show (StoreStep.command (.store op args)).flushes = false from rfl)).trans
      kept
  have ended : last.state.oldestLive = flushed.state.oldestLive :=
    (Clocked.followed_cutoff follows).trans onward
  have here := store_written writes (Option.some.inj replies)
  rw [get_one]
  constructor
  · intro shown time cutoff ⟨afterwards, before⟩
    have present : StoredAt args.key storing.now last.state := by
      refine Clocked.followed_storedAt ?_ follows
      intro found there
      rw [show stored.state.items.lookup args.key = some _ from here] at there
      cases there
      rfl
    have hidden : last.state.visible last.now args.key = none := by
      rw [Store.visible, visibleItem, ended, cutoff, Option.filter_eq_none_iff]
      intro found there living
      have old : found.storedAt < time := by rwa [present found there]
      simp [alive, Item.isExpired, old, before] at living
    rw [hidden] at shown
    simp at shown
  · intro spares
    have present : Present args.key written stored.state := ⟨_, here⟩
    rw [← onward] at spares
    obtain ⟨⟨token, there⟩, living⟩ :=
      Clocked.followed_present forward present fresh spares follows
    rw [onward, ← ended] at living
    have shown : last.state.visible last.now args.key = some { item with cas := token } :=
      Present.visible there living
    rw [shown]
    rfl

section Stale

def storeArgs (data : String) : StoreArgs :=
  { key := ascii "k", flags := 7, exptime := 0, data := ascii data, noreply := false, cas := none }

theorem flushed_then_stored :
    let stored := (Clocked.mk 1000 Store.new).after [.command (.flushAll none false), .tick 1005,
      .command (.store .set (storeArgs "a"))]
    let last := stored.after [.command (.store .append (storeArgs "b")), .tick 1010]
    (handle last.now (.get [ascii "k"] false) last.state).1 =
      .values [(ascii "k", 7, ascii "ab", none)] :=
  (latest_flush_governs (Clocked.mk 1000 Store.new) none false rfl [.tick 1005]
    [.command (.store .append (storeArgs "b")), .tick 1010] (by decide) .set (storeArgs "a") rfl rfl
    rfl (by decide) _ rfl).mpr (fun time cutoff => by cases cutoff)

/-- A delayed flush is scheduled, an immediate one follows, and an item is stored after both:
the cutoff of the first hides it. -/
theorem staleCutoff_hides :
    let flushed := (Clocked.mk 1000 Store.new).after
      [.command (.flushAll (some 10) false), .tick 1001]
    let storing := flushed.after [.command (.flushAll none false), .tick 1005]
    let stored := storing.after [.command (.store .set (storeArgs "a"))]
    let last := stored.after [.tick 1010]
    (storing.lazyStep (.command (.store .set (storeArgs "a")))).1 = some .stored ∧
      AllowedRun StoreStep.Forward Clocked.lazyStep [.tick 1010] stored ∧
      Clocked.followed (ascii "k") [.tick 1010] stored (Item.new (ascii "a") 7 0 0 1005) =
        some (Item.new (ascii "a") 7 0 0 1005) ∧
      (handle last.now (.get [ascii "k"] false) last.state).1 = .values [] := by
  decide

end Stale

end Ousagi
