import Ousagi.ClientsCore

/-!
What the step of a client on a key can do to the items: it keeps them or drops one
of them, or it writes one item with the token of the step.  The steps are inverted
here once, and those of a client that runs alone are those of the sequential store.
-/

namespace Ousagi

open Library

/-- No item changes; some may be gone. -/
def Kept (before after : Cache Bytes Item) : Prop :=
  ∀ key, after.lookup key = before.lookup key ∨ after.lookup key = none

structure Rewritten (before after : Cache Bytes Item) (key : Bytes) (item : Item) : Prop where
  here : after.lookup key = some item
  others : ∀ other, other ≠ key → after.lookup other = before.lookup other

theorem kept_erase (items : Cache Bytes Item) (key : Bytes) : Kept items (items.erase key) := by
  intro other
  rw [Cache.erase_lookup]
  by_cases same : other = key
  · exact Or.inr (if_pos same)
  · exact Or.inl (if_neg same)

section Closures

variable {now : UInt64} {oldestLive : Option UInt64} {α : Type} {live : Item → α × Item}
  {items : Cache Bytes Item} {key : Bytes}

theorem visible_lookup {item : Item} (found : visibleItem now oldestLive items key = some item) :
    items.lookup key = some item := by
  rw [visibleItem, Option.filter_eq_some_iff] at found
  exact found.1

theorem live_lookup (other : Bytes) :
    (items.entry key (liveOnly now oldestLive live)).2.lookup other =
      if other = key then (visibleItem now oldestLive items key).map fun item => (live item).2
      else items.lookup other := by
  rw [Cache.entry_lookup, liveOnly_value]
  rfl

end Closures

def Response.succeeded : Response → Bool
  | .stored => true
  | .touched => true
  | .number _ => true
  | _ => false

inductive Outcome (before after : Cache Bytes Item) (key : Bytes) (cas : UInt64) :
    Response → Prop
  | failed {response : Response} (kept : Kept before after) (failure : ¬response.succeeded) :
      Outcome before after key cas response
  | wrote {response : Response} (item : Item) (token : item.cas = cas)
      (rewritten : Rewritten before after key item) : Outcome before after key cas response

section Updates

variable (now : UInt64) (oldestLive : Option UInt64) (cas : UInt64) (store : Store)

theorem casEntry_stored {args : StoreArgs} {token : UInt64} (expected : args.cas = some token)
    (stored : (store.storeEntry .cas args now oldestLive cas).1 = .stored) :
    ∃ item, store.items.lookup args.key = some item ∧ item.cas = token := by
  obtain ⟨stats, result⟩ := Store.casEntry_eq args now oldestLive cas store expected
  rw [result] at stored
  cases found : visibleItem now oldestLive store.items args.key with
  | none => simp [found] at stored
  | some item =>
      refine ⟨item, visible_lookup found, ?_⟩
      by_contra other
      simp [found, other] at stored

end Updates

inductive Visited (store : Store) (key : Bytes) (items : Cache Bytes Item) :
    Bool → Option Value → Prop
  | missed (touches : Bool) (kept : Kept store.items items) : Visited store key items touches none
  | read (item : Item) (token : Option UInt64) (found : store.items.lookup key = some item)
      (shown : token = none ∨ token = some item.cas) (kept : Kept store.items items) :
      Visited store key items false (some (key, item.flags, item.data, token))
  | touched (item : Item) (token : Option UInt64) (fresh : item.cas = store.nextCasCell)
      (shown : token = none ∨ token = some item.cas)
      (rewritten : Rewritten store.items items key item) :
      Visited store key items true (some (key, item.flags, item.data, token))

variable {Client : Type} [DecidableEq Client]

namespace World

inductive Stepped (world : World Client) : ClientEvent Client → World Client → Prop
  | called (client : Client) (command : Command) (phase : Phase)
      (idle : world.phase client = .idle) (begins : command.begin = some phase) :
      Stepped world (.call client command)
        ({ world with store := command.count world.store }.enter client phase)
  | timed (client : Client) (now : UInt64) (operation : Operation)
      (during : world.phase client = .called operation) :
      Stepped world (.readClock client now)
        ({ world with store := operation.count world.store }.enter client (.timed operation now))
  | scheduled (client : Client) (now : UInt64) (secs : UInt32)
      (during : world.phase client = .scheduling secs) :
      Stepped world (.readClock client now) (world.enter client (.scheduled secs now))
  | resumed (client : Client) (operation : Operation) (now : UInt64)
      (during : world.phase client = .timed operation now) :
      Stepped world (.readCutoff client)
        (world.enter client (operation.resume now world.store.oldestLive))
  | drawn (client : Client) (update : Update) (now : UInt64) (oldestLive : Option UInt64)
      (during : world.phase client = .drawing update now oldestLive) :
      Stepped world (.draw client)
        ({ world with
          store := update.count world.store.nextCas.2
          draws := world.draws + 1 }.enter client
            (.updating update now oldestLive world.store.nextCas.1))
  | visited (client : Client) (retrieval : Retrieval) (now : UInt64) (oldestLive : Option UInt64)
      (key : Bytes) (rest : List Bytes) (values : List Value)
      (during : world.phase client = .visiting retrieval now oldestLive (key :: rest) values) :
      Stepped world (.act client)
        ({ world with
          store := (retrieval.visit now oldestLive key world.store).2
          draws :=
            if retrieval.touches && (retrieval.visit now oldestLive key world.store).1.isSome
            then world.draws + 1 else world.draws }.enter client
          (.visiting retrieval now oldestLive rest
            (values ++ (retrieval.visit now oldestLive key world.store).1.toList)))
  | updated (client : Client) (update : Update) (now : UInt64) (oldestLive : Option UInt64)
      (cas : UInt64) (during : world.phase client = .updating update now oldestLive cas) :
      Stepped world (.act client)
        ({ world with store := (update.perform now oldestLive cas world.store).2 }.enter client
          (.finished (update.perform now oldestLive cas world.store).1))
  | deleted (client : Client) (key : Bytes) (now : UInt64) (oldestLive : Option UInt64)
      (during : world.phase client = .deleting key now oldestLive) :
      Stepped world (.act client)
        ({ world with store := (world.store.deleteEntry key now oldestLive).2 }.enter client
          (.finished (world.store.deleteEntry key now oldestLive).1))
  | gathered (client : Client) (during : world.phase client = .clearing) :
      Stepped world (.act client) (world.enter client (.erasing world.store.items.keys))
  | flushed (client : Client) (secs : UInt32) (now : UInt64)
      (during : world.phase client = .scheduled secs now) :
      Stepped world (.act client)
        ({ world with store := world.store.flushAll secs now }.enter client (.finished .ok))
  | refused (client : Client) (args : StoreArgs) (now : UInt64) (oldestLive : Option UInt64)
      (cas : UInt64) (during : world.phase client = .updating (.store .add args) now oldestLive cas)
      (vacant : world.store.items.lookup args.key = none) :
      Stepped world (.refuse client) (world.enter client (.finished .notStored))
  | erased (client : Client) (key : Bytes) (keys : List Bytes)
      (during : world.phase client = .erasing keys) :
      Stepped world (.clear client key)
        ({ world with store.items := world.store.items.erase key }.enter client
          (.erasing (keys.erase key)))
  | cleared (client : Client) (during : world.phase client = .erasing []) :
      Stepped world (.cleared client) (world.enter client (.finished .ok))
  | replied (client : Client) (response : Response)
      (answered : world.response client = some response) :
      Stepped world (.reply client) (world.enter client .idle)
  | evicted (key : Bytes) :
      Stepped world (.evict key) { world with store := world.store.evict key }

theorem act_stepped {client : Client} {world after : World Client}
    (taken : world.act client = some after) : Stepped world (.act client) after := by
  rw [act] at taken
  cases during : world.phase client with
  | visiting retrieval now oldestLive keys values =>
      cases keys with
      | nil => simp [during] at taken
      | cons key rest =>
          simp only [during, Option.some.injEq] at taken
          subst taken
          exact .visited client retrieval now oldestLive key rest values during
  | updating update now oldestLive cas =>
      simp only [during, Option.some.injEq] at taken
      subst taken
      exact .updated client update now oldestLive cas during
  | deleting key now oldestLive =>
      simp only [during, Option.some.injEq] at taken
      subst taken
      exact .deleted client key now oldestLive during
  | clearing =>
      simp only [during, Option.some.injEq] at taken
      subst taken
      exact .gathered client during
  | scheduled secs now =>
      simp only [during, Option.some.injEq] at taken
      subst taken
      exact .flushed client secs now during
  | _ => simp [during] at taken

theorem step_stepped {event : ClientEvent Client} {world after : World Client}
    (taken : world.step event = some after) : Stepped world event after := by
  cases event with
  | call client command =>
      simp only [step] at taken
      split at taken
      · rename_i idle
        obtain ⟨phase, begins, same⟩ := Option.map_eq_some_iff.mp taken
        subst same
        exact .called client command phase idle begins
      · cases taken
  | readClock client now =>
      simp only [step] at taken
      split at taken
      · rename_i operation during
        cases taken
        exact .timed client now operation during
      · rename_i secs during
        cases taken
        exact .scheduled client now secs during
      · cases taken
  | readCutoff client =>
      simp only [step] at taken
      split at taken
      · rename_i operation now during
        cases taken
        exact .resumed client operation now during
      · cases taken
  | draw client =>
      simp only [step] at taken
      split at taken
      · rename_i update now oldestLive during
        cases taken
        exact .drawn client update now oldestLive during
      · cases taken
  | act client => exact act_stepped taken
  | refuse client =>
      simp only [step] at taken
      split at taken
      · rename_i args now oldestLive cas during
        split at taken
        · rename_i vacant
          cases taken
          exact .refused client args now oldestLive cas during (Option.isNone_iff_eq_none.mp vacant)
        · cases taken
      · cases taken
  | clear client key =>
      simp only [step] at taken
      split at taken
      · rename_i keys during
        cases taken
        exact .erased client key keys during
      · cases taken
  | cleared client =>
      simp only [step] at taken
      split at taken
      · rename_i during
        cases taken
        exact .cleared client during
      · cases taken
  | reply client =>
      simp only [step] at taken
      split at taken
      · rename_i response answered
        cases taken
        exact .replied client response answered
      · cases taken
  | evict key =>
      simp only [step, Option.some.injEq] at taken
      subst taken
      exact .evicted key

section Alone

variable {client : Client} {now : UInt64}

@[simp] theorem enter_self (phase : Phase) (world : World Client) :
    (world.enter client phase).phase client = phase := by
  simp [enter]

@[simp] theorem enter_store (phase : Phase) (world : World Client) :
    (world.enter client phase).store = world.store := rfl

theorem visits_alone {retrieval : Retrieval} {oldestLive : Option UInt64} {keys : List Bytes}
    {values : List Value} {world : World Client}
    (during : world.phase client = .visiting retrieval now oldestLive keys values) :
    ∃ after, run step (List.replicate keys.length (.act client)) world = some after ∧
      after.phase client = .visiting retrieval now oldestLive []
        (values ++ (collect (fun key store => retrieval.visit now oldestLive key store) keys
          world.store).1) ∧
      after.store = (collect (fun key store => retrieval.visit now oldestLive key store) keys
        world.store).2 := by
  induction keys generalizing values world with
  | nil => exact ⟨world, rfl, by simpa [collect] using during, rfl⟩
  | cons key rest ih =>
      let visited := retrieval.visit now oldestLive key world.store
      let next := { world with
        store := visited.2
        draws := if retrieval.touches && visited.1.isSome then world.draws + 1
          else world.draws }.enter client
        (.visiting retrieval now oldestLive rest (values ++ visited.1.toList))
      have onward : next.phase client =
          .visiting retrieval now oldestLive rest (values ++ visited.1.toList) := enter_self _ _
      obtain ⟨after, reached, phase, store⟩ := ih onward
      refine ⟨after, ?_, ?_, store⟩
      · rw [List.length_cons, List.replicate_succ, run, step, act, during]
        exact reached
      · rw [phase, collect, List.append_assoc]
        rfl

theorem retrieves_alone {retrieval : Retrieval} {keys : List Bytes} {world : World Client}
    (during : world.phase client = .called (.retrieve retrieval keys)) :
    ∃ after, run step ([.readClock client now, .readCutoff client] ++
        List.replicate keys.length (.act client)) world = some after ∧
      after.response client = some (.values (collect (fun key store => retrieval.visit now
        world.store.oldestLive key store) keys (world.store.count .cmdGet keys.length)).1) ∧
      after.store = (collect (fun key store => retrieval.visit now world.store.oldestLive key store)
        keys (world.store.count .cmdGet keys.length)).2 := by
  let ready := { world with store := world.store.count .cmdGet keys.length }.enter client
    (.visiting retrieval now world.store.oldestLive keys [])
  have onward : ready.phase client =
      .visiting retrieval now world.store.oldestLive keys [] := enter_self _ _
  obtain ⟨after, reached, phase, store⟩ := visits_alone onward
  refine ⟨after, ?_, ?_, store⟩
  · rw [← reached]
    simp only [List.cons_append, List.nil_append, run, step, during, Option.bind_some, enter_self]
    simp [ready, enter, Operation.resume, Operation.count]
  · rw [response, phase]
    rfl

theorem updates_alone {update : Update} {world : World Client}
    (during : world.phase client = .called (.update update)) :
    let counted := Operation.count world.store (.update update)
    let performed := update.perform now counted.oldestLive counted.nextCas.1
      (update.count counted.nextCas.2)
    ∃ after, run step [.readClock client now, .readCutoff client, .draw client, .act client] world =
        some after ∧
      after.response client = some performed.1 ∧ after.store = performed.2 := by
  simp [run, step, act, during, Operation.resume, response]

/-- The steps of a command for which no other client and no eviction comes between. -/
def script (client : Client) (now : UInt64) : Command → List (ClientEvent Client)
  | .get keys _ | .getAndTouch keys _ _ =>
      [.readClock client now, .readCutoff client] ++ List.replicate keys.length (.act client)
  | .delete _ _ => [.readClock client now, .readCutoff client, .act client]
  | .flushAll _ _ => [.readClock client now, .act client]
  | _ => [.readClock client now, .readCutoff client, .draw client, .act client]

/-- A command that runs alone does what it does in the sequential store.  A flush without a
delay is not among these: it clears its keys one by one. -/
theorem runs_alone (command : Command) (world : World Client)
    (idle : world.phase client = .idle) {phase : Phase} (begins : command.begin = some phase)
    (delayed : phase ≠ .clearing) :
    ∃ after, run step (.call client command :: script client now command) world = some after ∧
      after.response client = some (handle now command world.store).1 ∧
      after.store = (handle now command world.store).2 := by
  have called : ∀ {events : List (ClientEvent Client)}, run step (.call client command :: events) world =
      run step events ({ world with store := command.count world.store }.enter client phase) := by
    intro events
    rw [run, step, idle, begins]
    rfl
  rw [called]
  cases command with
  | get keys withCas =>
      cases begins
      exact retrieves_alone (enter_self _ _)
  | getAndTouch keys exptime withCas =>
      cases begins
      exact retrieves_alone (enter_self _ _)
  | store op args =>
      cases begins
      exact updates_alone (enter_self _ _)
  | arithmetic op key delta noreply =>
      cases begins
      exact updates_alone (enter_self _ _)
  | touch key exptime noreply =>
      cases begins
      exact updates_alone (enter_self _ _)
  | delete key noreply =>
      cases begins
      simp [run, step, act, script, Operation.resume, response]
      exact ⟨rfl, rfl⟩
  | flushAll delay noreply =>
      by_cases immediate : delay.getD 0 = 0
      · simp [Command.begin, immediate] at begins
        exact absurd begins.symm delayed
      · simp [Command.begin, immediate] at begins
        subst begins
        obtain ⟨secs, given⟩ : ∃ secs, delay = some secs := by
          cases delay with
          | none => exact absurd rfl immediate
          | some secs => exact ⟨secs, rfl⟩
        subst given
        have positive : secs ≠ 0 := immediate
        simp only [handle, Store.flush, if_neg positive]
        simp [run, step, act, script, response, Command.count]
  | version | verbosity level noreply | stats => simp [Command.begin] at begins

end Alone

end World

end Ousagi
