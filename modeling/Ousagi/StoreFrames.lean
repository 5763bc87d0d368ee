import Ousagi.ClientsEffects

/-!
What the sequential operations leave alone: a failed one every visible item, any
of them the keys it does not name, and a client the replies and the items of
another client on other keys.
-/

namespace Ousagi

open Library

def Command.update : Command → Option Update
  | .store op args => some (.store op args)
  | .arithmetic op key delta _ => some (.arithmetic op key delta)
  | .touch key exptime _ => some (.touch key exptime)
  | _ => none

section Handling

variable (now : UInt64) (store : Store)

theorem handle_update {command : Command} {update : Update}
    (updates : command.update = some update) :
    let found := store.visible now update.key
    let effect := update.effect now store.nextCasCell found
    ∃ items stats, handle now command store =
        (effect.1, { store with items, nextCasCell := store.nextCasCell + 1, stats }) ∧
      (Leaves store.items items update.key effect.2 ∨
        update.tokenless ∧ items = store.items ∧ effect.2 = found) := by
  cases command with
  | store op args =>
      cases updates
      exact Update.perform_effect now store.oldestLive store.nextCasCell
        (store.count .cmdSet 1).nextCas.2 (.store op args)
  | arithmetic op key delta noreply =>
      cases updates
      exact Update.perform_effect now store.oldestLive store.nextCasCell
        (store.count op.cmd 1).nextCas.2 (.arithmetic op key delta)
  | touch key exptime noreply =>
      cases updates
      exact Update.perform_effect now store.oldestLive store.nextCasCell
        (store.nextCas.2.count .cmdTouch 1) (.touch key exptime)
  | get | getAndTouch | delete | flushAll | version | verbosity | stats => cases updates

theorem handle_update_visible {command : Command} {update : Update}
    (updates : command.update = some update) (key : Bytes) :
    (handle now command store).2.visible now key =
      if key = update.key then
        (update.effect now store.nextCasCell (store.visible now update.key)).2.filter
          (alive now store.oldestLive)
      else store.visible now key := by
  obtain ⟨items, stats, result, outcome⟩ := handle_update now store updates
  rw [result]
  rcases outcome with leaves | ⟨_, same, kept⟩
  · by_cases here : key = update.key
    · rw [if_pos here, here]
      exact congrArg (Option.filter (alive now store.oldestLive)) leaves.here
    · rw [if_neg here]
      exact congrArg (Option.filter (alive now store.oldestLive)) (leaves.others key here)
  · rw [same, kept]
    by_cases here : key = update.key
    · rw [if_pos here, here]
      exact (visible_alive store now update.key).symm
    · rw [if_neg here]
      rfl

end Handling

def Command.subject : Command → Option Bytes
  | .store _ args => some args.key
  | .delete key _ | .arithmetic _ key _ _ | .touch key _ _ => some key
  | _ => none

section Atomic

variable (now : UInt64) (store : Store)

theorem update_atomic (update : Update) {command : Command}
    (updates : command.update = some update) :
    ((handle now command store).1.failed →
      ∀ key, (handle now command store).2.visible now key = store.visible now key) ∧
    ∀ key, key ≠ update.key →
      (handle now command store).2.visible now key = store.visible now key := by
  constructor
  · intro failed key
    obtain ⟨items, stats, result, _⟩ := handle_update now store updates
    rw [result] at failed
    rw [handle_update_visible now store updates, Update.effect_failed failed]
    by_cases here : key = update.key
    · rw [if_pos here, here, visible_alive]
    · rw [if_neg here]
  · intro key different
    rw [handle_update_visible now store updates, if_neg different]

theorem delete_atomic (subject : Bytes) :
    ((store.delete subject now).1.failed →
      ∀ key, (store.delete subject now).2.visible now key = store.visible now key) ∧
    ∀ key, key ≠ subject →
      (store.delete subject now).2.visible now key = store.visible now key := by
  obtain ⟨stats, result⟩ := Store.delete_eq now store subject
  have erased : ∀ key, (store.delete subject now).2.visible now key =
      if key = subject then none else store.visible now key := by
    intro key
    rw [result]
    exact erase_visible now store.oldestLive store.items subject key
  constructor
  · intro failed key
    rw [erased]
    by_cases here : key = subject
    · rw [if_pos here, here]
      rw [result] at failed
      cases found : store.visible now subject with
      | none => rfl
      | some item => simp [found, Response.failed] at failed
    · rw [if_neg here]
  · intro key different
    rw [erased, if_neg different]

/-- An operation that fails changes no visible item, and one that succeeds none but its own. -/
theorem handle_atomic {command : Command} {subject : Bytes}
    (names : command.subject = some subject) :
    ((handle now command store).1.failed →
      ∀ key, (handle now command store).2.visible now key = store.visible now key) ∧
    ∀ key, key ≠ subject →
      (handle now command store).2.visible now key = store.visible now key := by
  cases command with
  | store op args =>
      cases names
      exact update_atomic now store (.store op args) rfl
  | arithmetic op key delta noreply =>
      cases names
      exact update_atomic now store (.arithmetic op subject delta) rfl
  | touch key exptime noreply =>
      cases names
      exact update_atomic now store (.touch subject exptime) rfl
  | delete key noreply =>
      cases names
      exact delete_atomic now store subject
  | get | getAndTouch | flushAll | version | verbosity | stats => cases names

def sampleStore : Store :=
  { Store.new with items := AList.insert (ascii "k") (Item.new (ascii "5") 7 0 1 1000) ∅ }

def staleSwap : Command :=
  .store .cas
    { key := ascii "k", flags := 0, exptime := 0, data := ascii "b", noreply := false
      cas := some 9 }

theorem staleSwap_atomic :
    (handle 1001 staleSwap sampleStore).2.visible 1001 (ascii "k") =
      some (Item.new (ascii "5") 7 0 1 1000) :=
  (handle_atomic 1001 sampleStore (show staleSwap.subject = some (ascii "k") from rfl)).1
    (by decide) (ascii "k")

end Atomic

def Command.retrieval : Command → Option (Retrieval × List Bytes)
  | .get keys withCas => some (.get withCas, keys)
  | .getAndTouch keys exptime withCas => some (.getAndTouch exptime withCas, keys)
  | _ => none

def Command.keys : Command → List Bytes
  | .get keys _ | .getAndTouch keys _ _ => keys
  | .store _ args => [args.key]
  | .delete key _ | .arithmetic _ key _ _ | .touch key _ _ => [key]
  | _ => []

def Command.flushes : Command → Bool
  | .flushAll _ _ => true
  | _ => false

/-- The commands on items, but for `cas`, whose reply depends on a token. -/
def Command.isolated : Command → Bool
  | .get _ _ | .getAndTouch _ _ _ | .delete _ _ | .arithmetic _ _ _ _ | .touch _ _ _ => true
  | .store op _ => op ≠ .cas
  | _ => false

theorem isolated_unflushed {command : Command} (isolated : command.isolated) :
    command.flushes = false := by
  cases command with
  | flushAll => cases isolated
  | _ => rfl

theorem handle_retrieval (now : UInt64) (store : Store) {command : Command} {retrieval : Retrieval}
    {keys : List Bytes} (retrieves : command.retrieval = some (retrieval, keys)) :
    let visited := collect (fun key later => retrieval.visit now store.oldestLive key later) keys
      (store.count .cmdGet keys.length)
    handle now command store = (.values visited.1, visited.2) := by
  cases command with
  | get | getAndTouch =>
      cases retrieves
      rfl
  | store | delete | arithmetic | touch | flushAll | version | verbosity | stats => cases retrieves

structure Untouched (mine : Bytes → Prop) (before after : Store) : Prop where
  cutoff : after.oldestLiveCell = before.oldestLiveCell
  items : ∀ key, mine key → after.items.lookup key = before.items.lookup key

theorem visit_untouched {mine : Bytes → Prop} {key : Bytes} (foreign : ¬mine key)
    (retrieval : Retrieval) (now : UInt64) (oldestLive : Option UInt64) {before store : Store}
    (untouched : Untouched mine before store) :
    Untouched mine before (retrieval.visit now oldestLive key store).2 := by
  obtain ⟨items, stats, result, leaves⟩ :=
    Retrieval.visit_effect now oldestLive store retrieval key
  rw [result]
  refine ⟨untouched.cutoff, ?_⟩
  intro other here
  rw [leaves.others other fun same => foreign (same ▸ here)]
  exact untouched.items other here

theorem handle_untouched {mine : Bytes → Prop} {command : Command}
    (unflushed : command.flushes = false) (foreign : ∀ key ∈ command.keys, ¬mine key)
    (now : UInt64) (store : Store) :
    Untouched mine store (handle now command store).2 := by
  have retrieves : ∀ {retrieval : Retrieval}, command.retrieval = some (retrieval, command.keys) →
      Untouched mine store (handle now command store).2 := by
    intro retrieval retrieves
    rw [handle_retrieval now store retrieves]
    apply collect_frame
    · intro key among between untouched
      exact visit_untouched (foreign key among) retrieval now _ untouched
    · exact ⟨rfl, fun _ _ => rfl⟩
  have updates : ∀ {update : Update}, command.update = some update → ¬mine update.key →
      Untouched mine store (handle now command store).2 := by
    intro update updates different
    obtain ⟨items, stats, result, leaves | ⟨_, same, _⟩⟩ := handle_update now store updates
    · rw [result]
      exact ⟨rfl, fun key here => leaves.others key fun same => different (same ▸ here)⟩
    · rw [result, same]
      exact ⟨rfl, fun _ _ => rfl⟩
  cases command with
  | get | getAndTouch => exact retrieves rfl
  | store op args => exact updates rfl (foreign args.key (List.mem_singleton_self _))
  | arithmetic op key | touch key => exact updates rfl (foreign key (List.mem_singleton_self _))
  | delete key noreply =>
      obtain ⟨stats, result⟩ := Store.delete_eq now store key
      simp only [handle, result]
      refine ⟨rfl, ?_⟩
      intro other here
      rw [Cache.erase_lookup, if_neg]
      rintro rfl
      exact foreign other (List.mem_singleton_self _) here
  | flushAll => cases unflushed
  | version | verbosity | stats => exact ⟨rfl, fun _ _ => rfl⟩

def Item.untoken (item : Item) : Item := { item with cas := 0 }

def Value.untoken (value : Value) : Value :=
  let (key, flags, data, cas) := value
  (key, flags, data, cas.map fun _ => 0)

def Response.untoken : Response → Response
  | .values found => .values (found.map Value.untoken)
  | response => response

/-- Two stores that differ, for a client, in the numbers of the tokens only. -/
structure Alike (mine : Bytes → Prop) (left right : Store) : Prop where
  cutoff : left.oldestLiveCell = right.oldestLiveCell
  items : ∀ key, mine key →
    (left.items.lookup key).map Item.untoken = (right.items.lookup key).map Item.untoken

theorem visible_untoken (now : UInt64) (oldestLive : Option UInt64) (items : Cache Bytes Item)
    (key : Bytes) :
    (visibleItem now oldestLive items key).map Item.untoken =
      ((items.lookup key).map Item.untoken).filter (alive now oldestLive) := by
  rw [visibleItem]
  cases items.lookup key with
  | none => rfl
  | some item =>
      have same : alive now oldestLive item.untoken = alive now oldestLive item := rfl
      cases living : alive now oldestLive item <;> simp [Option.filter, same, living]

def Update.unconditional : Update → Bool
  | .store op _ => op ≠ .cas
  | _ => true

theorem Update.effect_untoken {update : Update} (unconditional : update.unconditional)
    (now cas : UInt64) (found : Option Item) :
    (update.effect now cas found).1 = (update.effect now 0 (found.map Item.untoken)).1 ∧
      (update.effect now cas found).2.map Item.untoken =
        (update.effect now 0 (found.map Item.untoken)).2.map Item.untoken := by
  cases update with
  | store op args =>
      cases op with
      | set | add | replace | append | prepend => cases found <;> exact ⟨rfl, rfl⟩
      | cas => cases unconditional
  | touch key exptime => cases found <;> exact ⟨rfl, rfl⟩
  | arithmetic op key delta =>
      cases found with
      | none => exact ⟨rfl, rfl⟩
      | some item =>
          simp only [effect, Option.map_some]
          have same : numericValue item.untoken.data = numericValue item.data := rfl
          rw [same]
          cases numericValue item.data <;> exact ⟨rfl, rfl⟩

theorem Retrieval.effect_untoken (retrieval : Retrieval) (now cas : UInt64) (key : Bytes)
    (found : Option Item) :
    (retrieval.effect now cas key found).1.map Value.untoken =
        (retrieval.effect now 0 key (found.map Item.untoken)).1.map Value.untoken ∧
      (retrieval.effect now cas key found).2.map Item.untoken =
        (retrieval.effect now 0 key (found.map Item.untoken)).2.map Item.untoken := by
  cases retrieval with
  | get withCas | getAndTouch _ withCas =>
      cases found with
      | none => exact ⟨rfl, rfl⟩
      | some item => cases withCas <;> exact ⟨rfl, rfl⟩

section Apart

variable {mine : Bytes → Prop} {left right : Store}

theorem Alike.oldestLive (alike : Alike mine left right) : left.oldestLive = right.oldestLive := by
  rw [Store.oldestLive, Store.oldestLive, alike.cutoff]

theorem Alike.visible (alike : Alike mine left right) (now : UInt64) (oldestLive : Option UInt64)
    {key : Bytes} (here : mine key) :
    (visibleItem now oldestLive left.items key).map Item.untoken =
      (visibleItem now oldestLive right.items key).map Item.untoken := by
  rw [visible_untoken, visible_untoken, alike.items key here]

theorem Alike.untouched (alike : Alike mine left right) {after : Store}
    (untouched : Untouched mine left after) : Alike mine after right where
  cutoff := untouched.cutoff.trans alike.cutoff
  items := fun key here => by rw [untouched.items key here, alike.items key here]

theorem Alike.leaves (alike : Alike mine left right) {leftAfter rightAfter : Store} {key : Bytes}
    {leftItem rightItem : Option Item}
    (leftCutoff : leftAfter.oldestLiveCell = left.oldestLiveCell)
    (rightCutoff : rightAfter.oldestLiveCell = right.oldestLiveCell)
    (leftLeaves : Leaves left.items leftAfter.items key leftItem)
    (rightLeaves : Leaves right.items rightAfter.items key rightItem)
    (same : leftItem.map Item.untoken = rightItem.map Item.untoken) :
    Alike mine leftAfter rightAfter := by
  constructor
  · rw [leftCutoff, rightCutoff, alike.cutoff]
  · intro other here
    by_cases named : other = key
    · rw [named, leftLeaves.here, rightLeaves.here, same]
    · rw [leftLeaves.others other named, rightLeaves.others other named, alike.items other here]

theorem visit_alike (alike : Alike mine left right) {key : Bytes} (here : mine key)
    (retrieval : Retrieval) (now : UInt64) (oldestLive : Option UInt64) :
    (retrieval.visit now oldestLive key left).1.map Value.untoken =
        (retrieval.visit now oldestLive key right).1.map Value.untoken ∧
      Alike mine (retrieval.visit now oldestLive key left).2
        (retrieval.visit now oldestLive key right).2 := by
  obtain ⟨leftItems, leftStats, leftResult, leftLeaves⟩ :=
    Retrieval.visit_effect now oldestLive left retrieval key
  obtain ⟨rightItems, rightStats, rightResult, rightLeaves⟩ :=
    Retrieval.visit_effect now oldestLive right retrieval key
  have leftEffect := retrieval.effect_untoken now left.nextCasCell key
    (visibleItem now oldestLive left.items key)
  have rightEffect := retrieval.effect_untoken now right.nextCasCell key
    (visibleItem now oldestLive right.items key)
  rw [alike.visible now oldestLive here] at leftEffect
  rw [leftResult, rightResult]
  constructor
  · exact leftEffect.1.trans rightEffect.1.symm
  · exact alike.leaves rfl rfl leftLeaves rightLeaves (leftEffect.2.trans rightEffect.2.symm)

theorem visits_alike (alike : Alike mine left right) {keys : List Bytes}
    (own : ∀ key ∈ keys, mine key) (retrieval : Retrieval) (now : UInt64)
    (oldestLive : Option UInt64) :
    let visits := collect (fun key store => retrieval.visit now oldestLive key store) keys
    (visits left).1.map Value.untoken = (visits right).1.map Value.untoken ∧
      Alike mine (visits left).2 (visits right).2 := by
  induction keys generalizing left right with
  | nil => exact ⟨rfl, alike⟩
  | cons key rest ih =>
      obtain ⟨value, next⟩ := visit_alike alike (own key (List.mem_cons_self ..)) retrieval now
        oldestLive
      obtain ⟨values, after⟩ := ih next fun other among => own other (List.mem_cons_of_mem _ among)
      refine ⟨?_, after⟩
      simp only [collect, List.map_append, ← Option.toList_map]
      rw [value, values]

theorem update_alike (alike : Alike mine left right) {update : Update}
    (unconditional : update.unconditional) (here : mine update.key) {command : Command}
    (updates : command.update = some update) (now : UInt64) :
    (handle now command left).1 = (handle now command right).1 ∧
      Alike mine (handle now command left).2 (handle now command right).2 := by
  have reads : update.tokenless = false := by
    cases update with
    | store op => cases op <;> first | rfl | cases unconditional
    | arithmetic | touch => rfl
  have leftEffect := Update.effect_untoken unconditional now left.nextCasCell
    (left.visible now update.key)
  have rightEffect := Update.effect_untoken unconditional now right.nextCasCell
    (right.visible now update.key)
  have same : (left.visible now update.key).map Item.untoken =
      (right.visible now update.key).map Item.untoken := by
    rw [Store.visible, Store.visible, alike.oldestLive]
    exact alike.visible now right.oldestLive here
  rw [same] at leftEffect
  obtain ⟨leftItems, leftStats, leftResult, leftLeaves | ⟨tokenless, _⟩⟩ :=
    handle_update now left updates
  · obtain ⟨rightItems, rightStats, rightResult, rightLeaves | ⟨tokenless, _⟩⟩ :=
      handle_update now right updates
    · rw [leftResult, rightResult]
      constructor
      · exact leftEffect.1.trans rightEffect.1.symm
      · exact alike.leaves rfl rfl leftLeaves rightLeaves (leftEffect.2.trans rightEffect.2.symm)
    · rw [reads] at tokenless
      cases tokenless
  · rw [reads] at tokenless
    cases tokenless

theorem handle_alike (alike : Alike mine left right) {command : Command}
    (isolated : command.isolated) (own : ∀ key ∈ command.keys, mine key) (now : UInt64) :
    (handle now command left).1.untoken = (handle now command right).1.untoken ∧
      Alike mine (handle now command left).2 (handle now command right).2 := by
  have retrieves : ∀ {retrieval : Retrieval}, command.retrieval = some (retrieval, command.keys) →
      (handle now command left).1.untoken = (handle now command right).1.untoken ∧
        Alike mine (handle now command left).2 (handle now command right).2 := by
    intro retrieval retrieves
    rw [handle_retrieval now left retrieves, handle_retrieval now right retrieves, alike.oldestLive]
    have counted : Alike mine (left.count .cmdGet command.keys.length)
        (right.count .cmdGet command.keys.length) := ⟨alike.cutoff, alike.items⟩
    obtain ⟨values, after⟩ := visits_alike counted own retrieval now right.oldestLive
    exact ⟨congrArg Response.values values, after⟩
  have updates : ∀ {update : Update}, command.update = some update → update.unconditional →
      mine update.key →
      (handle now command left).1.untoken = (handle now command right).1.untoken ∧
        Alike mine (handle now command left).2 (handle now command right).2 := by
    intro update updates unconditional here
    obtain ⟨reply, after⟩ := update_alike alike unconditional here updates now
    exact ⟨congrArg Response.untoken reply, after⟩
  cases command with
  | get | getAndTouch => exact retrieves rfl
  | store op args => exact updates rfl isolated (own args.key (List.mem_singleton_self _))
  | arithmetic op key | touch key => exact updates rfl rfl (own key (List.mem_singleton_self _))
  | delete key noreply =>
      have found := alike.visible now right.oldestLive (own key (List.mem_singleton_self _))
      obtain ⟨leftStats, leftResult⟩ := Store.delete_eq now left key
      obtain ⟨rightStats, rightResult⟩ := Store.delete_eq now right key
      simp only [handle, leftResult, rightResult, Store.visible, alike.oldestLive]
      constructor
      · cases leftFound : visibleItem now right.oldestLive left.items key <;>
          cases rightFound : visibleItem now right.oldestLive right.items key <;>
          simp [leftFound, rightFound] at found ⊢
      · refine ⟨alike.cutoff, ?_⟩
        intro other here
        rw [Cache.erase_lookup, Cache.erase_lookup]
        by_cases same : other = key
        · rw [if_pos same, if_pos same]
        · rw [if_neg same, if_neg same, alike.items other here]
  | flushAll | version | verbosity | stats => cases isolated

end Apart

structure Request (Client : Type) where
  client : Client
  now : UInt64
  command : Command

variable {Client : Type}

def Request.serve (request : Request Client) (store : Store) : Option (Client × Response) × Store :=
  let (response, store) := handle request.now request.command store
  (some (request.client, response), store)

variable [DecidableEq Client]

def repliesTo (client : Client) (served : List (Client × Response)) : List Response :=
  served.filterMap fun reply => if reply.1 = client then some reply.2.untoken else none

/-- Clients that keep to keys of their own, in any order of their commands, each get the replies
and the items that they get alone, up to the numbers of the tokens. -/
theorem clients_apart (owns : Client → Bytes → Prop)
    (apart : ∀ first second key, owns first key → owns second key → first = second)
    (requests : List (Request Client))
    (isolated : ∀ request ∈ requests, request.command.isolated)
    (own : ∀ request ∈ requests, ∀ key ∈ request.command.keys, owns request.client key)
    (client : Client) (store : Store) :
    let merged := collect Request.serve requests store
    let alone := collect Request.serve (requests.filter fun request => request.client = client) store
    repliesTo client merged.1 = repliesTo client alone.1 ∧
      ∀ key, owns client key →
        (merged.2.items.lookup key).map Item.untoken =
          (alone.2.items.lookup key).map Item.untoken := by
  let seen : Client × Response → Option Response :=
    fun reply => if reply.1 = client then some reply.2.untoken else none
  have mine : ∀ request ∈ requests, decide (request.client = client) → ∀ left right,
      Alike (owns client) left right →
        (request.serve left).1.bind seen = (request.serve right).1.bind seen ∧
          Alike (owns client) (request.serve left).2 (request.serve right).2 := by
    intro request among same left right alike
    have named : ∀ key ∈ request.command.keys, owns client key := by
      rw [← of_decide_eq_true same]
      exact own request among
    obtain ⟨reply, after⟩ := handle_alike alike (isolated request among) named request.now
    refine ⟨?_, after⟩
    simp only [Request.serve, seen, Option.bind_some, reply]
  have foreign : ∀ request ∈ requests, ¬decide (request.client = client) → ∀ left right,
      Alike (owns client) left right →
        (request.serve left).1.bind seen = none ∧
          Alike (owns client) (request.serve left).2 right := by
    intro request among different left right alike
    have other : request.client ≠ client := fun same => different (decide_eq_true same)
    have named : ∀ key ∈ request.command.keys, ¬owns client key :=
      fun key here owned => other (apart _ _ key (own request among key here) owned)
    constructor
    · simp only [Request.serve, seen, Option.bind_some, if_neg other]
    · exact alike.untouched
        (handle_untouched (isolated_unflushed (isolated request among)) named request.now left)
  have same : Alike (owns client) store store := ⟨rfl, fun _ _ => rfl⟩
  obtain ⟨replies, after⟩ := collect_apart _ seen mine foreign same
  exact ⟨replies, after.items⟩

section Interleaved

def interleaved : List (Request Bool) :=
  [⟨true, 1000, .arithmetic .incr (ascii "k") 2 false⟩,
    ⟨false, 900, .get [ascii "j", ascii "l"] true⟩,
    ⟨false, 1001, .touch (ascii "j") (-1) false⟩,
    ⟨true, 1002, .get [ascii "k"] true⟩]

/-- One client owns the key `k`, and the other client the other keys. -/
theorem interleaved_apart :
    repliesTo true (collect Request.serve interleaved sampleStore).1 =
      repliesTo true (collect Request.serve [⟨true, 1000, .arithmetic .incr (ascii "k") 2 false⟩,
        ⟨true, 1002, .get [ascii "k"] true⟩] sampleStore).1 :=
  (clients_apart (fun client key => client = decide (key = ascii "k"))
    (fun _ _ _ one other => one.trans other.symm) interleaved (by decide) (by decide) true
    sampleStore).1

end Interleaved

end Ousagi
