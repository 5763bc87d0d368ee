import Ousagi.ClientsTokens
import Ousagi.StoreFrames

/-!
Clients that keep to keys of their own, step by step: whatever steps the others take
and in whatever order, a client gets the replies that it gets when it takes its steps
alone, up to the numbers of its tokens.
-/

namespace Ousagi

open Library

def Operation.Names (named : Bytes → Prop) : Operation → Prop
  | .retrieve _ keys => ∀ key ∈ keys, named key
  | .update change => named change.key ∧ change.unconditional
  | .delete key => named key

def Phase.Names (named : Bytes → Prop) : Phase → Prop
  | .idle | .finished _ => True
  | .called operation | .timed operation _ => operation.Names named
  | .visiting _ _ _ keys _ => ∀ key ∈ keys, named key
  | .drawing update _ _ | .updating update _ _ _ => named update.key ∧ update.unconditional
  | .deleting key _ _ => named key
  | .clearing | .erasing _ | .scheduling _ | .scheduled _ _ => False

def Phase.untoken : Phase → Phase
  | .visiting retrieval now cutoff keys values =>
      .visiting retrieval now cutoff keys (values.map Value.untoken)
  | .updating update now cutoff _ => .updating update now cutoff 0
  | .finished response => .finished response.untoken
  | phase => phase

section Phases

variable {named : Bytes → Prop} {phase : Phase} {operation : Operation} {update : Update}
  {retrieval : Retrieval} {now : UInt64} {cutoff : Option UInt64} {keys : List Bytes}

theorem begin_names {command : Command} (begins : command.begin = some phase)
    (isolated : command.isolated) (own : ∀ key ∈ command.keys, named key) : phase.Names named := by
  cases command with
  | get | getAndTouch =>
      cases begins
      exact own
  | store op args =>
      cases begins
      exact ⟨own args.key (List.mem_singleton_self _), isolated⟩
  | arithmetic op key | touch key =>
      cases begins
      exact ⟨own key (List.mem_singleton_self _), rfl⟩
  | delete key =>
      cases begins
      exact own key (List.mem_singleton_self _)
  | flushAll | version | verbosity | stats => cases isolated

theorem resume_names (names : operation.Names named) :
    (operation.resume now cutoff).Names named := by
  cases operation with
  | retrieve | update | delete => exact names

theorem untoken_idle (same : Phase.idle.untoken = phase.untoken) : phase = .idle := by
  cases phase <;> simp [Phase.untoken] at same ⊢

theorem untoken_called (same : (Phase.called operation).untoken = phase.untoken) :
    phase = .called operation := by
  cases phase <;> simp [Phase.untoken] at same ⊢
  exact same.symm

theorem untoken_timed (same : (Phase.timed operation now).untoken = phase.untoken) :
    phase = .timed operation now := by
  cases phase <;> simp [Phase.untoken] at same ⊢
  exact ⟨same.1.symm, same.2.symm⟩

theorem untoken_drawing (same : (Phase.drawing update now cutoff).untoken = phase.untoken) :
    phase = .drawing update now cutoff := by
  cases phase <;> simp [Phase.untoken] at same ⊢
  exact ⟨same.1.symm, same.2.1.symm, same.2.2.symm⟩

theorem untoken_deleting {key : Bytes}
    (same : (Phase.deleting key now cutoff).untoken = phase.untoken) :
    phase = .deleting key now cutoff := by
  cases phase <;> simp [Phase.untoken] at same ⊢
  exact ⟨same.1.symm, same.2.1.symm, same.2.2.symm⟩

theorem untoken_visiting {values : List Value}
    (same : (Phase.visiting retrieval now cutoff keys values).untoken = phase.untoken) :
    ∃ others, phase = .visiting retrieval now cutoff keys others ∧
      values.map Value.untoken = others.map Value.untoken := by
  cases phase <;> simp [Phase.untoken] at same ⊢
  exact ⟨⟨same.1.symm, same.2.1.symm, same.2.2.1.symm, same.2.2.2.1.symm⟩, same.2.2.2.2⟩

theorem untoken_updating {token : UInt64}
    (same : (Phase.updating update now cutoff token).untoken = phase.untoken) :
    ∃ other, phase = .updating update now cutoff other := by
  cases phase <;> simp [Phase.untoken] at same ⊢
  exact ⟨same.1.symm, same.2.1.symm, same.2.2.symm⟩

theorem untoken_finished {response : Response}
    (same : (Phase.finished response).untoken = phase.untoken) :
    ∃ other, phase = .finished other ∧ response.untoken = other.untoken := by
  cases phase <;> simp [Phase.untoken] at same ⊢
  exact same

end Phases

section Stores

variable {mine : Bytes → Prop} {left right : Store} {now : UInt64} {cutoff : Option UInt64}

theorem Alike.counted (alike : Alike mine left right) {leftAfter rightAfter : Store}
    (leftSame : leftAfter.items = left.items ∧ leftAfter.oldestLiveCell = left.oldestLiveCell)
    (rightSame : rightAfter.items = right.items ∧
      rightAfter.oldestLiveCell = right.oldestLiveCell) : Alike mine leftAfter rightAfter where
  cutoff := by rw [leftSame.2, rightSame.2, alike.cutoff]
  items := by
    intro key here
    rw [leftSame.1, rightSame.1, alike.items key here]

theorem perform_untouched {update : Update} (foreign : ¬mine update.key) (token : UInt64)
    (store : Store) : Untouched mine store (update.perform now cutoff token store).2 := by
  obtain ⟨items, stats, result, outcome⟩ := update.perform_effect now cutoff token store
  rw [result]
  refine ⟨rfl, ?_⟩
  intro key here
  rcases outcome with leaves | ⟨_, same, _⟩
  · exact leaves.others key fun named => foreign (named ▸ here)
  · rw [same]

theorem erase_untouched {key : Bytes} (foreign : ¬mine key) {before after : Store}
    (cell : after.oldestLiveCell = before.oldestLiveCell)
    (items : after.items = before.items.erase key) : Untouched mine before after := by
  refine ⟨cell, ?_⟩
  intro other here
  rw [items, Cache.erase_lookup, if_neg]
  rintro rfl
  exact foreign here

theorem delete_untouched {key : Bytes} (foreign : ¬mine key) (store : Store) :
    Untouched mine store (store.deleteEntry key now cutoff).2 := by
  obtain ⟨stats, result⟩ := Store.deleteEntry_eq now cutoff store key
  rw [result]
  exact erase_untouched foreign rfl rfl

theorem evict_untouched {key : Bytes} (foreign : ¬mine key) (store : Store) :
    Untouched mine store (store.evict key) := by
  rw [Store.evict]
  split
  · exact erase_untouched foreign rfl rfl
  · exact ⟨rfl, fun _ _ => rfl⟩

theorem unconditional_reads {update : Update} (unconditional : update.unconditional) :
    ¬update.tokenless := by
  cases update with
  | store op =>
      cases op with
      | cas => cases unconditional
      | set | add | replace | append | prepend => exact Bool.false_ne_true
  | arithmetic | touch => exact Bool.false_ne_true

theorem perform_alike (alike : Alike mine left right) {update : Update}
    (unconditional : update.unconditional) (here : mine update.key) (token other : UInt64) :
    (update.perform now cutoff token left).1 = (update.perform now cutoff other right).1 ∧
      Alike mine (update.perform now cutoff token left).2
        (update.perform now cutoff other right).2 := by
  have reads := unconditional_reads unconditional
  have leftEffect := Update.effect_untoken unconditional now token
    (visibleItem now cutoff left.items update.key)
  have rightEffect := Update.effect_untoken unconditional now other
    (visibleItem now cutoff right.items update.key)
  rw [alike.visible now cutoff here] at leftEffect
  obtain ⟨leftItems, leftStats, leftResult, leftOutcome⟩ :=
    update.perform_effect now cutoff token left
  obtain ⟨rightItems, rightStats, rightResult, rightOutcome⟩ :=
    update.perform_effect now cutoff other right
  have leftLeaves := leftOutcome.resolve_right fun tokenless => reads tokenless.1
  have rightLeaves := rightOutcome.resolve_right fun tokenless => reads tokenless.1
  rw [leftResult, rightResult]
  constructor
  · exact leftEffect.1.trans rightEffect.1.symm
  · exact alike.leaves rfl rfl leftLeaves rightLeaves (leftEffect.2.trans rightEffect.2.symm)

theorem delete_alike (alike : Alike mine left right) {key : Bytes} (here : mine key) :
    (left.deleteEntry key now cutoff).1 = (right.deleteEntry key now cutoff).1 ∧
      Alike mine (left.deleteEntry key now cutoff).2 (right.deleteEntry key now cutoff).2 := by
  obtain ⟨leftStats, leftResult⟩ := Store.deleteEntry_eq now cutoff left key
  obtain ⟨rightStats, rightResult⟩ := Store.deleteEntry_eq now cutoff right key
  rw [leftResult, rightResult]
  constructor
  · have found := alike.visible now cutoff here
    cases leftFound : visibleItem now cutoff left.items key <;>
      cases rightFound : visibleItem now cutoff right.items key <;>
      simp [leftFound, rightFound] at found ⊢
  · refine ⟨alike.cutoff, ?_⟩
    intro other owned
    rw [Cache.erase_lookup, Cache.erase_lookup]
    by_cases same : other = key
    · rw [if_pos same, if_pos same]
    · rw [if_neg same, if_neg same, alike.items other owned]

end Stores

section Clients

variable {Client : Type} [DecidableEq Client]

/-- The step begins only commands on the keys of its client, and evicts none of the keys of this
one. -/
def ClientEvent.Keeps (owns : Client → Bytes → Prop) (client : Client) :
    ClientEvent Client → Prop
  | .call actor command => command.isolated ∧ ∀ key ∈ command.keys, owns actor key
  | .evict key => ¬owns client key
  | _ => True

instance ClientEvent.Keeps.decidable {owns : Client → Bytes → Prop}
    [∀ client key, Decidable (owns client key)] {client : Client} :
    (event : ClientEvent Client) → Decidable (event.Keeps owns client)
  | .call actor command =>
      inferInstanceAs (Decidable (command.isolated ∧ ∀ key ∈ command.keys, owns actor key))
  | .evict key => inferInstanceAs (Decidable ¬owns client key)
  | .readClock _ _ | .readCutoff _ | .draw _ | .act _ | .refuse _ | .clear _ _ | .cleared _
  | .reply _ => isTrue trivial

def ClientEvent.answer (client : Client) (event : ClientEvent Client) (world : World Client) :
    Option Response :=
  match event with
  | .reply actor => if actor = client then (world.response client).map Response.untoken else none
  | _ => none

/-- A world as a client sees it, beside one in which the client is alone. -/
structure Echoes (client : Client) (mine : Bytes → Prop) (world alone : World Client) : Prop where
  store : Alike mine world.store alone.store
  phase : (world.phase client).untoken = (alone.phase client).untoken
  own : (world.phase client).Names mine
  others : ∀ other, other ≠ client → (world.phase other).Names fun key => ¬mine key

namespace World

variable {mine : Bytes → Prop} {event : ClientEvent Client} {world after alone : World Client}
  {client : Client}

theorem step_names {named : Bytes → Prop} (taken : world.step event = some after)
    (begins : ∀ command, event = .call client command →
      command.isolated ∧ ∀ key ∈ command.keys, named key)
    (names : (world.phase client).Names named) : (after.phase client).Names named := by
  by_cases own : event.actor = some client
  · cases step_stepped taken with
    | called actor command phase idle begun =>
        cases own
        rw [enter_self]
        exact begin_names begun (begins command rfl).1 (begins command rfl).2
    | timed actor now operation during =>
        cases own
        rw [during] at names
        rw [enter_self]
        exact names
    | resumed actor operation now during =>
        cases own
        rw [during] at names
        rw [enter_self]
        exact resume_names names
    | drawn actor update now cutoff during =>
        cases own
        rw [during] at names
        rw [enter_self]
        exact names
    | visited actor retrieval now cutoff key rest values during =>
        cases own
        rw [during] at names
        rw [enter_self]
        exact fun other among => names other (List.mem_cons_of_mem key among)
    | scheduled actor now secs during | gathered actor during | flushed actor secs now during
      | erased actor key keys during | cleared actor during =>
        cases own
        rw [during] at names
        cases names
    | updated | deleted | refused | replied =>
        cases own
        rw [enter_self]
        trivial
    | evicted => cases own
  · rw [step_other taken own]
    exact names

theorem step_untouched (taken : world.step event = some after)
    (foreign : ∀ actor, event.actor = some actor →
      (world.phase actor).Names fun key => ¬mine key)
    (evicts : ∀ key, event = .evict key → ¬mine key) : Untouched mine world.store after.store := by
  have same : ∀ {store : Store}, store.items = world.store.items →
      store.oldestLiveCell = world.store.oldestLiveCell → Untouched mine world.store store := by
    intro store items cell
    exact ⟨cell, fun key _ => by rw [items]⟩
  cases step_stepped taken with
  | called actor command phase idle begun =>
      refine same (command_count command world.store).1 ?_
      cases command <;> rfl
  | timed actor now operation during =>
      refine same (operation_count operation world.store).1 ?_
      cases operation with
      | update change => cases change <;> rfl
      | retrieve | delete => rfl
  | drawn actor update now cutoff during =>
      refine same (update_count update world.store.nextCas.2).1 ?_
      cases update <;> rfl
  | resumed | refused | replied => exact same rfl rfl
  | visited actor retrieval now cutoff key rest values during =>
      have names := foreign actor rfl
      rw [during] at names
      exact visit_untouched (names key List.mem_cons_self) retrieval now cutoff
        ⟨rfl, fun _ _ => rfl⟩
  | updated actor update now cutoff token during =>
      have names := foreign actor rfl
      rw [during] at names
      exact perform_untouched names.1 token world.store
  | deleted actor key now cutoff during =>
      have names := foreign actor rfl
      rw [during] at names
      exact delete_untouched names world.store
  | scheduled actor now secs during | gathered actor during | flushed actor secs now during
    | erased actor key keys during | cleared actor during =>
      have names := foreign actor rfl
      rw [during] at names
      cases names
  | evicted key => exact evict_untouched (evicts key rfl) world.store

omit [DecidableEq Client] in
theorem response_untoken (names : (world.phase client).Names mine)
    (same : (world.phase client).untoken = (alone.phase client).untoken) :
    (world.response client).map Response.untoken =
      (alone.response client).map Response.untoken := by
  rw [response, response]
  cases during : world.phase client with
  | idle =>
      rw [during] at same
      rw [untoken_idle same]
  | called operation =>
      rw [during] at same
      rw [untoken_called same]
  | timed operation now =>
      rw [during] at same
      rw [untoken_timed same]
  | drawing update now cutoff =>
      rw [during] at same
      rw [untoken_drawing same]
  | deleting key now cutoff =>
      rw [during] at same
      rw [untoken_deleting same]
  | updating update now cutoff token =>
      rw [during] at same
      obtain ⟨other, there⟩ := untoken_updating same
      rw [there]
  | visiting retrieval now cutoff keys values =>
      rw [during] at same
      obtain ⟨others, there, equal⟩ := untoken_visiting same
      rw [there]
      cases keys with
      | nil => exact congrArg (fun values => some (Response.values values)) equal
      | cons => rfl
  | finished response =>
      rw [during] at same
      obtain ⟨other, there, equal⟩ := untoken_finished same
      rw [there]
      exact congrArg some equal
  | clearing | erasing | scheduling | scheduled =>
      rw [during] at names
      cases names

theorem own_follows (taken : world.step event = some after) (own : event.actor = some client)
    (echoes : Echoes client mine world alone) :
    event.answer client world = event.answer client alone ∧
    ∃ next, alone.step event = some next ∧ Alike mine after.store next.store ∧
      (after.phase client).untoken = (next.phase client).untoken := by
  obtain ⟨alike, phase, names, _⟩ := echoes
  -- The step of the client alone, once its own phase is known.
  have follows : ∀ {given : World Client} {entered later : Phase} {moved : World Client},
      alone.step event = some (moved.enter client later) → Alike mine given.store moved.store →
      entered.untoken = later.untoken →
      ∃ next, alone.step event = some next ∧ Alike mine (given.enter client entered).store
        next.store ∧ ((given.enter client entered).phase client).untoken =
          (next.phase client).untoken := by
    intro given entered later moved step stores same
    refine ⟨_, step, stores, ?_⟩
    rw [enter_self, enter_self, same]
  cases step_stepped taken with
  | called actor command begun idle began =>
      cases own
      rw [idle] at phase
      refine ⟨rfl, follows (by simp [step, untoken_idle phase, began]; rfl) ?_ rfl⟩
      refine alike.counted ⟨(command_count command _).1, ?_⟩ ⟨(command_count command _).1, ?_⟩ <;>
        cases command <;> rfl
  | timed actor now operation during =>
      cases own
      rw [during] at phase
      refine ⟨rfl, follows (by simp [step, untoken_called phase]; rfl) ?_ rfl⟩
      refine alike.counted ⟨(operation_count operation _).1, ?_⟩
        ⟨(operation_count operation _).1, ?_⟩ <;>
        cases operation with
        | update change => cases change <;> rfl
        | retrieve | delete => rfl
  | resumed actor operation now during =>
      cases own
      rw [during] at phase
      refine ⟨rfl, follows (by simp [step, untoken_timed phase]; rfl) alike ?_⟩
      rw [alike.oldestLive]
  | drawn actor update now cutoff during =>
      cases own
      rw [during] at phase
      refine ⟨rfl, follows (by simp [step, untoken_drawing phase]; rfl) ?_ ?_⟩
      · refine alike.counted ⟨(update_count update _).1, ?_⟩ ⟨(update_count update _).1, ?_⟩ <;>
          cases update <;> rfl
      · rfl
  | visited actor retrieval now cutoff key rest values during =>
      cases own
      rw [during] at phase names
      obtain ⟨others, there, equal⟩ := untoken_visiting phase
      obtain ⟨value, stores⟩ :=
        visit_alike alike (names key List.mem_cons_self) retrieval now cutoff
      refine ⟨rfl, follows (by simp [step, act, there]; rfl) stores ?_⟩
      simp only [Phase.untoken, List.map_append, equal, ← Option.toList_map, value]
  | updated actor update now cutoff token during =>
      cases own
      rw [during] at phase names
      obtain ⟨other, there⟩ := untoken_updating phase
      obtain ⟨reply, stores⟩ := perform_alike alike names.2 names.1 token other
      refine ⟨rfl, follows (by simp [step, act, there]; rfl) stores ?_⟩
      rw [reply]
  | deleted actor key now cutoff during =>
      cases own
      rw [during] at phase names
      obtain ⟨reply, stores⟩ := @delete_alike _ _ _ now cutoff alike _ names
      refine ⟨rfl, follows (by simp [step, act, untoken_deleting phase]; rfl) stores ?_⟩
      rw [reply]
  | refused actor args now cutoff token during vacant =>
      cases own
      rw [during] at phase names
      obtain ⟨other, there⟩ := untoken_updating phase
      have absent : alone.store.items.lookup args.key = none := by
        have same := alike.items args.key names.1
        rw [vacant, Option.map_none] at same
        exact Option.map_eq_none_iff.mp same.symm
      exact ⟨rfl, follows (by simp [step, there, absent]) alike rfl⟩
  | replied actor response answered =>
      cases own
      have equal := response_untoken names phase
      obtain ⟨other, found⟩ : ∃ other, alone.response client = some other := by
        rw [answered, Option.map_some] at equal
        obtain ⟨other, found, _⟩ := Option.map_eq_some_iff.mp equal.symm
        exact ⟨other, found⟩
      refine ⟨?_, follows (by simp [step, found]) alike rfl⟩
      rw [ClientEvent.answer, ClientEvent.answer, if_pos rfl, if_pos rfl, equal]
  | scheduled actor now secs during | gathered actor during | flushed actor secs now during
    | erased actor key keys during | cleared actor during =>
      cases own
      rw [during] at names
      cases names
  | evicted => cases own

theorem answer_other (different : event.actor ≠ some client) :
    event.answer client world = none := by
  cases event with
  | reply actor =>
      rw [ClientEvent.answer, if_neg]
      exact fun same => different (congrArg some same)
  | _ => rfl

end World

def ClientEvent.own (client : Client) (event : ClientEvent Client) : Bool :=
  event.actor = some client

def answers (client : Client) (events : List (ClientEvent Client)) (first : World Client) :
    List Response :=
  observe World.step (ClientEvent.answer client) events first

/-- What the others do, on keys of their own, makes no difference to a client: without all their
steps its own steps are a run with the same replies and the same items, up to the numbers of
tokens. -/
theorem others_interfere_not (owns : Client → Bytes → Prop)
    (apart : ∀ first second key, owns first key → owns second key → first = second)
    {events : List (ClientEvent Client)} {first last : World Client} {client : Client}
    (idle : ∀ other, first.phase other = .idle)
    (keeps : ∀ event ∈ events, event.Keeps owns client)
    (reached : run World.step events first = some last) :
    ∃ alone, run World.step (events.filter (ClientEvent.own client)) first = some alone ∧
      answers client events first =
        answers client (events.filter (ClientEvent.own client)) first ∧
      ∀ key, owns client key →
        (last.store.items.lookup key).map Item.untoken =
          (alone.store.items.lookup key).map Item.untoken := by
  let mine := owns client
  have start : Echoes client mine first first := by
    refine ⟨⟨rfl, fun _ _ => rfl⟩, rfl, ?_, fun other _ => ?_⟩ <;> rw [idle] <;> trivial
  have own : ∀ {event : ClientEvent Client} {world alone after : World Client},
      event.Keeps owns client → event.own client → Echoes client mine world alone →
      world.step event = some after →
      event.answer client world = event.answer client alone ∧
        ∃ next, alone.step event = some next ∧ Echoes client mine after next := by
    intro event world alone after fits here echoes taken
    have actor : event.actor = some client := of_decide_eq_true here
    obtain ⟨same, next, follows, stores, phase⟩ := World.own_follows taken actor echoes
    refine ⟨same, next, follows, stores, phase, ?_, fun other different => ?_⟩
    · refine World.step_names taken ?_ echoes.own
      rintro command rfl
      exact fits
    · rw [World.step_other taken fun too => different (Option.some.inj (too.symm.trans actor))]
      exact echoes.others other different
  have foreign : ∀ {event : ClientEvent Client} {world alone after : World Client},
      event.Keeps owns client → event.own client = false → Echoes client mine world alone →
      world.step event = some after →
      event.answer client world = none ∧ Echoes client mine after alone := by
    intro event world alone after fits there echoes taken
    have different : event.actor ≠ some client := of_decide_eq_false there
    have still := World.step_other taken different
    refine ⟨World.answer_other different, ?_, ?_, ?_, fun other distinct => ?_⟩
    · refine echoes.store.untouched (World.step_untouched taken ?_ ?_)
      · intro actor acts
        exact echoes.others actor fun same => different (same ▸ acts)
      · rintro key rfl
        exact fits
    · rw [still]
      exact echoes.phase
    · rw [still]
      exact echoes.own
    · refine World.step_names taken ?_ (echoes.others other distinct)
      rintro command rfl
      refine ⟨fits.1, fun key among here => ?_⟩
      exact distinct (apart other client key (fits.2 key among) here)
  obtain ⟨alone, purged, echoes, same⟩ := run_purged own foreign keeps reached start
  exact ⟨alone, purged, same, echoes.store.items⟩

end Clients

section Neighbours

/-- One client writes and reads the key `k`, between the steps of another on its own key. -/
def neighbourEvents : List (ClientEvent Bool) :=
  [.call true (.store .set ⟨ascii "k", 0, 0, ascii "7", false, none⟩), .readClock true 1000,
    .call false (.store .set ⟨ascii "j", 0, 0, ascii "a", false, none⟩), .readClock false 1000,
    .readCutoff false, .readCutoff true, .draw false, .draw true, .act true, .act false,
    .reply true, .reply false, .call true (.get [ascii "k"] true), .readClock true 1001,
    .call false (.delete (ascii "j") false), .readClock false 1001, .readCutoff false,
    .readCutoff true, .act false, .act true, .evict (ascii "j"), .reply true]

def neighbourWorld : World Bool := (run World.step neighbourEvents .new).get (by decide +kernel)

theorem neighbours_interfere_not :
    ∃ alone, run World.step (neighbourEvents.filter (ClientEvent.own true)) .new = some alone ∧
      answers true neighbourEvents .new =
        answers true (neighbourEvents.filter (ClientEvent.own true)) .new ∧
      ∀ key, true = decide (key = ascii "k") →
        (neighbourWorld.store.items.lookup key).map Item.untoken =
          (alone.store.items.lookup key).map Item.untoken :=
  others_interfere_not (fun client key => client = decide (key = ascii "k"))
    (fun _ _ _ one other => one.trans other.symm) (fun _ => rfl) (by decide)
    (Option.some_get _).symm

end Neighbours

end Ousagi
