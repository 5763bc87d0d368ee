import Ousagi.ClientsFolds
import Ousagi.ParserLanguage
import Ousagi.ServerCore
import Ousagi.StoreFrames

/-!
What reaches the store: the commands that a connection returns are well formed,
and so are the operations and the keys of the store in every run of the server.
-/

namespace Ousagi

open Library

section Phases

def Update.WellFormed : Update → Prop
  | .store op args =>
      ValidKey args.key ∧ args.data.length ≤ maxItemSize ∧ (args.cas.isSome ↔ op = .cas)
  | .arithmetic _ key _ => ValidKey key
  | .touch key _ => ValidKey key

def Operation.WellFormed : Operation → Prop
  | .retrieve _ keys => ∀ key ∈ keys, ValidKey key
  | .update change => change.WellFormed
  | .delete key => ValidKey key

def Phase.WellFormed : Phase → Prop
  | .called operation | .timed operation _ => operation.WellFormed
  | .visiting _ _ _ keys _ => ∀ key ∈ keys, ValidKey key
  | .drawing update _ _ | .updating update _ _ _ => update.WellFormed
  | .deleting key _ _ => ValidKey key
  | .finished response => response ≠ .serverError "missing cas value"
  | .idle | .clearing | .erasing _ | .scheduling _ | .scheduled _ _ => True

theorem Update.WellFormed.valid {update : Update} (wellFormed : update.WellFormed) :
    ValidKey update.key := by
  cases update with
  | store op args => exact wellFormed.1
  | arithmetic op key delta | touch key exptime => exact wellFormed

theorem begin_wellFormed {command : Command} {phase : Phase} (wellFormed : command.WellFormed)
    (begins : command.begin = some phase) : phase.WellFormed := by
  cases command with
  | get keys withCas | getAndTouch keys exptime withCas =>
      cases begins
      exact wellFormed.2
  | store op args | delete key noreply | arithmetic op key delta noreply
    | touch key exptime noreply =>
      cases begins
      exact wellFormed
  | flushAll delay noreply =>
      cases begins
      split <;> exact trivial
  | version | verbosity level noreply | stats => cases begins

theorem resume_wellFormed {operation : Operation} (wellFormed : operation.WellFormed)
    (now : UInt64) (oldestLive : Option UInt64) :
    (operation.resume now oldestLive).WellFormed := by
  cases operation <;> exact wellFormed

/-- A swap has its token, so an update never misses it. -/
theorem Update.WellFormed.answers {update : Update} (wellFormed : update.WellFormed)
    (now cas : UInt64) (found : Option Item) :
    (update.effect now cas found).1 ≠ .serverError "missing cas value" := by
  cases update with
  | store op args =>
      cases op with
      | cas =>
          obtain ⟨expected, token⟩ := Option.isSome_iff_exists.mp (wellFormed.2.2.mpr rfl)
          cases found with
          | none => simp [effect, token]
          | some item => by_cases other : item.cas = expected <;> simp [effect, token, other]
      | _ => cases found <;> simp [effect]
  | arithmetic op key delta =>
      cases found with
      | none => simp [effect]
      | some item => cases number : numericValue item.data <;> simp [effect, number]
  | touch key exptime => cases found <;> simp [effect]

end Phases

section Worlds

variable {Client : Type}

namespace World

variable {world after : World Client} {key : Bytes} {item : Item}

structure WellFormed (world : World Client) : Prop where
  phases : ∀ client, (world.phase client).WellFormed
  keys : ∀ key item, world.store.items.lookup key = some item → ValidKey key

theorem WellFormed.during {client : Client} {phase : Phase} (wellFormed : world.WellFormed)
    (during : world.phase client = phase) : phase.WellFormed :=
  during ▸ wellFormed.phases client

theorem new_wellFormed : (new : World Client).WellFormed where
  phases client := trivial
  keys key item there := by simp [new, Store.new] at there

structure Undisturbed (before after : World Client) : Prop where
  phase : after.phase = before.phase
  items : after.store.items = before.store.items

theorem Undisturbed.wellFormed (undisturbed : world.Undisturbed after)
    (wellFormed : world.WellFormed) : after.WellFormed where
  phases client := undisturbed.phase ▸ wellFormed.phases client
  keys key item there := wellFormed.keys key item (undisturbed.items ▸ there)

/-- An item that a step has left under a key that its client visits or updates. -/
inductive Leaving (world : World Client) (key : Bytes) (item : Item) : ClientEvent Client → Prop
  | visited (client : Client) (retrieval : Retrieval) (now : UInt64) (oldestLive : Option UInt64)
      (rest : List Bytes) (values : List Value)
      (during : world.phase client = .visiting retrieval now oldestLive (key :: rest) values)
      (left : (retrieval.effect now world.store.nextCasCell key
        (visibleItem now oldestLive world.store.items key)).2 = some item) :
      Leaving world key item (.act client)
  | updated (client : Client) (update : Update) (now : UInt64) (oldestLive : Option UInt64)
      (cas : UInt64) (during : world.phase client = .updating update now oldestLive cas)
      (here : update.key = key)
      (left : (update.effect now cas (visibleItem now oldestLive world.store.items key)).2 =
        some item) :
      Leaving world key item (.act client)

theorem Leaving.valid {event : ClientEvent Client} (leaving : world.Leaving key item event)
    (wellFormed : world.WellFormed) : ValidKey key := by
  cases leaving with
  | visited client retrieval now oldestLive rest values during left =>
      exact wellFormed.during during key List.mem_cons_self
  | updated client update now oldestLive cas during here left =>
      have updates : update.WellFormed := wellFormed.during during
      rw [← here]
      exact updates.valid

theorem WellFormed.response {client : Client} (wellFormed : world.WellFormed) :
    world.response client ≠ some (.serverError "missing cas value") := by
  rw [World.response]
  cases during : world.phase client with
  | visiting retrieval now oldestLive keys values => cases keys <;> simp
  | finished response => exact fun same => wellFormed.during during (Option.some.inj same)
  | _ => simp

variable [DecidableEq Client]

theorem kept_there {items left : Cache Bytes Item} (kept : Kept items left)
    (there : left.lookup key = some item) : items.lookup key = some item := by
  rw [← (kept key).resolve_right (by simp [there]), there]

theorem step_items {event : ClientEvent Client} (taken : world.step event = some after)
    (there : after.store.items.lookup key = some item) :
    world.store.items.lookup key = some item ∨ world.Leaving key item event := by
  have kept : quiet event → world.store.items.lookup key = some item := by
    intro nothing
    rw [← step_quiet taken nothing, there]
  cases step_stepped taken with
  | visited client retrieval now oldestLive visited rest values during =>
      obtain ⟨items, stats, result, leaves⟩ :=
        Retrieval.visit_effect now oldestLive world.store retrieval visited
      simp only [enter_store, result] at there
      by_cases here : key = visited
      · subst here
        rw [leaves.here] at there
        exact Or.inr (.visited client retrieval now oldestLive rest values during there)
      · rw [leaves.others key here] at there
        exact Or.inl there
  | updated client update now oldestLive cas during =>
      obtain ⟨items, stats, result, outcome⟩ :=
        Update.perform_effect now oldestLive cas world.store update
      simp only [enter_store, result] at there
      rcases outcome with leaves | ⟨_, same, _⟩
      · by_cases here : key = update.key
        · subst here
          rw [leaves.here] at there
          exact Or.inr (.updated client update now oldestLive cas during rfl there)
        · rw [leaves.others key here] at there
          exact Or.inl there
      · rw [same] at there
        exact Or.inl there
  | deleted client deleted now oldestLive during =>
      obtain ⟨stats, result⟩ := Store.deleteEntry_eq now oldestLive world.store deleted
      simp only [enter_store, result] at there
      exact Or.inl (kept_there (kept_erase world.store.items deleted) there)
  | gathered client during | flushed client secs now during => exact Or.inl there
  | erased client cleared keys during =>
      exact Or.inl (kept_there (kept_erase world.store.items cleared) there)
  | evicted evicted =>
      simp only [Store.evict] at there
      split at there
      · exact Or.inl (kept_there (kept_erase world.store.items evicted) there)
      · exact Or.inl there
  | _ => exact Or.inl (kept rfl)

theorem enter_phases {client : Client} {phase : Phase} {moved : World Client}
    (wellFormed : world.WellFormed) (others : moved.phase = world.phase)
    (entered : phase.WellFormed) (other : Client) :
    ((moved.enter client phase).phase other).WellFormed := by
  rw [enter_phase, others]
  split
  · exact entered
  · exact wellFormed.phases other

theorem step_phases {event : ClientEvent Client} (wellFormed : world.WellFormed)
    (given : ∀ client command, event = .call client command → command.WellFormed)
    (taken : world.step event = some after) (other : Client) :
    (after.phase other).WellFormed := by
  cases step_stepped taken with
  | called client command phase idle begins =>
      exact enter_phases wellFormed rfl (begin_wellFormed (given client command rfl) begins) other
  | timed client now operation during =>
      have begun := wellFormed.during during
      refine enter_phases wellFormed rfl ?_ other
      exact begun
  | resumed client operation now during =>
      have begun := wellFormed.during during
      exact enter_phases wellFormed rfl (resume_wellFormed begun now _) other
  | drawn client update now oldestLive during =>
      have updates := wellFormed.during during
      refine enter_phases wellFormed rfl ?_ other
      exact updates
  | visited client retrieval now oldestLive visited rest values during =>
      have valid := wellFormed.during during
      refine enter_phases wellFormed rfl ?_ other
      exact fun key among => valid key (List.mem_cons_of_mem visited among)
  | updated client update now oldestLive cas during =>
      have updates : update.WellFormed := wellFormed.during during
      obtain ⟨items, stats, result, _⟩ :=
        Update.perform_effect now oldestLive cas world.store update
      refine enter_phases wellFormed rfl ?_ other
      rw [result]
      exact updates.answers now cas _
  | deleted client deleted now oldestLive during =>
      obtain ⟨stats, result⟩ := Store.deleteEntry_eq now oldestLive world.store deleted
      refine enter_phases wellFormed rfl ?_ other
      rw [result]
      cases visibleItem now oldestLive world.store.items deleted <;> simp [Phase.WellFormed]
  | scheduled | replied =>
      refine enter_phases wellFormed rfl ?_ other
      exact trivial
  | gathered | flushed | refused | erased | cleared =>
      exact enter_phases wellFormed rfl (by simp [Phase.WellFormed]) other
  | evicted => exact wellFormed.phases other

theorem step_wellFormed {event : ClientEvent Client} (wellFormed : world.WellFormed)
    (given : ∀ client command, event = .call client command → command.WellFormed)
    (taken : world.step event = some after) : after.WellFormed where
  phases := step_phases wellFormed given taken
  keys key item there :=
    (step_items taken there).elim (wellFormed.keys key item) (·.valid wellFormed)

end World

end Worlds

section Numbers

variable [FromRadix10SignedChecked UInt32] [FromRadix10SignedChecked UInt64]
  [FromRadix10SignedChecked Int64]

section Commands

theorem Derives.immediate_wellFormed {list : List Bytes} {command : Command}
    (derivation : Derives list (.immediate command)) :
    command.WellFormed ∧ ∀ key ∈ command.keys, key ∈ list := by
  cases derivation with
  | get some valid | gets some valid =>
      exact ⟨⟨some, valid⟩, fun key among => List.mem_cons_of_mem _ among⟩
  | gat timed some valid | gats timed some valid =>
      exact ⟨⟨some, valid⟩,
        fun key among => List.mem_cons_of_mem _ (List.mem_cons_of_mem _ among)⟩
  | delete noreply valid | incr noreply valid | decr noreply valid | touch noreply valid =>
      exact ⟨valid, by simp [Command.keys]⟩
  | flushAll | flushAllDelayed | version | verbosity | stats =>
      exact ⟨trivial, by simp [Command.keys]⟩

structure PendingStore.WellFormed (pending : PendingStore) (list : List Bytes) : Prop where
  valid : ValidKey pending.key
  inside : pending.key ∈ list
  small : pending.len.toNat ≤ maxItemSize
  token : pending.cas.isSome ↔ pending.op = .cas
  declared : DeclaresLength list pending.len

theorem Derives.store_wellFormed {list : List Bytes} {pending : PendingStore}
    (derivation : Derives list (.store pending)) : pending.WellFormed list := by
  cases derivation with
  | store noreply ordinary valid flagged timed sized small =>
      exact ⟨valid, by simp, small, by simp [ordinary], _, _, _, _, _, _, rfl, sized⟩
  | cas noreply valid flagged timed sized small token =>
      exact ⟨valid, by simp, small, by simp, .cas, _, _, _, _, _, rfl, sized⟩

inductive CommandHeader.Yields : CommandHeader → Command → Prop
  | immediate (command : Command) : Yields (.immediate command) command
  | store (pending : PendingStore) (data : Bytes) (whole : data.length = pending.len.toNat) :
      Yields (.store pending) (pending.intoCommand data)

theorem Derives.yields_wellFormed {list : List Bytes} {header : CommandHeader} {command : Command}
    (derivation : Derives list header) (yields : header.Yields command) :
    command.WellFormed ∧ ∀ key ∈ command.keys, key ∈ list := by
  cases yields with
  | immediate command => exact derivation.immediate_wellFormed
  | store pending data whole =>
      have wellFormed := derivation.store_wellFormed
      refine ⟨⟨wellFormed.valid, ?_, wellFormed.token⟩, ?_⟩
      · exact Nat.le_trans (Nat.le_of_eq whole) wellFormed.small
      · simpa [PendingStore.intoCommand, Command.keys] using wellFormed.inside

theorem Derives.yields_declared {list : List Bytes} {header : CommandHeader} {op : StoreOp}
    {args : StoreArgs} (derivation : Derives list header)
    (yields : header.Yields (.store op args)) :
    ∃ len, DeclaresLength list len ∧ args.data.length = len.toNat := by
  generalize same : Command.store op args = command at yields
  cases yields with
  | immediate command =>
      subst same
      cases derivation
  | store pending data whole =>
      cases same
      exact ⟨pending.len, derivation.store_wellFormed.declared, whole⟩

def FirstLine (stream line : Bytes) : Prop :=
  ∃ pos, memchr lf stream = some pos ∧ line = stripLineEnd (stream.take (pos + 1))

theorem cutLine_yields {line rest : Bytes} {command : Command}
    (returned : (cutLine line rest).turn = .returned (some command)) :
    ∃ header, parseCommandLine line = .ok header ∧ header.Yields command := by
  simp only [cutLine] at returned
  cases parsed : parseCommandLine line with
  | error error => simp [parsed] at returned
  | ok header =>
      refine ⟨header, rfl, ?_⟩
      cases header with
      | immediate found =>
          simp only [parsed, Turn.returned.injEq, Option.some.injEq] at returned
          rw [returned]
          exact .immediate command
      | store pending =>
          simp only [parsed, cutPayload] at returned
          split at returned
          · simp at returned
          · rename_i enough
            split at returned
            · simp only [Turn.returned.injEq, Option.some.injEq] at returned
              rw [← returned]
              refine .store pending _ ?_
              rw [List.length_take]
              omega
            · simp at returned
      | quit => simp [parsed] at returned

theorem cutTurn_yields {stream : Bytes} {command : Command}
    (returned : (cutTurn stream).turn = .returned (some command)) :
    ∃ line header, FirstLine stream line ∧ parseCommandLine line = .ok header ∧
      header.Yields command := by
  simp only [cutTurn] at returned
  split at returned
  · simp at returned
  · rename_i pos found
    obtain ⟨header, parsed, yields⟩ := cutLine_yields returned
    exact ⟨_, header, ⟨pos, found, rfl⟩, parsed, yields⟩

theorem cutTurn_suffix (stream : Bytes) : (cutTurn stream).rest <:+ stream := by
  simp only [cutTurn]
  split
  · exact List.suffix_rfl
  · exact (cutLine_suffix _ _).trans (List.drop_suffix _ _)

namespace Connection

theorem readCommandTurn_cut {conn : Connection} {command : Command}
    (returned : conn.readCommandTurn.1 = .returned (some command)) :
    (cutTurn conn.stream).turn = .returned (some command) := by
  rcases conn.readCommandTurn_cases with ⟨_, _, _, _, step, _⟩ | ⟨_, _, _, _, _, _, _, step⟩
  · rwa [step] at returned
  · simp [step] at returned

theorem readCommandTurn_suffix (conn : Connection) :
    conn.readCommandTurn.2.stream <:+ conn.stream := by
  rcases conn.readCommandTurn_cases with ⟨_, middle, _, rest, step, _⟩ |
    ⟨_, full, _, same, _, _, _, step⟩
  · have kept : (((cutTurn conn.stream).rejection.elim middle (middle.reject ·))).stream =
        (cutTurn conn.stream).rest := by
      rw [← rest]
      cases (cutTurn conn.stream).rejection <;> rfl
    rw [step]
    simp only [kept]
    exact cutTurn_suffix conn.stream
  · rw [step]
    obtain ⟨_, _, _, outcome⟩ := full.discardUntilNewline_cases
    simp only [reject_stream]
    rw [same] at outcome
    rcases outcome with ⟨pos, _, rest⟩ | ⟨_, rest⟩
    · rw [rest]
      exact List.drop_suffix _ _
    · rw [rest]
      exact List.nil_suffix

theorem readCommand_cut {conn : Connection} {command : Command}
    (found : conn.readCommand.1 = .ok (some command)) :
    ∃ rest, rest <:+ conn.stream ∧ (cutTurn rest).turn = .returned (some command) := by
  fun_induction readCommand conn with
  | case1 conn turn ih =>
      obtain ⟨rest, inside, cut⟩ := ih found
      exact ⟨rest, inside.trans conn.readCommandTurn_suffix, cut⟩
  | case2 conn other turn =>
      have same : other = some command := by simpa using found
      exact ⟨conn.stream, List.suffix_rfl, readCommandTurn_cut (by rw [turn, same])⟩
  | case3 conn error turn => simp at found

end Connection

theorem parsed_derives {line : Bytes} {header : CommandHeader}
    (parsed : parseCommandLine line = .ok header) : Derives (tokens line) header := by
  rw [parseCommandLine_eq] at parsed
  exact commandTokens_derives parsed

theorem cutTurn_wellFormed {stream : Bytes} {command : Command}
    (returned : (cutTurn stream).turn = .returned (some command)) : command.WellFormed := by
  obtain ⟨_, _, _, parsed, yields⟩ := cutTurn_yields returned
  exact ((parsed_derives parsed).yields_wellFormed yields).1

end Commands

section Servers

variable {Client : Type} [DecidableEq Client]

namespace Server

/-- A step of the server leaves the operations and the items alone, or it is a step of the store
that a well-formed command begins or goes on with. -/
theorem step_world {event : ServerEvent Client} {before after : Server Client}
    (taken : before.step event = some after) :
    before.world.Undisturbed after.world ∨ ∃ inner, before.world.step inner = some after.world ∧
      (∀ client command, inner = .call client command → command.WellFormed) ∧
      (inner.internal → event = .work inner) := by
  cases event with
  | accept client socket overflow =>
      simp only [step] at taken
      split at taken <;> cases taken
      exact Or.inl ⟨rfl, rfl⟩
  | read client =>
      simp only [step] at taken
      split at taken
      · rename_i conn _ _
        split at taken
        · cases taken
          exact Or.inl ⟨rfl, rfl⟩
        · rename_i command later turn
          have cut : (cutTurn conn.stream).turn = .returned (some command) :=
            Connection.readCommandTurn_cut (by rw [turn])
          simp only [receive] at taken
          split at taken
          · obtain ⟨world, called, same⟩ := Option.map_eq_some_iff.mp taken
            subst same
            refine Or.inr ⟨_, called, ?_, by simp [ClientEvent.internal]⟩
            intro other found same
            cases same
            exact cutTurn_wellFormed cut
          · cases taken
            simp only [respond]
            split <;> exact Or.inl ⟨rfl, rfl⟩
        · cases taken
          exact Or.inl ⟨rfl, rfl⟩
        · cases taken
          exact Or.inl ⟨rfl, rfl⟩
      · cases taken
  | work event =>
      simp only [step] at taken
      split at taken
      · rename_i inside
        obtain ⟨world, worked, same⟩ := Option.map_eq_some_iff.mp taken
        subst same
        refine Or.inr ⟨event, worked, ?_, fun _ => rfl⟩
        intro client command same
        simp [same, ClientEvent.internal] at inside
      · cases taken
  | reply client =>
      simp only [step] at taken
      split at taken
      · obtain ⟨world, replied, same⟩ := Option.map_eq_some_iff.mp taken
        subst same
        refine Or.inr ⟨.reply client, ?_, by simp, by simp [ClientEvent.internal]⟩
        simp only [respond]
        split <;> exact replied
      · cases taken

theorem step_wellFormed {event : ServerEvent Client} {before after : Server Client}
    (taken : before.step event = some after) (wellFormed : before.world.WellFormed) :
    after.world.WellFormed := by
  rcases step_world taken with undisturbed | ⟨inner, worked, given, _⟩
  · exact undisturbed.wellFormed wellFormed
  · exact World.step_wellFormed wellFormed given worked

theorem run_wellFormed {events : List (ServerEvent Client)} {server : Server Client}
    (reached : run step events new = some server) : server.world.WellFormed := by
  let known : Server Client → Prop := fun server => server.world.WellFormed
  have all : known server := @run_keeps _ _ step known (fun _ => True) (fun _ _ => trivial)
    (fun taken _ wellFormed => step_wellFormed taken wellFormed) _ _ _ reached trivial
    World.new_wellFormed
  exact all

end Server

/-- Whatever a client sends and however it arrives, a command that is read stands on a line and
is well formed; so no run of the server reaches the branch of a swap without its token, and no
run stores an item under a key that is not valid. -/
theorem only_wellFormed_commands :
    (∀ (conn : Connection) (command : Command), conn.readCommand.1 = .ok (some command) →
      command.WellFormed ∧ ∃ rest line, rest <:+ conn.stream ∧ FirstLine rest line ∧
        (∃ header, parseCommandLine line = .ok header ∧ header.Yields command) ∧
        (∀ key ∈ command.keys, key <:+: line) ∧
        ∀ op args, command = .store op args →
          ∃ len, DeclaresLength (tokens line) len ∧ args.data.length = len.toNat) ∧
    ∀ (events : List (ServerEvent Client)) (server : Server Client),
      run Server.step events .new = some server →
        (∀ key item, server.world.store.items.lookup key = some item → ValidKey key) ∧
        (∀ client args now oldestLive cas,
          server.world.phase client = .updating (.store .cas args) now oldestLive cas →
            args.cas ≠ none) ∧
        ∀ client, server.world.response client ≠ some (.serverError "missing cas value") := by
  constructor
  · intro conn command found
    obtain ⟨rest, inside, cut⟩ := Connection.readCommand_cut found
    obtain ⟨line, header, first, parsed, yields⟩ := cutTurn_yields cut
    have derivation := parsed_derives parsed
    obtain ⟨wellFormed, keys⟩ := derivation.yields_wellFormed yields
    refine ⟨wellFormed, rest, line, inside, first, ⟨header, parsed, yields⟩, ?_, ?_⟩
    · exact fun key among => mem_fields (keys key among)
    · rintro op args rfl
      exact derivation.yields_declared yields
  · intro events server reached
    have wellFormed := Server.run_wellFormed reached
    refine ⟨wellFormed.keys, ?_, fun client => wellFormed.response⟩
    intro client args now oldestLive cas during missing
    have swaps : (Update.store .cas args).WellFormed := wellFormed.during during
    simpa [missing] using swaps.2.2

end Servers

end Numbers

section Swap

def swapSocket : Socket :=
  ⟨[ascii "get a\tb\r\ncas k 7 0 ", ascii "2 5\r\na", ascii "\n\r\n"], by decide⟩

def swapArgs : StoreArgs :=
  { key := ascii "k", flags := 7, exptime := 0, data := ascii "a\n", noreply := false, cas := some 5 }

def swapEvents : List (ServerEvent Nat) :=
  [.accept 0 swapSocket .tokio, .read 0, .read 0, .work (.readClock 0 1000),
    .work (.readCutoff 0), .work (.draw 0)]

def swapServer : Server Nat := (run Server.step swapEvents .new).get (by decide +kernel)

theorem swap_wellFormed :
    (Command.store .cas swapArgs).WellFormed ∧
      swapServer.world.phase 0 = .updating (.store .cas swapArgs) 1000 none 1 ∧
      swapArgs.cas ≠ none := by
  have during : swapServer.world.phase 0 = .updating (.store .cas swapArgs) 1000 none 1 := by
    decide +kernel
  have known := @only_wellFormed_commands _ _ _ Nat _
  exact ⟨(known.1 (.new swapSocket .tokio) _ (by decide +kernel)).1, during,
    (known.2 swapEvents swapServer (Option.some_get _).symm).2.1 0 swapArgs 1000 none 1 during⟩

end Swap

end Ousagi
