import Ousagi.ServerSessions

/-!
No session of a running server waits for another one: it can always take a step of
its own, and the number of its steps is bounded by the bytes of its client alone.
-/

namespace Ousagi

open Library

/-- How many steps of its own a client takes until it is at no command.  The keys that a clearing
erases one by one are left out. -/
def Phase.steps : Phase → Nat
  | .idle => 0
  | .called (.retrieve _ keys) => keys.length + 3
  | .timed (.retrieve _ keys) _ => keys.length + 2
  | .visiting _ _ _ keys _ => keys.length + 1
  | .called (.update _) => 5
  | .timed (.update _) _ => 4
  | .drawing _ _ _ => 3
  | .updating _ _ _ _ => 2
  | .called (.delete _) => 4
  | .timed (.delete _) _ => 3
  | .deleting _ _ _ => 2
  | .scheduling _ => 3
  | .scheduled _ _ => 2
  | .clearing => 3
  | .erasing _ => 2
  | .finished _ => 1

def ClientEvent.erases {Client : Type} : ClientEvent Client → Bool
  | .clear _ _ => true
  | _ => false

def ServerEvent.own {Client : Type} [DecidableEq Client] (client : Client) :
    ServerEvent Client → Bool
  | .accept _ _ _ => false
  | .read actor | .reply actor => actor = client
  | .work event => event.actor = some client

/-- The own steps of a session, but for the keys that its clearings erase. -/
def ServerEvent.counts {Client : Type} [DecidableEq Client] (client : Client) :
    ServerEvent Client → Bool
  | .accept _ _ _ => false
  | .read actor | .reply actor => actor = client
  | .work event => event.actor = some client && !event.erases

theorem begin_steps {command : Command} {phase : Phase} (begins : command.begin = some phase) :
    phase.steps ≤ command.keys.length + 4 := by
  cases command with
  | get keys | getAndTouch keys =>
      cases begins
      simp [Phase.steps, Command.keys]
  | store | delete | arithmetic | touch =>
      cases begins
      simp [Phase.steps, Command.keys]
  | flushAll delay noreply =>
      cases begins
      split <;> simp [Phase.steps]
  | version | verbosity | stats => cases begins

section Steps

variable {Client : Type}

namespace Server

/-- How many counted steps the session of the client has before it, at most. -/
def effort (client : Client) (server : Server Client) : Nat :=
  (server.conn client).elim 0 (fun conn => 6 * conn.stream.length + 1) +
    (server.world.phase client).steps

theorem effort_connected {client : Client} {server : Server Client} {conn : Connection}
    (connected : server.conn client = some conn) :
    server.effort client =
      6 * conn.stream.length + 1 + (server.world.phase client).steps := by
  rw [effort, connected, Option.elim_some]

theorem effort_same {client : Client} {before after : Server Client}
    (same : before.Same client after) : after.effort client = before.effort client := by
  rw [effort, effort, same.conn, same.phase]

theorem response_steps {client : Client} {world : World Client} {response : Response}
    (finished : world.response client = some response) : 1 ≤ (world.phase client).steps := by
  rw [World.response] at finished
  split at finished
  · simp [*, Phase.steps]
  · simp [*, Phase.steps]
  · cases finished

end Server

variable [DecidableEq Client]

theorem World.step_steps {event : ClientEvent Client} {world after : World Client}
    {client : Client} (taken : world.step event = some after) (inside : event.internal)
    (mine : event.actor = some client) :
    (after.phase client).steps + (if event.erases then 0 else 1) ≤
      (world.phase client).steps := by
  cases step_stepped taken with
  | called | replied => cases inside
  | evicted => cases mine
  | erased actor key keys during =>
      cases mine
      rw [enter_self, during]
      exact Nat.le_refl _
  | timed actor now operation during =>
      cases mine
      rw [enter_self, during]
      cases operation <;> simp [Phase.steps, ClientEvent.erases]
  | resumed actor operation now during =>
      cases mine
      rw [enter_self, during]
      cases operation <;> simp [Phase.steps, Operation.resume, ClientEvent.erases]
  | scheduled _ _ _ during | drawn _ _ _ _ during | visited _ _ _ _ _ _ _ during
    | updated _ _ _ _ _ during | deleted _ _ _ _ during | gathered _ during | flushed _ _ _ during
    | refused _ _ _ _ _ during | cleared _ during =>
      cases mine
      rw [enter_self, during]
      simp [Phase.steps, ClientEvent.erases]

namespace Server

theorem effort_attach (client : Client) (server : Server Client) (conn : Connection) :
    (server.attach client (some conn)).effort client =
      6 * conn.stream.length + 1 + (server.world.phase client).steps :=
  effort_connected ((attach_conn _ _ _ _).trans (if_pos rfl))

theorem effort_respond (client : Client) (server : Server Client) (conn : Connection)
    (quiet : Bool) (response : Response) :
    (server.respond client conn quiet response).effort client =
      6 * conn.stream.length + 1 + (server.world.phase client).steps := by
  cases quiet <;> exact effort_attach _ _ _

theorem counts_actor {event : ServerEvent Client} {client : Client}
    (counted : event.counts client) : event.actor = some client := by
  cases event with
  | accept => cases counted
  | read actor | reply actor => exact congrArg some (of_decide_eq_true counted)
  | work inner =>
      simp only [ServerEvent.counts, Bool.and_eq_true, decide_eq_true_eq] at counted
      exact counted.1

theorem counts_own {event : ServerEvent Client} {client : Client} (counted : event.counts client) :
    event.own client := by
  cases event with
  | accept => cases counted
  | read | reply => exact counted
  | work inner => exact (Bool.and_eq_true_iff.mp counted).1

theorem own_accept {event : ServerEvent Client} {client : Client} (mine : event.own client)
    (socket : Socket) (overflow : Overflow) : event ≠ .accept client socket overflow := by
  rintro rfl
  cases mine

end Server

end Steps

section Numbers

variable [FromRadix10SignedChecked UInt32] [FromRadix10SignedChecked UInt64]
  [FromRadix10SignedChecked Int64]

theorem Derives.keys_length {list : List Bytes} {header : CommandHeader} {command : Command}
    (derivation : Derives list header) (yields : header.Yields command) :
    command.keys.length ≤ list.length := by
  cases yields with
  | immediate command => cases derivation <;> simp [Command.keys] <;> omega
  | store pending data whole =>
      cases derivation <;> simp [PendingStore.intoCommand, Command.keys]

theorem cutTurn_keys {stream : Bytes} {command : Command}
    (returned : (cutTurn stream).turn = .returned (some command)) :
    (cutTurn stream).rest.length + command.keys.length ≤ stream.length := by
  cases found : memchr lf stream with
  | none => simp [cutTurn, found] at returned
  | some pos =>
      simp only [cutTurn, found] at returned ⊢
      obtain ⟨header, parsed, yields⟩ := cutLine_yields returned
      have keys := (parsed_derives parsed).keys_length yields
      have fewer := fields_length_le space (stripLineEnd (stream.take (pos + 1)))
      have stripped : (stripLineEnd (stream.take (pos + 1))).length ≤ pos + 1 :=
        (List.rdropWhile_prefix _ _).length_le.trans (List.length_take_le _ _)
      have left := cutLine_rest (stripLineEnd (stream.take (pos + 1))) (stream.drop (pos + 1))
      have bound := memchr_cut found
      rw [List.length_drop] at left
      simp only [tokens] at keys
      omega

theorem readCommandTurn_keys {conn : Connection} {command : Command}
    (returned : conn.readCommandTurn.1 = .returned (some command)) :
    conn.readCommandTurn.2.stream.length + command.keys.length ≤ conn.stream.length := by
  have cut := Connection.readCommandTurn_cut returned
  have quiet : (cutTurn conn.stream).rejection = none := by
    by_contra rejects
    simp [cutTurn_rejects rejects] at cut
  rcases conn.readCommandTurn_cases with ⟨_, middle, _, rest, step, _⟩ | ⟨_, _, _, _, _, _, _, step⟩
  · rw [step, quiet, Option.elim_none, rest]
    exact cutTurn_keys cut
  · simp [step] at returned

variable {Client : Type} [DecidableEq Client]

namespace Server

theorem step_effort {event : ServerEvent Client} {server after : Server Client} {client : Client}
    (taken : server.step event = some after)
    (further : ∀ socket overflow, event ≠ .accept client socket overflow) :
    after.effort client + (if event.counts client then 1 else 0) ≤ server.effort client := by
  by_cases mine : event.actor = some client
  · have once : (if event.counts client then 1 else 0) ≤ 1 := by split <;> omega
    cases step_stepped taken with
    | accepted actor socket overflow =>
        cases mine
        exact absurd rfl (further socket overflow)
    | refused actor conn connected idle turn =>
        cases mine
        have shorter := conn.readCommandTurn_shrinks (Or.inl turn)
        rw [effort_attach, effort_connected connected]
        omega
    | began actor conn command phase connected idle turn begins =>
        cases mine
        have shorter := conn.readCommandTurn_shrinks (Or.inr ⟨command, turn⟩)
        have keys := readCommandTurn_keys turn
        have steps := begin_steps begins
        have same : (conn.readCommandTurn.2.record (.received command)).stream =
          conn.readCommandTurn.2.stream := rfl
        rw [effort_attach, effort_connected connected, World.enter_self, same]
        omega
    | answered actor conn command connected idle turn storeless =>
        cases mine
        have shorter := conn.readCommandTurn_shrinks (Or.inr ⟨command, turn⟩)
        have same : (conn.readCommandTurn.2.record (.received command)).stream =
          conn.readCommandTurn.2.stream := rfl
        rw [effort_respond, effort_connected connected, same]
        omega
    | ended actor conn connected idle turn =>
        cases mine
        have free : (server.closed client).conn client = none := by simp [closed]
        have still : (server.closed client).world.phase client = .idle := idle
        rw [effort_connected connected, effort, free, still, idle, Option.elim_none]
        omega
    | worked inner world inside worked =>
        have steps := World.step_steps worked inside mine
        have counted : (if (ServerEvent.work inner).counts client then 1 else 0) =
            if inner.erases then 0 else 1 := by
          have acts : inner.actor = some client := mine
          cases erases : inner.erases <;> simp [ServerEvent.counts, acts, erases]
        rw [counted]
        exact (Nat.add_assoc _ _ _).trans_le (Nat.add_le_add_left steps _)
    | replied actor conn response connected finished =>
        cases mine
        have steps := response_steps finished
        rw [effort_respond, effort_connected connected, World.enter_self, Phase.steps]
        omega
  · have quiet : ¬event.counts client := fun counted => mine (counts_actor counted)
    rw [if_neg quiet, effort_same (step_other taken mine)]
    exact Nat.le_refl _

theorem run_effort {events : List (ServerEvent Client)} {client : Client}
    (further : ∀ socket overflow, .accept client socket overflow ∉ events)
    {server after : Server Client} (reached : run step events server = some after) :
    after.effort client + events.countP (·.counts client) ≤ server.effort client := by
  induction events generalizing server with
  | nil =>
      cases Option.some.inj reached
      exact Nat.le_refl _
  | cons event rest ih =>
      obtain ⟨second, taken, onward⟩ := run_cons reached
      have first := step_effort taken (fun socket overflow same =>
        further socket overflow (same ▸ List.mem_cons_self))
      have later := ih (fun socket overflow among =>
        further socket overflow (List.mem_cons_of_mem event among)) onward
      rw [List.countP_cons]
      omega

theorem session_enabled {client : Client} {server : Server Client} {conn : Connection}
    (connected : server.conn client = some conn) :
    ∃ own after, (∀ event ∈ own, ServerEvent.own client event) ∧
      run step own server = some after ∧ 0 < own.countP (·.counts client) := by
  have single : ∀ event : ServerEvent Client, event.counts client → (server.step event).isSome →
      ∃ own after, (∀ event ∈ own, ServerEvent.own client event) ∧
        run step own server = some after ∧ 0 < own.countP (·.counts client) := by
    intro event counted enabled
    obtain ⟨after, taken⟩ := Option.isSome_iff_exists.mp enabled
    refine ⟨[event], after, List.forall_mem_singleton.mpr (counts_own counted), ?_, ?_⟩
    · rw [run, taken]
      rfl
    · simp [counted]
  have inner : ∀ event : ClientEvent Client, event.internal → event.actor = some client →
      event.erases = false → (server.world.step event).isSome →
      ∃ own after, (∀ event ∈ own, ServerEvent.own client event) ∧
        run step own server = some after ∧ 0 < own.countP (·.counts client) := by
    intro event inside acts keeps enabled
    refine single (.work event) (by simp [ServerEvent.counts, acts, keeps]) ?_
    simpa [step, inside] using enabled
  cases during : server.world.phase client with
  | idle =>
      refine single (.read client) (by simp [ServerEvent.counts]) ?_
      simp only [step, connected, during]
      split
      · rfl
      · rename_i command later turn
        cases begins : command.begin <;> simp [receive, begins, World.step, during]
      · rfl
      · rfl
  | called operation => exact inner (.readClock client 0) rfl rfl rfl (by simp [World.step, during])
  | scheduling secs => exact inner (.readClock client 0) rfl rfl rfl (by simp [World.step, during])
  | timed operation now =>
      exact inner (.readCutoff client) rfl rfl rfl (by simp [World.step, during])
  | drawing update now oldestLive =>
      exact inner (.draw client) rfl rfl rfl (by simp [World.step, during])
  | updating | deleting | clearing | scheduled =>
      exact inner (.act client) rfl rfl rfl (by simp [World.step, World.act, during])
  | erasing keys =>
      -- The keys that are left are erased in their order, and then the clearing is over.
      obtain ⟨world, cleared, _⟩ := clear_keys during
      have inside : ∀ event ∈ keys.map (ClientEvent.clear client) ++ [.cleared client],
          event.internal ∧ event.actor = some client := by
        intro event among
        rcases List.mem_append.mp among with erased | last
        · obtain ⟨key, _, rfl⟩ := List.mem_map.mp erased
          exact ⟨rfl, rfl⟩
        · rw [List.mem_singleton.mp last]
          exact ⟨rfl, rfl⟩
      refine ⟨_, _, ?_, run_work (fun event among => (inside event among).1) cleared, ?_⟩
      · exact List.forall_mem_map.mpr fun event among => decide_eq_true (inside event among).2
      · rw [List.countP_pos_iff]
        exact ⟨.work (.cleared client), by simp, by simp [ServerEvent.counts, ClientEvent.actor,
          ClientEvent.erases]⟩
  | visiting retrieval now oldestLive keys values =>
      cases keys with
      | nil =>
          refine single (.reply client) (by simp [ServerEvent.counts]) ?_
          simp [step, World.step, World.response, during, connected]
      | cons key rest =>
          exact inner (.act client) rfl rfl rfl (by simp [World.step, World.act, during])
  | finished response =>
      refine single (.reply client) (by simp [ServerEvent.counts]) ?_
      simp [step, World.step, World.response, during, connected]

theorem session_finishes (client : Client) (server : Server Client) :
    ∃ own after, (∀ event ∈ own, ServerEvent.own client event) ∧
      run step own server = some after ∧ after.conn client = none := by
  induction size : server.effort client using Nat.strongRecOn generalizing server with
  | ind effort ih =>
      cases connected : server.conn client with
      | none => exact ⟨[], server, nofun, rfl, connected⟩
      | some conn =>
          obtain ⟨own, second, mine, onward, counted⟩ := session_enabled connected
          have less := run_effort
            (fun socket overflow among => own_accept (mine _ among) socket overflow rfl) onward
          obtain ⟨more, after, all, reached, closed⟩ :=
            ih (second.effort client) (by omega) second rfl
          refine ⟨own ++ more, after, List.forall_mem_append.mpr ⟨mine, all⟩, ?_, closed⟩
          rw [run_append, onward]
          exact reached

end Server

variable {server : Server Client}

end Numbers

end Ousagi
