import Ousagi.ClientsChecks
import Ousagi.ServerCore
import Ousagi.SessionRuns

/-!
A client that has the server to itself: its turns on the server are those of a
session on the sequential store.
-/

namespace Ousagi

open Library

namespace Server

variable {Client : Type}

structure Hosts (client : Client) (session : Session Store) (server : Server Client) : Prop where
  conn : server.conn client = some session.conn
  idle : server.world.phase client = .idle
  store : server.world.store = session.store

def workEvents (client : Client) (now : UInt64) (command : Command) (store : Store) :
    List (ClientEvent Client) :=
  if command.begin = some .clearing then
    .act client :: (store.items.keys.map (.clear client) ++ [.cleared client])
  else World.script client now command

theorem workEvents_internal {client : Client} (now : UInt64) (command : Command) (store : Store) :
    ∀ event ∈ workEvents client now command store, event.internal := by
  intro event among
  rw [workEvents] at among
  split at among
  · simp only [List.mem_cons, List.mem_append, List.mem_map, List.not_mem_nil, or_false] at among
    rcases among with rfl | ⟨key, _, rfl⟩ | rfl <;> rfl
  · revert event
    cases command <;> simp [World.script, ClientEvent.internal]

variable [DecidableEq Client] {client : Client} {server : Server Client}

theorem respond_eq (conn : Connection) (noreply : Bool) (response : Response) :
    server.respond client conn noreply response =
      server.attach client (some (if noreply then conn
        else (conn.writeResponse response).record (.replied response))) := by
  cases noreply <;> rfl

theorem attach_hosts {session : Session Store} (idle : server.world.phase client = .idle)
    (store : server.world.store = session.store) :
    (server.attach client (some session.conn)).Hosts client session :=
  ⟨by simp [attach], idle, store⟩

theorem clear_keys {keys : List Bytes} {world : World Client}
    (erasing : world.phase client = .erasing keys) :
    ∃ after, run World.step (keys.map (.clear client) ++ [.cleared client]) world = some after ∧
      after.response client = some .ok ∧ after.store = { world.store with
        items := keys.foldl (fun items key => items.erase key) world.store.items } := by
  induction keys generalizing world with
  | nil =>
      refine ⟨world.enter client (.finished .ok), ?_, ?_, rfl⟩
      · simp [run, World.step, erasing]
      · simp [World.response]
  | cons key rest ih =>
      have onward : ({ world with store.items := world.store.items.erase key }.enter client
          (.erasing rest)).phase client = .erasing rest := World.enter_self _ _
      obtain ⟨after, reached, response, store⟩ := ih onward
      refine ⟨after, ?_, response, store⟩
      simp only [List.map_cons, List.cons_append, run, World.step, erasing, Option.bind_some,
        List.erase_cons_head]
      exact reached

theorem flush_now {delay : Option UInt32} (immediate : delay.getD 0 = 0) (now : UInt64)
    (store : Store) :
    store.flush delay now = (.ok, { store.count .cmdFlush 1 with items := ∅ }) := by
  cases delay with
  | none => rfl
  | some secs => exact if_pos immediate

theorem works_alone (now : UInt64) {command : Command} {phase : Phase}
    (idle : server.world.phase client = .idle) (begins : command.begin = some phase) :
    ∃ called after, server.world.step (.call client command) = some called ∧
      run World.step (workEvents client now command server.world.store) called = some after ∧
      after.response client = some (handle now command server.world.store).1 ∧
      after.store = (handle now command server.world.store).2 := by
  by_cases delayed : phase = .clearing
  · subst delayed
    rw [workEvents, if_pos begins]
    cases command with
    | flushAll delay noreply =>
        have immediate : delay.getD 0 = 0 := by
          by_contra positive
          simp [Command.begin, positive] at begins
        let called := { server.world with
          store := server.world.store.count .cmdFlush 1 }.enter client .clearing
        let gathered := called.enter client (.erasing called.store.items.keys)
        have during : called.phase client = .clearing := World.enter_self _ _
        have erasing : gathered.phase client = .erasing called.store.items.keys :=
          World.enter_self _ _
        obtain ⟨after, reached, response, store⟩ := clear_keys erasing
        refine ⟨called, after, ?_, ?_, ?_, ?_⟩
        · simp [World.step, idle, Command.begin, immediate, Command.count, called]
        · rw [run, World.step, World.act, during]
          exact reached
        · rw [response, handle, flush_now immediate]
        · have empty : called.store.items.keys.foldl (fun items key => items.erase key)
              gathered.store.items = ∅ := Cache.erase_keys called.store.items
          rw [store, empty, handle, flush_now immediate]
          rfl
    | _ => cases begins
  · rw [workEvents, if_neg (by simp [begins, delayed])]
    obtain ⟨after, reached, response, store⟩ :=
      World.runs_alone command server.world idle begins delayed
    obtain ⟨called, call, onward⟩ := run_cons reached
    exact ⟨called, after, call, onward, response, store⟩

theorem receive_begun {conn : Connection} {command : Command} {phase : Phase}
    {called : World Client} (begins : command.begin = some phase)
    (call : server.world.step (.call client command) = some called) :
    server.receive client conn command =
      some ({ server with
        world := called
        noreply := Function.update server.noreply client command.noreply }.attach client
          (some (conn.record (.received command)))) := by
  simp only [receive, begins, call, Option.map_some]

theorem receive_answered {command : Command} {session : Session Store}
    (hosts : server.Hosts client session) (conn : Connection) (now : UInt64)
    (answered : command.begin = none) :
    ∃ last, server.receive client conn command = some last ∧
      last.Hosts client
        { conn := (answer (handle now) command conn session.store).1
          store := (answer (handle now) command conn session.store).2 } := by
  have timeless : handle now command session.store = ((handle 0 command session.store).1,
      session.store) := by
    cases command <;> first | rfl | cases answered
  simp only [receive, answered, respond_eq, hosts.store]
  refine ⟨_, rfl, ?_, hosts.idle, ?_⟩
  · simp only [attach, Function.update_self, answer, timeless]
    split <;> rfl
  · simp only [answer, timeless]
    split <;> exact hosts.store

end Server

section Numbers

variable [FromRadix10SignedChecked UInt32] [FromRadix10SignedChecked UInt64]
  [FromRadix10SignedChecked Int64] {Client : Type} [DecidableEq Client]

namespace Server

/-- The events of one pass of a session whose client is alone. -/
def turnEvents (client : Client) (now : UInt64) (session : Session Store) :
    List (ServerEvent Client) :=
  .read client ::
    match session.conn.readCommandTurn.1 with
    | .returned (some command) =>
        if command.begin = none then []
        else (workEvents client now command session.store).map .work ++ [.reply client]
    | _ => []

section Alone

variable {client : Client} {server : Server Client}

theorem run_work {events : List (ClientEvent Client)} {world : World Client}
    (inside : ∀ event ∈ events, event.internal)
    (reached : run World.step events server.world = some world) :
    run step (events.map .work) server = some { server with world } := by
  induction events generalizing server with
  | nil =>
      have same : server.world = world := Option.some.inj reached
      rw [← same]
      rfl
  | cons event rest ih =>
      obtain ⟨middle, taken, onward⟩ := run_cons reached
      have moved := @ih { server with world := middle }
        (fun other among => inside other (List.mem_cons_of_mem event among)) onward
      rw [List.map_cons, run, step, if_pos (inside event List.mem_cons_self), taken]
      exact moved

theorem reply_alone {conn : Connection} {response : Response}
    (connected : server.conn client = some conn)
    (answered : server.world.response client = some response) :
    server.step (.reply client) =
      some ({ server with world := server.world.enter client .idle }.attach client
        (some (if server.noreply client then conn
          else (conn.writeResponse response).record (.replied response)))) := by
  simp only [step, connected, answered, World.step, Option.map_some, respond_eq]

theorem Hosts.read_again {session : Session Store} (hosts : server.Hosts client session)
    (turn : session.conn.readCommandTurn.1 = .again) :
    server.step (.read client) =
      some (server.attach client (some session.conn.readCommandTurn.2)) := by
  simp only [step, hosts.conn, hosts.idle]
  generalize session.conn.readCommandTurn = pass at turn ⊢
  obtain ⟨result, conn⟩ := pass
  subst turn
  rfl

theorem Hosts.read_received {session : Session Store} {command : Command}
    (hosts : server.Hosts client session)
    (turn : session.conn.readCommandTurn.1 = .returned (some command)) :
    server.step (.read client) = server.receive client session.conn.readCommandTurn.2 command := by
  simp only [step, hosts.conn, hosts.idle]
  generalize session.conn.readCommandTurn = pass at turn ⊢
  obtain ⟨result, conn⟩ := pass
  subst turn
  rfl

theorem Hosts.works {session : Session Store} {command : Command} {phase : Phase}
    (hosts : server.Hosts client session) (now : UInt64) (begins : command.begin = some phase)
    (turn : session.conn.readCommandTurn.1 = .returned (some command)) :
    ∃ last, run step (.read client ::
        ((workEvents client now command session.store).map .work ++ [.reply client])) server =
          some last ∧
      last.Hosts client
        { conn := (answer (handle now) command session.conn.readCommandTurn.2 session.store).1
          store :=
            (answer (handle now) command session.conn.readCommandTurn.2 session.store).2 } := by
  obtain ⟨called, worked, call, works, response, kept⟩ := works_alone now hosts.idle begins
  rw [hosts.store] at works response kept
  let conn := session.conn.readCommandTurn.2.record (.received command)
  let begun := { server with
    world := called
    noreply := Function.update server.noreply client command.noreply }.attach client (some conn)
  let finished := { begun with world := worked }
  have received : server.step (.read client) = some begun :=
    (hosts.read_received turn).trans (receive_begun begins call)
  have onward := @run_work _ _ _ _ _ begun _ worked
    (workEvents_internal now command session.store) works
  have connected : finished.conn client = some conn := by simp [finished, begun, attach]
  have noreply : finished.noreply client = command.noreply := by simp [finished, begun, attach]
  have replied := reply_alone connected response
  rw [noreply] at replied
  let reply := (handle now command session.store).1
  refine ⟨{ finished with world := worked.enter client .idle }.attach client
    (some (if command.noreply then conn
      else (conn.writeResponse reply).record (.replied reply))), ?_, ?_, World.enter_self _ _, ?_⟩
  · rw [run, received, Option.bind_some, run_append, onward]
    simp only [Option.bind_some, run]
    rw [replied]
    rfl
  · simp only [attach, Function.update_self, answer]
    split <;> rfl
  · simp only [answer]
    split <;> exact kept

/-- A server that hosts a session alone follows each of its passes. -/
theorem Hosts.next {session after : Session Store} {now : UInt64}
    (hosts : server.Hosts client session) (stepped : session.next (handle now) = some after) :
    ∃ last, run step (turnEvents client now session) server = some last ∧
      last.Hosts client after := by
  rcases session.next_cases (handle now) stepped with ⟨turn, same⟩ | ⟨command, turn, conn, store⟩
  · subst same
    simp only [turnEvents, turn, run, hosts.read_again turn, Option.bind_some]
    exact ⟨_, rfl, attach_hosts hosts.idle hosts.store⟩
  · have result : after =
        { conn := (answer (handle now) command session.conn.readCommandTurn.2 session.store).1
          store := (answer (handle now) command session.conn.readCommandTurn.2 session.store).2 } := by
      rw [← conn, ← store]
    rw [result]
    simp only [turnEvents, turn]
    cases begins : command.begin with
    | none =>
        obtain ⟨last, received, hosted⟩ :=
          receive_answered hosts session.conn.readCommandTurn.2 now begins
        refine ⟨last, ?_, hosted⟩
        simp only [if_pos, run, hosts.read_received turn, received, Option.bind_some]
    | some phase =>
        rw [if_neg (by simp)]
        exact hosts.works now begins turn

theorem Hosts.reaches {first last : Session Store} {now : UInt64}
    (hosts : server.Hosts client first)
    (reached : StateTransition.Reaches (Session.next (handle now)) first last) :
    ∃ events after, run step events server = some after ∧ after.Hosts client last := by
  induction reached with
  | refl => exact ⟨[], server, rfl, hosts⟩
  | @tail session next earlier stepped ih =>
      obtain ⟨events, middle, there, hosted⟩ := ih
      obtain ⟨after, turned, following⟩ := hosted.next stepped
      refine ⟨events ++ turnEvents client now session, after, ?_, following⟩
      rw [run_append, there]
      exact turned

end Alone

end Server

end Numbers

end Ousagi
