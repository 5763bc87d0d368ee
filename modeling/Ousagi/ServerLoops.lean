import Ousagi.ServerSessions

/-!
Every session of the server is a session of `session.rs`: what the other sessions can change of
it are the responses that its commands are handed, and nothing else.  So it executes the requests
of its own client's bytes and no others.
-/

namespace Ousagi

open Library StateTransition

/-- A handler that has its responses beforehand, whatever it is asked. -/
def handOut (_ : Command) : List Response → Response × List Response
  | [] => (.ok, [])
  | response :: rest => (response, rest)

section Worlds

variable {Client : Type} [DecidableEq Client]

namespace World

theorem internal_onward {event : ClientEvent Client} {world after : World Client} {client : Client}
    (taken : world.step event = some after) (inside : event.internal)
    (mine : event.actor = some client) : after.phase client ≠ .idle := by
  cases step_stepped taken with
  | called | replied => cases inside
  | evicted => cases mine
  | resumed actor operation =>
      cases mine
      rw [enter_self]
      cases operation <;> exact nofun
  | timed | scheduled | drawn | visited | updated | deleted | gathered | flushed | refused | erased
    | cleared =>
      cases mine
      rw [enter_self]
      exact nofun

end World

end Worlds

section Numbers

variable [FromRadix10SignedChecked UInt32] [FromRadix10SignedChecked UInt64]
  [FromRadix10SignedChecked Int64]

section Handler

variable {σ : Type} (handler : Command → σ → Response × σ)

theorem Session.next_again {session : Session σ} (turn : session.conn.readCommandTurn.1 = .again) :
    session.next handler = some { session with conn := session.conn.readCommandTurn.2 } := by
  generalize pass : session.conn.readCommandTurn = result at turn ⊢
  obtain ⟨ended, later⟩ := result
  subst turn
  simp [next, pass]

theorem Session.next_returned {session : Session σ} {command : Command}
    (turn : session.conn.readCommandTurn.1 = .returned (some command)) :
    session.next handler = some {
      conn := (answer handler command session.conn.readCommandTurn.2 session.store).1
      store := (answer handler command session.conn.readCommandTurn.2 session.store).2 } := by
  generalize pass : session.conn.readCommandTurn = result at turn ⊢
  obtain ⟨ended, later⟩ := result
  subst turn
  simp [next, pass]

theorem Session.reached_end {socket : Socket} {overflow : Overflow} {store : σ}
    {session : Session σ}
    (reached : Reaches (Session.next handler) (.start socket overflow store) session)
    (turn : session.conn.readCommandTurn.1 = .returned none ∨
      ∃ error, session.conn.readCommandTurn.1 = .failed error) :
    process handler socket overflow store =
      (session.conn.readCommandTurn.1.ending, session.conn.readCommandTurn.2, session.store) := by
  have same : process handler socket overflow store = serve handler session.conn session.store :=
    reaches_invariant (fun later => process handler socket overflow store =
      serve handler later.conn later.store) reached rfl
      fun _ step same => same.trans (Session.next_serve handler step)
  rw [same]
  apply Session.serve_stopped handler
  generalize pass : session.conn.readCommandTurn = result at turn
  obtain ⟨ended, later⟩ := result
  rcases turn with rfl | ⟨error, rfl⟩ <;> simp [next, pass]

end Handler

def Handed (socket : Socket) (overflow : Overflow) (given : List Response) (conn : Connection) :
    Prop :=
  ∀ rest, Reaches (Session.next handOut) (.start socket overflow (given ++ rest))
    { conn, store := rest }

section Loops

variable {socket : Socket} {overflow : Overflow} {given : List Response} {conn : Connection}

theorem Handed.start (socket : Socket) (overflow : Overflow) :
    Handed socket overflow [] (.new socket overflow) := fun _ => .refl

theorem Handed.again (handed : Handed socket overflow given conn)
    (turn : conn.readCommandTurn.1 = .again) :
    Handed socket overflow given conn.readCommandTurn.2 :=
  fun rest => (handed rest).tail (Session.next_again handOut turn)

theorem Handed.answered (handed : Handed socket overflow given conn) {command : Command}
    (turn : conn.readCommandTurn.1 = .returned (some command)) (response : Response) :
    Handed socket overflow (given ++ [response])
      (if command.noreply then conn.readCommandTurn.2.record (.received command)
        else ((conn.readCommandTurn.2.record (.received command)).writeResponse response).record
          (.replied response)) := by
  intro rest
  rw [List.append_assoc]
  refine (handed (response :: rest)).tail ((Session.next_returned handOut turn).trans ?_)
  cases quiet : command.noreply <;> simp [answer, handOut, quiet]

theorem Handed.ended (handed : Handed socket overflow given conn)
    (turn : conn.readCommandTurn.1 = .returned none ∨
      ∃ error, conn.readCommandTurn.1 = .failed error) :
    process handOut socket overflow given =
      (conn.readCommandTurn.1.ending, conn.readCommandTurn.2, []) := by
  have reached := handed []
  rw [List.append_nil] at reached
  exact Session.reached_end handOut reached turn

theorem Handed.agrees (handed : Handed socket overflow given conn)
    (short : linesShort socket.stream) :
    Session.Agrees socket.stream { conn, store := ([] : List Response) } := by
  refine reaches_invariant (Session.Agrees socket.stream) (handed []) ⟨?_, rfl, rfl⟩
    fun _ step => Session.next_agrees handOut step
  exact short

end Loops

variable {Client : Type}

namespace Server

/-- The session of the client has been handed some responses, and it is between two commands or at
work on one that has not been answered. -/
def Loops (client : Client) (socket : Socket) (overflow : Overflow) (server : Server Client) :
    Prop :=
  ∀ conn, server.conn client = some conn → ∃ given,
    (server.world.phase client = .idle ∧ Handed socket overflow given conn) ∨
    (server.world.phase client ≠ .idle ∧ ∃ before command, Handed socket overflow given before ∧
      before.readCommandTurn.1 = .returned (some command) ∧
      conn = before.readCommandTurn.2.record (.received command) ∧
      server.noreply client = command.noreply)

theorem Loops.idle {client : Client} {socket : Socket} {overflow : Overflow}
    {server : Server Client} {conn : Connection} (loops : server.Loops client socket overflow)
    (connected : server.conn client = some conn) (idle : server.world.phase client = .idle) :
    ∃ given, Handed socket overflow given conn := by
  obtain ⟨given, ⟨_, handed⟩ | ⟨busy, _⟩⟩ := loops conn connected
  · exact ⟨given, handed⟩
  · exact absurd idle busy

theorem Loops.agrees {client : Client} {socket : Socket} {overflow : Overflow}
    {server : Server Client} {conn : Connection} (loops : server.Loops client socket overflow)
    (short : linesShort socket.stream) (connected : server.conn client = some conn) :
    Session.Agrees socket.stream { conn, store := ([] : List Response) } := by
  obtain ⟨given, ⟨_, handed⟩ | ⟨_, before, command, handed, turn, same, _⟩⟩ := loops conn connected
  · exact handed.agrees short
  · obtain ⟨small, events, ending⟩ := (handed.answered turn .ok).agrees short
    rw [same]
    cases quiet : command.noreply with
    | true =>
        simp only [quiet, if_true] at small events ending
        exact ⟨small, events, ending⟩
    | false =>
        have made : ∀ conn : Connection,
            requests ((conn.writeResponse .ok).record (.replied .ok)).history =
              requests conn.history := by
          intro conn
          simp [Connection.record]
        simp only [quiet, Bool.false_eq_true, if_false, made] at small events ending
        exact ⟨small, events, ending⟩

variable [DecidableEq Client]

theorem respond_loops {client : Client} {socket : Socket} {overflow : Overflow}
    {server : Server Client} {before : Connection} {given : List Response} {command : Command}
    (handed : Handed socket overflow given before)
    (turn : before.readCommandTurn.1 = .returned (some command)) (response : Response)
    (idle : server.world.phase client = .idle) :
    (server.respond client (before.readCommandTurn.2.record (.received command)) command.noreply
      response).Loops client socket overflow := by
  intro later attached
  rw [respond_eq] at attached ⊢
  rw [attach_connected attached]
  exact ⟨given ++ [response], Or.inl ⟨idle, handed.answered turn response⟩⟩

theorem step_loops {event : ServerEvent Client} {server after : Server Client} {client : Client}
    {socket : Socket} {overflow : Overflow}
    (accepted : ∀ socket overflow, event ≠ .accept client socket overflow)
    (taken : server.step event = some after) (loops : server.Loops client socket overflow) :
    after.Loops client socket overflow := by
  by_cases mine : event.actor = some client
  · cases step_stepped taken with
    | accepted actor socket overflow free idle =>
        cases mine
        exact absurd rfl (accepted socket overflow)
    | refused actor conn connected idle turn =>
        cases mine
        obtain ⟨given, handed⟩ := loops.idle connected idle
        intro later attached
        rw [attach_connected attached]
        exact ⟨given, Or.inl ⟨idle, handed.again turn⟩⟩
    | began actor conn command phase connected idle turn begins =>
        cases mine
        obtain ⟨given, handed⟩ := loops.idle connected idle
        intro later attached
        refine ⟨given, Or.inr ⟨?_, conn, command, handed, turn, attach_connected attached,
          Function.update_self ..⟩⟩
        rw [attach_world, World.enter_self]
        rintro rfl
        exact begin_serves begins
    | answered actor conn command connected idle turn storeless =>
        cases mine
        obtain ⟨given, handed⟩ := loops.idle connected idle
        exact respond_loops handed turn _ idle
    | ended actor conn connected idle turn =>
        cases mine
        intro later attached
        simp [closed] at attached
    | worked inner world inside worked =>
        intro conn connected
        obtain ⟨given, ⟨idle, _⟩ | ⟨_, working⟩⟩ := loops conn connected
        · exact absurd idle (World.internal_busy worked inside mine)
        · exact ⟨given, Or.inr ⟨World.internal_onward worked inside mine, working⟩⟩
    | replied actor conn response connected finished =>
        cases mine
        obtain ⟨given, ⟨idle, _⟩ | ⟨_, before, command, handed, turn, same, quiet⟩⟩ :=
          loops conn connected
        · simp [World.response, idle] at finished
        · rw [quiet, same]
          exact respond_loops handed turn response (World.enter_self _ _)
  · have same := step_other taken mine
    intro conn connected
    rw [same.conn] at connected
    rw [same.phase, same.noreply]
    exact loops conn connected

theorem run_loops {events : List (ServerEvent Client)} {first last : Server Client}
    {client : Client} {socket : Socket} {overflow : Overflow}
    (reached : run step events first = some last)
    (accepted : ∀ socket overflow, .accept client socket overflow ∉ events)
    (loops : first.Loops client socket overflow) : last.Loops client socket overflow := by
  have fine : ∀ event ∈ events, ∀ socket overflow, event ≠ .accept client socket overflow := by
    rintro event among socket overflow rfl
    exact accepted socket overflow among
  exact run_allowed step_loops ((throughout_iff_forall reached).mpr fine) reached loops

theorem sessions_loop {earlier later : List (ServerEvent Client)} {client : Client}
    {socket : Socket} {overflow : Overflow} {server : Server Client}
    (reached : run Server.step (earlier ++ .accept client socket overflow :: later) .new =
      some server)
    (once : ∀ socket overflow, .accept client socket overflow ∉ later) :
    server.Loops client socket overflow := by
  obtain ⟨before, after, _, taken, onward⟩ := run_split reached
  refine run_loops onward once ?_
  cases step_stepped taken with
  | accepted _ socket overflow free idle =>
      intro conn connected
      rw [attach_connected connected]
      exact ⟨[], Or.inl ⟨idle, .start socket overflow⟩⟩

end Server

variable [DecidableEq Client]

/-- Whatever the other sessions do, a session makes the requests of its own client's bytes: so far
the first of them, and all of them when it ends. -/
theorem sessions_follow (earlier later : List (ServerEvent Client)) {client : Client}
    {socket : Socket} {overflow : Overflow} {server : Server Client}
    (reached : run Server.step (earlier ++ .accept client socket overflow :: later) .new =
      some server)
    (once : ∀ socket overflow, .accept client socket overflow ∉ later)
    (short : linesShort socket.stream) {conn : Connection}
    (connected : server.conn client = some conn) :
    requests conn.history ++ (reference conn.stream).1 = (reference socket.stream).1 ∧
      ((conn.readCommandTurn.1 = .returned none ∨
          ∃ error, conn.readCommandTurn.1 = .failed error) →
        requests conn.history = (reference socket.stream).1) := by
  obtain ⟨small, events, _⟩ := (Server.sessions_loop reached once).agrees short connected
  refine ⟨events, ?_⟩
  intro turn
  obtain ⟨turned, _, _⟩ := Connection.readCommandTurn_agrees (linesShort_first small)
  rw [turned] at turn
  rw [reference_stopped turn, List.append_nil] at events
  exact events

/-- However the sessions interleave, each of them is a session of the loop that runs alone on a
handler that has some responses beforehand: between two commands, at work on one, and at its end. -/
theorem sessions_process (earlier later : List (ServerEvent Client)) {client : Client}
    {socket : Socket} {overflow : Overflow} {server : Server Client}
    (reached : run Server.step (earlier ++ .accept client socket overflow :: later) .new =
      some server)
    (once : ∀ socket overflow, .accept client socket overflow ∉ later) {conn : Connection}
    (connected : server.conn client = some conn) :
    ∃ given : List Response,
      (server.world.phase client = .idle →
        (∀ rest, Reaches (Session.next handOut) (.start socket overflow (given ++ rest))
          { conn, store := rest }) ∧
        ((conn.readCommandTurn.1 = .returned none ∨
            ∃ error, conn.readCommandTurn.1 = .failed error) →
          process handOut socket overflow given =
            (conn.readCommandTurn.1.ending, conn.readCommandTurn.2, []))) ∧
      (server.world.phase client ≠ .idle → ∃ before command,
        (∀ rest, Reaches (Session.next handOut) (.start socket overflow (given ++ rest))
          { conn := before, store := rest }) ∧
        before.readCommandTurn.1 = .returned (some command) ∧
        conn = before.readCommandTurn.2.record (.received command)) := by
  obtain ⟨given, ⟨idle, handed⟩ | ⟨busy, before, command, handed, turn, same, _⟩⟩ :=
    Server.sessions_loop reached once conn connected
  · exact ⟨given, fun _ => ⟨handed, handed.ended⟩, fun busy => absurd idle busy⟩
  · exact ⟨given, fun idle => absurd idle busy, fun _ => ⟨before, command, handed, turn, same⟩⟩

end Numbers

section Talk

theorem talk_follows :
    requests (talkConn 0 (by decide +kernel)).history ++
        (reference (talkConn 0 (by decide +kernel)).stream).1 =
      (reference setterSocket.stream).1 := by
  have follows := sessions_follow [.accept 1 counterSocket .tokio] talkEvents talkServer_reached
    (by simp [talkEvents]) (by decide +kernel)
    (Option.some_get (show (talkServer.conn 0).isSome by decide +kernel)).symm
  exact follows.1

theorem talk_processes :
    ∃ conn, talkServer.conn 1 = some conn ∧ ∃ given : List Response, ∀ rest,
      Reaches (Session.next handOut) (.start counterSocket .tokio (given ++ rest))
        { conn, store := rest } := by
  obtain ⟨conn, connected⟩ := Option.isSome_iff_exists.mp
    (show (talkServer.conn 1).isSome by decide +kernel)
  obtain ⟨given, idle, _⟩ := sessions_process [] (.accept 0 setterSocket .tokio :: talkEvents)
    (show run Server.step ([] ++ .accept 1 counterSocket .tokio ::
      .accept 0 setterSocket .tokio :: talkEvents) .new = some talkServer from talkServer_reached)
    (by simp [talkEvents]) connected
  exact ⟨conn, connected, given, (idle (by decide +kernel)).1⟩

end Talk

end Ousagi
