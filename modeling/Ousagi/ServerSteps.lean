import Ousagi.ClientsTokens
import Ousagi.ServerRuns

/-!
The steps of the server, inverted once: which of them are enabled, and the server that
each of them comes to.  A step of one session leaves the others where they are.
-/

namespace Ousagi

open Library

variable {Client : Type}

def ServerEvent.actor : ServerEvent Client → Option Client
  | .accept client _ _ | .read client | .reply client => some client
  | .work event => event.actor

variable [DecidableEq Client]

namespace Server

@[simp] theorem attach_conn (client other : Client) (conn : Option Connection)
    (server : Server Client) :
    (server.attach client conn).conn other = if other = client then conn else server.conn other :=
  Function.update_apply _ _ _ _

theorem attach_connected {client : Client} {conn later : Connection} {server : Server Client}
    (connected : (server.attach client (some conn)).conn client = some later) : later = conn := by
  rw [attach_conn, if_pos rfl] at connected
  exact (Option.some.inj connected).symm

@[simp] theorem attach_world (client : Client) (conn : Option Connection) (server : Server Client) :
    (server.attach client conn).world = server.world := rfl

@[simp] theorem attach_noreply (client : Client) (conn : Option Connection)
    (server : Server Client) : (server.attach client conn).noreply = server.noreply := rfl

section Numbers

variable [FromRadix10SignedChecked UInt32] [FromRadix10SignedChecked UInt64]
  [FromRadix10SignedChecked Int64]

inductive Stepped (server : Server Client) : ServerEvent Client → Server Client → Prop
  | accepted (client : Client) (socket : Socket) (overflow : Overflow)
      (free : server.conn client = none) (idle : server.world.phase client = .idle) :
      Stepped server (.accept client socket overflow)
        (server.opened client (.new socket overflow))
  | refused (client : Client) (conn : Connection) (connected : server.conn client = some conn)
      (idle : server.world.phase client = .idle) (turn : conn.readCommandTurn.1 = .again) :
      Stepped server (.read client) (server.attach client (some conn.readCommandTurn.2))
  | began (client : Client) (conn : Connection) (command : Command) (phase : Phase)
      (connected : server.conn client = some conn) (idle : server.world.phase client = .idle)
      (turn : conn.readCommandTurn.1 = .returned (some command))
      (begins : command.begin = some phase) :
      Stepped server (.read client)
        ({ server with
          world :=
            { server.world with store := command.count server.world.store }.enter client phase
          noreply := Function.update server.noreply client command.noreply }.attach client
            (some (conn.readCommandTurn.2.record (.received command))))
  | answered (client : Client) (conn : Connection) (command : Command)
      (connected : server.conn client = some conn) (idle : server.world.phase client = .idle)
      (turn : conn.readCommandTurn.1 = .returned (some command))
      (storeless : command.begin = none) :
      Stepped server (.read client)
        (server.respond client (conn.readCommandTurn.2.record (.received command)) command.noreply
          (handle 0 command server.world.store).1)
  | ended (client : Client) (conn : Connection) (connected : server.conn client = some conn)
      (idle : server.world.phase client = .idle)
      (turn : conn.readCommandTurn.1 = .returned none ∨
        ∃ error, conn.readCommandTurn.1 = .failed error) :
      Stepped server (.read client) (server.closed client)
  | worked (event : ClientEvent Client) (world : World Client) (inside : event.internal)
      (taken : server.world.step event = some world) :
      Stepped server (.work event) { server with world }
  | replied (client : Client) (conn : Connection) (response : Response)
      (connected : server.conn client = some conn)
      (finished : server.world.response client = some response) :
      Stepped server (.reply client)
        ({ server with world := server.world.enter client .idle }.respond client conn
          (server.noreply client) response)

theorem read_stepped {client : Client} {server after : Server Client}
    (taken : server.step (.read client) = some after) : server.Stepped (.read client) after := by
  simp only [step] at taken
  split at taken
  · rename_i conn connected idle
    split at taken
    · rename_i later turn
      cases taken
      have same : later = conn.readCommandTurn.2 := by rw [turn]
      rw [same]
      exact .refused client conn connected idle (by rw [turn])
    · rename_i command later turn
      have same : later = conn.readCommandTurn.2 := by rw [turn]
      have returned : conn.readCommandTurn.1 = .returned (some command) := by rw [turn]
      rw [same, receive] at taken
      cases begins : command.begin with
      | none =>
          simp only [begins, Option.some.injEq] at taken
          rw [← taken]
          exact .answered client conn command connected idle returned begins
      | some phase =>
          simp only [begins, World.step, idle, Option.map_some, Option.some.injEq] at taken
          rw [← taken]
          exact .began client conn command phase connected idle returned begins
    · rename_i turn
      cases taken
      exact .ended client conn connected idle (Or.inl (by rw [turn]))
    · rename_i error later turn
      cases taken
      exact .ended client conn connected idle (Or.inr ⟨error, by rw [turn]⟩)
  · cases taken

theorem step_stepped {event : ServerEvent Client} {server after : Server Client}
    (taken : server.step event = some after) : server.Stepped event after := by
  cases event with
  | accept client socket overflow =>
      simp only [step] at taken
      split at taken
      · rename_i free idle
        cases taken
        exact .accepted client socket overflow free idle
      · cases taken
  | read client => exact read_stepped taken
  | work event =>
      simp only [step] at taken
      split at taken
      · rename_i inside
        obtain ⟨world, worked, same⟩ := Option.map_eq_some_iff.mp taken
        rw [← same]
        exact .worked event world inside worked
      · cases taken
  | reply client =>
      simp only [step] at taken
      split at taken
      · rename_i conn response connected finished
        simp only [World.step, finished, Option.map_some, Option.some.injEq] at taken
        rw [← taken]
        exact .replied client conn response connected finished
      · cases taken

/-- What a session is to itself: its connection, the phase of its command, and whether that
command wants a reply. -/
structure Same (client : Client) (before after : Server Client) : Prop where
  conn : after.conn client = before.conn client
  phase : after.world.phase client = before.world.phase client
  noreply : after.noreply client = before.noreply client

theorem step_other {event : ServerEvent Client} {server after : Server Client} {other : Client}
    (taken : server.step event = some after) (different : event.actor ≠ some other) :
    server.Same other after := by
  have elsewhere : ∀ {client : Client}, event.actor = some client → other ≠ client := by
    rintro client acts rfl
    exact different acts
  cases step_stepped taken with
  | accepted client socket overflow | refused client | ended client =>
      exact ⟨by simp [opened, closed, elsewhere rfl], rfl, rfl⟩
  | began client conn command phase =>
      refine ⟨by simp [elsewhere rfl], World.enter_other (elsewhere rfl) _ _, ?_⟩
      exact Function.update_of_ne (elsewhere rfl) _ _
  | answered client =>
      rw [respond_eq]
      exact ⟨by simp [elsewhere rfl], rfl, rfl⟩
  | worked event world inside worked => exact ⟨rfl, World.step_other worked different, rfl⟩
  | replied client conn response =>
      rw [respond_eq]
      exact ⟨by simp [elsewhere rfl], World.enter_other (elsewhere rfl) _ _, rfl⟩

end Numbers

end Server

end Ousagi
