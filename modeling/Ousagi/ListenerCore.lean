import Ousagi.ServerCore

/-!
`accept_loop` of `server.rs`: it accepts a connection, waits for a permit of the
semaphore and spawns a task for the session, which holds the permit to its end.
-/

namespace Ousagi

open Library

variable {Client : Type} [DecidableEq Client]

/-- Where the loop stands.  It holds at most one connection without a task. -/
inductive Acceptor (Client : Type)
  | accepting
  | acquiring (client : Client) (socket : Socket) (overflow : Overflow)
  | sleeping

structure Listener (Client : Type) where
  server : Server Client
  acceptor : Acceptor Client
  connections : Nat
  tasks : List Client

inductive ListenerEvent (Client : Type)
  | accepted (client : Client) (socket : Socket) (overflow : Overflow)
  | acceptFailed
  | slept
  | acquired
  | session (event : ServerEvent Client)
  | released (client : Client)

def ServerEvent.spawned : ServerEvent Client → Bool
  | .accept _ _ _ => false
  | _ => true

namespace Listener

def new (maxConnections : Nat) : Listener Client :=
  { server := .new, acceptor := .accepting, connections := maxConnections, tasks := [] }

section Numbers

variable [FromRadix10SignedChecked UInt32] [FromRadix10SignedChecked UInt64]
  [FromRadix10SignedChecked Int64]

def step (event : ListenerEvent Client) (listener : Listener Client) : Option (Listener Client) :=
  match event with
  -- A connection has a name that no task has.
  | .accepted client socket overflow =>
      match listener.acceptor with
      | .accepting =>
          if client ∈ listener.tasks then none
          else some { listener with acceptor := .acquiring client socket overflow }
      | _ => none
  | .acceptFailed =>
      match listener.acceptor with
      | .accepting => some { listener with acceptor := .sleeping }
      | _ => none
  | .slept =>
      match listener.acceptor with
      | .sleeping => some { listener with acceptor := .accepting }
      | _ => none
  | .acquired =>
      match listener.acceptor, listener.connections with
      | .acquiring client socket overflow, connections + 1 =>
          (listener.server.step (.accept client socket overflow)).map fun server =>
            { server, acceptor := .accepting, connections, tasks := listener.tasks ++ [client] }
      | _, _ => none
  | .session event =>
      if event.spawned then
        (listener.server.step event).map fun server => { listener with server }
      else none
  -- The task drops its permit after the session and its count are at their end.
  | .released client =>
      if client ∈ listener.tasks ∧ (listener.server.conn client).isNone then
        some { listener with
          connections := listener.connections + 1
          tasks := listener.tasks.erase client }
      else none

end Numbers

end Listener

end Ousagi
