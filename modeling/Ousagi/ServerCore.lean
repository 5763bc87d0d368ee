import Ousagi.ClientsCore
import Ousagi.SessionCore

/-!
The server of `server.rs`: a session for each accepted client, all on one store.
A session reads commands from its own connection, and each command that looks at
the store does so in its steps, between the steps of the other sessions.
-/

namespace Ousagi

open Library

variable {Client : Type} [DecidableEq Client]

structure Server (Client : Type) where
  world : World Client
  conn : Client → Option Connection
  noreply : Client → Bool

inductive ServerEvent (Client : Type)
  | accept (client : Client) (socket : Socket) (overflow : Overflow)
  | read (client : Client)
  | work (event : ClientEvent Client)
  | reply (client : Client)

/-- The steps of the operations in the store.  A session alone begins them and takes their
responses. -/
def ClientEvent.internal : ClientEvent Client → Bool
  | .call _ _ | .reply _ => false
  | _ => true

namespace Server

def new : Server Client := { world := .new, conn := fun _ => none, noreply := fun _ => false }

def attach (client : Client) (conn : Option Connection) (server : Server Client) :
    Server Client :=
  { server with conn := Function.update server.conn client conn }

/-- A session starts: the counters of connections are the server's own. -/
def opened (client : Client) (conn : Connection) (server : Server Client) : Server Client :=
  { server with world.store :=
      (server.world.store.count .totalConnections 1).count .currConnections 1 }.attach client
        (some conn)

def closed (client : Client) (server : Server Client) : Server Client :=
  { server with world.store.stats :=
      server.world.store.stats.sub .currConnections 1 }.attach client none

def respond (client : Client) (conn : Connection) (noreply : Bool) (response : Response)
    (server : Server Client) : Server Client :=
  if noreply then server.attach client (some conn)
  else server.attach client (some ((conn.writeResponse response).record (.replied response)))

/-- A command that is answered without the store's operations is answered at once; it reads no
clock. -/
def receive (client : Client) (conn : Connection) (command : Command) (server : Server Client) :
    Option (Server Client) :=
  let conn := conn.record (.received command)
  match command.begin with
  | some _ =>
      (server.world.step (.call client command)).map fun world =>
        { server with
          world
          noreply := Function.update server.noreply client command.noreply }.attach client
            (some conn)
  | none =>
      let (response, _) := handle 0 command server.world.store
      some (server.respond client conn command.noreply response)

section Numbers

variable [FromRadix10SignedChecked UInt32] [FromRadix10SignedChecked UInt64]
  [FromRadix10SignedChecked Int64]

def step (event : ServerEvent Client) (server : Server Client) : Option (Server Client) :=
  match event with
  | .accept client socket overflow =>
      match server.conn client, server.world.phase client with
      | none, .idle => some (server.opened client (.new socket overflow))
      | _, _ => none
  | .read client =>
      match server.conn client, server.world.phase client with
      | some conn, .idle =>
          match conn.readCommandTurn with
          | (.again, conn) => some (server.attach client (some conn))
          | (.returned (some command), conn) => server.receive client conn command
          | (.returned none, _) | (.failed _, _) => some (server.closed client)
      | _, _ => none
  | .work event =>
      if event.internal then (server.world.step event).map fun world => { server with world }
      else none
  | .reply client =>
      match server.conn client, server.world.response client with
      | some conn, some response =>
          (server.world.step (.reply client)).map fun world =>
            { server with world }.respond client conn (server.noreply client) response
      | _, _ => none

end Numbers

end Server

end Ousagi
