import Ousagi.Library.Traces
import Ousagi.StoreChecks

/-!
Any number of clients on one store.  Each operation of `store.rs` runs in the
steps of its source: it reads the clock, it reads `oldest_live`, it draws a token,
and it does one atomic step on a key, in which it also adds to the counters that
the source adds to right behind it.  The steps of different clients interleave in
any order, and so do the evictions of the cache.
-/

namespace Ousagi

open Library

inductive Retrieval
  | get (withCas : Bool)
  | getAndTouch (exptime : Int64) (withCas : Bool)
  deriving DecidableEq, Repr

inductive Update
  | store (op : StoreOp) (args : StoreArgs)
  | arithmetic (op : ArithmeticOp) (key : Bytes) (delta : UInt64)
  | touch (key : Bytes) (exptime : Int64)
  deriving DecidableEq, Repr

inductive Operation
  | retrieve (retrieval : Retrieval) (keys : List Bytes)
  | update (update : Update)
  | delete (key : Bytes)
  deriving DecidableEq, Repr

abbrev Value := Bytes × UInt32 × Bytes × Option UInt64

inductive Phase
  | idle
  | called (operation : Operation)
  | timed (operation : Operation) (now : UInt64)
  | visiting (retrieval : Retrieval) (now : UInt64) (oldestLive : Option UInt64)
      (keys : List Bytes) (values : List Value)
  | drawing (update : Update) (now : UInt64) (oldestLive : Option UInt64)
  | updating (update : Update) (now : UInt64) (oldestLive : Option UInt64) (cas : UInt64)
  | deleting (key : Bytes) (now : UInt64) (oldestLive : Option UInt64)
  | clearing
  | erasing (keys : List Bytes)
  | scheduling (secs : UInt32)
  | scheduled (secs : UInt32) (now : UInt64)
  | finished (response : Response)
  deriving DecidableEq, Repr

def Command.begin : Command → Option Phase
  | .get keys withCas => some (.called (.retrieve (.get withCas) keys))
  | .getAndTouch keys exptime withCas =>
      some (.called (.retrieve (.getAndTouch exptime withCas) keys))
  | .store op args => some (.called (.update (.store op args)))
  | .delete key _ => some (.called (.delete key))
  | .arithmetic op key delta _ => some (.called (.update (.arithmetic op key delta)))
  | .touch key exptime _ => some (.called (.update (.touch key exptime)))
  | .flushAll delay _ =>
      some (if delay.getD 0 = 0 then .clearing else .scheduling (delay.getD 0))
  | .version | .verbosity _ _ | .stats => none

def Command.count (store : Store) : Command → Store
  | .flushAll _ _ => store.count .cmdFlush 1
  | _ => store

def Operation.resume (now : UInt64) (oldestLive : Option UInt64) : Operation → Phase
  | .retrieve retrieval keys => .visiting retrieval now oldestLive keys []
  | .update change => .drawing change now oldestLive
  | .delete key => .deleting key now oldestLive

def Operation.count (store : Store) : Operation → Store
  | .retrieve _ keys => store.count .cmdGet keys.length
  | .update (.store _ _) => store.count .cmdSet 1
  | .update (.arithmetic op _ _) => store.count op.cmd 1
  | .update (.touch _ _) => store
  | .delete _ => store

/-- The counter of a touch comes after its token. -/
def Update.count (store : Store) : Update → Store
  | .touch _ _ => store.count .cmdTouch 1
  | _ => store

def Retrieval.visit (now : UInt64) (oldestLive : Option UInt64) (key : Bytes) (store : Store) :
    Retrieval → Option Value × Store
  | .get withCas => store.getKey now oldestLive withCas key
  | .getAndTouch exptime withCas => store.getAndTouchKey exptime now oldestLive withCas key

def Retrieval.touches : Retrieval → Bool
  | .get _ => false
  | .getAndTouch _ _ => true

def Update.key : Update → Bytes
  | .store _ args => args.key
  | .arithmetic _ key _ => key
  | .touch key _ => key

def Update.perform (now : UInt64) (oldestLive : Option UInt64) (cas : UInt64) (store : Store) :
    Update → Response × Store
  | .store op args => store.storeEntry op args now oldestLive cas
  | .arithmetic op key delta => store.arithmeticEntry op key delta now oldestLive cas
  | .touch key exptime => store.touchEntry key exptime now oldestLive cas

variable {Client : Type} [DecidableEq Client]

/-- The field `draws` counts the tokens drawn so far, without a bound; the code keeps the cell
`next_cas` of the store only. -/
structure World (Client : Type) where
  store : Store
  phase : Client → Phase
  draws : Nat

inductive ClientEvent (Client : Type)
  | call (client : Client) (command : Command)
  | readClock (client : Client) (now : UInt64)
  | readCutoff (client : Client)
  | draw (client : Client)
  | act (client : Client)
  | refuse (client : Client)
  | clear (client : Client) (key : Bytes)
  | cleared (client : Client)
  | reply (client : Client)
  | evict (key : Bytes)

namespace World

def new : World Client := { store := .new, phase := fun _ => .idle, draws := 0 }

def enter (client : Client) (phase : Phase) (world : World Client) : World Client :=
  { world with phase := Function.update world.phase client phase }

/-- The step of a client on a key.  The closure of a retrieval that touches draws the token of
each key that it finds. -/
def act (client : Client) (world : World Client) : Option (World Client) :=
  match world.phase client with
  | .visiting retrieval now oldestLive (key :: rest) values =>
      let (value, store) := retrieval.visit now oldestLive key world.store
      let draws := if retrieval.touches && value.isSome then world.draws + 1 else world.draws
      some ({ world with store, draws }.enter client
        (.visiting retrieval now oldestLive rest (values ++ value.toList)))
  | .updating update now oldestLive cas =>
      let (response, store) := update.perform now oldestLive cas world.store
      some ({ world with store }.enter client (.finished response))
  | .deleting key now oldestLive =>
      let (response, store) := world.store.deleteEntry key now oldestLive
      some ({ world with store }.enter client (.finished response))
  | .clearing => some (world.enter client (.erasing world.store.items.keys))
  | .scheduled secs now =>
      some ({ world with store := world.store.flushAll secs now }.enter client (.finished .ok))
  | _ => none

def response (client : Client) (world : World Client) : Option Response :=
  match world.phase client with
  | .visiting _ _ _ [] values => some (.values values)
  | .finished response => some response
  | _ => none

def step (event : ClientEvent Client) (world : World Client) : Option (World Client) :=
  match event with
  | .call client command =>
      match world.phase client with
      | .idle =>
          command.begin.map fun phase =>
            { world with store := command.count world.store }.enter client phase
      | _ => none
  | .readClock client now =>
      match world.phase client with
      | .called operation =>
          some ({ world with store := operation.count world.store }.enter client
            (.timed operation now))
      | .scheduling secs => some (world.enter client (.scheduled secs now))
      | _ => none
  | .readCutoff client =>
      match world.phase client with
      | .timed operation now =>
          some (world.enter client (operation.resume now world.store.oldestLive))
      | _ => none
  | .draw client =>
      match world.phase client with
      | .drawing update now oldestLive =>
          let (cas, store) := world.store.nextCas
          some ({ world with store := update.count store, draws := world.draws + 1 }.enter client
            (.updating update now oldestLive cas))
      | _ => none
  | .act client => world.act client
  -- The guard of a vacant entry does not insert when its placeholder has been removed.
  | .refuse client =>
      match world.phase client with
      | .updating (.store .add args) _ _ _ =>
          if (world.store.items.lookup args.key).isNone then
            some (world.enter client (.finished .notStored))
          else none
      | _ => none
  -- The cache is cleared key by key, in any order.  The keys that it has at first must be among
  -- those that are cleared, and others may be.
  | .clear client key =>
      match world.phase client with
      | .erasing keys =>
          some ({ world with store.items := world.store.items.erase key }.enter client
            (.erasing (keys.erase key)))
      | _ => none
  | .cleared client =>
      match world.phase client with
      | .erasing [] => some (world.enter client (.finished .ok))
      | _ => none
  | .reply client =>
      match world.response client with
      | some _ => some (world.enter client .idle)
      | none => none
  | .evict key => some { world with store := world.store.evict key }

end World

end Ousagi
