import Ousagi.ClientsTokens
import Ousagi.StoreFrames

/-!
The runs of many clients told as one sequence: a command takes effect at points
between its call and its reply, and each point is the sequential handler at work
on one key.
-/

namespace Ousagi

open Library

/-- A command on one key as it is done at one moment, with the time, the cutoff and the token that
it has read before. -/
structure Point where
  command : Command
  now : UInt64
  cutoff : Option UInt64
  token : UInt64
  response : Response
  deriving DecidableEq, Repr

inductive Entry
  | called (command : Command)
  | clocked (now : UInt64)
  | sampled (cutoff : Option UInt64)
  | drew (token : UInt64)
  | visited (point : Point)
  | acted (point : Point)
  | refused (key : Bytes)
  | gathered (keys : List Bytes)
  | flushed (delaySecs : UInt32) (now : UInt64)
  | dropped (key : Bytes)
  | replied (response : Response)
  deriving DecidableEq, Repr

def Entry.inner : Entry → Bool
  | .called _ | .replied _ => false
  | _ => true

def Point.handle (point : Point) (store : Store) : Response × Store :=
  Ousagi.handle point.now point.command
    { store with nextCasCell := point.token, oldestLiveCell := point.cutoff.getD 0 }

/-- The store that an entry comes to, if the entry is true of the store that it finds. -/
def Entry.replay (entry : Entry) (store : Store) : Option Store :=
  match entry with
  | .called _ | .clocked _ | .replied _ => some store
  | .sampled cutoff => if store.oldestLive = cutoff then some store else none
  | .drew token => if store.nextCasCell = token then some store.nextCas.2 else none
  -- A retrieval draws its token in the point itself.
  | .visited point =>
      let (response, after) := point.handle store
      if store.nextCasCell = point.token ∧ response = point.response then
        some { store with items := after.items, nextCasCell := after.nextCasCell }
      else none
  | .acted point =>
      let (response, after) := point.handle store
      if response = point.response then some { store with items := after.items } else none
  -- A guard that is refused has found its key vacant.
  | .refused key => if store.items.lookup key = none then some store else none
  | .gathered keys => if store.items.keys = keys then some store else none
  | .flushed delaySecs now => some (store.flushAll delaySecs now)
  | .dropped key => some { store with items := store.items.erase key }

def Retrieval.command (keys : List Bytes) : Retrieval → Command
  | .get withCas => .get keys withCas
  | .getAndTouch exptime withCas => .getAndTouch keys exptime withCas

def Update.command : Update → Command
  | .store op args => .store op args
  | .arithmetic op key delta => .arithmetic op key delta false
  | .touch key exptime => .touch key exptime false

/-- What a client does between a call and a reply that the call explains. -/
inductive Explains : Command → List Entry → Response → Prop
  | retrieved {command : Command} {retrieval : Retrieval} {keys : List Bytes} {now : UInt64}
      {cutoff : Option UInt64} {points : List Point}
      (retrieves : command.retrieval = some (retrieval, keys))
      (each : points.map Point.command = keys.map fun key => retrieval.command [key])
      (reads : ∀ point ∈ points, point.now = now ∧ point.cutoff = cutoff) :
      Explains command (.clocked now :: .sampled cutoff :: points.map .visited)
        (.values (points.flatMap fun point => point.response.entries))
  | updated {command : Command} {update : Update} (updates : command.update = some update)
      (now : UInt64) (cutoff : Option UInt64) (token : UInt64) (response : Response) :
      Explains command [.clocked now, .sampled cutoff, .drew token,
        .acted { command := update.command, now, cutoff, token, response }] response
  -- The one reply that the sequential handler does not give: the key was vacant, and the guard lost
  -- its placeholder to another client.
  | refused (args : StoreArgs) (now : UInt64) (cutoff : Option UInt64) (token : UInt64) :
      Explains (.store .add args) [.clocked now, .sampled cutoff, .drew token, .refused args.key]
        .notStored
  | deleted (key : Bytes) (noreply : Bool) (now : UInt64) (cutoff : Option UInt64) (token : UInt64)
      (response : Response) :
      Explains (.delete key noreply) [.clocked now, .sampled cutoff,
        .acted { command := .delete key false, now, cutoff, token, response }] response
  | cleared {delay : Option UInt32} (noreply : Bool) (immediate : delay.getD 0 = 0)
      (keys dropped : List Bytes) (all : ∀ key ∈ keys, key ∈ dropped) :
      Explains (.flushAll delay noreply) (.gathered keys :: dropped.map .dropped) .ok
  | scheduled {delay : Option UInt32} (noreply : Bool) (later : delay.getD 0 ≠ 0) (now : UInt64) :
      Explains (.flushAll delay noreply) [.clocked now, .flushed (delay.getD 0) now] .ok

inductive Story : Option (Command × List Entry) → List Entry → Prop
  | silent : Story none []
  | called {told : List Entry} (earlier : Story none told) (command : Command) :
      Story (some (command, [])) (told ++ [.called command])
  | went {told done : List Entry} {command : Command}
      (earlier : Story (some (command, done)) told) {entry : Entry} (inner : entry.inner) :
      Story (some (command, done ++ [entry])) (told ++ [entry])
  | replied {told done : List Entry} {command : Command} {response : Response}
      (earlier : Story (some (command, done)) told) (explains : Explains command done response) :
      Story none (told ++ [.replied response])

section Clients

variable {Client : Type} [DecidableEq Client]

def World.acted (client : Client) (world : World Client) : Option Entry :=
  match world.phase client with
  | .visiting retrieval now cutoff (key :: _) _ =>
      some (.visited {
        command := retrieval.command [key], now, cutoff, token := world.store.nextCasCell
        response := .values (retrieval.visit now cutoff key world.store).1.toList })
  | .updating update now cutoff token =>
      some (.acted {
        command := update.command, now, cutoff, token
        response := (update.perform now cutoff token world.store).1 })
  | .deleting key now cutoff =>
      some (.acted {
        command := .delete key false, now, cutoff, token := world.store.nextCasCell
        response := (world.store.deleteEntry key now cutoff).1 })
  | .clearing => some (.gathered world.store.items.keys)
  | .scheduled delaySecs now => some (.flushed delaySecs now)
  | _ => none

def World.refused (client : Client) (world : World Client) : Option Entry :=
  match world.phase client with
  | .updating update _ _ _ => some (.refused update.key)
  | _ => none

def ClientEvent.entry (event : ClientEvent Client) (world : World Client) :
    Option (Option Client × Entry) :=
  match event with
  | .call client command => some (some client, .called command)
  | .readClock client now => some (some client, .clocked now)
  | .readCutoff client => some (some client, .sampled world.store.oldestLive)
  | .draw client => some (some client, .drew world.store.nextCasCell)
  | .act client => (world.acted client).map fun entry => (some client, entry)
  | .refuse client => (world.refused client).map fun entry => (some client, entry)
  | .cleared _ => none
  | .clear client key => some (some client, .dropped key)
  | .reply client => (world.response client).map fun response => (some client, .replied response)
  | .evict key =>
      if (world.store.items.lookup key).isSome then some (none, .dropped key) else none

def entries (events : List (ClientEvent Client)) : List (Option Client × Entry) :=
  observe World.step ClientEvent.entry events .new

def replay (log : List (Option Client × Entry)) (store : Store) : Option Store :=
  run (fun entry => entry.2.replay) log store

def told (client : Client) (log : List (Option Client × Entry)) : List Entry :=
  log.filterMap fun entry => if entry.1 = some client then some entry.2 else none

end Clients

section Frames

variable (now : UInt64) (cutoff : Option UInt64)

theorem Update.perform_items (token : UInt64) (update : Update) {first second : Store}
    (same : first.items = second.items) :
    (update.perform now cutoff token first).1 = (update.perform now cutoff token second).1 ∧
      (update.perform now cutoff token first).2.items =
        (update.perform now cutoff token second).2.items := by
  obtain ⟨items, nextCasCell, oldestLiveCell, stats⟩ := first
  obtain ⟨items', nextCasCell', oldestLiveCell', stats'⟩ := second
  cases same
  cases update with
  | store op args =>
      cases op with
      | set => exact ⟨rfl, rfl⟩
      | add =>
          simp only [perform, Store.storeEntry]
          rcases items.entry args.key (addClosure now cutoff args token) with
            ⟨(_ | _) | _ | _, left⟩ <;> exact ⟨rfl, rfl⟩
      | replace =>
          simp only [perform, Store.storeEntry]
          rcases items.entry args.key (replaceClosure now cutoff args token) with
            ⟨_ | _ | _, left⟩ <;> exact ⟨rfl, rfl⟩
      | append | prepend =>
          simp only [perform, Store.storeEntry]
          rcases items.entry args.key (concatClosure now cutoff _ args token) with
            ⟨_ | _ | _, left⟩ <;> exact ⟨rfl, rfl⟩
      | cas =>
          simp only [perform, Store.storeEntry]
          cases args.cas with
          | none => exact ⟨rfl, rfl⟩
          | some expected =>
              simp only
              rcases items.entry args.key (casClosure now cutoff expected args token) with
                ⟨(_ | _) | _ | _, left⟩ <;> exact ⟨rfl, rfl⟩
  | arithmetic op key delta =>
      simp only [perform, Store.arithmeticEntry]
      rcases items.entry key (arithmeticClosure now cutoff op delta token) with
        ⟨(_ | _) | _ | _, left⟩ <;> exact ⟨rfl, rfl⟩
  | touch key exptime =>
      simp only [perform, Store.touchEntry]
      rcases items.entry key (touchClosure now cutoff exptime token) with
        ⟨_ | _ | _, left⟩ <;> exact ⟨rfl, rfl⟩

theorem deleteEntry_items (key : Bytes) {first second : Store} (same : first.items = second.items) :
    (first.deleteEntry key now cutoff).1 = (second.deleteEntry key now cutoff).1 ∧
      (first.deleteEntry key now cutoff).2.items = (second.deleteEntry key now cutoff).2.items := by
  obtain ⟨items, nextCasCell, oldestLiveCell, stats⟩ := first
  obtain ⟨items', nextCasCell', oldestLiveCell', stats'⟩ := second
  cases same
  simp only [Store.deleteEntry]
  cases items.lookup key with
  | none => exact ⟨rfl, rfl⟩
  | some item =>
      simp only
      cases item.isExpired now cutoff <;> exact ⟨rfl, rfl⟩

theorem Retrieval.visit_items (retrieval : Retrieval) (key : Bytes) {first second : Store}
    (same : first.items = second.items) (counter : first.nextCasCell = second.nextCasCell) :
    (retrieval.visit now cutoff key first).1 = (retrieval.visit now cutoff key second).1 ∧
      (retrieval.visit now cutoff key first).2.items =
        (retrieval.visit now cutoff key second).2.items ∧
      (retrieval.visit now cutoff key first).2.nextCasCell =
        (retrieval.visit now cutoff key second).2.nextCasCell := by
  obtain ⟨items, nextCasCell, oldestLiveCell, stats⟩ := first
  obtain ⟨items', nextCasCell', oldestLiveCell', stats'⟩ := second
  cases same
  cases counter
  cases retrieval with
  | get withCas =>
      simp only [visit, Store.getKey]
      rcases items.entry key (getClosure now cutoff) with ⟨_ | _ | _, left⟩ <;>
        exact ⟨rfl, rfl, rfl⟩
  | getAndTouch exptime withCas =>
      simp only [visit, Store.getAndTouchKey, Store.nextCas]
      rcases items.entry key (getAndTouchClosure now cutoff exptime nextCasCell) with
        ⟨_ | _ | _, left⟩ <;> exact ⟨rfl, rfl, rfl⟩

end Frames

section Handlers

variable {now : UInt64} {cutoff : Option UInt64} {token : UInt64}

theorem oldestLive_getD {store : Store} (sane : cutoff ≠ some 0)
    (cell : store.oldestLiveCell = cutoff.getD 0) : store.oldestLive = cutoff := by
  rw [Store.oldestLive, cell]
  cases cutoff with
  | none => rfl
  | some time =>
      rw [Option.getD_some, if_neg]
      rintro rfl
      exact sane rfl

theorem oldestLive_sane (store : Store) : store.oldestLive ≠ some 0 := by
  rw [Store.oldestLive]
  split
  · exact (Option.some_ne_none 0).symm
  · rename_i nonzero
    intro zero
    exact nonzero (Option.some.inj zero)

theorem Update.handled (sane : cutoff ≠ some 0) (update : Update) (response : Response)
    {store given : Store} (same : given.items = store.items) :
    let point : Point := { command := update.command, now, cutoff, token, response }
    (point.handle given).1 = (update.perform now cutoff token store).1 ∧
      (point.handle given).2.items = (update.perform now cutoff token store).2.items := by
  intro point
  let held : Store := { given with nextCasCell := token, oldestLiveCell := cutoff.getD 0 }
  have cell : held.oldestLive = cutoff := oldestLive_getD sane rfl
  cases update with
  | store op args =>
      change (Store.store op args now held).1 = _ ∧ (Store.store op args now held).2.items = _
      simp only [Store.store, Store.count_oldestLive, cell]
      exact perform_items now cutoff token (.store op args) same
  | arithmetic op key delta =>
      change (Store.arithmetic op key delta now held).1 = _ ∧
        (Store.arithmetic op key delta now held).2.items = _
      simp only [Store.arithmetic, Store.count_oldestLive, cell]
      exact perform_items now cutoff token (.arithmetic op key delta) same
  | touch key exptime =>
      change (Store.touch key exptime now held).1 = _ ∧
        (Store.touch key exptime now held).2.items = _
      simp only [Store.touch, cell]
      exact perform_items now cutoff token (.touch key exptime) same

theorem deletion_handled (sane : cutoff ≠ some 0) (key : Bytes) (response : Response)
    {store given : Store} (same : given.items = store.items) :
    let point : Point := { command := .delete key false, now, cutoff, token, response }
    (point.handle given).1 = (store.deleteEntry key now cutoff).1 ∧
      (point.handle given).2.items = (store.deleteEntry key now cutoff).2.items := by
  intro point
  let held : Store := { given with nextCasCell := token, oldestLiveCell := cutoff.getD 0 }
  have cell : held.oldestLive = cutoff := oldestLive_getD sane rfl
  change (Store.delete key now held).1 = _ ∧ (Store.delete key now held).2.items = _
  simp only [Store.delete, cell]
  exact deleteEntry_items now cutoff key same

theorem Retrieval.handled (sane : cutoff ≠ some 0) (retrieval : Retrieval) (key : Bytes)
    (response : Response) {store given : Store} (same : given.items = store.items)
    (counter : token = store.nextCasCell) :
    let point : Point := { command := retrieval.command [key], now, cutoff, token, response }
    (point.handle given).1 = .values (retrieval.visit now cutoff key store).1.toList ∧
      (point.handle given).2.items = (retrieval.visit now cutoff key store).2.items ∧
      (point.handle given).2.nextCasCell =
        (retrieval.visit now cutoff key store).2.nextCasCell := by
  intro point
  let held : Store := { given with nextCasCell := token, oldestLiveCell := cutoff.getD 0 }
  have cell : held.oldestLive = cutoff := oldestLive_getD sane rfl
  have visits := retrieval.visit_items now cutoff key
    (show (held.count .cmdGet 1).items = store.items from same) counter
  cases retrieval with
  | get withCas =>
      change (Store.get [key] withCas now held).1 = _ ∧
        (Store.get [key] withCas now held).2.items = _ ∧
        (Store.get [key] withCas now held).2.nextCasCell = _
      simp only [Store.get, Store.count_oldestLive, cell, collect, List.append_nil]
      exact ⟨congrArg (fun value : Option Value => Response.values value.toList) visits.1, visits.2⟩
  | getAndTouch exptime withCas =>
      change (Store.getAndTouch [key] exptime withCas now held).1 = _ ∧
        (Store.getAndTouch [key] exptime withCas now held).2.items = _ ∧
        (Store.getAndTouch [key] exptime withCas now held).2.nextCasCell = _
      simp only [Store.getAndTouch, Store.count_oldestLive, cell, collect, List.append_nil]
      exact ⟨congrArg (fun value : Option Value => Response.values value.toList) visits.1, visits.2⟩

end Handlers

def Phase.cutoff : Phase → Option UInt64
  | .visiting _ _ cutoff _ _ | .drawing _ _ cutoff | .updating _ _ cutoff _
  | .deleting _ _ cutoff => cutoff
  | _ => none

def Store.bare (store : Store) : Store := { store with stats := .zero }

section Replaying

variable {Client : Type} [DecidableEq Client]

omit [DecidableEq Client] in
theorem replay_one (entry : Option Client × Entry) (store : Store) :
    replay [entry] store = entry.2.replay store := by
  rw [replay, run]
  cases entry.2.replay store <;> rfl

theorem replay_acted {point : Point} {store : Store}
    (answer : (point.handle store).1 = point.response) :
    (Entry.acted point).replay store =
      some { store with items := (point.handle store).2.items } := if_pos answer

theorem replay_visited {point : Point} {store : Store} (counter : store.nextCasCell = point.token)
    (answer : (point.handle store).1 = point.response) :
    (Entry.visited point).replay store = some { store with
      items := (point.handle store).2.items
      nextCasCell := (point.handle store).2.nextCasCell } := if_pos ⟨counter, answer⟩

theorem bare_perform {now token : UInt64} {cutoff : Option UInt64} (update : Update)
    (store : Store) :
    (update.perform now cutoff token store).2.bare =
      { store.bare with items := (update.perform now cutoff token store).2.items } := by
  obtain ⟨items, stats, result, _⟩ := update.perform_effect now cutoff token store
  rw [result]
  rfl

theorem bare_delete {now : UInt64} {cutoff : Option UInt64} (key : Bytes) (store : Store) :
    (store.deleteEntry key now cutoff).2.bare =
      { store.bare with items := (store.deleteEntry key now cutoff).2.items } := by
  simp only [Store.deleteEntry]
  cases store.items.lookup key with
  | none => rfl
  | some item =>
      simp only
      cases item.isExpired now cutoff <;> rfl

theorem bare_visit {now : UInt64} {cutoff : Option UInt64} (retrieval : Retrieval) (key : Bytes)
    (store : Store) :
    (retrieval.visit now cutoff key store).2.bare =
      { store.bare with
        items := (retrieval.visit now cutoff key store).2.items
        nextCasCell := (retrieval.visit now cutoff key store).2.nextCasCell } := by
  obtain ⟨items, stats, result, _⟩ := retrieval.visit_effect now cutoff store key
  rw [result]
  rfl

theorem World.step_replays {event : ClientEvent Client} {world after : World Client}
    (taken : world.step event = some after)
    (sane : ∀ client, (world.phase client).cutoff ≠ some 0) :
    replay (event.entry world).toList world.store.bare = some after.store.bare := by
  cases step_stepped taken with
  | called client command phase idle begins =>
      cases command <;> rfl
  | timed client now operation during =>
      cases operation with
      | retrieve => rfl
      | update update => cases update <;> rfl
      | delete => rfl
  | scheduled client now secs during => rfl
  | resumed client operation now during =>
      exact (replay_one _ _).trans (if_pos rfl)
  | drawn client update now cutoff during =>
      refine (replay_one _ _).trans ((if_pos rfl).trans ?_)
      cases update <;> rfl
  | visited client retrieval now cutoff key rest values during =>
      have known : cutoff ≠ some 0 := by simpa [during, Phase.cutoff] using sane client
      obtain ⟨answer, items, counter⟩ := retrieval.handled known key
        (.values (retrieval.visit now cutoff key world.store).1.toList)
        (show world.store.bare.items = world.store.items from rfl) rfl
      simp only [ClientEvent.entry, acted, during, Option.map_some, Option.toList_some, replay_one]
      rw [replay_visited rfl answer, items, counter, ← bare_visit]
      rfl
  | updated client update now cutoff token during =>
      have known : cutoff ≠ some 0 := by simpa [during, Phase.cutoff] using sane client
      obtain ⟨answer, items⟩ := update.handled known
        (update.perform now cutoff token world.store).1
        (show world.store.bare.items = world.store.items from rfl)
      simp only [ClientEvent.entry, acted, during, Option.map_some, Option.toList_some, replay_one]
      rw [replay_acted answer, items, ← bare_perform]
      rfl
  | deleted client key now cutoff during =>
      have known : cutoff ≠ some 0 := by simpa [during, Phase.cutoff] using sane client
      obtain ⟨answer, items⟩ := deletion_handled known key
        (world.store.deleteEntry key now cutoff).1
        (show world.store.bare.items = world.store.items from rfl)
      simp only [ClientEvent.entry, acted, during, Option.map_some, Option.toList_some, replay_one]
      rw [replay_acted answer, items, ← bare_delete]
      rfl
  | flushed client secs now during =>
      simp only [ClientEvent.entry, acted, during, Option.map_some, Option.toList_some, replay_one]
      rfl
  | refused client args now cutoff token during vacant =>
      simp only [ClientEvent.entry, World.refused, during, Option.map_some, Option.toList_some,
        replay_one]
      exact if_pos vacant
  | gathered client during =>
      simp only [ClientEvent.entry, acted, during, Option.map_some, Option.toList_some, replay_one]
      exact if_pos rfl
  | cleared => rfl
  | erased client key keys during => rfl
  | replied client response answered =>
      simp only [ClientEvent.entry, answered, Option.map_some, Option.toList_some, replay_one]
      rfl
  | evicted key =>
      by_cases present : (world.store.items.lookup key).isSome
      · simp only [ClientEvent.entry, if_pos present, Option.toList_some, replay_one, Store.evict]
        rfl
      · simp only [ClientEvent.entry, if_neg present, Option.toList_none, Store.evict]
        rfl

end Replaying

/-- Where a client stands after its last call and the entries since. -/
inductive Stage : Option (Command × List Entry) → Phase → Prop
  | rest : Stage none .idle
  | called {command : Command} {operation : Operation}
      (begins : command.begin = some (.called operation)) :
      Stage (some (command, [])) (.called operation)
  | timed {command : Command} {operation : Operation}
      (begins : command.begin = some (.called operation)) (now : UInt64) :
      Stage (some (command, [.clocked now])) (.timed operation now)
  | visiting {command : Command} {retrieval : Retrieval} {seen waiting : List Bytes}
      {now : UInt64} {cutoff : Option UInt64} {points : List Point}
      (retrieves : command.retrieval = some (retrieval, seen ++ waiting))
      (each : points.map Point.command = seen.map fun key => retrieval.command [key])
      (reads : ∀ point ∈ points, point.now = now ∧ point.cutoff = cutoff)
      (sane : cutoff ≠ some 0) :
      Stage (some (command, .clocked now :: .sampled cutoff :: points.map .visited))
        (.visiting retrieval now cutoff waiting
          (points.flatMap fun point => point.response.entries))
  | drawing {command : Command} {update : Update} (updates : command.update = some update)
      (now : UInt64) {cutoff : Option UInt64} (sane : cutoff ≠ some 0) :
      Stage (some (command, [.clocked now, .sampled cutoff])) (.drawing update now cutoff)
  | updating {command : Command} {update : Update} (updates : command.update = some update)
      (now : UInt64) {cutoff : Option UInt64} (sane : cutoff ≠ some 0) (token : UInt64) :
      Stage (some (command, [.clocked now, .sampled cutoff, .drew token]))
        (.updating update now cutoff token)
  | deleting (key : Bytes) (noreply : Bool) (now : UInt64) {cutoff : Option UInt64}
      (sane : cutoff ≠ some 0) :
      Stage (some (.delete key noreply, [.clocked now, .sampled cutoff])) (.deleting key now cutoff)
  | clearing {delay : Option UInt32} (noreply : Bool) (immediate : delay.getD 0 = 0) :
      Stage (some (.flushAll delay noreply, [])) .clearing
  | erasing {delay : Option UInt32} (noreply : Bool) (immediate : delay.getD 0 = 0)
      (keys dropped : List Bytes) {left : List Bytes}
      (all : ∀ key ∈ keys, key ∈ dropped ∨ key ∈ left) :
      Stage (some (.flushAll delay noreply, .gathered keys :: dropped.map .dropped))
        (.erasing left)
  | scheduling {delay : Option UInt32} (noreply : Bool) (later : delay.getD 0 ≠ 0) {secs : UInt32}
      (same : delay.getD 0 = secs) : Stage (some (.flushAll delay noreply, [])) (.scheduling secs)
  | scheduled {delay : Option UInt32} (noreply : Bool) (later : delay.getD 0 ≠ 0) {secs : UInt32}
      (same : delay.getD 0 = secs) (now : UInt64) :
      Stage (some (.flushAll delay noreply, [.clocked now])) (.scheduled secs now)
  | finished {command : Command} {done : List Entry} {response : Response}
      (explains : Explains command done response) :
      Stage (some (command, done)) (.finished response)

theorem Stage.sane {pending : Option (Command × List Entry)} {phase : Phase}
    (stage : Stage pending phase) : phase.cutoff ≠ some 0 := by
  cases stage with
  | visiting _ _ _ sane | drawing _ _ sane | updating _ _ sane | deleting _ _ _ sane => exact sane
  | _ => exact nofun

theorem Stage.idle_iff {pending : Option (Command × List Entry)} {phase : Phase}
    (stage : Stage pending phase) : pending = none ↔ phase = .idle := by
  cases stage <;> simp

theorem begin_stage {command : Command} {phase : Phase} (begins : command.begin = some phase) :
    Stage (some (command, [])) phase := by
  cases command with
  | get | getAndTouch | store | delete | arithmetic | touch =>
      cases begins
      exact .called rfl
  | flushAll delay noreply =>
      cases begins
      by_cases immediate : delay.getD 0 = 0
      · rw [if_pos immediate]
        exact .clearing noreply immediate
      · rw [if_neg immediate]
        exact .scheduling noreply immediate rfl
  | version | verbosity | stats => cases begins

theorem resume_stage {command : Command} {operation : Operation}
    (begins : command.begin = some (.called operation)) (now : UInt64) {cutoff : Option UInt64}
    (sane : cutoff ≠ some 0) :
    Stage (some (command, [.clocked now, .sampled cutoff])) (operation.resume now cutoff) := by
  cases command with
  | get keys | getAndTouch keys =>
      cases begins
      refine @Stage.visiting _ _ [] keys now cutoff [] rfl rfl ?_ sane
      intro point among
      cases among
  | store | arithmetic | touch =>
      cases begins
      exact .drawing rfl now sane
  | delete key noreply =>
      cases begins
      exact .deleting key noreply now sane
  | flushAll delay noreply =>
      simp only [Command.begin] at begins
      split at begins <;> cases begins
  | version | verbosity | stats => cases begins

theorem update_add {command : Command} {args : StoreArgs}
    (updates : command.update = some (.store .add args)) : command = .store .add args := by
  cases command with
  | store op given =>
      cases updates
      rfl
  | get | delete | arithmetic | getAndTouch | touch | flushAll | version | verbosity | stats =>
      cases updates

theorem visit_stage {pending : Option (Command × List Entry)} {retrieval : Retrieval} {now : UInt64}
    {cutoff : Option UInt64} {key : Bytes} {rest : List Bytes} {values : List Value}
    (stage : Stage pending (.visiting retrieval now cutoff (key :: rest) values)) (token : UInt64)
    (value : Option Value) :
    ∃ command done, pending = some (command, done) ∧
      Stage (some (command, done ++ [.visited {
          command := retrieval.command [key], now, cutoff, token
          response := .values value.toList }]))
        (.visiting retrieval now cutoff rest (values ++ value.toList)) := by
  cases stage with
  | @visiting command _ seen _ _ _ points retrieves each reads sane =>
      let point : Point :=
        { command := retrieval.command [key], now, cutoff, token, response := .values value.toList }
      refine ⟨command, _, rfl, ?_⟩
      have next := @Stage.visiting command retrieval (seen ++ [key]) rest now cutoff
        (points ++ [point]) (by rw [retrieves, List.append_assoc]; rfl)
        (by rw [List.map_append, List.map_append, each]; rfl) ?_ sane
      · rw [List.map_append, List.flatMap_append, List.flatMap_singleton] at next
        exact next
      · intro other among
        rcases List.mem_append.mp among with earlier | last
        · exact reads other earlier
        · cases List.mem_singleton.mp last
          exact ⟨rfl, rfl⟩

section Steps

variable {Client : Type} [DecidableEq Client]

omit [DecidableEq Client] in
theorem Stage.explains {pending : Option (Command × List Entry)} {client : Client}
    {world : World Client} {response : Response} (stage : Stage pending (world.phase client))
    (answered : world.response client = some response) :
    ∃ command done, pending = some (command, done) ∧ Explains command done response := by
  generalize during : world.phase client = phase at stage
  cases stage with
  | @visiting command retrieval seen waiting now cutoff points retrieves each reads sane =>
      cases waiting with
      | nil =>
          simp only [World.response, during, Option.some.injEq] at answered
          rw [List.append_nil] at retrieves
          exact ⟨command, _, rfl, answered ▸ .retrieved retrieves each reads⟩
      | cons key rest => simp [World.response, during] at answered
  | @finished command done given explains =>
      simp only [World.response, during, Option.some.injEq] at answered
      exact ⟨command, done, rfl, answered ▸ explains⟩
  | _ => simp [World.response, during] at answered

theorem told_append (client : Client) (log more : List (Option Client × Entry)) :
    told client (log ++ more) = told client log ++ told client more := List.filterMap_append

theorem told_own (client : Client) (own : List Entry) :
    told client (own.map fun entry => (some client, entry)) = own := by
  induction own with
  | nil => rfl
  | cons entry rest ih =>
      rw [List.map_cons, told, List.filterMap_cons, if_pos rfl]
      exact congrArg _ ih

theorem Story.goes {told done more : List Entry} {command : Command}
    (story : Story (some (command, done)) told) (inner : ∀ entry ∈ more, entry.inner) :
    Story (some (command, done ++ more)) (told ++ more) := by
  induction more generalizing told done with
  | nil => rwa [List.append_nil, List.append_nil]
  | cons entry rest ih =>
      rw [List.forall_mem_cons] at inner
      have later := ih (.went story inner.1) inner.2
      rwa [List.append_assoc, List.append_assoc] at later

namespace World

inductive Turns (client : Client) (event : ClientEvent Client) (world after : World Client)
    (pending : Option (Command × List Entry)) : Prop
  | begins (command : Command) (called : event = .call client command) (idle : pending = none)
      (stage : Stage (some (command, [])) (after.phase client))
  | goes (command : Command) (done more : List Entry) (working : pending = some (command, done))
      (seen : (event.entry world).toList = more.map fun entry => (some client, entry))
      (inner : ∀ entry ∈ more, entry.inner)
      (stage : Stage (some (command, done ++ more)) (after.phase client))
  | ends (command : Command) (done : List Entry) (response : Response)
      (replies : event = .reply client) (answered : world.response client = some response)
      (working : pending = some (command, done)) (explains : Explains command done response)
      (idle : after.phase client = .idle)

theorem own_turns {event : ClientEvent Client} {world after : World Client} {client : Client}
    {pending : Option (Command × List Entry)} (taken : world.step event = some after)
    (mine : event.actor = some client) (stage : Stage pending (world.phase client)) :
    Turns client event world after pending := by
  have went : ∀ {command : Command} {done : List Entry} {entry : Entry} {phase : Phase}
      {moved : World Client}, pending = some (command, done) →
      (event.entry world).toList = [(some client, entry)] → entry.inner →
      Stage (some (command, done ++ [entry])) phase →
      Turns client event world (moved.enter client phase) pending := by
    intro command done entry phase moved same seen inner later
    refine .goes command done [entry] same seen ?_ (by rwa [enter_self])
    intro other among
    rw [List.mem_singleton.mp among]
    exact inner
  -- A step that is not seen.
  have unseen : ∀ {command : Command} {done : List Entry} {phase : Phase} {moved : World Client},
      pending = some (command, done) → (event.entry world).toList = [] →
      Stage (some (command, done)) phase →
      Turns client event world (moved.enter client phase) pending := by
    intro command done phase moved same seen later
    refine .goes command done [] same seen ?_ (by rwa [enter_self, List.append_nil])
    intro entry among
    cases among
  cases step_stepped taken with
  | called _ command phase idle begins =>
      cases mine
      rw [idle] at stage
      cases stage with
      | rest => exact .begins command rfl rfl (by rw [enter_self]; exact begin_stage begins)
  | timed _ now operation during =>
      cases mine
      rw [during] at stage
      cases stage with
      | called begins => exact went rfl rfl rfl (.timed begins now)
  | scheduled _ now secs during =>
      cases mine
      rw [during] at stage
      cases stage with
      | scheduling noreply later same => exact went rfl rfl rfl (.scheduled noreply later same now)
  | resumed _ operation now during =>
      cases mine
      rw [during] at stage
      cases stage with
      | timed begins => exact went rfl rfl rfl (resume_stage begins now (oldestLive_sane _))
  | drawn _ update now cutoff during =>
      cases mine
      rw [during] at stage
      cases stage with
      | drawing updates now sane => exact went rfl rfl rfl (.updating updates now sane _)
  | visited _ retrieval now cutoff key rest values during =>
      cases mine
      rw [during] at stage
      obtain ⟨command, done, same, later⟩ := visit_stage stage world.store.nextCasCell
        (retrieval.visit now cutoff key world.store).1
      exact went same (by rw [ClientEvent.entry, acted, during]; rfl) rfl later
  | updated _ update now cutoff token during =>
      cases mine
      rw [during] at stage
      cases stage with
      | updating updates now sane token =>
          exact went rfl (by rw [ClientEvent.entry, acted, during]; rfl) rfl
            (.finished (.updated updates now cutoff token _))
  | deleted _ key now cutoff during =>
      cases mine
      rw [during] at stage
      cases stage with
      | deleting key noreply now sane =>
          exact went rfl (by rw [ClientEvent.entry, acted, during]; rfl) rfl
            (.finished (.deleted key noreply now cutoff _ _))
  | flushed _ secs now during =>
      cases mine
      rw [during] at stage
      cases stage with
      | scheduled noreply later same now =>
          have explains := Explains.scheduled noreply later now
          rw [same] at explains
          exact went rfl (by rw [ClientEvent.entry, acted, during]; rfl) rfl (.finished explains)
  | refused _ args now cutoff token during vacant =>
      cases mine
      rw [during] at stage
      cases stage with
      | updating updates now sane token =>
          cases update_add updates
          exact went rfl (by rw [ClientEvent.entry, refused, during]; rfl) rfl
            (.finished (.refused args now cutoff token))
  | gathered _ during =>
      cases mine
      rw [during] at stage
      cases stage with
      | clearing noreply immediate =>
          exact went rfl (by rw [ClientEvent.entry, acted, during]; rfl) rfl
            (.erasing noreply immediate _ [] fun _ => Or.inr)
  | erased _ key left during =>
      cases mine
      rw [during] at stage
      cases stage with
      | erasing noreply immediate keys dropped all =>
          have still : ∀ other ∈ keys, other ∈ dropped ++ [key] ∨ other ∈ left.erase key := by
            intro other among
            rw [List.mem_append, List.mem_singleton]
            by_cases same : other = key
            · exact Or.inl (Or.inr same)
            · exact (all other among).imp Or.inl (List.mem_erase_of_ne same).mpr
          have later := Stage.erasing noreply immediate keys (dropped ++ [key]) still
          rw [List.map_append] at later
          exact went rfl rfl rfl later
  | cleared _ during =>
      cases mine
      rw [during] at stage
      cases stage with
      | erasing noreply immediate keys dropped all =>
          exact unseen rfl rfl (.finished (.cleared noreply immediate keys dropped fun key among =>
            (all key among).resolve_right List.not_mem_nil))
  | replied _ response answered =>
      cases mine
      obtain ⟨command, done, same, explains⟩ := stage.explains answered
      exact .ends command done response rfl answered same explains (enter_self _ _)
  | evicted key => cases mine

end World

def Tells (client : Client) (log : List (Option Client × Entry)) (world : World Client) : Prop :=
  ∃ pending, Story pending (told client log) ∧ Stage pending (world.phase client)

namespace World

theorem own_tells {event : ClientEvent Client} {world after : World Client} {client : Client}
    {log : List (Option Client × Entry)} (taken : world.step event = some after)
    (mine : event.actor = some client) (tells : Tells client log world) :
    Tells client (log ++ (event.entry world).toList) after := by
  obtain ⟨pending, story, stage⟩ := tells
  cases own_turns taken mine stage with
  | begins command called idle later =>
      subst called idle
      refine ⟨_, ?_, later⟩
      rw [told_append]
      exact told_own client [.called command] ▸ .called story command
  | goes command done more working seen inner later =>
      subst working
      refine ⟨_, ?_, later⟩
      rw [told_append, seen, told_own]
      exact story.goes inner
  | ends command done response replies answered working explains idle =>
      subst replies working
      refine ⟨none, ?_, by rw [idle]; exact .rest⟩
      rw [told_append, ClientEvent.entry, answered]
      exact told_own client [.replied response] ▸ .replied story explains

theorem told_others {client : Client} {log : List (Option Client × Entry)}
    (others : ∀ entry ∈ log, entry.1 ≠ some client) : told client log = [] := by
  rw [told, List.filterMap_eq_nil_iff]
  intro entry among
  exact if_neg (others entry among)

omit [DecidableEq Client] in
theorem entry_owner {event : ClientEvent Client} {world : World Client}
    {entry : Option Client × Entry} (seen : event.entry world = some entry) :
    entry.1 = event.actor := by
  cases event with
  | call | readClock | readCutoff | draw | clear =>
      cases seen
      rfl
  | act | refuse | reply =>
      obtain ⟨_, _, rfl⟩ := Option.map_eq_some_iff.mp seen
      rfl
  | cleared => cases seen
  | evict key =>
      rw [ClientEvent.entry] at seen
      split at seen <;> cases seen
      rfl

theorem step_tells {event : ClientEvent Client} {world after : World Client} {client : Client}
    {log : List (Option Client × Entry)} (taken : world.step event = some after)
    (tells : Tells client log world) : Tells client (log ++ (event.entry world).toList) after := by
  by_cases mine : event.actor = some client
  · exact own_tells taken mine tells
  · obtain ⟨pending, story, stage⟩ := tells
    have silent : told client (event.entry world).toList = [] := by
      apply told_others
      intro entry among
      rw [entry_owner (Option.mem_toList.mp among)]
      exact mine
    refine ⟨pending, ?_, by rwa [step_other taken mine]⟩
    rwa [told_append, silent, List.append_nil]

end World

/-- A run of many clients is a sequence of points on the store, and a story for each of them. -/
structure Linearizes (events : List (ClientEvent Client)) (world : World Client) : Prop where
  replayed : replay (entries events) .new = some world.store.bare
  stories : ∀ client, ∃ pending, Story pending (told client (entries events)) ∧
    (pending = none ↔ world.phase client = .idle)

theorem World.replay_step {event : ClientEvent Client} {world after : World Client}
    {log : List (Option Client × Entry)} (taken : world.step event = some after)
    (replayed : replay log .new = some world.store.bare)
    (sane : ∀ client, (world.phase client).cutoff ≠ some 0) :
    replay (log ++ (event.entry world).toList) .new = some after.store.bare := by
  rw [replay] at replayed ⊢
  rw [run_append, replayed]
  exact step_replays taken sane

end Steps

section Race

def raceEvents : List (ClientEvent Bool) :=
  [.call false (.store .set ⟨ascii "k", 0, 0, ascii "1", false, none⟩), .readClock false 1000,
    .readCutoff false, .draw false, .act false, .reply false,
    .call false (.arithmetic .incr (ascii "k") 1 false), .readClock false 1001,
    .call true (.arithmetic .incr (ascii "k") 1 false), .readClock true 1001,
    .readCutoff true, .readCutoff false, .draw false, .draw true, .act true, .act false,
    .reply false]

def raceWorld : World Bool := (run World.step raceEvents .new).get (by decide +kernel)

end Race

end Ousagi
