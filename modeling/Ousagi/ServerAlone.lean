import Ousagi.ServerLoops

/-!
A client that has the server to itself for a while: whatever it does on it, it does as the
session loop on the sequential store, each command at the time that it has read.
-/

namespace Ousagi

open Library StateTransition

def Operation.finish (now : UInt64) (cutoff : Option UInt64) (store : Store) :
    Operation → Response × Store
  | .retrieve retrieval keys =>
      let (values, store) :=
        collect (fun key store => retrieval.visit now cutoff key store) keys store
      (.values values, store)
  | .update change =>
      let (cas, store) := store.nextCas
      change.perform now cutoff cas (change.count store)
  | .delete key => store.deleteEntry key now cutoff

def Phase.finish (now : UInt64) (store : Store) : Phase → Response × Store
  | .idle => (.ok, store)
  | .called operation =>
      let store := operation.count store
      operation.finish now store.oldestLive store
  | .timed operation now => operation.finish now store.oldestLive store
  | .visiting retrieval now cutoff keys values =>
      let (more, store) :=
        collect (fun key store => retrieval.visit now cutoff key store) keys store
      (.values (values ++ more), store)
  | .drawing update now cutoff => (Operation.update update).finish now cutoff store
  | .updating update now cutoff cas => update.perform now cutoff cas store
  | .deleting key now cutoff => store.deleteEntry key now cutoff
  | .clearing | .erasing _ => (.ok, { store with items := ∅ })
  | .scheduling secs | .scheduled secs now => (.ok, store.flushAll secs now)
  | .finished response => (response, store)

def Phase.unread : Phase → Bool
  | .called _ | .scheduling _ => true
  | _ => false

def ClientEvent.reading {Client : Type} : ClientEvent Client → Option UInt64
  | .readClock _ now => some now
  | _ => none

def ServerEvent.reading {Client : Type} : ServerEvent Client → Option UInt64
  | .work event => event.reading
  | _ => none

theorem begin_erases {command : Command} {keys : List Bytes} :
    command.begin ≠ some (.erasing keys) := by
  cases command with
  | flushAll delay noreply =>
      simp only [Command.begin]
      split <;> simp
  | _ => simp [Command.begin]

theorem begin_finish {command : Command} {phase : Phase} (begins : command.begin = some phase)
    (now : UInt64) (store : Store) :
    phase.finish now (command.count store) = handle now command store := by
  cases command with
  | get | getAndTouch | store | delete | arithmetic | touch =>
      cases begins
      rfl
  | flushAll delay noreply =>
      cases begins
      cases delay with
      | none => rfl
      | some secs =>
          by_cases zero : secs = 0
          · simp [zero, Phase.finish, handle, Store.flush, Command.count]
          · simp [zero, Phase.finish, handle, Store.flush, Command.count]
  | version | verbosity | stats => cases begins

section Worlds

variable {Client : Type} [DecidableEq Client] {client : Client}

namespace World

/-- A client that clears the cache has still to clear every key that is there. -/
def Clears (client : Client) (world : World Client) : Prop :=
  ∀ keys, world.phase client = .erasing keys → ∀ key ∈ world.store.items, key ∈ keys

theorem own_clears {event : ClientEvent Client} {world after : World Client}
    (taken : world.step event = some after) (mine : event.actor = some client)
    (clears : world.Clears client) : after.Clears client := by
  intro left erasing
  cases step_stepped taken with
  | evicted => cases mine
  | called actor command phase idle begins =>
      cases mine
      rw [enter_self] at erasing
      subst erasing
      exact absurd begins begin_erases
  | resumed actor operation =>
      cases mine
      rw [enter_self] at erasing
      cases operation <;> cases erasing
  | gathered actor during =>
      cases mine
      rw [enter_self] at erasing
      cases erasing
      exact fun key there => there
  | erased actor key keys during =>
      cases mine
      rw [enter_self] at erasing
      cases erasing
      intro other there
      rw [enter_store, AList.mem_erase] at there
      exact (List.mem_erase_of_ne there.1).mpr (clears keys during other there.2)
  | timed actor | scheduled actor | drawn actor | visited actor | updated actor | deleted actor
    | flushed actor | refused actor | cleared actor | replied actor =>
      cases mine
      rw [enter_self] at erasing
      cases erasing

theorem own_finish {event : ClientEvent Client} {world after : World Client}
    (taken : world.step event = some after) (inside : event.internal)
    (mine : event.actor = some client) (guarded : event ≠ .refuse client)
    (clears : world.Clears client) (now : UInt64) :
    (after.phase client).finish now after.store =
      (world.phase client).finish (event.reading.getD now) world.store := by
  cases step_stepped taken with
  | called | replied => cases inside
  | evicted => cases mine
  | timed actor now operation during | scheduled actor now secs during
    | drawn actor update now cutoff during | updated actor update now cutoff cas during
    | deleted actor key now cutoff during | gathered actor during | flushed actor secs now during
    | erased actor key keys during =>
      cases mine
      rw [during, enter_self]
      rfl
  | resumed actor operation now during =>
      cases mine
      rw [during, enter_self]
      cases operation <;> rfl
  | visited actor retrieval now cutoff key rest values during =>
      cases mine
      rw [during, enter_self]
      simp only [Phase.finish, collect, enter_store, List.append_assoc]
  | refused actor =>
      cases mine
      exact absurd rfl guarded
  | cleared actor during =>
      cases mine
      have empty : world.store.items = ∅ := by
        apply AList.ext
        rw [AList.empty_entries, ← List.map_eq_nil_iff, List.eq_nil_iff_forall_not_mem]
        exact fun key there => absurd (clears [] during key there) List.not_mem_nil
      rw [during, enter_self]
      simp only [Phase.finish, enter_store, ← empty]

theorem own_read {event : ClientEvent Client} {world after : World Client}
    (taken : world.step event = some after) (inside : event.internal)
    (mine : event.actor = some client) :
    (after.phase client).unread = false ∧
      (event.reading ≠ none → (world.phase client).unread = true) := by
  cases step_stepped taken with
  | called | replied => cases inside
  | evicted => cases mine
  | timed actor now operation during | scheduled actor now secs during =>
      cases mine
      rw [during, enter_self]
      exact ⟨rfl, fun _ => rfl⟩
  | resumed actor operation now during =>
      cases mine
      rw [enter_self]
      exact ⟨by cases operation <;> rfl, fun reads => absurd rfl reads⟩
  | drawn actor | visited actor | updated actor | deleted actor | gathered actor | flushed actor
    | refused actor | erased actor | cleared actor =>
      cases mine
      rw [enter_self]
      exact ⟨rfl, fun reads => absurd rfl reads⟩

/-- The work that is done on a command, and what is left of it, are the whole command at the time
that it has read, or at any time as long as it has not read the clock. -/
structure Works (client : Client) (command : Command) (store : Store) (read : Option UInt64)
    (world : World Client) : Prop where
  finishes : ∀ now,
    (world.phase client).finish now world.store = handle (read.getD now) command store
  unread : (world.phase client).unread = true → read = none
  clears : world.Clears client

theorem works_begin {command : Command} {world : World Client} {phase : Phase}
    (begins : command.begin = some phase) :
    ({ world with store := command.count world.store }.enter client phase).Works client command
      world.store none := by
  refine ⟨fun now => ?_, fun _ => rfl, ?_⟩
  · rw [enter_self]
    exact begin_finish begins now world.store
  · intro keys erasing
    rw [enter_self] at erasing
    subst erasing
    exact absurd begins begin_erases

theorem own_works {event : ClientEvent Client} {world after : World Client} {command : Command}
    {store : Store} {read : Option UInt64} (taken : world.step event = some after)
    (inside : event.internal) (mine : event.actor = some client) (guarded : event ≠ .refuse client)
    (works : world.Works client command store read) :
    ∃ later, after.Works client command store later ∧
      later.toList = read.toList ++ event.reading.toList := by
  obtain ⟨quiet, fresh⟩ := own_read taken inside mine
  have clears := own_clears taken mine works.clears
  have settled : ∀ {later : Option UInt64}, (after.phase client).unread = true → later = none := by
    intro later unread
    rw [quiet] at unread
    cases unread
  cases reading : event.reading with
  | none =>
      refine ⟨read, ⟨fun now => ?_, settled, clears⟩, by simp⟩
      rw [own_finish taken inside mine guarded works.clears, reading, works.finishes]
      rfl
  | some time =>
      have none := works.unread (fresh (by simp [reading]))
      refine ⟨some time, ⟨fun now => ?_, settled, clears⟩, by simp [none]⟩
      rw [own_finish taken inside mine guarded works.clears, reading, works.finishes, none]
      rfl

omit [DecidableEq Client] in
theorem Works.answered {world : World Client} {command : Command} {store : Store}
    {read : Option UInt64} {response : Response} (works : world.Works client command store read)
    (finished : world.response client = some response) :
    handle (read.getD 0) command store = (response, world.store) := by
  refine (works.finishes 0).symm.trans ?_
  rw [World.response] at finished
  cases during : world.phase client with
  | visiting retrieval now cutoff keys values =>
      rw [during] at finished
      cases keys with
      | nil =>
          cases finished
          simp only [Phase.finish, collect, List.append_nil]
      | cons key rest => cases finished
  | finished given =>
      rw [during] at finished
      cases finished
      rfl
  | _ => simp [during] at finished

end World

end Worlds

/-- The sequential handler with the times of the commands beforehand. -/
def handleAt (command : Command) (state : Store × List (Option UInt64)) :
    Response × (Store × List (Option UInt64)) :=
  let (response, store) := handle ((state.2.headD none).getD 0) command state.1
  (response, (store, state.2.tail))

section Numbers

variable [FromRadix10SignedChecked UInt32] [FromRadix10SignedChecked UInt64]
  [FromRadix10SignedChecked Int64]

def Timed (socket : Socket) (overflow : Overflow) (first : Store) (reads : List (Option UInt64))
    (conn : Connection) (store : Store) : Prop :=
  ∀ rest, Reaches (Session.next handleAt) (.start socket overflow (first, reads ++ rest))
    { conn, store := (store, rest) }

section Loops

variable {socket : Socket} {overflow : Overflow} {first : Store} {reads : List (Option UInt64)}
  {conn : Connection} {store : Store}

theorem Timed.again (timed : Timed socket overflow first reads conn store)
    (turn : conn.readCommandTurn.1 = .again) :
    Timed socket overflow first reads conn.readCommandTurn.2 store :=
  fun rest => (timed rest).tail (Session.next_again handleAt turn)

theorem Timed.answered (timed : Timed socket overflow first reads conn store) {command : Command}
    (turn : conn.readCommandTurn.1 = .returned (some command)) {read : Option UInt64}
    {response : Response} {after : Store}
    (handled : handle (read.getD 0) command store = (response, after)) :
    Timed socket overflow first (reads ++ [read])
      (if command.noreply then conn.readCommandTurn.2.record (.received command)
        else ((conn.readCommandTurn.2.record (.received command)).writeResponse response).record
          (.replied response)) after := by
  intro rest
  rw [List.append_assoc]
  refine (timed (read :: rest)).tail ((Session.next_returned handleAt turn).trans ?_)
  cases quiet : command.noreply <;> simp [answer, handleAt, handled, quiet]

theorem Timed.ended (timed : Timed socket overflow first reads conn store)
    (turn : conn.readCommandTurn.1 = .returned none ∨
      ∃ error, conn.readCommandTurn.1 = .failed error) :
    process handleAt socket overflow (first, reads) =
      (conn.readCommandTurn.1.ending, conn.readCommandTurn.2, (store, [])) := by
  have reached := timed []
  rw [List.append_nil] at reached
  exact Session.reached_end handleAt reached turn

end Loops

variable {Client : Type}

namespace Server

def Attends (client : Client) (socket : Socket) (overflow : Overflow) (first : Store)
    (log : List UInt64) (server : Server Client) : Prop :=
  ∀ conn, server.conn client = some conn → ∃ reads : List (Option UInt64),
    (server.world.phase client = .idle ∧ reads.flatMap Option.toList = log ∧
      Timed socket overflow first reads conn server.world.store) ∨
    (server.world.phase client ≠ .idle ∧ ∃ before command store read,
      reads.flatMap Option.toList ++ read.toList = log ∧
      Timed socket overflow first reads before store ∧
      before.readCommandTurn.1 = .returned (some command) ∧
      conn = before.readCommandTurn.2.record (.received command) ∧
      server.noreply client = command.noreply ∧
      server.world.Works client command store read)

theorem Attends.idle {client : Client} {socket : Socket} {overflow : Overflow} {first : Store}
    {log : List UInt64} {server : Server Client} {conn : Connection}
    (attends : server.Attends client socket overflow first log)
    (connected : server.conn client = some conn) (idle : server.world.phase client = .idle) :
    ∃ reads : List (Option UInt64), reads.flatMap Option.toList = log ∧
      Timed socket overflow first reads conn server.world.store := by
  obtain ⟨reads, ⟨_, timed⟩ | ⟨busy, _⟩⟩ := attends conn connected
  · exact ⟨reads, timed⟩
  · exact absurd idle busy

variable [DecidableEq Client]

/-- The step is the client's own, in a session that it has begun.  A vacant entry that nobody else
uses is still there when its guard inserts. -/
def keepsAlone (client : Client) (event : ServerEvent Client) : Bool :=
  match event with
  | .accept _ _ _ => false
  | .read actor | .reply actor => actor = client
  | .work (.refuse _) => false
  | .work event => event.actor = some client

section Steps

variable {client : Client} {socket : Socket} {overflow : Overflow} {first : Store}
  {log : List UInt64} {server after : Server Client}

theorem respond_attends {before : Connection} {reads : List (Option UInt64)} {command : Command}
    {store : Store} {read : Option UInt64} {response : Response}
    (timed : Timed socket overflow first reads before store)
    (logged : reads.flatMap Option.toList ++ read.toList = log)
    (turn : before.readCommandTurn.1 = .returned (some command))
    (handled : handle (read.getD 0) command store = (response, server.world.store))
    (idle : server.world.phase client = .idle) :
    (server.respond client (before.readCommandTurn.2.record (.received command)) command.noreply
      response).Attends client socket overflow first log := by
  intro later attached
  rw [respond_eq] at attached ⊢
  rw [attach_connected attached]
  refine ⟨reads ++ [read], Or.inl ⟨idle, ?_, timed.answered turn handled⟩⟩
  simpa using logged

theorem step_attends {event : ServerEvent Client} (alone : keepsAlone client event)
    (taken : server.step event = some after)
    (attends : server.Attends client socket overflow first log) :
    after.Attends client socket overflow first (log ++ event.reading.toList) := by
  cases step_stepped taken with
  | accepted actor socket overflow free idle => cases alone
  | refused actor conn connected idle turn =>
      cases of_decide_eq_true alone
      obtain ⟨reads, logged, timed⟩ := attends.idle connected idle
      simp only [ServerEvent.reading, Option.toList_none, List.append_nil]
      intro later attached
      rw [attach_connected attached]
      exact ⟨reads, Or.inl ⟨idle, logged, timed.again turn⟩⟩
  | began actor conn command phase connected idle turn begins =>
      cases of_decide_eq_true alone
      obtain ⟨reads, logged, timed⟩ := attends.idle connected idle
      simp only [ServerEvent.reading, Option.toList_none, List.append_nil]
      intro later attached
      refine ⟨reads, Or.inr ⟨?_, conn, command, server.world.store, none, by simpa using logged,
        timed, turn, attach_connected attached, Function.update_self .., World.works_begin begins⟩⟩
      rw [attach_world, World.enter_self]
      rintro rfl
      exact begin_serves begins
  | answered actor conn command connected idle turn storeless =>
      cases of_decide_eq_true alone
      obtain ⟨reads, logged, timed⟩ := attends.idle connected idle
      have handled : handle ((none : Option UInt64).getD 0) command server.world.store =
          ((handle 0 command server.world.store).1, server.world.store) := by
        cases command <;> first | rfl | cases storeless
      simp only [ServerEvent.reading, Option.toList_none, List.append_nil]
      exact respond_attends timed (by simpa using logged) turn handled idle
  | ended actor conn connected idle turn =>
      cases of_decide_eq_true alone
      intro later attached
      simp [closed] at attached
  | worked inner world inside worked =>
      have mine : inner.actor = some client := by
        cases inner with
        | refuse => cases alone
        | _ => exact of_decide_eq_true alone
      have guarded : inner ≠ .refuse client := by
        rintro rfl
        cases alone
      intro conn connected
      obtain ⟨reads, ⟨idle, _⟩ | ⟨_, before, command, store, read, logged, timed, turn, same, quiet,
        works⟩⟩ := attends conn connected
      · exact absurd idle (World.internal_busy worked inside mine)
      · obtain ⟨later, worksOn, reading⟩ := World.own_works worked inside mine guarded works
        refine ⟨reads, Or.inr ⟨World.internal_onward worked inside mine, before, command, store,
          later, ?_, timed, turn, same, quiet, worksOn⟩⟩
        rw [reading, ← List.append_assoc, logged]
        rfl
  | replied actor conn response connected finished =>
      cases of_decide_eq_true alone
      obtain ⟨reads, ⟨idle, _⟩ | ⟨_, before, command, store, read, logged, timed, turn, same, quiet,
        works⟩⟩ := attends conn connected
      · simp [World.response, idle] at finished
      · rw [quiet, same]
        simp only [ServerEvent.reading, Option.toList_none, List.append_nil]
        exact respond_attends timed logged turn (works.answered finished) (World.enter_self _ _)

end Steps

end Server

variable [DecidableEq Client]

/-- A client that keeps the server to itself from its accept on is served as the session loop serves
it on the sequential store that it finds, each command at the time that it has read; and at the end
of its session the server has what `process` returns. -/
theorem alone_process {events : List (ServerEvent Client)} {server opened last : Server Client}
    {client : Client} {socket : Socket} {overflow : Overflow}
    (accepted : server.step (.accept client socket overflow) = some opened)
    (reached : run Server.step events opened = some last)
    (alone : ∀ event ∈ events, Server.keepsAlone client event)
    {conn : Connection} (connected : last.conn client = some conn)
    (idle : last.world.phase client = .idle) :
    ∃ reads : List (Option UInt64),
      reads.flatMap Option.toList = events.filterMap ServerEvent.reading ∧
      (∀ rest, Reaches (Session.next handleAt)
        (.start socket overflow (opened.world.store, reads ++ rest))
        { conn, store := (last.world.store, rest) }) ∧
      ((conn.readCommandTurn.1 = .returned none ∨
          ∃ error, conn.readCommandTurn.1 = .failed error) →
        process handleAt socket overflow (opened.world.store, reads) =
          (conn.readCommandTurn.1.ending, conn.readCommandTurn.2, (last.world.store, []))) := by
  have start : opened.Attends client socket overflow opened.world.store [] := by
    cases Server.step_stepped accepted with
    | accepted _ _ _ free idle =>
        intro conn connected
        rw [Server.attach_connected connected]
        exact ⟨[], Or.inl ⟨idle, rfl, fun _ => .refl⟩⟩
  have throughout := (throughout_iff_forall reached).mpr alone
  have attends := run_observed Server.step_attends throughout reached start
  obtain ⟨reads, logged, timed⟩ := attends.idle connected idle
  rw [List.nil_append, observe_events reached] at logged
  exact ⟨reads, logged, timed, timed.ended⟩

end Numbers

section Talk

def aloneEvents : List (ServerEvent Nat) :=
  [.read 0, .work (.readClock 0 1000), .work (.readCutoff 0), .work (.draw 0), .work (.act 0),
    .reply 0, .read 0, .work (.readClock 0 1001), .work (.readCutoff 0), .work (.act 0), .reply 0]

def aloneStart : Server Nat :=
  (Server.step (.accept 0 setterSocket .tokio) .new).get (by decide +kernel)

def aloneServer : Server Nat := (run Server.step aloneEvents aloneStart).get (by decide +kernel)

theorem setter_alone :
    ∃ conn, aloneServer.conn 0 = some conn ∧ ∃ reads : List (Option UInt64),
      reads.flatMap Option.toList = [1000, 1001] ∧
      process handleAt setterSocket .tokio (aloneStart.world.store, reads) =
        (.ok (), conn.readCommandTurn.2, (aloneServer.world.store, [])) := by
  obtain ⟨conn, connected, turn⟩ := Option.map_eq_some_iff.mp
    (show (aloneServer.conn 0).map (fun conn => conn.readCommandTurn.1) = some (.returned none) by
      decide +kernel)
  obtain ⟨reads, logged, _, ended⟩ := alone_process
    (show Server.step (.accept 0 setterSocket .tokio) .new = some aloneStart from
      (Option.some_get _).symm)
    (show run Server.step aloneEvents aloneStart = some aloneServer from (Option.some_get _).symm)
    (by decide) connected (by decide +kernel)
  refine ⟨conn, connected, reads, logged, ?_⟩
  rw [ended (Or.inl turn), turn]
  rfl

end Talk

end Ousagi
