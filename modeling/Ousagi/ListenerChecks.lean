import Ousagi.ClientsBalance
import Ousagi.ListenerCore
import Ousagi.ServerProgress

/-!
The permits of the listener: how many sessions there are at most, what the counters
of connections say about them, and that a connection that waits is served at last.
-/

namespace Ousagi

open Library

section Clients

variable {Client : Type}

namespace Server

def Vacant (server : Server Client) : Prop :=
  ∀ client, server.conn client = none → server.world.phase client = .idle

def counted (counter : Counter) (server : Server Client) : UInt64 :=
  server.world.store.stats counter

theorem count_apart {counter : Counter} (connections : counter = .currConnections ∨
    counter = .totalConnections) (command : Command) (store : Store) :
    (command.count store).stats counter = store.stats counter := by
  cases command with
  | flushAll delay noreply => rcases connections with rfl | rfl <;> rfl
  | _ => rfl

end Server

namespace Listener

def sessions (listener : Listener Client) : List Client :=
  listener.tasks.filter fun client => (listener.server.conn client).isSome

/-- What every reached state has: each permit is free or with one task, and each session is in a
task. -/
structure Sound (limit : Nat) (listener : Listener Client) : Prop where
  permits : listener.connections + listener.tasks.length = limit
  distinct : listener.tasks.Nodup
  housed : ∀ client, (listener.server.conn client).isSome → client ∈ listener.tasks
  vacant : listener.server.Vacant
  fresh : ∀ client socket overflow, listener.acceptor = .acquiring client socket overflow →
    client ∉ listener.tasks
  current : listener.server.counted .currConnections = UInt64.ofNat listener.sessions.length

theorem new_sound (limit : Nat) : (new limit : Listener Client).Sound limit :=
  { permits := rfl, distinct := List.nodup_nil, housed := nofun, vacant := fun _ _ => rfl
    fresh := nofun, current := rfl }

theorem Sound.sessions_exact {limit : Nat} {listener : Listener Client}
    (sound : listener.Sound limit) (client : Client) :
    client ∈ listener.sessions ↔ (listener.server.conn client).isSome := by
  rw [sessions, List.mem_filter]
  exact and_iff_right_of_imp (sound.housed client)

theorem Sound.sessions_few {limit : Nat} {listener : Listener Client}
    (sound : listener.Sound limit) : listener.sessions.length ≤ limit := by
  have occupied := sound.permits
  have fewer := List.length_filter_le (fun client => (listener.server.conn client).isSome)
    listener.tasks
  rw [sessions]
  omega

end Listener

variable [DecidableEq Client]

namespace Server

theorem worked_counted {event : ClientEvent Client} {world after : World Client}
    (taken : world.step event = some after) :
    after.store.stats .currConnections = world.store.stats .currConnections ∧
      after.store.stats .totalConnections = world.store.stats .totalConnections := by
  obtain ⟨_, _, ⟨bill, paid, ⟨current, total⟩, _⟩, _⟩ := World.step_books taken
  rw [paid, pay_due, pay_due, current, total]
  simp

theorem attach_open {client : Client} {server moved : Server Client} {conn : Connection}
    (same : moved.conn = server.conn) (connected : server.conn client = some conn)
    (later : Connection) (other : Client) :
    ((moved.attach client (some later)).conn other).isSome = (server.conn other).isSome := by
  rw [attach_conn, same]
  split
  · simp [*]
  · rfl

end Server

namespace Listener

theorem sessions_ended {tasks : List Client} {before after : Client → Option Connection}
    {client : Client} (distinct : tasks.Nodup)
    (others : ∀ other, after other = if other = client then none else before other) :
    (tasks.filter fun other => (after other).isSome) =
      (tasks.filter fun other => (before other).isSome).erase client := by
  rw [(distinct.filter _).erase_eq_filter, List.filter_filter]
  refine List.filter_congr fun other _ => ?_
  rw [others]
  by_cases same : other = client <;> simp [same]

theorem released_sound {limit : Nat} {client : Client} {listener : Listener Client}
    (among : client ∈ listener.tasks) (gone : listener.server.conn client = none)
    (sound : listener.Sound limit) :
    Sound limit { listener with
      connections := listener.connections + 1
      tasks := listener.tasks.erase client } where
  permits := by
    have occupied := sound.permits
    have some := List.length_pos_of_mem among
    simp only [List.length_erase_of_mem among]
    omega
  distinct := sound.distinct.erase client
  housed := by
    intro other connected
    have different : other ≠ client := by
      rintro rfl
      simp [gone] at connected
    exact (List.mem_erase_of_ne different).mpr (sound.housed other connected)
  vacant := sound.vacant
  fresh := fun other socket overflow waits held =>
    sound.fresh other socket overflow waits (List.mem_of_mem_erase held)
  current := by
    have same : ((listener.tasks.erase client).filter fun other =>
        (listener.server.conn other).isSome) = listener.sessions := by
      rw [sound.distinct.erase_eq_filter, List.filter_filter]
      refine List.filter_congr fun other _ => ?_
      by_cases here : other = client <;> simp [here, gone]
    simp only [sessions, same]
    exact sound.current

end Listener

end Clients

section Numbers

variable [FromRadix10SignedChecked UInt32] [FromRadix10SignedChecked UInt64]
  [FromRadix10SignedChecked Int64] {Client : Type} [DecidableEq Client]

namespace Server

theorem step_vacant {event : ServerEvent Client} {server after : Server Client}
    (taken : server.step event = some after) (vacant : server.Vacant) : after.Vacant := by
  intro client free
  by_cases mine : event.actor = some client
  · cases step_stepped taken with
    | accepted | refused | began =>
        cases mine
        simp [opened] at free
    | answered =>
        cases mine
        simp [respond_eq] at free
    | replied =>
        cases mine
        simp [respond_eq] at free
    | ended actor conn connected idle turn =>
        cases mine
        exact idle
    | worked inner world inside worked =>
        exact absurd (vacant client free) (World.internal_busy worked inside mine)
  · have same := step_other taken mine
    rw [same.phase]
    exact vacant client (same.conn ▸ free)

theorem step_counted {event : ServerEvent Client} {server after : Server Client}
    (taken : server.step event = some after) (spawned : event.spawned) :
    after.counted .totalConnections = server.counted .totalConnections ∧
    (((∀ other, (after.conn other).isSome = (server.conn other).isSome) ∧
        after.counted .currConnections = server.counted .currConnections) ∨
      ∃ client, (server.conn client).isSome ∧
        (∀ other, after.conn other = if other = client then none else server.conn other) ∧
        after.counted .currConnections = server.counted .currConnections - 1) := by
  cases step_stepped taken with
  | accepted => cases spawned
  | refused client conn connected idle turn =>
      exact ⟨rfl, Or.inl ⟨attach_open rfl connected _, rfl⟩⟩
  | began client conn command phase connected idle turn begins =>
      exact ⟨count_apart (Or.inr rfl) command _, Or.inl ⟨attach_open rfl connected _,
        count_apart (Or.inl rfl) command _⟩⟩
  | answered client conn command connected idle turn storeless =>
      rw [respond_eq]
      exact ⟨rfl, Or.inl ⟨attach_open rfl connected _, rfl⟩⟩
  | ended client conn connected idle turn =>
      refine ⟨rfl, Or.inr ⟨client, by simp [connected], fun other => attach_conn .., ?_⟩⟩
      simp [counted, closed, Stats.sub]
  | worked inner world inside worked =>
      obtain ⟨current, total⟩ := worked_counted worked
      exact ⟨total, Or.inl ⟨fun _ => rfl, current⟩⟩
  | replied client conn response connected finished =>
      rw [respond_eq]
      exact ⟨rfl, Or.inl ⟨attach_open rfl connected _, rfl⟩⟩

theorem accepted_counted {client : Client} {socket : Socket} {overflow : Overflow}
    {server after : Server Client}
    (taken : server.step (.accept client socket overflow) = some after) :
    server.conn client = none ∧
      (∀ other, after.conn other =
        if other = client then some (.new socket overflow) else server.conn other) ∧
      after.counted .currConnections = server.counted .currConnections + 1 ∧
      after.counted .totalConnections = server.counted .totalConnections + 1 := by
  cases step_stepped taken with
  | accepted _ _ _ free idle =>
      exact ⟨free, fun other => attach_conn .., by simp [counted, opened, Store.count, Stats.add],
        by simp [counted, opened, Store.count, Stats.add]⟩

end Server

namespace Listener

inductive Stepped (listener : Listener Client) : ListenerEvent Client → Listener Client → Prop
  | accepted (client : Client) (socket : Socket) (overflow : Overflow)
      (ready : listener.acceptor = .accepting) (fresh : client ∉ listener.tasks) :
      Stepped listener (.accepted client socket overflow)
        { listener with acceptor := .acquiring client socket overflow }
  | failed (ready : listener.acceptor = .accepting) :
      Stepped listener .acceptFailed { listener with acceptor := .sleeping }
  | slept (asleep : listener.acceptor = .sleeping) :
      Stepped listener .slept { listener with acceptor := .accepting }
  | acquired (client : Client) (socket : Socket) (overflow : Overflow) (server : Server Client)
      (connections : Nat) (waits : listener.acceptor = .acquiring client socket overflow)
      (permits : listener.connections = connections + 1)
      (taken : listener.server.step (.accept client socket overflow) = some server) :
      Stepped listener .acquired
        { server, acceptor := .accepting, connections, tasks := listener.tasks ++ [client] }
  | session (event : ServerEvent Client) (server : Server Client) (spawned : event.spawned)
      (taken : listener.server.step event = some server) :
      Stepped listener (.session event) { listener with server }
  | released (client : Client) (among : client ∈ listener.tasks)
      (gone : listener.server.conn client = none) :
      Stepped listener (.released client)
        { listener with
          connections := listener.connections + 1
          tasks := listener.tasks.erase client }

theorem step_stepped {event : ListenerEvent Client} {listener after : Listener Client}
    (taken : listener.step event = some after) : listener.Stepped event after := by
  cases event with
  | accepted client socket overflow =>
      simp only [step] at taken
      split at taken
      · rename_i ready
        split at taken
        · cases taken
        · rename_i fresh
          cases taken
          exact .accepted client socket overflow ready fresh
      · cases taken
  | acceptFailed =>
      simp only [step] at taken
      split at taken
      · rename_i ready
        cases taken
        exact .failed ready
      · cases taken
  | slept =>
      simp only [step] at taken
      split at taken
      · rename_i asleep
        cases taken
        exact .slept asleep
      · cases taken
  | acquired =>
      simp only [step] at taken
      split at taken
      · rename_i client socket overflow connections waits permits
        obtain ⟨server, accepted, same⟩ := Option.map_eq_some_iff.mp taken
        rw [← same]
        exact .acquired client socket overflow server connections waits permits accepted
      · cases taken
  | session event =>
      simp only [step] at taken
      split at taken
      · rename_i spawned
        obtain ⟨server, stepped, same⟩ := Option.map_eq_some_iff.mp taken
        rw [← same]
        exact .session event server spawned stepped
      · cases taken
  | released client =>
      simp only [step] at taken
      split at taken
      · rename_i gone
        cases taken
        exact .released client gone.1 (Option.isNone_iff_eq_none.mp gone.2)
      · cases taken

theorem acquired_sound {limit : Nat} {listener : Listener Client} {client : Client}
    {socket : Socket} {overflow : Overflow} {server : Server Client} {connections : Nat}
    (waits : listener.acceptor = .acquiring client socket overflow)
    (permits : listener.connections = connections + 1)
    (accepted : listener.server.step (.accept client socket overflow) = some server)
    (sound : listener.Sound limit) :
    Sound limit { server, acceptor := .accepting, connections, tasks := listener.tasks ++ [client] }
    where
  permits := by
    have occupied := sound.permits
    simp only [List.length_append, List.length_singleton]
    omega
  distinct := by
    refine List.nodup_append.mpr ⟨sound.distinct, List.nodup_singleton client, ?_⟩
    intro other among _ last same
    rw [same, List.mem_singleton.mp last] at among
    exact sound.fresh client socket overflow waits among
  housed := by
    intro other connected
    rw [(Server.accepted_counted accepted).2.1] at connected
    split at connected
    · simp [*]
    · exact List.mem_append_left _ (sound.housed other connected)
  vacant := Server.step_vacant accepted sound.vacant
  fresh := nofun
  current := by
    have fresh := sound.fresh client socket overflow waits
    obtain ⟨_, others, current, _⟩ := Server.accepted_counted accepted
    have earlier : (listener.tasks.filter fun other => (server.conn other).isSome) =
        listener.sessions := by
      refine List.filter_congr fun other among => ?_
      rw [others, if_neg (fun same : other = client => fresh (same ▸ among))]
    have opened : [client].filter (fun other => (server.conn other).isSome) = [client] := by
      simp [others]
    have all : (listener.tasks ++ [client]).filter (fun other => (server.conn other).isSome) =
        listener.sessions ++ [client] := by rw [List.filter_append, earlier, opened]
    simp only [sessions, all, List.length_append, List.length_singleton, UInt64.ofNat_add]
    exact current.trans (congrArg (· + 1) sound.current)

theorem session_sound {limit : Nat} {event : ServerEvent Client} {listener : Listener Client}
    {server : Server Client} (spawned : event.spawned)
    (taken : listener.server.step event = some server) (sound : listener.Sound limit) :
    Sound limit { listener with server } := by
  obtain ⟨_, ⟨same, current⟩ | ⟨client, connected, others, current⟩⟩ :=
    Server.step_counted taken spawned
  · refine { sound with
      housed := ?_, vacant := Server.step_vacant taken sound.vacant, current := ?_ }
    · exact fun other connected => sound.housed other (same other ▸ connected)
    · simp only [sessions, same, current]
      exact sound.current
  · refine { sound with
      housed := ?_, vacant := Server.step_vacant taken sound.vacant, current := ?_ }
    · intro other connected
      rw [others] at connected
      split at connected
      · cases connected
      · exact sound.housed other connected
    · have among : client ∈ listener.sessions :=
        List.mem_filter.mpr ⟨sound.housed client connected, connected⟩
      have some := List.length_pos_of_mem among
      have left : sessions { listener with server } = listener.sessions.erase client :=
        sessions_ended sound.distinct others
      rw [left, List.length_erase_of_mem among, UInt64.ofNat_sub some, ← sound.current]
      exact current

theorem step_sound {limit : Nat} {event : ListenerEvent Client} {listener after : Listener Client}
    (taken : listener.step event = some after) (sound : listener.Sound limit) :
    after.Sound limit := by
  cases step_stepped taken with
  | accepted client socket overflow ready fresh =>
      refine { sound with fresh := ?_ }
      rintro _ _ _ same
      cases same
      exact fresh
  | failed | slept => exact { sound with fresh := nofun }
  | acquired client socket overflow server connections waits permits accepted =>
      exact acquired_sound waits permits accepted sound
  | session event server spawned stepped => exact session_sound spawned stepped sound
  | released client among gone => exact released_sound among gone sound

theorem Sound.run {limit : Nat} {events : List (ListenerEvent Client)}
    {first last : Listener Client} (sound : first.Sound limit)
    (reached : run step events first = some last) : last.Sound limit := by
  let known : Listener Client → Prop := fun listener => listener.Sound limit
  have all : known last := @run_keeps _ _ step known (fun _ => True) (fun _ _ => trivial)
    (fun taken _ sound => step_sound taken sound) _ _ _ reached trivial sound
  exact all

end Listener

def ListenerEvent.acquires : ListenerEvent Client → Bool
  | .acquired => true
  | _ => false

def ListenerEvent.leaves : ListenerEvent Client → Bool
  | .session _ | .released _ => true
  | _ => false

namespace Listener

theorem run_total {events : List (ListenerEvent Client)} {first last : Listener Client}
    (reached : run step events first = some last) :
    last.server.counted .totalConnections =
      first.server.counted .totalConnections + UInt64.ofNat (events.countP (·.acquires)) := by
  induction events generalizing first with
  | nil =>
      cases Option.some.inj reached
      simp
  | cons event rest ih =>
      obtain ⟨second, taken, onward⟩ := run_cons reached
      rw [ih onward, List.countP_cons, UInt64.ofNat_add]
      cases step_stepped taken with
      | accepted | failed | slept | released => simp [ListenerEvent.acquires]
      | acquired client socket overflow server connections waits permits accepted =>
          rw [(Server.accepted_counted accepted).2.2.2, UInt64.add_assoc]
          exact congrArg _ (UInt64.add_comm _ _)
      | session event server spawned stepped =>
          rw [(Server.step_counted stepped spawned).1]
          simp [ListenerEvent.acquires]

/-- What a server does under its listener is a run of the server, with the connections that the
listener has accepted. -/
theorem run_serves {events : List (ListenerEvent Client)} {first last : Listener Client}
    (reached : run step events first = some last) :
    ∃ served, run Server.step served first.server = some last.server ∧
      ∀ client socket overflow, .accept client socket overflow ∈ served →
        .accepted client socket overflow ∈ events ∨
          first.acceptor = .acquiring client socket overflow := by
  induction events generalizing first with
  | nil =>
      cases Option.some.inj reached
      exact ⟨[], rfl, nofun⟩
  | cons event rest ih =>
      obtain ⟨second, taken, onward⟩ := run_cons reached
      obtain ⟨served, after, arrived⟩ := ih onward
      cases step_stepped taken with
      | accepted client socket overflow ready fresh =>
          refine ⟨served, after, ?_⟩
          intro other given policy among
          rcases arrived other given policy among with later | now
          · exact Or.inl (List.mem_cons_of_mem _ later)
          · cases now
            exact Or.inl List.mem_cons_self
      | failed | slept =>
          refine ⟨served, after, ?_⟩
          intro other given policy among
          rcases arrived other given policy among with later | now
          · exact Or.inl (List.mem_cons_of_mem _ later)
          · cases now
      | released =>
          refine ⟨served, after, ?_⟩
          intro other given policy among
          exact (arrived other given policy among).imp_left (List.mem_cons_of_mem _)
      | acquired client socket overflow server connections waits permits accepted =>
          refine ⟨.accept client socket overflow :: served, by rw [run, accepted]; exact after, ?_⟩
          intro other given policy among
          rcases List.mem_cons.mp among with same | inside
          · cases same
            exact Or.inr waits
          · rcases arrived other given policy inside with later | now
            · exact Or.inl (List.mem_cons_of_mem _ later)
            · cases now
      | session event server spawned stepped =>
          refine ⟨event :: served, by rw [run, stepped]; exact after, ?_⟩
          intro other given policy among
          rcases List.mem_cons.mp among with same | inside
          · rw [← same] at spawned
            cases spawned
          · exact (arrived other given policy inside).imp_left (List.mem_cons_of_mem _)

theorem run_sessions {events : List (ServerEvent Client)} {listener : Listener Client}
    {server : Server Client} (spawned : ∀ event ∈ events, event.spawned)
    (reached : run Server.step events listener.server = some server) :
    run step (events.map .session) listener = some { listener with server } := by
  induction events generalizing listener with
  | nil =>
      rw [← Option.some.inj reached]
      rfl
  | cons event rest ih =>
      obtain ⟨second, taken, onward⟩ := run_cons reached
      rw [List.forall_mem_cons] at spawned
      have moved : step (.session event) listener = some { listener with server := second } := by
        simp [step, spawned.1, taken]
      rw [List.map_cons, run, moved]
      exact @ih { listener with server := second } spawned.2 onward

theorem Sound.acquires {limit connections : Nat} {listener : Listener Client} {client : Client}
    {socket : Socket} {overflow : Overflow} (sound : listener.Sound limit)
    (waits : listener.acceptor = .acquiring client socket overflow)
    (free : listener.connections = connections + 1) :
    ∃ after, step .acquired listener = some after ∧
      after.server.conn client = some (.new socket overflow) := by
  have fresh := sound.fresh client socket overflow waits
  have absent : listener.server.conn client = none := by
    by_contra connected
    exact fresh (sound.housed client (Option.isSome_iff_ne_none.mpr connected))
  have idle := sound.vacant client absent
  refine ⟨_, by simp [step, waits, free, Server.step, absent, idle]; rfl, ?_⟩
  simp [Server.opened]

theorem makes_room (listener : Listener Client) {task : Client} (among : task ∈ listener.tasks) :
    ∃ own after, (∀ event ∈ own, event.leaves) ∧ run step own listener = some after ∧
      after.acceptor = listener.acceptor ∧ after.connections = listener.connections + 1 := by
  obtain ⟨own, server, all, finished, gone⟩ := Server.session_finishes task listener.server
  have spawned : ∀ event ∈ own, event.spawned := by
    intro event mine
    have inside := all event mine
    cases event with
    | accept => cases inside
    | read | work | reply => rfl
  have ended := run_sessions spawned finished
  have released : step (.released task) { listener with server } =
      some { listener with
        server, connections := listener.connections + 1, tasks := listener.tasks.erase task } := by
    simp [step, among, gone]
  have left : run step (own.map .session ++ [.released task]) listener = some { listener with
      server, connections := listener.connections + 1, tasks := listener.tasks.erase task } := by
    rw [run_append, ended, Option.bind_some, run, released]
    rfl
  refine ⟨_, _, ?_, left, rfl, rfl⟩
  intro event among
  rcases List.mem_append.mp among with session | last
  · obtain ⟨inner, _, rfl⟩ := List.mem_map.mp session
    rfl
  · rw [List.mem_singleton.mp last]
    rfl

end Listener

/-- No more sessions are open than there are permits, and the counters of connections say how many
are open and how many have been, modulo 2^64. -/
theorem connections_limited {limit : Nat} {events : List (ListenerEvent Client)}
    {listener : Listener Client} (reached : run Listener.step events (.new limit) = some listener) :
    ∃ sessions : List Client, sessions.Nodup ∧
      (∀ client, client ∈ sessions ↔ (listener.server.conn client).isSome) ∧
      sessions.length ≤ limit ∧
      listener.server.counted .currConnections = UInt64.ofNat sessions.length ∧
      listener.server.counted .totalConnections = UInt64.ofNat (events.countP (·.acquires)) := by
  have sound := (Listener.new_sound limit).run reached
  refine ⟨listener.sessions, sound.distinct.filter _, sound.sessions_exact, sound.sessions_few,
    sound.current, ?_⟩
  rw [Listener.run_total reached]
  exact UInt64.zero_add _

end Numbers

section Full

def statsSocket : Socket := ⟨[ascii "stats\r\n"], by decide⟩

def fullEvents : List (ListenerEvent Nat) :=
  [.accepted 0 statsSocket .tokio, .acquired, .acceptFailed, .slept,
    .accepted 1 counterSocket .tokio]

def fullListener : Listener Nat :=
  (run Listener.step fullEvents (.new 1)).get (by decide +kernel)

theorem fullListener_reached : run Listener.step fullEvents (.new 1) = some fullListener :=
  (Option.some_get _).symm

theorem full_limited :
    ∃ sessions : List Nat, sessions.Nodup ∧
      (∀ client, client ∈ sessions ↔ (fullListener.server.conn client).isSome) ∧
      sessions.length ≤ 1 ∧
      fullListener.server.counted .currConnections = UInt64.ofNat sessions.length ∧
      fullListener.server.counted .totalConnections = UInt64.ofNat 1 :=
  connections_limited fullListener_reached

end Full

end Ousagi
