import Ousagi.ClientsPoints
import Ousagi.ServerSessions

/-!
The server as its clients see it: every reply that a session has written is the reply of
the sequential handler at points between the request and the reply, and all the points of
all the sessions, one after the other, make the store what it is.
-/

namespace Ousagi

open Library

/-- What a session has said, told by the entries of its client: a line is refused, a command that
looks at no item is answered at once, and any other is called, goes on and is replied. -/
inductive Hears : Option (Command × List Entry) → List Entry → List Event → Prop
  | joined {told : List Entry} (earlier : Story none told) : Hears none told []
  | refused {told : List Entry} {said : List Event} {response : Response}
      (earlier : Hears none told said) (refusal : Refusal response) :
      Hears none told (said ++ [.rejected response])
  | answered {told : List Entry} {said : List Event} {command : Command} {response : Response}
      (earlier : Hears none told said) (storeless : command.begin = none)
      (fits : Fits command response) :
      Hears none told (said ++ .received command ::
        if command.noreply then [] else [.replied response])
  | called {told : List Entry} {said : List Event} (earlier : Hears none told said)
      (command : Command) :
      Hears (some (command, [])) (told ++ [.called command]) (said ++ [.received command])
  | went {told done : List Entry} {said : List Event} {command : Command}
      (earlier : Hears (some (command, done)) told said) {entry : Entry} (inner : entry.inner) :
      Hears (some (command, done ++ [entry])) (told ++ [entry]) said
  | replied {told done : List Entry} {said : List Event} {command : Command} {response : Response}
      (earlier : Hears (some (command, done)) told said)
      (explains : Explains command done response) :
      Hears none (told ++ [.replied response])
        (said ++ if command.noreply then [] else [.replied response])

theorem Hears.story {pending : Option (Command × List Entry)} {told : List Entry}
    {said : List Event} (hears : Hears pending told said) : Story pending told := by
  induction hears with
  | joined earlier => exact earlier
  | refused earlier refusal ih => exact ih
  | answered earlier storeless fits ih => exact ih
  | called earlier command ih => exact .called ih command
  | went earlier inner ih => exact .went ih inner
  | replied earlier explains ih => exact .replied ih explains

theorem Hears.goes {told done more : List Entry} {said : List Event} {command : Command}
    (hears : Hears (some (command, done)) told said) (inner : ∀ entry ∈ more, entry.inner) :
    Hears (some (command, done ++ more)) (told ++ more) said := by
  induction more generalizing told done with
  | nil => rwa [List.append_nil, List.append_nil]
  | cons entry rest ih =>
      rw [List.forall_mem_cons] at inner
      have later := ih (.went hears inner.1) inner.2
      rwa [List.append_assoc, List.append_assoc] at later

def Turn.begun : Turn → Option Command
  | .returned (some command) => if command.begin.isSome then some command else none
  | _ => none

section Hearings

variable {Client : Type} [DecidableEq Client]

namespace Server

def Hearing (client : Client) (log : List (Option Client × Entry)) (server : Server Client) :
    Prop :=
  (server.conn client = none → Story none (told client log) ∧ server.world.phase client = .idle) ∧
  ∀ conn, server.conn client = some conn → ∃ pending,
    Hears pending (told client log) (seen conn.history) ∧
      Stage pending (server.world.phase client) ∧
      ∀ command done, pending = some (command, done) → server.noreply client = command.noreply

theorem Hearing.stage {client : Client} {log : List (Option Client × Entry)}
    {server : Server Client} (hearing : server.Hearing client log) :
    ∃ pending, Stage pending (server.world.phase client) := by
  cases connected : server.conn client with
  | none =>
      rw [(hearing.1 connected).2]
      exact ⟨none, .rest⟩
  | some conn =>
      obtain ⟨pending, _, stage, _⟩ := hearing.2 conn connected
      exact ⟨pending, stage⟩

theorem Hearing.idle {client : Client} {log : List (Option Client × Entry)}
    {server : Server Client} {conn : Connection} (hearing : server.Hearing client log)
    (connected : server.conn client = some conn) (idle : server.world.phase client = .idle) :
    Hears none (told client log) (seen conn.history) := by
  obtain ⟨pending, hears, stage, _⟩ := hearing.2 conn connected
  rw [idle] at stage
  cases stage with
  | rest => exact hears

theorem Hearing.attached {client : Client} {log : List (Option Client × Entry)}
    {server : Server Client} {conn : Connection} {pending : Option (Command × List Entry)}
    (hears : Hears pending (told client log) (seen conn.history))
    (stage : Stage pending (server.world.phase client))
    (quiet : ∀ command done, pending = some (command, done) →
      server.noreply client = command.noreply) :
    (server.attach client (some conn)).Hearing client log := by
  constructor
  · intro free
    simp at free
  · intro later connected
    rw [attach_connected connected]
    exact ⟨pending, hears, stage, quiet⟩

theorem seen_record (conn : Connection) {event : Event} (shown : event.isSeen) :
    seen (conn.record event).history = seen conn.history ++ [event] := by
  simp [Connection.record, seen, shown]

theorem respond_hearing {client : Client} {server : Server Client} {conn : Connection}
    {log : List (Option Client × Entry)} {quiet : Bool} {response : Response}
    (idle : server.world.phase client = .idle)
    (hears : Hears none (told client log)
      (seen conn.history ++ if quiet then [] else [.replied response])) :
    (server.respond client conn quiet response).Hearing client log := by
  rw [respond_eq]
  refine .attached ?_ (by rw [idle]; exact .rest) (fun _ _ same => by cases same)
  cases quiet with
  | true => simpa using hears
  | false =>
      rw [if_neg Bool.false_ne_true] at hears ⊢
      rw [seen_record _ rfl, Connection.writeResponse_history]
      exact hears

end Server

end Hearings

section Numbers

variable [FromRadix10SignedChecked UInt32] [FromRadix10SignedChecked UInt64]
  [FromRadix10SignedChecked Int64] {Client : Type}

def ServerEvent.entry (event : ServerEvent Client) (server : Server Client) :
    Option (Option Client × Entry) :=
  match event with
  | .accept _ _ _ => none
  | .read client =>
      ((server.conn client).bind fun conn => conn.readCommandTurn.1.begun).map fun command =>
        (some client, .called command)
  | .work event => event.entry server.world
  | .reply client => (ClientEvent.reply client).entry server.world

theorem Server.entry_owner {event : ServerEvent Client} {server : Server Client}
    {entry : Option Client × Entry} (seen : event.entry server = some entry) :
    entry.1 = event.actor := by
  cases event with
  | accept => cases seen
  | read client =>
      obtain ⟨_, _, rfl⟩ := Option.map_eq_some_iff.mp seen
      rfl
  | work event => exact @World.entry_owner _ event server.world entry seen
  | reply client => exact @World.entry_owner _ (.reply client) server.world entry seen

variable [DecidableEq Client]

namespace Server

def entries (events : List (ServerEvent Client)) : List (Option Client × Entry) :=
  observe step ServerEvent.entry events .new

theorem received_seen {conn : Connection} {command : Command}
    (returned : conn.readCommandTurn.1 = .returned (some command)) :
    seen (conn.readCommandTurn.2.record (.received command)).history =
      seen conn.history ++ [.received command] := by
  rcases readCommandTurn_seen conn with ⟨again, _⟩ | ⟨_, same⟩
  · simp [returned] at again
  · rw [seen_record _ rfl, same]

theorem own_hearing {event : ServerEvent Client} {server after : Server Client} {client : Client}
    {log : List (Option Client × Entry)} (taken : server.step event = some after)
    (mine : event.actor = some client) (hearing : server.Hearing client log) :
    after.Hearing client (log ++ (event.entry server).toList) := by
  cases step_stepped taken with
  | accepted _ socket overflow free idle =>
      cases mine
      obtain ⟨story, _⟩ := hearing.1 free
      rw [ServerEvent.entry, Option.toList_none, List.append_nil]
      exact .attached (.joined story) (by rw [idle]; exact .rest) (fun _ _ same => by cases same)
  | refused _ conn connected idle turn =>
      cases mine
      have hears := hearing.idle connected idle
      have silent : (ServerEvent.read client).entry server = none := by
        simp [ServerEvent.entry, connected, turn, Turn.begun]
      rcases readCommandTurn_seen conn with ⟨_, response, refusal, shown⟩ | ⟨onward, _⟩
      · rw [silent, Option.toList_none, List.append_nil]
        refine .attached ?_ (by rw [idle]; exact .rest) (fun _ _ same => by cases same)
        rw [shown]
        exact .refused hears refusal
      · exact absurd turn onward
  | began _ conn command phase connected idle turn begins =>
      cases mine
      have hears := hearing.idle connected idle
      have called :
          (ServerEvent.read client).entry server = some (some client, .called command) := by
        simp [ServerEvent.entry, connected, turn, Turn.begun, begins]
      rw [called]
      have later : Hears (some (command, []))
          (told client (log ++ [(some client, .called command)]))
          (seen (conn.readCommandTurn.2.record (.received command)).history) := by
        rw [received_seen turn, told_append]
        exact told_own client [.called command] ▸ .called hears command
      refine .attached later ?_ ?_
      · rw [World.enter_self]
        exact begin_stage begins
      · intro other done same
        cases same
        exact Function.update_self ..
  | answered _ conn command connected idle turn storeless =>
      cases mine
      have hears := hearing.idle connected idle
      have silent : (ServerEvent.read client).entry server = none := by
        simp [ServerEvent.entry, connected, turn, Turn.begun, storeless]
      have wellFormed := cutTurn_wellFormed (Connection.readCommandTurn_cut turn)
      rw [silent, Option.toList_none, List.append_nil]
      refine respond_hearing idle ?_
      rw [received_seen turn, List.append_assoc]
      exact .answered hears storeless (handle_replies wellFormed 0 server.world.store)
  | ended _ conn connected idle turn =>
      cases mine
      have hears := hearing.idle connected idle
      have silent : (ServerEvent.read client).entry server = none := by
        rcases turn with returned | ⟨error, failed⟩
        · simp [ServerEvent.entry, connected, returned, Turn.begun]
        · simp [ServerEvent.entry, connected, failed, Turn.begun]
      rw [silent, Option.toList_none, List.append_nil]
      refine ⟨fun _ => ⟨hears.story, idle⟩, ?_⟩
      intro later attached
      simp [closed] at attached
  | worked inner world inside worked =>
      have goes : ∀ {pending : Option (Command × List Entry)},
          Stage pending (server.world.phase client) → ∃ command done more,
            pending = some (command, done) ∧
            (inner.entry server.world).toList = more.map (fun entry => (some client, entry)) ∧
            (∀ entry ∈ more, entry.inner) ∧
            Stage (some (command, done ++ more)) (world.phase client) := by
        intro pending stage
        cases World.own_turns worked mine stage with
        | begins command called => simp [called, ClientEvent.internal] at inside
        | goes command done more working seen inner later =>
            exact ⟨command, done, more, working, seen, inner, later⟩
        | ends command done response replies => simp [replies, ClientEvent.internal] at inside
      constructor
      · intro free
        rw [(hearing.1 free).2] at goes
        obtain ⟨_, _, _, same, _⟩ := goes .rest
        cases same
      · intro conn connected
        obtain ⟨pending, hears, stage, quiet⟩ := hearing.2 conn connected
        obtain ⟨command, done, more, rfl, seen, inner, later⟩ := goes stage
        refine ⟨some (command, done ++ more), ?_, later, ?_⟩
        · rw [ServerEvent.entry, seen, told_append, told_own]
          exact hears.goes inner
        · rintro other whole same
          cases same
          exact quiet command done rfl
  | replied _ conn response connected finished =>
      cases mine
      obtain ⟨pending, hears, stage, quiet⟩ := hearing.2 conn connected
      obtain ⟨command, done, rfl, explains⟩ := stage.explains finished
      have seen : (ServerEvent.reply client).entry server =
          some (some client, .replied response) := by
        simp [ServerEvent.entry, ClientEvent.entry, finished]
      rw [seen, quiet command done rfl]
      refine respond_hearing (World.enter_self _ _) ?_
      rw [told_append]
      exact told_own client [.replied response] ▸ .replied hears explains

theorem step_hearing {event : ServerEvent Client} {server after : Server Client} {client : Client}
    {log : List (Option Client × Entry)} (taken : server.step event = some after)
    (hearing : server.Hearing client log) :
    after.Hearing client (log ++ (event.entry server).toList) := by
  by_cases mine : event.actor = some client
  · exact own_hearing taken mine hearing
  · have silent : told client (event.entry server).toList = [] := by
      apply World.told_others
      intro entry among
      rw [entry_owner (Option.mem_toList.mp among)]
      exact mine
    have same := step_other taken mine
    rw [Hearing, told_append, silent, List.append_nil, same.conn, same.phase, same.noreply]
    exact hearing

/-- A step of the server is a step of the store and seen as that, or it is not seen and leaves all
but the counters as it was. -/
theorem step_entry {event : ServerEvent Client} {server after : Server Client}
    (taken : server.step event = some after) :
    event.entry server = none ∧ after.world.phase = server.world.phase ∧
        after.world.store.bare = server.world.store.bare ∨
      ∃ inner, server.world.step inner = some after.world ∧
        event.entry server = inner.entry server.world := by
  cases step_stepped taken with
  | accepted client socket overflow free idle => exact Or.inl ⟨rfl, rfl, rfl⟩
  | refused client conn connected idle turn =>
      exact Or.inl ⟨by simp [ServerEvent.entry, connected, turn, Turn.begun], rfl, rfl⟩
  | began client conn command phase connected idle turn begins =>
      refine Or.inr ⟨.call client command, ?_, ?_⟩
      · simp [World.step, idle, begins]
      · simp [ServerEvent.entry, connected, turn, Turn.begun, begins, ClientEvent.entry]
  | answered client conn command connected idle turn storeless =>
      rw [respond_eq]
      refine Or.inl ⟨?_, rfl, rfl⟩
      simp [ServerEvent.entry, connected, turn, Turn.begun, storeless]
  | ended client conn connected idle turn =>
      refine Or.inl ⟨?_, rfl, rfl⟩
      rcases turn with returned | ⟨error, failed⟩
      · simp [ServerEvent.entry, connected, returned, Turn.begun]
      · simp [ServerEvent.entry, connected, failed, Turn.begun]
  | worked inner world inside worked => exact Or.inr ⟨inner, worked, rfl⟩
  | replied client conn response connected finished =>
      refine Or.inr ⟨.reply client, ?_, rfl⟩
      rw [respond_eq]
      simp [World.step, finished]

theorem replay_step {event : ServerEvent Client} {server after : Server Client}
    {log : List (Option Client × Entry)} (taken : server.step event = some after)
    (replayed : replay log .new = some server.world.store.bare)
    (hearing : ∀ client, server.Hearing client log) :
    replay (log ++ (event.entry server).toList) .new = some after.world.store.bare := by
  rcases step_entry taken with ⟨unseen, _, same⟩ | ⟨inner, worked, seen⟩
  · rw [unseen, Option.toList_none, List.append_nil, replayed, same]
  · rw [seen]
    refine World.replay_step worked replayed ?_
    intro client
    obtain ⟨_, stage⟩ := (hearing client).stage
    exact stage.sane

theorem run_hearing {events : List (ServerEvent Client)} {server : Server Client}
    (reached : run step events new = some server) :
    replay (entries events) .new = some server.world.store.bare ∧
      ∀ client, server.Hearing client (entries events) := by
  let holds (log : List (Option Client × Entry)) (server : Server Client) : Prop :=
    replay log .new = some server.world.store.bare ∧ ∀ client, server.Hearing client log
  have keeps : ∀ {log : List (Option Client × Entry)} {event : ServerEvent Client}
      {before after : Server Client}, before.step event = some after → holds log before →
      holds (log ++ (event.entry before).toList) after := by
    rintro log event before after taken ⟨replayed, hearing⟩
    exact ⟨replay_step taken replayed hearing, fun client => step_hearing taken (hearing client)⟩
  have start : holds [] .new :=
    ⟨rfl, fun client => ⟨fun _ => ⟨.silent, rfl⟩, fun conn connected => by cases connected⟩⟩
  exact run_logged keeps reached start

end Server

end Numbers

end Ousagi
