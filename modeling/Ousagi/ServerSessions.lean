import Ousagi.CommandReplies
import Ousagi.ServerSteps
import Ousagi.SessionLimit

/-!
The sessions of a running server, whatever their steps interleave with: each of them
answers its commands one by one and in order, each command with a reply of its own
kind, and what it has written can be read in one way only.
-/

namespace Ousagi

open Library

/-- A session so far: what it refused, and the commands that it received, each with its reply
unless none is wanted.  A command that is still at work stands last. -/
inductive Conversation : Option Command → List Event → Prop
  | silence : Conversation none []
  | refused {told : List Event} {response : Response} (earlier : Conversation none told)
      (refusal : Refusal response) : Conversation none (told ++ [.rejected response])
  | received {told : List Event} {command : Command} (earlier : Conversation none told)
      (wellFormed : command.WellFormed) : Conversation (some command) (told ++ [.received command])
  | quieted {told : List Event} {command : Command} (earlier : Conversation (some command) told)
      (quiet : command.noreply = true) : Conversation none told
  | replied {told : List Event} {command : Command} {response : Response}
      (earlier : Conversation (some command) told) (wanted : command.noreply = false)
      (answers : Fits command response) : Conversation none (told ++ [.replied response])

def Phase.Serves (command : Command) : Phase → Prop
  | .idle => False
  | .called operation | .timed operation _ => command.begin = some (.called operation)
  | .visiting retrieval _ _ waiting values => ∃ visited,
      command.retrieval = some (retrieval, visited ++ waiting) ∧
        Shown retrieval.showsCas visited values
  | .drawing update _ _ | .updating update _ _ _ => command.update = some update
  | .deleting key _ _ => ∃ noreply, command = .delete key noreply
  | .clearing | .erasing _ | .scheduling _ | .scheduled _ _ => command.flushes
  | .finished response => Fits command response

section Phases

variable {command : Command}

theorem begin_serves {phase : Phase} (begins : command.begin = some phase) :
    phase.Serves command := by
  cases command with
  | get | getAndTouch | store | delete | arithmetic | touch =>
      cases begins
      rfl
  | flushAll delay noreply =>
      cases begins
      split <;> rfl
  | version | verbosity | stats => cases begins

theorem resume_serves {operation : Operation} (begins : command.begin = some (.called operation))
    (now : UInt64) (oldestLive : Option UInt64) :
    (operation.resume now oldestLive).Serves command := by
  cases command with
  | get keys | getAndTouch keys =>
      cases begins
      exact ⟨[], rfl, List.Sublist.refl _, by simp⟩
  | store | arithmetic | touch =>
      cases begins
      rfl
  | delete key noreply =>
      cases begins
      exact ⟨noreply, rfl⟩
  | flushAll delay noreply =>
      simp only [Command.begin] at begins
      split at begins <;> cases begins
  | version | verbosity | stats => cases begins

theorem flushes_answered (flushes : command.flushes) : Fits command .ok := by
  cases command with
  | flushAll delay noreply => exact .flushed delay noreply
  | _ => cases flushes

end Phases

theorem Conversation.wellFormed {pending : Option Command} {told : List Event}
    (said : Conversation pending told) :
    (∀ command, pending = some command → command.WellFormed) ∧
      ∀ response ∈ responses told, response.WellFormed := by
  induction said with
  | silence => exact ⟨nofun, nofun⟩
  | refused earlier refusal ih =>
      refine ⟨nofun, ?_⟩
      rw [responses_append, List.forall_mem_append, responses_rejected, List.forall_mem_singleton]
      exact ⟨ih.2, refusal.wellFormed⟩
  | received earlier wellFormed ih =>
      refine ⟨fun command same => Option.some.inj same ▸ wellFormed, ?_⟩
      rw [responses_append, responses_received, List.append_nil]
      exact ih.2
  | quieted earlier quiet ih => exact ⟨nofun, ih.2⟩
  | replied earlier wanted answers ih =>
      refine ⟨nofun, ?_⟩
      rw [responses_append, List.forall_mem_append, responses_replied, List.forall_mem_singleton]
      exact ⟨ih.2, answers.wellFormed (ih.1 _ rfl)⟩

section Worlds

variable {Client : Type}

namespace World

theorem response_answers {world : World Client} {client : Client} {command : Command}
    {response : Response} (serves : (world.phase client).Serves command)
    (finished : world.response client = some response) : Fits command response := by
  rw [World.response] at finished
  cases during : world.phase client with
  | visiting retrieval now oldestLive keys values =>
      rw [during] at serves finished
      obtain ⟨visited, retrieves, shown⟩ := serves
      cases keys with
      | nil =>
          cases finished
          rw [List.append_nil] at retrieves
          exact .found retrieves shown
      | cons key rest => cases finished
  | finished response =>
      rw [during] at serves finished
      cases finished
      exact serves
  | _ => simp [during] at finished

end World

namespace Server

def Talks (client : Client) (server : Server Client) : Prop :=
  ∀ conn, server.conn client = some conn →
    (Conversation none (seen conn.history) ∧ server.world.phase client = .idle) ∨
    ∃ command, Conversation (some command) (seen conn.history) ∧ command.WellFormed ∧
      (server.world.phase client).Serves command ∧ server.noreply client = command.noreply

theorem Talks.idle {client : Client} {server : Server Client} {conn : Connection}
    (talks : server.Talks client) (connected : server.conn client = some conn)
    (idle : server.world.phase client = .idle) : Conversation none (seen conn.history) := by
  rcases talks conn connected with ⟨said, _⟩ | ⟨command, _, _, serves, _⟩
  · exact said
  · rw [idle] at serves
    exact serves.elim

end Server

variable [DecidableEq Client]

theorem add_refused {args : StoreArgs} {command : Command}
    (adds : command.update = some (.store .add args)) : Fits command .notStored := by
  cases command with
  | store op given =>
      cases adds
      exact .notStored args (by decide)
  | get | delete | arithmetic | getAndTouch | touch | flushAll | version | verbosity | stats =>
      cases adds

namespace World

theorem own_serves {event : ClientEvent Client} {world after : World Client} {client : Client}
    {command : Command} (taken : world.step event = some after) (inside : event.internal)
    (mine : event.actor = some client) (wellFormed : command.WellFormed)
    (serves : (world.phase client).Serves command) : (after.phase client).Serves command := by
  cases step_stepped taken with
  | called | replied => cases inside
  | evicted => cases mine
  | timed actor now operation during | scheduled actor now secs during
    | drawn actor update now oldestLive during | gathered actor during
    | erased actor key keys during =>
      cases mine
      rw [during] at serves
      rw [enter_self]
      exact serves
  | resumed actor operation now during =>
      cases mine
      rw [during] at serves
      rw [enter_self]
      exact resume_serves serves now _
  | visited actor retrieval now oldestLive key rest values during =>
      cases mine
      rw [during] at serves
      obtain ⟨visited, retrieves, shown⟩ := serves
      rw [enter_self]
      refine ⟨visited ++ [key], ?_, shown.append (retrieval.visit_shown now oldestLive key _)⟩
      rw [retrieves, List.append_assoc]
      rfl
  | updated actor update now oldestLive cas during =>
      cases mine
      rw [during] at serves
      obtain ⟨items, stats, result, _⟩ := update.perform_effect now oldestLive cas world.store
      rw [enter_self, result]
      exact update.effect_answers serves (update_wellFormed serves wellFormed) now cas _
  | deleted actor key now oldestLive during =>
      cases mine
      rw [during] at serves
      obtain ⟨noreply, rfl⟩ := serves
      rw [enter_self]
      exact deleteEntry_answers key noreply now oldestLive world.store
  | refused actor args now oldestLive cas during vacant =>
      cases mine
      rw [during] at serves
      rw [enter_self]
      exact add_refused serves
  | flushed actor _ _ during | cleared actor during =>
      cases mine
      rw [during] at serves
      rw [enter_self]
      exact flushes_answered serves

theorem step_serves {event : ClientEvent Client} {world after : World Client} {client : Client}
    {command : Command} (taken : world.step event = some after) (inside : event.internal)
    (wellFormed : command.WellFormed) (serves : (world.phase client).Serves command) :
    (after.phase client).Serves command := by
  by_cases mine : event.actor = some client
  · exact own_serves taken inside mine wellFormed serves
  · rw [step_other taken mine]
    exact serves

theorem internal_busy {event : ClientEvent Client} {world after : World Client} {client : Client}
    (taken : world.step event = some after) (inside : event.internal)
    (mine : event.actor = some client) : world.phase client ≠ .idle := by
  cases step_stepped taken with
  | called | replied => cases inside
  | evicted => cases mine
  | timed _ _ _ during | scheduled _ _ _ during | resumed _ _ _ during | drawn _ _ _ _ during
    | visited _ _ _ _ _ _ _ during | updated _ _ _ _ _ during | deleted _ _ _ _ during
    | gathered _ during | flushed _ _ _ during | refused _ _ _ _ _ during | erased _ _ _ during
    | cleared _ during =>
      cases mine
      rw [during]
      exact nofun

end World

namespace Server

theorem respond_talks {client : Client} {server : Server Client} {conn : Connection}
    {command : Command} {response : Response} (idle : server.world.phase client = .idle)
    (said : Conversation (some command) (seen conn.history)) (answers : Fits command response) :
    (server.respond client conn command.noreply response).Talks client := by
  intro later connected
  left
  rw [respond_eq] at connected ⊢
  refine ⟨?_, idle⟩
  rw [attach_connected connected]
  cases quiet : command.noreply with
  | true => exact .quieted said quiet
  | false =>
      have shown : seen ((conn.writeResponse response).record (.replied response)).history =
          seen conn.history ++ [.replied response] := by
        simp [Connection.record, seen, Event.isSeen]
      simp only [Bool.false_eq_true, if_false, shown]
      exact .replied said quiet answers

section Numbers

variable [FromRadix10SignedChecked UInt32] [FromRadix10SignedChecked UInt64]
  [FromRadix10SignedChecked Int64]

theorem cutTurn_refusal {stream : Bytes} {response : Response}
    (rejects : (cutTurn stream).rejection = some response) : Refusal response := by
  simp only [cutTurn] at rejects
  split at rejects
  · cases rejects
  · simp only [cutLine, cutPayload] at rejects
    split at rejects
    · cases rejects
      exact .line _
    · cases rejects
    · split at rejects
      · cases rejects
      · split at rejects
        · cases rejects
        · cases rejects
          exact .chunk
    · cases rejects

theorem readCommandTurn_seen (conn : Connection) :
    (conn.readCommandTurn.1 = .again ∧ ∃ response, Refusal response ∧
      seen conn.readCommandTurn.2.history = seen conn.history ++ [.rejected response]) ∨
    (conn.readCommandTurn.1 ≠ .again ∧
      seen conn.readCommandTurn.2.history = seen conn.history) := by
  rcases conn.readCommandTurn_cases with ⟨_, middle, waited, _, step, _⟩ |
    ⟨_, full, waited, _, _, _, _, step⟩
  · rw [step, ← waited.seen_eq]
    cases rejects : (cutTurn conn.stream).rejection with
    | none =>
        refine Or.inr ⟨?_, rfl⟩
        intro again
        obtain ⟨response, refused, _⟩ := cutTurn_again again
        rw [rejects] at refused
        cases refused
    | some response =>
        refine Or.inl ⟨cutTurn_rejects (by simp [rejects]), response, cutTurn_refusal rejects, ?_⟩
        simp
  · obtain ⟨_, stalled, _⟩ := full.discardUntilNewline_cases
    rw [step, ← waited.seen_eq]
    refine Or.inl ⟨rfl, _, .overlong, ?_⟩
    simp [stalled.history]

theorem recorded_talks {told : List Event} {conn : Connection} {command : Command}
    (said : Conversation none told)
    (returned : conn.readCommandTurn.1 = .returned (some command))
    (before : told = seen conn.history) :
    command.WellFormed ∧ Conversation (some command)
      (seen (conn.readCommandTurn.2.record (.received command)).history) := by
  have wellFormed := cutTurn_wellFormed (Connection.readCommandTurn_cut returned)
  have quiet : seen conn.readCommandTurn.2.history = seen conn.history := by
    rcases readCommandTurn_seen conn with ⟨again, _⟩ | ⟨_, same⟩
    · simp [returned] at again
    · exact same
  have shown : seen (conn.readCommandTurn.2.record (.received command)).history =
      told ++ [.received command] := by
    rw [before, ← quiet]
    simp [Connection.record, seen, Event.isSeen]
  rw [shown]
  exact ⟨wellFormed, .received said wellFormed⟩

theorem step_talks {event : ServerEvent Client} {server after : Server Client} {client : Client}
    (taken : server.step event = some after) (talks : server.Talks client) :
    after.Talks client := by
  by_cases mine : event.actor = some client
  · cases step_stepped taken with
    | accepted actor socket overflow free idle =>
        cases mine
        intro conn connected
        rw [attach_connected connected]
        exact Or.inl ⟨.silence, idle⟩
    | refused actor conn connected idle turn =>
        cases mine
        have said := talks.idle connected idle
        intro later attached
        rcases readCommandTurn_seen conn with ⟨_, response, refusal, shown⟩ | ⟨onward, _⟩
        · rw [attach_connected attached, shown]
          exact Or.inl ⟨.refused said refusal, idle⟩
        · exact absurd turn onward
    | began actor conn command phase connected idle turn begins =>
        cases mine
        obtain ⟨wellFormed, said⟩ := recorded_talks (talks.idle connected idle) turn rfl
        intro later attached
        rw [attach_connected attached]
        refine Or.inr ⟨command, said, wellFormed, ?_, Function.update_self ..⟩
        rw [attach_world, World.enter_self]
        exact begin_serves begins
    | answered actor conn command connected idle turn storeless =>
        cases mine
        obtain ⟨wellFormed, said⟩ := recorded_talks (talks.idle connected idle) turn rfl
        exact respond_talks idle said (handle_replies wellFormed 0 server.world.store)
    | ended actor conn connected idle turn =>
        cases mine
        intro later attached
        simp [closed] at attached
    | worked inner world inside worked =>
        intro conn connected
        rcases talks conn connected with ⟨said, idle⟩ | ⟨command, said, wellFormed, serves, quiet⟩
        · exact absurd idle (World.internal_busy worked inside mine)
        · exact Or.inr ⟨command, said, wellFormed,
            World.step_serves worked inside wellFormed serves, quiet⟩
    | replied actor conn response connected finished =>
        cases mine
        rcases talks conn connected with ⟨said, idle⟩ | ⟨command, said, wellFormed, serves, quiet⟩
        · simp [World.response, idle] at finished
        · rw [quiet]
          exact respond_talks (World.enter_self _ _) said (World.response_answers serves finished)
  · have same := step_other taken mine
    intro conn connected
    rw [same.conn] at connected
    rw [same.phase, same.noreply]
    exact talks conn connected

theorem run_talks {events : List (ServerEvent Client)} {server : Server Client}
    (reached : run step events new = some server) (client : Client) : server.Talks client := by
  let known : Server Client → Prop := fun server => server.Talks client
  have all : known server := @run_keeps _ _ step known (fun _ => True) (fun _ _ => trivial)
    (fun taken _ talks => step_talks taken talks) _ _ _ reached trivial
    (fun conn connected => by cases connected)
  exact all

/-- What a new connection has, and every pass that goes on and every reply keeps, the connections
of a running server have. -/
theorem run_conns (holds : Client → Connection → Prop)
    (refuses : ∀ {client conn}, holds client conn → conn.readCommandTurn.1 = .again →
      holds client conn.readCommandTurn.2)
    (receives : ∀ {client conn command}, holds client conn →
      conn.readCommandTurn.1 = .returned (some command) →
        holds client (conn.readCommandTurn.2.record (.received command)))
    (replies : ∀ {client conn} response, holds client conn →
      holds client ((conn.writeResponse response).record (.replied response)))
    {events : List (ServerEvent Client)}
    (fresh : ∀ client socket overflow, .accept client socket overflow ∈ events →
      holds client (.new socket overflow))
    {first last : Server Client} (reached : run step events first = some last)
    (start : ∀ client conn, first.conn client = some conn → holds client conn) :
    ∀ client conn, last.conn client = some conn → holds client conn := by
  have attaches : ∀ {server : Server Client} {client : Client} {conn : Option Connection},
      (∀ later, conn = some later → holds client later) →
      (∀ other later, server.conn other = some later → holds other later) →
      ∀ other later, (server.attach client conn).conn other = some later → holds other later := by
    intro server client conn kept all other later connected
    rw [attach_conn] at connected
    split at connected
    · rename_i same
      exact same ▸ kept later connected
    · exact all other later connected
  have responds : ∀ {client conn} (quiet : Bool) response, holds client conn → ∀ later,
      some (if quiet then conn else (conn.writeResponse response).record (.replied response)) =
        some later → holds client later := by
    intro client conn quiet response kept later same
    rw [← Option.some.inj same]
    cases quiet with
    | true => exact kept
    | false => exact replies response kept
  induction events generalizing first with
  | nil =>
      have same : first = last := Option.some.inj reached
      rwa [← same]
  | cons event rest ih =>
      obtain ⟨second, taken, onward⟩ := run_cons reached
      refine ih (fun client socket overflow among =>
        fresh client socket overflow (List.mem_cons_of_mem event among)) onward ?_
      cases step_stepped taken with
      | accepted actor socket overflow free idle =>
          refine attaches ?_ start
          intro later same
          cases same
          exact fresh actor socket overflow List.mem_cons_self
      | refused actor before attached idle turn =>
          refine attaches ?_ start
          intro later same
          cases same
          exact refuses (start actor before attached) turn
      | began actor before command phase attached idle turn begins =>
          refine attaches ?_ start
          intro later same
          cases same
          exact receives (start actor before attached) turn
      | answered actor before command attached idle turn storeless =>
          rw [respond_eq]
          exact attaches (responds command.noreply _
            (receives (start actor before attached) turn)) start
      | ended actor before attached idle turn => exact attaches nofun start
      | worked inner world inside worked => exact start
      | replied actor before response attached finished =>
          rw [respond_eq]
          exact attaches (responds _ response (start actor before attached)) start

end Numbers

end Server

section Numbers

variable [FromRadix10SignedChecked UInt32] [FromRadix10SignedChecked UInt64]
  [FromRadix10SignedChecked Int64] {events : List (ServerEvent Client)} {server : Server Client}

/-- Whatever the steps of the sessions interleave with, each session refuses its bad requests and
answers its commands one by one, each with one reply that fits the command unless none is wanted;
only the command that it is at work on has not been answered. -/
theorem sessions_converse (reached : run Server.step events .new = some server) {client : Client}
    {conn : Connection} (connected : server.conn client = some conn) :
    ∃ pending, Conversation pending (seen conn.history) ∧
      (pending = none ↔ server.world.phase client = .idle) := by
  rcases Server.run_talks reached client conn connected with
    ⟨said, idle⟩ | ⟨command, said, _, serves, _⟩
  · exact ⟨none, said, by simp [idle]⟩
  · refine ⟨some command, said, iff_of_false nofun ?_⟩
    intro idle
    rw [idle] at serves
    exact serves

/-- What a running server has written to a client is the encoding of its responses, and no other
responses have that encoding. -/
theorem sessions_decodable (reached : run Server.step events .new = some server) {client : Client}
    {conn : Connection} (connected : server.conn client = some conn) :
    conn.writer.sent = (responses conn.history).flatMap encodeResponse ∧
      ∀ decoded : List Response, (∀ response ∈ decoded, response.WellFormed) →
        decoded.flatMap encodeResponse = conn.writer.sent → decoded = responses conn.history := by
  have accounted : conn.Accounted := by
    refine Server.run_conns (fun _ conn => conn.Accounted) ?_ ?_ ?_ ?_ reached nofun client conn
      connected
    · exact fun accounted _ => Connection.readCommandTurn_accounted accounted
    · intro _ conn command accounted _
      have turned := Connection.readCommandTurn_accounted accounted
      simpa [Connection.Accounted, Connection.record] using turned
    · intro _ conn response accounted
      rw [Connection.Accounted] at accounted
      simp [Connection.Accounted, Connection.record, accounted]
    · exact fun _ _ _ _ => rfl
  refine ⟨accounted, ?_⟩
  intro decoded clean same
  have clean' : ∀ response ∈ responses conn.history, response.WellFormed := by
    rw [← responses_seen]
    rcases Server.run_talks reached client conn connected with ⟨said, _⟩ | ⟨_, said, _⟩
    · exact said.wellFormed.2
    · exact said.wellFormed.2
  exact prefixCode_response.flatMap_injective encodeResponse_nonempty clean clean'
    (same.trans accounted)

end Numbers

end Worlds

section Talk

def setterSocket : Socket := ⟨[ascii "set k 0 0 1\r", ascii "\na\r\nget k\r\n"], by decide⟩

def counterSocket : Socket := ⟨[ascii "bogus\r\nincr", ascii " k 1\r\n"], by decide⟩

/-- The increment reads the clock before the item is stored, and finds it all the same. -/
def talkEvents : List (ServerEvent Nat) :=
  [.read 0, .read 1, .work (.readClock 0 1000), .read 1, .work (.readCutoff 0),
    .work (.readClock 1 1000), .work (.draw 0), .work (.act 0), .work (.readCutoff 1),
    .work (.draw 1), .reply 0, .work (.act 1), .reply 1, .read 0]

def talkStart : List (ServerEvent Nat) :=
  [.accept 1 counterSocket .tokio, .accept 0 setterSocket .tokio]

def talkServer : Server Nat :=
  (run Server.step (talkStart ++ talkEvents) .new).get (by decide +kernel)

def talkConn (client : Nat) (connected : (talkServer.conn client).isSome) : Connection :=
  (talkServer.conn client).get connected

theorem talkServer_reached : run Server.step (talkStart ++ talkEvents) .new = some talkServer :=
  (Option.some_get _).symm

theorem talk_converses :
    ∃ pending, Conversation pending (seen (talkConn 1 (by decide +kernel)).history) ∧
      (pending = none ↔ talkServer.world.phase 1 = .idle) :=
  sessions_converse talkServer_reached (Option.some_get _).symm

theorem talk_decodable :
    (talkConn 1 (by decide +kernel)).writer.sent =
      [Response.error, .clientError "cannot increment non-numeric value"].flatMap encodeResponse := by
  have decodable := sessions_decodable talkServer_reached
    (Option.some_get (show (talkServer.conn 1).isSome by decide +kernel)).symm
  exact decodable.1.trans (congrArg (List.flatMap encodeResponse) (by decide +kernel))

end Talk

end Ousagi
