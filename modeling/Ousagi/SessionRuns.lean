import Ousagi.AtoiCore
import Ousagi.SessionCore
import Ousagi.StoreCore
import Ousagi.Library.Runs

/-!
A session as a run of passes through `read_command`, and what a whole run keeps:
the requests are those of the stream, the bytes written are the responses, and
which runs lose or hold back some of them.
-/

namespace Ousagi

open Library StateTransition

def Event.isRequest : Event → Bool
  | .received _ => true
  | .rejected _ => true
  | _ => false

def Event.response : Event → Option Response
  | .rejected response => some response
  | .replied response => some response
  | _ => none

def requests (history : List Event) : List Event := history.filter (·.isRequest)

def responses (history : List Event) : List Response := history.filterMap (·.response)

@[simp] theorem requests_append (first second : List Event) :
    requests (first ++ second) = requests first ++ requests second :=
  List.filter_append first second

@[simp] theorem responses_append (first second : List Event) :
    responses (first ++ second) = responses first ++ responses second :=
  List.filterMap_append

@[simp] theorem requests_awaited (count : Nat) (unsent : Bytes) :
    requests (List.replicate count (.awaited unsent)) = [] := by
  simp [requests, Event.isRequest]

@[simp] theorem responses_awaited (count : Nat) (unsent : Bytes) :
    responses (List.replicate count (.awaited unsent)) = [] := by
  simp [responses, Event.response]

@[simp] theorem requests_rejected (response : Response) :
    requests [.rejected response] = [.rejected response] := rfl

@[simp] theorem requests_received (command : Command) :
    requests [.received command] = [.received command] := rfl

@[simp] theorem requests_replied (response : Response) : requests [.replied response] = [] := rfl

@[simp] theorem responses_rejected (response : Response) :
    responses [.rejected response] = [response] := rfl

@[simp] theorem responses_received (command : Command) : responses [.received command] = [] := rfl

@[simp] theorem responses_replied (response : Response) :
    responses [.replied response] = [response] := rfl

def Connection.Accounted (conn : Connection) : Prop :=
  conn.writer.sent = (responses conn.history).flatMap encodeResponse

def Connection.Prompt (conn : Connection) : Prop :=
  ∀ unsent, .awaited unsent ∈ conn.history → unsent = []

structure Session (σ : Type) where
  conn : Connection
  store : σ

def Turn.ending : Turn → Except IoError Unit
  | .failed error => .error error
  | _ => .ok ()

section Waiting

variable {count : Nat} {before after : Connection}

theorem Connection.Waited.requests_eq (waited : Waited count before after) :
    requests after.history = requests before.history := by
  simp [waited.history]

theorem Connection.Waited.accounted (waited : Waited count before after)
    (accounted : before.Accounted) : after.Accounted := by
  rw [Accounted, waited.sent, waited.history, accounted]
  simp

theorem Connection.Stalled.accounted (stalled : Stalled count before after)
    (accounted : before.Accounted) : after.Accounted := by
  rw [Accounted, stalled.writer, stalled.history, accounted]
  simp

theorem Connection.Waited.prompt (waited : Waited count before after) :
    after.Prompt ↔ before.Prompt := by
  constructor
  · intro prompt unsent member
    exact prompt unsent (by simp [waited.history, member])
  · intro prompt unsent member
    rw [waited.history, List.mem_append] at member
    rcases member with earlier | here
    · exact prompt unsent earlier
    · simpa using List.eq_of_mem_replicate here

theorem Connection.Stalled.prompt (stalled : Stalled count before after) (some : 0 < count) :
    after.Prompt ↔ before.Prompt ∧ before.writer.buffered = [] := by
  constructor
  · intro prompt
    refine ⟨fun unsent member => prompt unsent (by simp [stalled.history, member]), ?_⟩
    refine prompt _ ?_
    rw [stalled.history, List.mem_append]
    exact Or.inr (List.mem_replicate.mpr ⟨by omega, rfl⟩)
  · rintro ⟨prompt, empty⟩ unsent member
    rw [stalled.history, List.mem_append] at member
    rcases member with earlier | here
    · exact prompt unsent earlier
    · simpa [empty] using List.eq_of_mem_replicate here

theorem Connection.reject_accounted {conn : Connection} (response : Response)
    (accounted : conn.Accounted) : (conn.reject response).Accounted := by
  rw [Accounted, reject_sent, reject_history, accounted]
  simp

theorem Connection.reject_prompt (response : Response) (conn : Connection) :
    (conn.reject response).Prompt ↔ conn.Prompt := by
  simp [Prompt]

end Waiting

section Handler

variable {σ : Type} (handle : Command → σ → Response × σ)

theorem answer_accounted (command : Command) {conn : Connection} (store : σ)
    (accounted : conn.Accounted) : (answer handle command conn store).1.Accounted := by
  simp only [Connection.Accounted] at accounted
  simp only [answer]
  split
  · simpa [Connection.Accounted, Connection.record] using accounted
  · simp [Connection.Accounted, Connection.record, accounted, responses, Event.response]

theorem answer_prompt (command : Command) (conn : Connection) (store : σ) :
    (answer handle command conn store).1.Prompt ↔ conn.Prompt := by
  simp only [answer]
  split <;> simp [Connection.Prompt, Connection.record]

theorem answer_requests (command : Command) (conn : Connection) (store : σ) :
    requests (answer handle command conn store).1.history =
      requests conn.history ++ [.received command] := by
  simp only [answer]
  split <;> simp [Connection.record, requests, Event.isRequest]

end Handler

section Numbers

variable [FromRadix10SignedChecked UInt32] [FromRadix10SignedChecked UInt64]
  [FromRadix10SignedChecked Int64]

/-- The passes whose `read_line` finds a whole `quit` line in the buffer. -/
def Connection.QuitBuffered (conn : Connection) : Prop :=
  ∃ pos, memchr lf conn.buffer = some pos ∧
    parseCommandLine (stripLineEnd (conn.buffer.take (pos + 1))) = .ok .quit

/-- The passes whose `read_line` finds more than a line's length in the buffer and no line. -/
def Connection.LineOverrun (conn : Connection) : Prop :=
  memchr lf conn.buffer = none ∧ maxLineLen ≤ conn.buffer.length

theorem Connection.readCommandTurn_accounted {conn : Connection} (accounted : conn.Accounted) :
    conn.readCommandTurn.2.Accounted := by
  rcases conn.readCommandTurn_cases with ⟨_, middle, waited, _, step, _⟩ |
    ⟨_, full, waited, _, _, _, _, step⟩
  · rw [step]
    cases (cutTurn conn.stream).rejection with
    | none => exact waited.accounted accounted
    | some response => exact reject_accounted response (waited.accounted accounted)
  · obtain ⟨_, stalled, _⟩ := full.discardUntilNewline_cases
    rw [step]
    exact reject_accounted _ (stalled.accounted (waited.accounted accounted))

theorem Connection.readCommandTurn_overrun {conn : Connection} (overrun : conn.LineOverrun) :
    conn.readCommandTurn =
      (.again, conn.discardUntilNewline.reject (.clientError "line too long")) := by
  simp [readCommandTurn, readLine_full overrun.1 overrun.2]

theorem Connection.readCommandTurn_prompt (conn : Connection) :
    conn.readCommandTurn.2.Prompt ↔
      conn.Prompt ∧ ¬(conn.LineOverrun ∧ conn.writer.buffered ≠ []) := by
  by_cases overrun : conn.LineOverrun
  · obtain ⟨reads, stalled, some, _⟩ := conn.discardUntilNewline_cases
    rw [readCommandTurn_overrun overrun, reject_prompt, stalled.prompt (some overrun.1)]
    simp [overrun]
  · simp only [overrun, false_and, not_false_eq_true, and_true]
    rcases conn.readCommandTurn_cases with ⟨count, middle, waited, _, step, _⟩ |
      ⟨count, full, waited, _, missing, long, same, step⟩
    · rw [step, ← waited.prompt]
      cases (cutTurn conn.stream).rejection with
      | none => rfl
      | some response => exact reject_prompt response middle
    · have some : 0 < count := by
        by_contra none
        rw [same (by omega)] at missing long
        exact overrun ⟨missing, long⟩
      obtain ⟨reads, stalled, reading, _⟩ := full.discardUntilNewline_cases
      rw [step, reject_prompt, stalled.prompt (reading missing), waited.prompt]
      simp [waited.buffered some]

section Handler

variable {σ : Type} (handle : Command → σ → Response × σ)

/-- One pass of `read_command` and, if it returns a command, the body of the session loop. -/
def Session.next (session : Session σ) : Option (Session σ) :=
  match session.conn.readCommandTurn with
  | (.again, conn) => some { session with conn }
  | (.returned (some command), conn) =>
      let (conn, store) := answer handle command conn session.store
      some { conn, store }
  | (.returned none, _) => none
  | (.failed _, _) => none

theorem Session.next_cases {before after : Session σ} (step : before.next handle = some after) :
    (before.conn.readCommandTurn.1 = .again ∧
      after = { before with conn := before.conn.readCommandTurn.2 }) ∨
    (∃ command, before.conn.readCommandTurn.1 = .returned (some command) ∧
      after.conn = (answer handle command before.conn.readCommandTurn.2 before.store).1 ∧
      after.store = (answer handle command before.conn.readCommandTurn.2 before.store).2) := by
  simp only [next] at step
  split at step
  · rename_i turn
    left
    rw [turn]
    exact ⟨rfl, (Option.some.inj step).symm⟩
  · rename_i command conn turn
    right
    rw [turn, ← Option.some.inj step]
    exact ⟨command, rfl, rfl, rfl⟩
  · simp at step
  · simp at step

theorem Session.next_stopped {session : Session σ} (stopped : session.next handle = none) :
    session.conn.readCommandTurn.1 = .returned none ∨
      ∃ error, session.conn.readCommandTurn.1 = .failed error := by
  simp only [next] at stopped
  split at stopped
  · simp at stopped
  · simp at stopped
  · rename_i turn
    simp [turn]
  · rename_i turn
    simp [turn]

theorem Session.next_shrinks {before after : Session σ} (step : before.next handle = some after) :
    after.conn.stream.length < before.conn.stream.length := by
  rcases before.next_cases handle step with ⟨turn, same⟩ | ⟨command, turn, conn, _⟩
  · rw [same]
    exact before.conn.readCommandTurn_shrinks (Or.inl turn)
  · rw [conn, answer_stream]
    exact before.conn.readCommandTurn_shrinks (Or.inr ⟨command, turn⟩)

theorem serve_received {conn : Connection} {command : Command}
    (received : conn.readCommand.1 = .ok (some command)) (store : σ) :
    serve handle conn store =
      serve handle (answer handle command conn.readCommand.2 store).1
        (answer handle command conn.readCommand.2 store).2 := by
  rw [serve]
  split
  · rename_i result
    simp [received] at result
  · rename_i result
    simp [received] at result
  · rename_i other result
    have same : command = other := by simpa [received] using result
    rw [same]

theorem serve_closed {conn : Connection} (closed : conn.readCommand.1 = .ok none) (store : σ) :
    serve handle conn store = (.ok (), conn.readCommand.2, store) := by
  rw [serve]
  split
  · rename_i result
    simp [closed] at result
  · rfl
  · rename_i result
    simp [closed] at result

theorem serve_failed {conn : Connection} {error : IoError}
    (failed : conn.readCommand.1 = .error error) (store : σ) :
    serve handle conn store = (.error error, conn.readCommand.2, store) := by
  rw [serve]
  split
  · rename_i other result
    have same : error = other := by simpa [failed] using result
    rw [same]
  · rename_i result
    simp [failed] at result
  · rename_i result
    simp [failed] at result

theorem serve_congr {first second : Connection} (same : first.readCommand = second.readCommand)
    (store : σ) : serve handle first store = serve handle second store := by
  generalize result : second.readCommand.1 = outcome
  cases outcome with
  | error error => rw [serve_failed handle result, serve_failed handle (same ▸ result), same]
  | ok command =>
      cases command with
      | none => rw [serve_closed handle result, serve_closed handle (same ▸ result), same]
      | some command =>
          rw [serve_received handle result, serve_received handle (same ▸ result), same]

theorem Session.next_serve {before after : Session σ} (step : before.next handle = some after) :
    serve handle before.conn before.store = serve handle after.conn after.store := by
  rcases before.next_cases handle step with ⟨turn, same⟩ | ⟨command, turn, conn, store⟩
  · rw [same]
    exact serve_congr handle (before.conn.readCommand_again turn) before.store
  · have read := before.conn.readCommand_returned turn
    have received : before.conn.readCommand.1 = .ok (some command) := by rw [read]
    rw [serve_received handle received, read, conn, store]

theorem Session.serve_stopped {session : Session σ} (stopped : session.next handle = none) :
    serve handle session.conn session.store =
      (session.conn.readCommandTurn.1.ending, session.conn.readCommandTurn.2, session.store) := by
  rcases session.next_stopped handle stopped with turn | ⟨error, turn⟩
  · have read := session.conn.readCommand_returned turn
    rw [serve_closed handle (by rw [read]), read, turn]
    rfl
  · have read := session.conn.readCommand_failed turn
    have failed : session.conn.readCommand.1 = .error error := by rw [read]
    rw [serve_failed handle failed, read, turn]
    rfl

def Session.start (socket : Socket) (overflow : Overflow) (store : σ) : Session σ :=
  { conn := .new socket overflow, store }

/-- A session runs to its last pass, and `process` returns what that pass leaves. -/
theorem process_ends (socket : Socket) (overflow : Overflow) (store : σ) :
    ∃ last, Reaches (Session.next handle) (.start socket overflow store) last ∧
      last.next handle = none ∧
      process handle socket overflow store =
        (last.conn.readCommandTurn.1.ending, last.conn.readCommandTurn.2, last.store) := by
  obtain ⟨last, reached, stopped⟩ := reaches_end (Session.next handle)
    (fun session => session.conn.stream.length) (Session.next_shrinks handle)
    (Session.start socket overflow store)
  refine ⟨last, reached, stopped, ?_⟩
  rw [← last.serve_stopped handle stopped]
  refine reaches_invariant (fun session => process handle socket overflow store =
    serve handle session.conn session.store) reached rfl ?_
  intro before after _ step same
  rw [same, Session.next_serve handle step]

theorem Session.next_accounted {before after : Session σ} (step : before.next handle = some after)
    (accounted : before.conn.Accounted) : after.conn.Accounted := by
  have turned := Connection.readCommandTurn_accounted accounted
  rcases before.next_cases handle step with ⟨_, same⟩ | ⟨command, _, conn, _⟩
  · rw [same]
    exact turned
  · rw [conn]
    exact answer_accounted handle command before.store turned

theorem process_accounted (socket : Socket) (overflow : Overflow) (store : σ) :
    (process handle socket overflow store).2.1.Accounted := by
  obtain ⟨last, reached, _, result⟩ := process_ends handle socket overflow store
  rw [result]
  exact Connection.readCommandTurn_accounted
    (reaches_invariant (fun session : Session σ => session.conn.Accounted) reached rfl
      fun _ step => Session.next_accounted handle step)

theorem Session.next_prompt {before after : Session σ} (step : before.next handle = some after) :
    after.conn.Prompt ↔ before.conn.readCommandTurn.2.Prompt := by
  rcases before.next_cases handle step with ⟨_, same⟩ | ⟨command, _, conn, _⟩
  · rw [same]
  · rw [conn, answer_prompt]

theorem Connection.readCommandTurn_closing {conn : Connection}
    (closing : conn.readCommandTurn.1 = .returned none) :
    conn.readCommandTurn.2.writer.buffered = [] ∨
      (conn.QuitBuffered ∧ conn.readCommandTurn.2.writer = conn.writer) := by
  rcases conn.readCommandTurn_cases with ⟨count, middle, waited, _, step, seen⟩ |
    ⟨_, _, _, _, _, _, _, step⟩
  · rw [step] at closing ⊢
    have quiet : (cutTurn conn.stream).rejection = none := by
      by_contra rejects
      simp [cutTurn_rejects rejects] at closing
    simp only [quiet, Option.elim]
    by_cases none : count = 0
    · right
      obtain ⟨pos, found⟩ := Option.ne_none_iff_exists'.mp (seen none)
      have whole : memchr lf conn.stream = some pos := memchr_append conn.reader.stream found
      have bound := memchr_cut found
      refine ⟨⟨pos, found, ?_⟩, by rw [waited.writer, if_pos none]⟩
      simp only [cutTurn, whole] at closing
      have parsed := cutLine_closing closing
      rw [stream, List.take_append_of_le_length (by omega)] at parsed
      exact parsed
    · exact Or.inl (waited.buffered (by omega))
  · simp [step] at closing

theorem Connection.readCommandTurn_quit {conn : Connection} (quit : conn.QuitBuffered) :
    conn.readCommandTurn.1 = .returned none ∧ conn.readCommandTurn.2.writer = conn.writer := by
  obtain ⟨pos, found, parsed⟩ := quit
  simp [readCommandTurn, readLine_buffered found, parsed, advance]

theorem Session.quit_stops {session : Session σ} (quit : session.conn.QuitBuffered) :
    session.next handle = none := by
  have turn := (Connection.readCommandTurn_quit quit).1
  simp only [next]
  split <;> simp_all

/-- A session that ends without an error has delivered all its responses exactly if no `quit`
line was read while responses were waiting in the writer. -/
theorem process_delivers (socket : Socket) (overflow : Overflow) (store : σ)
    (closed : (process handle socket overflow store).1 = .ok ()) :
    let conn := (process handle socket overflow store).2.1
    conn.writer.delivered = (responses conn.history).flatMap encodeResponse ↔
      ∀ session, Reaches (Session.next handle) (.start socket overflow store) session →
        session.conn.QuitBuffered → session.conn.writer.buffered = [] := by
  obtain ⟨last, reached, stopped, result⟩ := process_ends handle socket overflow store
  rw [result] at closed ⊢
  have accounted : last.conn.Accounted :=
    reaches_invariant (fun session : Session σ => session.conn.Accounted) reached rfl
      fun _ step => Session.next_accounted handle step
  have written := Connection.readCommandTurn_accounted accounted
  have closing : last.conn.readCommandTurn.1 = .returned none := by
    rcases last.next_stopped handle stopped with turn | ⟨error, turn⟩
    · exact turn
    · simp [turn, Turn.ending] at closed
  have whole : last.conn.readCommandTurn.2.writer.delivered =
      (responses last.conn.readCommandTurn.2.history).flatMap encodeResponse ↔
      last.conn.readCommandTurn.2.writer.buffered = [] := by
    rw [Connection.Accounted, BufWriter.sent] at written
    rw [← written]
    simp
  simp only [whole]
  constructor
  · intro empty session onTheWay quit
    rcases Relation.ReflTransGen.cases_head (reaches_before_end onTheWay reached stopped) with
      same | ⟨after, step, _⟩
    · rw [← (Connection.readCommandTurn_quit quit).2, same]
      exact empty
    · rw [Session.quit_stops handle quit] at step
      simp at step
  · intro quiet
    rcases Connection.readCommandTurn_closing closing with empty | ⟨quit, kept⟩
    · exact empty
    · rw [kept]
      exact quiet last reached quit

/-- No read waits with responses unsent exactly if no line overran the buffer while responses
were waiting in the writer. -/
theorem process_prompt (socket : Socket) (overflow : Overflow) (store : σ) :
    (process handle socket overflow store).2.1.Prompt ↔
      ∀ session, Reaches (Session.next handle) (.start socket overflow store) session →
        session.conn.LineOverrun → session.conn.writer.buffered = [] := by
  obtain ⟨last, reached, stopped, result⟩ := process_ends handle socket overflow store
  rw [result]
  constructor
  · intro prompt session onTheWay overrun
    have back : last.conn.readCommandTurn.2.Prompt → session.conn.readCommandTurn.2.Prompt := by
      refine reaches_invariant (fun later : Session σ =>
        later.conn.readCommandTurn.2.Prompt → session.conn.readCommandTurn.2.Prompt)
        (reaches_before_end onTheWay reached stopped) id ?_
      intro before after _ step earlier later
      rw [Connection.readCommandTurn_prompt, Session.next_prompt handle step] at later
      exact earlier later.1
    by_contra held
    exact ((Connection.readCommandTurn_prompt session.conn).mp (back prompt)).2 ⟨overrun, held⟩
  · intro quiet
    have before : last.conn.Prompt := by
      refine reaches_invariant (fun session : Session σ => session.conn.Prompt) reached
        (fun unsent member => by simp [Session.start, Connection.new] at member) ?_
      intro before after onTheWay step prompt
      rw [Session.next_prompt handle step, Connection.readCommandTurn_prompt]
      exact ⟨prompt, fun ⟨overrun, held⟩ => held (quiet before onTheWay overrun)⟩
    rw [Connection.readCommandTurn_prompt]
    exact ⟨before, fun ⟨overrun, held⟩ => held (quiet last reached overrun)⟩

end Handler

end Numbers

section Endings

def patientSocket : Socket := ⟨[ascii "version\r\n", ascii "quit\r\n"], by decide⟩

theorem patient_delivers :
    (process (handle 1000) patientSocket .tokio Store.new).2.1.writer.delivered =
      ascii "VERSION 0.2.0\r\n" := by
  let start : Session Store := .start patientSocket .tokio .new
  let later := (start.next (handle 1000)).get (by decide +kernel)
  have first : start.next (handle 1000) = some later := (Option.some_get _).symm
  have last : later.next (handle 1000) = none := Option.isNone_iff_eq_none.mp (by decide +kernel)
  have waits : ∀ session, Reaches (Session.next (handle 1000)) start session →
      session.conn.QuitBuffered → session.conn.writer.buffered = [] := by
    intro session reached quit
    -- Neither of the two sessions has the line in its buffer when its pass begins.
    have empty : session.conn.buffer = [] := by
      refine (reaches_invariant (fun session => session = start ∨ session = later) reached
        (Or.inl rfl) ?_).elim ?_ ?_
      · rintro before after _ step (rfl | rfl)
        · exact Or.inr (Option.some.inj (step.symm.trans first))
        · cases last.symm.trans step
      · rintro rfl
        rfl
      · rintro rfl
        decide +kernel
    obtain ⟨pos, found, _⟩ := quit
    rw [empty] at found
    cases found
  have delivers := (process_delivers (handle 1000) patientSocket .tokio Store.new
    (by decide +kernel)).mpr waits
  exact delivers.trans (by decide +kernel)

/-- The reply to the first request is still in the writer when `quit` ends the session. -/
theorem pipelined_quit_loses :
    let result := process (handle 1000) ⟨[ascii "version\r\nquit\r\n"], by decide⟩ .tokio Store.new
    result.1 = .ok () ∧ responses result.2.1.history = [.version "0.2.0"] ∧
      result.2.1.writer.delivered = [] := by
  decide +kernel

/-- A rejected line of 8191 bytes, and behind it in the same read the start of a line that is
too long. -/
def overrunSocket : Socket where
  arrivals := [List.replicate 4096 97, List.replicate 4095 97, lf :: List.replicate 8192 97]
  nonempty := by
    intro read member
    rw [List.mem_cons, List.mem_cons, List.mem_singleton] at member
    rcases member with same | same | same
    · rw [same]
      exact List.cons_ne_nil _ _
    · rw [same]
      exact List.cons_ne_nil _ _
    · rw [same]
      exact List.cons_ne_nil _ _

theorem overrun_waits :
    Event.awaited (ascii "ERROR\r\n") ∈
      (process (handle 1000) overrunSocket .tokio Store.new).2.1.history := by
  decide +kernel

end Endings

end Ousagi
