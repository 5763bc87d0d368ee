import Ousagi.SessionRuns

/-!
The reference that reads the whole input at once, and the agreement of a session
with it wherever the reads end.
-/

namespace Ousagi

open Library StateTransition

section Numbers

variable [FromRadix10SignedChecked UInt32] [FromRadix10SignedChecked UInt64]
  [FromRadix10SignedChecked Int64]

theorem cutTurn_shrinks {stream : Bytes} (goesOn : (cutTurn stream).turn = .again ∨
    ∃ command, (cutTurn stream).turn = .returned (some command)) :
    (cutTurn stream).rest.length < stream.length := by
  cases found : memchr lf stream with
  | none => simp [cutTurn, found] at goesOn
  | some pos =>
      have bound := memchr_cut found
      have shorter := cutLine_rest (stripLineEnd (stream.take (pos + 1))) (stream.drop (pos + 1))
      simp only [List.length_drop] at shorter
      simp only [cutTurn, found]
      omega

/-- The commands and error responses of a whole input, and how the input ends. -/
def reference (stream : Bytes) : List Event × Except IoError Unit :=
  match _ : (cutTurn stream).turn with
  | .again =>
      let (later, ending) := reference (cutTurn stream).rest
      ((cutTurn stream).rejection.toList.map .rejected ++ later, ending)
  | .returned (some command) =>
      let (later, ending) := reference (cutTurn stream).rest
      (.received command :: later, ending)
  | .returned none => ([], .ok ())
  | .failed error => ([], .error error)
termination_by stream.length
decreasing_by
  · exact cutTurn_shrinks (Or.inl (by assumption))
  · exact cutTurn_shrinks (Or.inr ⟨_, by assumption⟩)

/-- The next line ends within the limit or, if the input has no more lines, all that is left
stays below it. -/
def lineShort (stream : Bytes) : Bool :=
  match memchr lf stream with
  | none => stream.length < maxLineLen
  | some pos => pos < maxLineLen

def linesShort (stream : Bytes) : Bool :=
  lineShort stream &&
    match _ : (cutTurn stream).turn with
    | .again => linesShort (cutTurn stream).rest
    | .returned (some _) => linesShort (cutTurn stream).rest
    | .returned none => true
    | .failed _ => true
termination_by stream.length
decreasing_by
  · exact cutTurn_shrinks (Or.inl (by assumption))
  · exact cutTurn_shrinks (Or.inr ⟨_, by assumption⟩)

theorem linesShort_first {stream : Bytes} (short : linesShort stream) : lineShort stream := by
  rw [linesShort, Bool.and_eq_true] at short
  exact short.1

theorem linesShort_rest {stream : Bytes} (short : linesShort stream)
    (goesOn : (cutTurn stream).turn = .again ∨
      ∃ command, (cutTurn stream).turn = .returned (some command)) :
    linesShort (cutTurn stream).rest := by
  rw [linesShort, Bool.and_eq_true] at short
  have later := short.2
  split at later
  · exact later
  · exact later
  · rename_i turn
    simp [turn] at goesOn
  · rename_i turn
    simp [turn] at goesOn

theorem reference_again {stream : Bytes} (turn : (cutTurn stream).turn = .again) :
    reference stream =
      ((cutTurn stream).rejection.toList.map .rejected ++ (reference (cutTurn stream).rest).1,
        (reference (cutTurn stream).rest).2) := by
  rw [reference]
  split <;> simp_all

theorem reference_received {stream : Bytes} {command : Command}
    (turn : (cutTurn stream).turn = .returned (some command)) :
    reference stream =
      (.received command :: (reference (cutTurn stream).rest).1,
        (reference (cutTurn stream).rest).2) := by
  rw [reference]
  split <;> simp_all

theorem reference_stopped {stream : Bytes}
    (turn : (cutTurn stream).turn = .returned none ∨
      ∃ error, (cutTurn stream).turn = .failed error) :
    reference stream = ([], (cutTurn stream).turn.ending) := by
  rw [reference]
  split <;> simp_all [Turn.ending]

namespace Connection

theorem readCommandTurn_short {conn : Connection} (short : lineShort conn.stream) :
    ∃ count middle, Waited count conn middle ∧ middle.stream = (cutTurn conn.stream).rest ∧
      conn.readCommandTurn = ((cutTurn conn.stream).turn,
        (cutTurn conn.stream).rejection.elim middle (middle.reject ·)) := by
  rcases conn.readCommandTurn_cases with ⟨count, middle, waited, rest, step, _⟩ |
    ⟨_, full, _, same, missing, long, _, _⟩
  · exact ⟨count, middle, waited, rest, step⟩
  · exfalso
    have whole := memchr_append_none full.reader.stream missing
    have length : full.buffer.length ≤ conn.stream.length := by
      rw [← same, stream, List.length_append]
      omega
    have split : full.buffer ++ full.reader.stream = conn.stream := same
    rw [split] at whole
    simp only [lineShort, whole] at short
    cases later : memchr lf full.reader.stream <;> simp [later] at short <;> omega

theorem readCommandTurn_agrees {conn : Connection} (short : lineShort conn.stream) :
    conn.readCommandTurn.1 = (cutTurn conn.stream).turn ∧
      conn.readCommandTurn.2.stream = (cutTurn conn.stream).rest ∧
      requests conn.readCommandTurn.2.history =
        requests conn.history ++ (cutTurn conn.stream).rejection.toList.map .rejected := by
  obtain ⟨_, middle, waited, rest, step⟩ := readCommandTurn_short short
  rw [step, ← rest, ← waited.requests_eq]
  cases (cutTurn conn.stream).rejection <;> simp

end Connection

section Handler

variable {σ : Type} (handle : Command → σ → Response × σ)

structure Session.Agrees (stream : Bytes) (session : Session σ) : Prop where
  short : linesShort session.conn.stream
  events : requests session.conn.history ++ (reference session.conn.stream).1 =
    (reference stream).1
  ending : (reference session.conn.stream).2 = (reference stream).2

theorem Session.next_agrees {stream : Bytes} {before after : Session σ}
    (step : before.next handle = some after) (agrees : before.Agrees stream) :
    after.Agrees stream := by
  obtain ⟨turned, rest, passed⟩ := Connection.readCommandTurn_agrees (linesShort_first agrees.short)
  have events := agrees.events
  have ending := agrees.ending
  rcases before.next_cases handle step with ⟨turn, same⟩ | ⟨command, turn, conn, _⟩
  · rw [turned] at turn
    rw [reference_again turn, ← rest] at events ending
    have short := linesShort_rest agrees.short (Or.inl turn)
    rw [← rest] at short
    rw [same]
    exact ⟨short, by simp only [passed, List.append_assoc, events], ending⟩
  · rw [turned] at turn
    rw [reference_received turn, ← rest] at events ending
    have short := linesShort_rest agrees.short (Or.inr ⟨command, turn⟩)
    have quiet : (cutTurn before.conn.stream).rejection = none := by
      by_contra rejects
      simp [cutTurn_rejects rejects] at turn
    rw [← rest] at short
    refine ⟨?_, ?_, ?_⟩
    · rwa [conn, answer_stream]
    · rw [conn, answer_stream, answer_requests, passed, quiet, ← events]
      simp
    · rwa [conn, answer_stream]

/-- However the input arrives, a session makes the requests of the reference and ends like it. -/
theorem process_eq_reference (socket : Socket) (overflow : Overflow) (store : σ)
    (short : linesShort socket.stream) :
    requests (process handle socket overflow store).2.1.history = (reference socket.stream).1 ∧
      (process handle socket overflow store).1 = (reference socket.stream).2 := by
  obtain ⟨last, reached, stopped, result⟩ := process_ends handle socket overflow store
  have whole : (Session.start socket overflow store).conn.stream = socket.stream := rfl
  have agrees : last.Agrees socket.stream := by
    refine reaches_invariant (Session.Agrees socket.stream) reached ⟨?_, ?_, ?_⟩
      fun _ step => Session.next_agrees handle step
    · rwa [whole]
    · rw [whole]
      rfl
    · rw [whole]
  obtain ⟨turned, _, passed⟩ := Connection.readCommandTurn_agrees (linesShort_first agrees.short)
  have turn := last.next_stopped handle stopped
  have quiet : (cutTurn last.conn.stream).rejection = none := by
    by_contra rejects
    simp [turned, cutTurn_rejects rejects] at turn
  have events := agrees.events
  have ending := agrees.ending
  rw [turned] at turn
  rw [reference_stopped turn] at events ending
  rw [result, ← events, ← ending, passed, quiet, turned]
  simp

end Handler

end Numbers

section Splitting

/-- A storage request that is split inside its data, a bad chunk and a discard. -/
def splitSocket : Socket :=
  ⟨[ascii "set k 0 0 4\r\na\r", ascii "\nb\r", ascii "\nset k 0 0 1\r\nxyzset k -1 0 3\r\nab",
    ascii "c\r\nget k\r\nquit\r\n"], by decide⟩

theorem splitSocket_reference :
    requests (process (handle 1000) splitSocket .tokio Store.new).2.1.history =
        (reference splitSocket.stream).1 ∧
      (process (handle 1000) splitSocket .tokio Store.new).1 = (reference splitSocket.stream).2 :=
  process_eq_reference (handle 1000) splitSocket .tokio Store.new (by decide +kernel)

end Splitting

end Ousagi
