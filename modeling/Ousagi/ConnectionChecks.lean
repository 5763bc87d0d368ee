import Mathlib.Data.List.DropRight
import Ousagi.ConnectionCore

/-!
What each reading loop of the connection does to the bytes still to be read:
the command buffer followed by the socket is one stream, and the loops cut it
where the stream says, wherever the reads end.
-/

namespace Ousagi

theorem memchr_cut {needle : UInt8} {haystack : Bytes} {pos : Nat}
    (found : memchr needle haystack = some pos) : pos < haystack.length := by
  obtain ⟨bound, _⟩ := List.findIdx?_eq_some_iff_getElem.mp found
  exact bound

theorem memchr_append {needle : UInt8} {first : Bytes} (second : Bytes) {pos : Nat}
    (found : memchr needle first = some pos) : memchr needle (first ++ second) = some pos := by
  simp only [memchr] at found ⊢
  simp [List.findIdx?_append, found]

theorem memchr_append_none {needle : UInt8} {first : Bytes} (second : Bytes)
    (missing : memchr needle first = none) :
    memchr needle (first ++ second) = (memchr needle second).map (· + first.length) := by
  simp only [memchr] at missing ⊢
  rw [List.findIdx?_append, missing, Option.none_or]

theorem memchr_body {needle : UInt8} {body : Bytes} (clean : needle ∉ body) (rest : Bytes) :
    memchr needle (body ++ needle :: rest) = some body.length := by
  have missing : memchr needle body = none := by
    rw [memchr, List.findIdx?_eq_none_iff]
    exact fun byte among => by simpa using ne_of_mem_of_not_mem among clean
  rw [memchr_append_none _ missing, memchr, List.findIdx?_cons]
  simp

namespace BufWriter

def sent (writer : BufWriter) : Bytes := writer.delivered ++ writer.buffered

@[simp] theorem sent_new (overflow : Overflow) : (new overflow).sent = [] := rfl

@[simp] theorem sent_writeAll (writer : BufWriter) (bytes : Bytes) :
    (writer.writeAll bytes).sent = writer.sent ++ bytes := by
  simp [sent, writeAll]

@[simp] theorem sent_flush (writer : BufWriter) : writer.flush.sent = writer.sent := by
  simp [sent, flush]

@[simp] theorem flush_flush (writer : BufWriter) : writer.flush.flush = writer.flush := by
  simp [flush]

@[simp] theorem buffered_flush (writer : BufWriter) : writer.flush.buffered = [] := rfl

theorem sent_foldl (writes : List Bytes) (writer : BufWriter) :
    (writes.foldl writeAll writer).sent = writer.sent ++ writes.flatten := by
  induction writes generalizing writer with
  | nil => simp
  | cons bytes rest ih => simp [ih]

end BufWriter

def encodeResponse (response : Response) : Bytes := (responseWrites response).flatten

namespace Socket

theorem readBuf_stream (socket : Socket) :
    socket.readBuf.1 ++ socket.readBuf.2.stream = socket.stream := by
  obtain ⟨arrivals, nonempty⟩ := socket
  cases arrivals <;> simp [readBuf, stream]

theorem readBuf_end {socket : Socket} (empty : socket.readBuf.1 = []) : socket.stream = [] := by
  obtain ⟨arrivals, nonempty⟩ := socket
  cases arrivals with
  | nil => rfl
  | cons read later => exact absurd empty (nonempty read (by simp))

theorem readAtMost_stream (limit : Nat) (socket : Socket) :
    (socket.readAtMost limit).1 ++ (socket.readAtMost limit).2.stream = socket.stream := by
  obtain ⟨arrivals, nonempty⟩ := socket
  cases arrivals with
  | nil => rfl
  | cons read later =>
      simp only [readAtMost]
      split
      · simp [stream]
      · simp [stream, ← List.append_assoc]

theorem readAtMost_end {limit : Nat} {socket : Socket} (positive : 0 < limit)
    (empty : (socket.readAtMost limit).1 = []) : socket.stream = [] := by
  obtain ⟨arrivals, nonempty⟩ := socket
  cases arrivals with
  | nil => rfl
  | cons read later =>
      have more := nonempty read (by simp)
      simp only [readAtMost] at empty
      split at empty
      · exact absurd empty more
      · simp only [List.take_eq_nil_iff] at empty
        rcases empty with zero | none
        · omega
        · exact absurd none more

end Socket

namespace Connection

def stream (conn : Connection) : Bytes := conn.buffer ++ conn.reader.stream

/-- Only reads of the socket happened, `count` of them, each after a flush. -/
structure Waited (count : Nat) (before after : Connection) : Prop where
  history : after.history = before.history ++ List.replicate count (.awaited [])
  writer : after.writer = if count = 0 then before.writer else before.writer.flush

/-- Only reads of the socket happened, `count` of them, each with the same bytes unsent. -/
structure Stalled (count : Nat) (before after : Connection) : Prop where
  history : after.history =
    before.history ++ List.replicate count (.awaited before.writer.buffered)
  writer : after.writer = before.writer

theorem Waited.refl (conn : Connection) : Waited 0 conn conn := ⟨by simp, by simp⟩

theorem Waited.trans {first second : Nat} {before middle after : Connection}
    (left : Waited first before middle) (right : Waited second middle after) :
    Waited (first + second) before after := by
  refine ⟨?_, ?_⟩
  · simp [right.history, left.history, List.replicate_append_replicate]
  · rw [right.writer, left.writer]
    by_cases none : first = 0 <;> by_cases zero : second = 0 <;> simp [none, zero]

theorem Waited.sent {count : Nat} {before after : Connection}
    (waited : Waited count before after) : after.writer.sent = before.writer.sent := by
  rw [waited.writer]
  split <;> simp

theorem Waited.buffered {count : Nat} {before after : Connection}
    (waited : Waited count before after) (some : 0 < count) : after.writer.buffered = [] := by
  rw [waited.writer, if_neg (by omega), BufWriter.buffered_flush]

theorem Stalled.refl (conn : Connection) : Stalled 0 conn conn := ⟨by simp, rfl⟩

theorem Stalled.trans {first second : Nat} {before middle after : Connection}
    (left : Stalled first before middle) (right : Stalled second middle after) :
    Stalled (first + second) before after := by
  refine ⟨?_, right.writer.trans left.writer⟩
  simp [right.history, left.history, left.writer, List.replicate_append_replicate]

theorem Stalled.flushed {count : Nat} {before after : Connection}
    (stalled : Stalled count before.flush after) (some : 0 < count) :
    Waited count before after := by
  refine ⟨?_, ?_⟩
  · simpa [flush] using stalled.history
  · rw [if_neg (by omega)]
    exact stalled.writer

theorem advance_stream {conn : Connection} {count : Nat} (bound : count ≤ conn.buffer.length) :
    (conn.advance count).stream = conn.stream.drop count := by
  simp [stream, advance, List.drop_append_of_le_length bound]

theorem advance_waited (conn : Connection) (count : Nat) : Waited 0 conn (conn.advance count) :=
  ⟨by simp [advance], by simp [advance]⟩

theorem fillBuffer_stream (conn : Connection) : conn.fillBuffer.2.stream = conn.stream := by
  simp [fillBuffer, readBuf, stream, flush, record, conn.reader.readBuf_stream]

theorem fillBuffer_waited (conn : Connection) : Waited 1 conn conn.fillBuffer.2 :=
  ⟨by simp [fillBuffer, readBuf, record, flush], by simp [fillBuffer, readBuf, record, flush]⟩

theorem fillBuffer_end {conn : Connection} (empty : conn.fillBuffer.1 = 0) :
    conn.reader.stream = [] := by
  apply Socket.readBuf_end
  simpa [fillBuffer, readBuf, record, flush] using empty

theorem readLine_buffered {conn : Connection} {pos : Nat}
    (found : memchr lf conn.buffer = some pos) :
    conn.readLine =
      (.ok (some (stripLineEnd (conn.buffer.take (pos + 1)))), conn.advance (pos + 1)) := by
  rw [readLine, found]

theorem readLine_full {conn : Connection} (missing : memchr lf conn.buffer = none)
    (full : maxLineLen ≤ conn.buffer.length) : conn.readLine = (.error .tooLong, conn) := by
  rw [readLine, missing]
  simp [full]

theorem readLine_cases (conn : Connection) : ∃ count, Waited count conn conn.readLine.2 ∧
    ((∃ pos, memchr lf conn.stream = some pos ∧
        conn.readLine.1 = .ok (some (stripLineEnd (conn.stream.take (pos + 1)))) ∧
        conn.readLine.2.stream = conn.stream.drop (pos + 1) ∧
        (count = 0 → memchr lf conn.buffer = some pos)) ∨
      (memchr lf conn.stream = none ∧ conn.stream.length < maxLineLen ∧
        conn.readLine.1 = .ok none ∧ conn.readLine.2.stream = conn.stream ∧ 0 < count) ∨
      (conn.readLine.1 = .error .tooLong ∧ memchr lf conn.readLine.2.buffer = none ∧
        maxLineLen ≤ conn.readLine.2.buffer.length ∧ conn.readLine.2.stream = conn.stream ∧
        (count = 0 → conn.readLine.2 = conn))) := by
  fun_induction readLine conn with
  | case1 conn pos found =>
      have bound := memchr_cut found
      refine ⟨0, advance_waited conn (pos + 1), Or.inl ⟨pos, ?_, ?_, ?_, fun _ => found⟩⟩
      · exact memchr_append conn.reader.stream found
      · simp only [stream]
        rw [List.take_append_of_le_length (by omega)]
      · exact advance_stream (by omega)
  | case2 conn missing full =>
      exact ⟨0, Waited.refl conn, Or.inr (Or.inr ⟨rfl, missing, full, rfl, fun _ => rfl⟩)⟩
  | case3 conn missing room empty =>
      have ended := fillBuffer_end empty
      have whole : conn.stream = conn.buffer := by simp [stream, ended]
      refine ⟨1, fillBuffer_waited conn, Or.inr (Or.inl ⟨?_, ?_, rfl, fillBuffer_stream conn, by omega⟩)⟩
      · rw [whole]
        exact missing
      · rw [whole]
        omega
  | case4 conn missing room more ih =>
      obtain ⟨count, waited, outcome⟩ := ih
      rw [fillBuffer_stream] at outcome
      refine ⟨1 + count, (fillBuffer_waited conn).trans waited, ?_⟩
      rcases outcome with ⟨pos, found, result, rest, _⟩ | ⟨none, short, result, rest, _⟩ |
        ⟨result, none, full, rest, _⟩
      · exact Or.inl ⟨pos, found, result, rest, by omega⟩
      · exact Or.inr (Or.inl ⟨none, short, result, rest, by omega⟩)
      · exact Or.inr (Or.inr ⟨result, none, full, rest, by omega⟩)

theorem readAtMost_stalled (limit : Nat) (conn : Connection) :
    Stalled 1 conn (conn.readAtMost limit).2 :=
  ⟨by simp [readAtMost, record], by simp [readAtMost, record]⟩

theorem readBuf_stalled (conn : Connection) : Stalled 1 conn conn.readBuf.2 :=
  ⟨by simp [readBuf, record], by simp [readBuf, record]⟩

theorem readAtMost_stream (limit : Nat) (conn : Connection) :
    (conn.readAtMost limit).1 ++ (conn.readAtMost limit).2.reader.stream = conn.reader.stream :=
  conn.reader.readAtMost_stream limit

theorem readAtMost_end {limit : Nat} {conn : Connection} (positive : 0 < limit)
    (empty : (conn.readAtMost limit).1 = []) : conn.reader.stream = [] :=
  Socket.readAtMost_end positive empty

theorem fillData_cases (len : Nat) (data : Bytes) (conn : Connection)
    (bound : data.length ≤ len) :
    ∃ count, Waited count conn (conn.fillData len data).2 ∧
      (conn.fillData len data).2.buffer = conn.buffer ∧
      (conn.fillData len data).2.reader.stream = conn.reader.stream.drop (len - data.length) ∧
      ((len ≤ data.length + conn.reader.stream.length ∧
          (conn.fillData len data).1 = .ok ((data ++ conn.reader.stream).take len)) ∨
        (data.length + conn.reader.stream.length < len ∧
          (conn.fillData len data).1 = .error closedMidPayload)) := by
  fun_induction fillData len data conn with
  | case1 data conn short empty =>
      have positive : 0 < len - data.length := by omega
      have ended := readAtMost_end positive empty
      have rest := conn.flush.readAtMost_stream (len - data.length)
      have waited := (conn.flush.readAtMost_stalled (len - data.length)).flushed (by omega)
      rw [ended, empty, List.nil_append] at rest
      have same : conn.reader.stream = [] := ended
      refine ⟨1, waited, rfl, ?_, Or.inr ⟨?_, rfl⟩⟩
      · simp [rest, same]
      · simp [same, short]
  | case2 data conn short more ih =>
      have limit := conn.flush.readAtMost_bounds (len - data.length)
      have rest := conn.flush.readAtMost_stream (len - data.length)
      have waited := (conn.flush.readAtMost_stalled (len - data.length)).flushed (by omega)
      obtain ⟨count, later, buffer, remaining, outcome⟩ := ih (by
        rw [List.length_append]
        omega)
      have kept : (conn.flush.readAtMost (len - data.length)).2.buffer = conn.buffer := rfl
      generalize conn.flush.readAtMost (len - data.length) = step at *
      have same : conn.reader.stream = step.1 ++ step.2.reader.stream := rest.symm
      refine ⟨1 + count, waited.trans later, buffer.trans kept, ?_, ?_⟩
      · rw [remaining, same, List.length_append, List.drop_append, List.drop_of_length_le limit,
          List.nil_append, Nat.sub_sub]
      · simp only [List.length_append, List.append_assoc, ← same] at outcome
        simp only [same, List.length_append]
        rcases outcome with ⟨enough, result⟩ | ⟨missing, result⟩
        · exact Or.inl ⟨by omega, by rw [result, same]⟩
        · exact Or.inr ⟨by omega, result⟩
  | case3 data conn full =>
      have exact : data.length = len := by omega
      refine ⟨0, Waited.refl conn, rfl, by simp [exact], Or.inl ⟨by omega, ?_⟩⟩
      rw [List.take_append_of_le_length (by omega), List.take_of_length_le (by omega)]

theorem fillTrailer_cases (conn : Connection) :
    ∃ count after result, Waited count conn after ∧ after.stream = conn.stream ∧
      conn.fillTrailer = (result, after) ∧
      ((2 ≤ after.buffer.length ∧ result = .ok ()) ∨
        (conn.stream.length < 2 ∧ result = .error closedMidPayload)) := by
  fun_induction fillTrailer conn with
  | case1 conn short empty =>
      have ended := fillBuffer_end empty
      refine ⟨1, _, _, fillBuffer_waited conn, fillBuffer_stream conn, rfl, Or.inr ⟨?_, rfl⟩⟩
      simp [stream, ended, short]
  | case2 conn short more ih =>
      obtain ⟨count, after, result, waited, rest, same, outcome⟩ := ih
      rw [fillBuffer_stream] at rest outcome
      exact ⟨1 + count, after, result, (fillBuffer_waited conn).trans waited, rest, same, outcome⟩
  | case3 conn enough =>
      exact ⟨0, conn, _, Waited.refl conn, rfl, rfl, Or.inl ⟨by omega, rfl⟩⟩

theorem payloadData_cases (len : Nat) (conn : Connection) :
    ∃ count after result, Waited count conn after ∧ after.stream = conn.stream.drop len ∧
      (conn.advance (min conn.buffer.length len)).fillData len
        (conn.buffer.take (min conn.buffer.length len)) = (result, after) ∧
      ((len ≤ conn.stream.length ∧ result = .ok (conn.stream.take len)) ∨
        (conn.stream.length < len ∧ result = .error closedMidPayload)) := by
  have taken : (conn.buffer.take (min conn.buffer.length len)).length =
      min conn.buffer.length len := by simp
  obtain ⟨count, waited, buffer, rest, outcome⟩ :=
    fillData_cases len (conn.buffer.take (min conn.buffer.length len))
      (conn.advance (min conn.buffer.length len)) (by omega)
  have reader : (conn.advance (min conn.buffer.length len)).reader = conn.reader := rfl
  have length : conn.stream.length = conn.buffer.length + conn.reader.stream.length := by
    simp [stream]
  rw [taken, reader] at rest outcome
  refine ⟨_, _, _, (advance_waited conn _).trans waited, ?_, rfl, ?_⟩
  · rw [stream, buffer, rest]
    simp only [advance, stream, List.drop_append]
    by_cases inside : len ≤ conn.buffer.length
    · simp [Nat.min_eq_right inside, Nat.sub_eq_zero_of_le inside]
    · have outside : conn.buffer.length ≤ len := by omega
      simp [Nat.min_eq_left outside, List.drop_of_length_le outside]
  · rcases outcome with ⟨enough, result⟩ | ⟨missing, result⟩
    · refine Or.inl ⟨by omega, ?_⟩
      rw [result, stream, List.take_append, List.take_append, taken, List.take_take]
      by_cases inside : len ≤ conn.buffer.length
      · simp [Nat.min_eq_right inside, Nat.sub_eq_zero_of_le inside]
      · have outside : conn.buffer.length ≤ len := by omega
        simp [Nat.min_eq_left outside, Nat.min_eq_right outside, List.take_of_length_le outside]
    · exact Or.inr ⟨by omega, result⟩

theorem readPayload_cases (len : Nat) (conn : Connection) :
    ∃ count after result, Waited count conn after ∧ conn.readPayload len = (result, after) ∧
      ((len + 2 ≤ conn.stream.length ∧ after.stream = conn.stream.drop (len + 2) ∧
          result = if (conn.stream.drop len).take 2 = ascii "\r\n" then
            .ok (conn.stream.take len) else .error .badChunk) ∨
        (conn.stream.length < len + 2 ∧ after.stream = conn.stream.drop len ∧
          result = .error closedMidPayload)) := by
  obtain ⟨first, middle, data, firstWaited, firstStream, filled, firstOutcome⟩ :=
    payloadData_cases len conn
  simp only [readPayload, filled]
  rcases firstOutcome with ⟨enough, found⟩ | ⟨missing, found⟩
  · obtain ⟨second, last, trailer, secondWaited, secondStream, trailed, secondOutcome⟩ :=
      fillTrailer_cases middle
    rw [firstStream] at secondStream secondOutcome
    rw [List.length_drop] at secondOutcome
    subst found
    simp only [trailed]
    rcases secondOutcome with ⟨two, done⟩ | ⟨few, done⟩
    · subst done
      have large : 2 ≤ conn.stream.length - len := by
        have bound := congrArg List.length secondStream
        simp only [stream, List.length_append, List.length_drop] at bound ⊢
        omega
      have ends : last.buffer.take 2 = (conn.stream.drop len).take 2 := by
        rw [← secondStream, stream, List.take_append_of_le_length two]
      have rest : (last.advance 2).stream = conn.stream.drop (len + 2) := by
        rw [advance_stream two, secondStream, List.drop_drop]
      refine ⟨_, last.advance 2, _, (firstWaited.trans secondWaited).trans (advance_waited last 2),
        ?_, Or.inl ⟨by omega, rest, rfl⟩⟩
      simp only [ends]
      split <;> rfl
    · subst done
      exact ⟨_, last, _, firstWaited.trans secondWaited, rfl,
        Or.inr ⟨by omega, secondStream, rfl⟩⟩
  · subst found
    exact ⟨_, middle, _, firstWaited, rfl, Or.inr ⟨by omega, firstStream, rfl⟩⟩

theorem copyToSink_cases (limit : Nat) (conn : Connection) :
    ∃ count, Stalled count conn (conn.copyToSink limit) ∧ (0 < limit → 0 < count) ∧
      (conn.copyToSink limit).buffer = conn.buffer ∧
      (conn.copyToSink limit).reader.stream = conn.reader.stream.drop limit := by
  fun_induction copyToSink limit conn with
  | case1 limit conn positive empty =>
      have ended := readAtMost_end positive empty
      have rest := conn.readAtMost_stream limit
      rw [ended, empty, List.nil_append] at rest
      exact ⟨1, conn.readAtMost_stalled limit, by omega, rfl, by simp [rest, ended]⟩
  | case2 limit conn positive more ih =>
      obtain ⟨count, later, _, buffer, rest⟩ := ih
      have bound := conn.readAtMost_bounds limit
      refine ⟨1 + count, (conn.readAtMost_stalled limit).trans later, by omega, buffer, ?_⟩
      rw [rest, ← conn.readAtMost_stream limit, List.drop_append, List.drop_of_length_le bound,
        List.nil_append]
  | case3 limit conn none =>
      have zero : limit = 0 := by omega
      exact ⟨0, Stalled.refl conn, by omega, rfl, by simp [zero]⟩

theorem discardExact_cases (count : UInt64) (conn : Connection) :
    ∃ reads, Waited reads conn (conn.discardExact count) ∧
      (conn.discardExact count).stream = conn.stream.drop count.toNat := by
  simp only [discardExact]
  have cut : (conn.advance (min conn.buffer.length count.toNat)).stream =
      conn.stream.drop (min conn.buffer.length count.toNat) :=
    advance_stream (Nat.min_le_left conn.buffer.length count.toNat)
  have advanced := advance_waited conn (min conn.buffer.length count.toNat)
  split
  · rename_i more
    obtain ⟨reads, stalled, some, buffer, rest⟩ := copyToSink_cases
      (count.toNat - min conn.buffer.length count.toNat)
      (conn.advance (min conn.buffer.length count.toNat)).flush
    refine ⟨_, advanced.trans (stalled.flushed (some more)), ?_⟩
    have outside : conn.buffer.length ≤ count.toNat := by omega
    rw [stream, buffer, rest]
    simp [flush, advance, stream, List.drop_append, Nat.min_eq_left outside,
      List.drop_of_length_le outside]
  · have inside : min conn.buffer.length count.toNat = count.toNat := by omega
    exact ⟨0, advanced, by rw [cut, inside]⟩

theorem discardUntilNewline_cases (conn : Connection) :
    ∃ count, Stalled count conn conn.discardUntilNewline ∧
      (memchr lf conn.buffer = none → 0 < count) ∧
      ((∃ pos, memchr lf conn.stream = some pos ∧
          conn.discardUntilNewline.stream = conn.stream.drop (pos + 1)) ∨
        (memchr lf conn.stream = none ∧ conn.discardUntilNewline.stream = [])) := by
  fun_induction discardUntilNewline conn with
  | case1 conn pos found =>
      have bound := memchr_cut found
      refine ⟨0, ⟨by simp [advance], rfl⟩, by simp [found], Or.inl ⟨pos, ?_, ?_⟩⟩
      · exact memchr_append conn.reader.stream found
      · exact advance_stream (by omega)
  | case2 conn missing cleared empty =>
      have ended : conn.reader.stream = [] := Socket.readBuf_end empty
      have rest := conn.reader.readBuf_stream
      have stalled := readBuf_stalled { conn with buffer := [] }
      refine ⟨1, ⟨stalled.history, stalled.writer⟩, by simp, Or.inr ⟨?_, ?_⟩⟩
      · rw [stream, ended, List.append_nil]
        exact missing
      · rw [ended, List.append_eq_nil_iff] at rest
        exact rest.2
  | case3 conn missing cleared more ih =>
      have rest := conn.reader.readBuf_stream
      have stalled := readBuf_stalled { conn with buffer := [] }
      obtain ⟨count, later, _, outcome⟩ := ih
      have renamed : Stalled 1 conn { cleared.readBuf.2 with buffer := cleared.readBuf.1 } :=
        ⟨stalled.history, stalled.writer⟩
      refine ⟨1 + count, renamed.trans later, by omega, ?_⟩
      have remaining : ({ cleared.readBuf.2 with buffer := cleared.readBuf.1 } : Connection).stream =
          conn.reader.stream := rest
      rw [remaining] at outcome
      rw [stream, memchr_append_none conn.reader.stream missing]
      rcases outcome with ⟨pos, found, result⟩ | ⟨none, result⟩
      · refine Or.inl ⟨pos + conn.buffer.length, by simp [found], ?_⟩
        rw [result, show pos + conn.buffer.length + 1 = conn.buffer.length + (pos + 1) by omega,
          List.drop_length_add_append]
      · exact Or.inr ⟨by simp [none], result⟩

@[simp] theorem reject_stream (response : Response) (conn : Connection) :
    (conn.reject response).stream = conn.stream := rfl

@[simp] theorem reject_history (response : Response) (conn : Connection) :
    (conn.reject response).history = conn.history ++ [.rejected response] := rfl

@[simp] theorem writeResponse_history (response : Response) (conn : Connection) :
    (conn.writeResponse response).history = conn.history := rfl

@[simp] theorem writeResponse_sent (response : Response) (conn : Connection) :
    (conn.writeResponse response).writer.sent =
      conn.writer.sent ++ encodeResponse response :=
  BufWriter.sent_foldl (responseWrites response) conn.writer

@[simp] theorem reject_sent (response : Response) (conn : Connection) :
    (conn.reject response).writer.sent = conn.writer.sent ++ encodeResponse response :=
  writeResponse_sent response conn

end Connection

end Ousagi
