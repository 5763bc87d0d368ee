import Mathlib.Algebra.Order.BigOperators.Group.List
import Ousagi.ListenerChecks

/-!
How much a connection holds between its commands: a line's worth of unread bytes, the
last read of the socket and the buffer of its writer, whatever its client sends.  The bytes
of a payload that is being read are in a buffer of `read_payload` alone, and not among these.
-/

namespace Ousagi

open Library

structure Connection.Small (reach : Nat) (conn : Connection) : Prop where
  reads : ∀ read ∈ conn.reader.arrivals, read.length ≤ reach
  unread : conn.buffer.length < maxLineLen + reach
  policy : conn.writer.overflow = .tokio
  unsent : conn.writer.buffered.length ≤ 8 * 1024

namespace Connection

variable {reach : Nat} {conn : Connection}

theorem advance_small (small : conn.Small reach) (count : Nat) :
    (conn.advance count).Small reach := by
  refine { small with unread := ?_ }
  have room := small.unread
  rw [advance, List.length_drop]
  omega

theorem flush_small (small : conn.Small reach) : conn.flush.Small reach :=
  { small with unsent := Nat.zero_le _ }

theorem record_small (small : conn.Small reach) (event : Event) :
    (conn.record event).Small reach :=
  ⟨small.reads, small.unread, small.policy, small.unsent⟩

theorem read_small (small : conn.Small reach) (buffer : Bytes)
    (short : buffer.length < maxLineLen) :
    ({ conn.readBuf.2 with buffer := buffer ++ conn.readBuf.1 } : Connection).Small reach := by
  obtain ⟨⟨arrivals, nonempty⟩, writer, unread, history⟩ := conn
  obtain ⟨reads, _, policy, unsent⟩ := small
  cases arrivals with
  | nil =>
      refine ⟨nofun, ?_, policy, unsent⟩
      simp only [readBuf, record, Socket.readBuf, List.append_nil]
      omega
  | cons first later =>
      rw [List.forall_mem_cons] at reads
      refine ⟨reads.2, ?_, policy, unsent⟩
      have bound := reads.1
      simp only [readBuf, record, Socket.readBuf, List.length_append]
      omega

theorem fillBuffer_small (small : conn.Small reach) (short : conn.buffer.length < maxLineLen) :
    conn.fillBuffer.2.Small reach := read_small (flush_small small) conn.buffer short

theorem readAtMost_small (small : conn.Small reach) (limit : Nat) :
    (conn.readAtMost limit).2.Small reach := by
  obtain ⟨⟨arrivals, nonempty⟩, writer, buffer, history⟩ := conn
  obtain ⟨reads, unread, policy, unsent⟩ := small
  refine ⟨?_, unread, policy, unsent⟩
  cases arrivals with
  | nil => exact nofun
  | cons first later =>
      rw [List.forall_mem_cons] at reads
      simp only [readAtMost, record, Socket.readAtMost]
      split
      · exact reads.2
      · rw [List.forall_mem_cons]
        refine ⟨?_, reads.2⟩
        have bound := reads.1
        rw [List.length_drop]
        omega

theorem readLine_small (small : conn.Small reach) : conn.readLine.2.Small reach := by
  fun_induction readLine conn with
  | case1 conn pos found => exact advance_small small (pos + 1)
  | case2 conn missing full => exact small
  | case3 conn missing room empty => exact fillBuffer_small small (by omega)
  | case4 conn missing room more ih => exact ih (fillBuffer_small small (by omega))

theorem fillData_small (small : conn.Small reach) (len : Nat) (data : Bytes) :
    (conn.fillData len data).2.Small reach := by
  fun_induction fillData len data conn with
  | case1 data conn short empty => exact readAtMost_small (flush_small small) _
  | case2 data conn short more ih => exact ih (readAtMost_small (flush_small small) _)
  | case3 data conn full => exact small

theorem fillTrailer_small (small : conn.Small reach) : conn.fillTrailer.2.Small reach := by
  have line : 2 < maxLineLen := by decide
  fun_induction fillTrailer conn with
  | case1 conn short empty => exact fillBuffer_small small (by omega)
  | case2 conn short more ih => exact ih (fillBuffer_small small (by omega))
  | case3 conn enough => exact small

theorem readPayload_small (small : conn.Small reach) (len : Nat) :
    (conn.readPayload len).2.Small reach := by
  have filled := fillData_small (advance_small small (min conn.buffer.length len)) len
    (conn.buffer.take (min conn.buffer.length len))
  simp only [readPayload]
  split
  · rename_i error after same
    rwa [same] at filled
  · rename_i data middle same
    rw [same] at filled
    have trailed := fillTrailer_small filled
    split
    · rename_i error after ended
      rwa [ended] at trailed
    · rename_i after ended
      rw [ended] at trailed
      split <;> exact advance_small trailed 2

theorem copyToSink_small (small : conn.Small reach) (limit : Nat) :
    (conn.copyToSink limit).Small reach := by
  fun_induction copyToSink limit conn with
  | case1 limit conn positive empty => exact readAtMost_small small limit
  | case2 limit conn positive more ih => exact ih (readAtMost_small small limit)
  | case3 limit conn none => exact small

theorem discardExact_small (small : conn.Small reach) (count : UInt64) :
    (conn.discardExact count).Small reach := by
  simp only [discardExact]
  split
  · exact copyToSink_small (flush_small (advance_small small _)) _
  · exact advance_small small _

theorem discardUntilNewline_small (small : conn.Small reach) :
    conn.discardUntilNewline.Small reach := by
  fun_induction discardUntilNewline conn with
  | case1 conn pos found => exact advance_small small (pos + 1)
  | case2 conn missing cleared empty =>
      have later := read_small small [] (by decide)
      rw [show conn.readBuf.1 = [] from empty] at later
      exact later
  | case3 conn missing cleared more ih => exact ih (read_small small [] (by decide))

theorem writeAll_small {writer : BufWriter} (policy : writer.overflow = .tokio) (bytes : Bytes) :
    (writer.writeAll bytes).buffered.length ≤ 8 * 1024 := by
  rw [BufWriter.writeAll, policy]
  simp only [Overflow.tokio, List.length_drop, List.length_append]
  split
  · omega
  · split <;> omega

theorem writes_small {writer : BufWriter} (policy : writer.overflow = .tokio)
    (unsent : writer.buffered.length ≤ 8 * 1024) (writes : List Bytes) :
    (writes.foldl BufWriter.writeAll writer).overflow = .tokio ∧
      (writes.foldl BufWriter.writeAll writer).buffered.length ≤ 8 * 1024 := by
  induction writes generalizing writer with
  | nil => exact ⟨policy, unsent⟩
  | cons bytes rest ih => exact ih policy (writeAll_small policy bytes)

theorem writeResponse_small (small : conn.Small reach) (response : Response) :
    (conn.writeResponse response).Small reach := by
  obtain ⟨policy, unsent⟩ := writes_small small.policy small.unsent (responseWrites response)
  exact ⟨small.reads, small.unread, policy, unsent⟩

theorem reject_small (small : conn.Small reach) (response : Response) :
    (conn.reject response).Small reach := record_small (writeResponse_small small response) _

section Numbers

variable [FromRadix10SignedChecked UInt32] [FromRadix10SignedChecked UInt64]
  [FromRadix10SignedChecked Int64]

theorem readCommandTurn_small (small : conn.Small reach) : conn.readCommandTurn.2.Small reach := by
  have lined := readLine_small small
  simp only [readCommandTurn]
  split
  · rename_i after same
    rwa [same] at lined
  · rename_i after same
    rw [same] at lined
    exact reject_small (discardUntilNewline_small lined) _
  · rename_i line after same
    rw [same] at lined
    split
    · rename_i error parsed
      split
      · exact reject_small (discardExact_small lined _) _
      · exact reject_small lined _
    · exact lined
    · rename_i pending parsed
      have paid := readPayload_small lined pending.len.toNat
      split
      · rename_i data later ended
        rwa [ended] at paid
      · rename_i later ended
        rw [ended] at paid
        exact reject_small paid _
      · rename_i error later ended
        rwa [ended] at paid
    · exact lined

end Numbers

/-- The bytes in the two buffers of a connection, between its commands. -/
def held (conn : Connection) : Nat := conn.buffer.length + conn.writer.buffered.length

theorem Small.held_bounded (small : conn.Small reach) : conn.held ≤ 16 * 1024 + reach := by
  have unread := small.unread
  have unsent := small.unsent
  rw [held, maxLineLen] at *
  omega

end Connection

theorem new_small {reach : Nat} {socket : Socket}
    (reads : ∀ read ∈ socket.arrivals, read.length ≤ reach) :
    (Connection.new socket .tokio).Small reach :=
  ⟨reads, by show 0 < _; simp [maxLineLen], rfl, Nat.zero_le _⟩

section Numbers

variable [FromRadix10SignedChecked UInt32] [FromRadix10SignedChecked UInt64]
  [FromRadix10SignedChecked Int64] {Client : Type} [DecidableEq Client]

theorem run_small {reach : Nat} {events : List (ServerEvent Client)} {server : Server Client}
    (arrive : ∀ client socket overflow, .accept client socket overflow ∈ events →
      overflow = .tokio ∧ ∀ read ∈ socket.arrivals, read.length ≤ reach)
    (reached : run Server.step events .new = some server) :
    ∀ client conn, server.conn client = some conn → conn.Small reach := by
  refine Server.run_conns (fun _ conn => conn.Small reach) ?_ ?_ ?_ ?_ reached nofun
  · exact fun small _ => Connection.readCommandTurn_small small
  · exact fun small _ => Connection.record_small (Connection.readCommandTurn_small small) _
  · exact fun response small =>
      Connection.record_small (Connection.writeResponse_small small response) _
  · intro client socket overflow among
    obtain ⟨policy, reads⟩ := arrive client socket overflow among
    rw [policy]
    exact new_small reads

def Server.held (server : Server Client) (client : Client) : Nat :=
  (server.conn client).elim 0 Connection.held

end Numbers

end Ousagi
