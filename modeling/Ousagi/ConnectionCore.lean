import Mathlib.Data.List.DropRight
import Ousagi.ParserCore
import Ousagi.Library.Decimal

/-!
`connection.rs` over a socket that is a list of reads.  A read into the command
buffer returns the next arrival whole; a read that is limited to a number of
bytes may cut it.  Reads and writes do not fail.  `history` records what an
observer of the session sees; no function of the source looks at it.
-/

namespace Ousagi

open Library

def maxLineLen : Nat := 8 * 1024

structure Socket where
  arrivals : List Bytes
  nonempty : ∀ read ∈ arrivals, read ≠ []

namespace Socket

def stream (socket : Socket) : Bytes := socket.arrivals.flatten

def readBuf : Socket → Bytes × Socket
  | ⟨[], nonempty⟩ => ([], ⟨[], nonempty⟩)
  | ⟨read :: later, nonempty⟩ =>
      (read, ⟨later, fun other member => nonempty other (List.mem_cons_of_mem read member)⟩)

def readAtMost (limit : Nat) : Socket → Bytes × Socket
  | ⟨[], nonempty⟩ => ([], ⟨[], nonempty⟩)
  | ⟨read :: later, nonempty⟩ =>
      if fits : read.length ≤ limit then
        (read, ⟨later, fun other member => nonempty other (List.mem_cons_of_mem read member)⟩)
      else
        (read.take limit, ⟨read.drop limit :: later, by
          intro other member
          rcases List.mem_cons.mp member with same | inside
          · rw [same, Ne, List.drop_eq_nil_iff]
            exact fits
          · exact nonempty other (List.mem_cons_of_mem read inside)⟩)

end Socket

/-- How many bytes a write pushes out of the `BufWriter`: none while they fit its capacity. -/
structure Overflow where
  capacity : Nat
  spill : (delivered buffered bytes : Bytes) → Nat
  fits : ∀ delivered buffered bytes, buffered.length + bytes.length < capacity →
    spill delivered buffered bytes = 0

/-- The policy of tokio for the default capacity, over a sink that takes every write whole. -/
def Overflow.tokio : Overflow where
  capacity := 8 * 1024
  spill _ buffered bytes :=
    if 8 * 1024 ≤ bytes.length then buffered.length + bytes.length
    else if 8 * 1024 < buffered.length + bytes.length then buffered.length
    else 0
  fits := by
    intro delivered buffered bytes small
    rw [if_neg (by omega), if_neg (by omega)]

structure BufWriter where
  overflow : Overflow
  delivered : Bytes
  buffered : Bytes

namespace BufWriter

def new (overflow : Overflow) : BufWriter := { overflow, delivered := [], buffered := [] }

def writeAll (writer : BufWriter) (bytes : Bytes) : BufWriter :=
  let all := writer.buffered ++ bytes
  let count := writer.overflow.spill writer.delivered writer.buffered bytes
  { writer with delivered := writer.delivered ++ all.take count, buffered := all.drop count }

def flush (writer : BufWriter) : BufWriter :=
  { writer with delivered := writer.delivered ++ writer.buffered, buffered := [] }

end BufWriter

inductive ErrorKind
  | unexpectedEof
  deriving DecidableEq, Repr

structure IoError where
  kind : ErrorKind
  message : String
  deriving DecidableEq, Repr

inductive ReadLineError
  | tooLong
  deriving DecidableEq, Repr

inductive PayloadError
  | io (error : IoError)
  | badChunk
  deriving DecidableEq, Repr

def closedMidPayload : PayloadError :=
  .io { kind := .unexpectedEof, message := "connection closed mid-payload" }

inductive Event
  | awaited (unsent : Bytes)
  | received (command : Command)
  | rejected (response : Response)
  | replied (response : Response)
  deriving DecidableEq, Repr

structure Connection where
  reader : Socket
  writer : BufWriter
  buffer : Bytes
  history : List Event

def memchr (needle : UInt8) (haystack : Bytes) : Option Nat := haystack.findIdx? (· == needle)

def stripLineEnd (line : Bytes) : Bytes := line.rdropWhile fun byte => byte = lf || byte = cr

def responseWrites : Response → List Bytes
  | .stored => [ascii "STORED\r\n"]
  | .notStored => [ascii "NOT_STORED\r\n"]
  | .deleted => [ascii "DELETED\r\n"]
  | .notFound => [ascii "NOT_FOUND\r\n"]
  | .exists => [ascii "EXISTS\r\n"]
  | .number value => [decimal value.toNat, ascii "\r\n"]
  | .error => [ascii "ERROR\r\n"]
  | .ok => [ascii "OK\r\n"]
  | .version version => [ascii "VERSION ", asBytes version, ascii "\r\n"]
  | .clientError message => [ascii "CLIENT_ERROR ", asBytes message, ascii "\r\n"]
  | .serverError message => [ascii "SERVER_ERROR ", asBytes message, ascii "\r\n"]
  | .touched => [ascii "TOUCHED\r\n"]
  | .values values =>
      values.flatMap (fun (key, flags, data, cas) =>
        let header := ascii "VALUE " ++ key ++ ascii " " ++ decimal flags.toNat ++ ascii " " ++
          decimal data.length ++
          (match cas with
            | some token => ascii " " ++ decimal token.toNat
            | none => []) ++ ascii "\r\n"
        [header, data, ascii "\r\n"]) ++ [ascii "END\r\n"]
  | .stats entries =>
      entries.flatMap (fun (name, value) =>
        [ascii "STAT ", asBytes name, ascii " ", asBytes value, ascii "\r\n"]) ++
        [ascii "END\r\n"]

namespace Connection

def new (reader : Socket) (overflow : Overflow) : Connection :=
  { reader, writer := .new overflow, buffer := [], history := [] }

def record (conn : Connection) (event : Event) : Connection :=
  { conn with history := conn.history ++ [event] }

def flush (conn : Connection) : Connection := { conn with writer := conn.writer.flush }

/-- A read of the socket: from here on the client waits for what is still unsent. -/
def readBuf (conn : Connection) : Bytes × Connection :=
  let conn := conn.record (.awaited conn.writer.buffered)
  let (read, reader) := conn.reader.readBuf
  (read, { conn with reader })

def readAtMost (limit : Nat) (conn : Connection) : Bytes × Connection :=
  let conn := conn.record (.awaited conn.writer.buffered)
  let (read, reader) := conn.reader.readAtMost limit
  (read, { conn with reader })

def advance (conn : Connection) (count : Nat) : Connection :=
  { conn with buffer := conn.buffer.drop count }

def fillBuffer (conn : Connection) : Nat × Connection :=
  let (read, conn) := conn.flush.readBuf
  (read.length, { conn with buffer := conn.buffer ++ read })

theorem readBuf_shrinks (conn : Connection) (found : conn.readBuf.1 ≠ []) :
    conn.readBuf.2.reader.arrivals.length < conn.reader.arrivals.length := by
  obtain ⟨⟨arrivals, nonempty⟩, writer, buffer, history⟩ := conn
  cases arrivals with
  | nil => simp [readBuf, record, Socket.readBuf] at found
  | cons read later => simp [readBuf, record, Socket.readBuf]

theorem fillBuffer_shrinks (conn : Connection) (found : conn.fillBuffer.1 ≠ 0) :
    conn.fillBuffer.2.reader.arrivals.length < conn.reader.arrivals.length := by
  apply readBuf_shrinks conn.flush
  intro empty
  simp [fillBuffer, empty] at found

theorem readAtMost_bounds (limit : Nat) (conn : Connection) :
    (conn.readAtMost limit).1.length ≤ limit := by
  obtain ⟨⟨arrivals, nonempty⟩, writer, buffer, history⟩ := conn
  cases arrivals with
  | nil => simp [readAtMost, record, Socket.readAtMost]
  | cons read later =>
      simp only [readAtMost, record, Socket.readAtMost]
      split
      · assumption
      · simp

def readLine (conn : Connection) : Except ReadLineError (Option Bytes) × Connection :=
  match memchr lf conn.buffer with
  | some pos => (.ok (some (stripLineEnd (conn.buffer.take (pos + 1)))), conn.advance (pos + 1))
  | none =>
      if maxLineLen ≤ conn.buffer.length then (.error .tooLong, conn)
      else if _ : conn.fillBuffer.1 = 0 then (.ok none, conn.fillBuffer.2)
      else conn.fillBuffer.2.readLine
termination_by conn.reader.arrivals.length
decreasing_by exact conn.fillBuffer_shrinks (by assumption)

/-- The loop of `read_payload` that fills `data`, whose capacity is exactly `len`. -/
def fillData (len : Nat) (data : Bytes) (conn : Connection) : Except PayloadError Bytes × Connection :=
  if data.length < len then
    if _ : (conn.flush.readAtMost (len - data.length)).1 = [] then
      (.error closedMidPayload, (conn.flush.readAtMost (len - data.length)).2)
    else
      (conn.flush.readAtMost (len - data.length)).2.fillData len
        (data ++ (conn.flush.readAtMost (len - data.length)).1)
  else (.ok data, conn)
termination_by len - data.length
decreasing_by
  have positive := List.length_pos_iff.mpr (by assumption)
  simp only [List.length_append]
  omega

/-- The loop of `read_payload` that waits for the two bytes after the data. -/
def fillTrailer (conn : Connection) : Except PayloadError Unit × Connection :=
  if conn.buffer.length < 2 then
    if _ : conn.fillBuffer.1 = 0 then (.error closedMidPayload, conn.fillBuffer.2)
    else conn.fillBuffer.2.fillTrailer
  else (.ok (), conn)
termination_by conn.reader.arrivals.length
decreasing_by exact conn.fillBuffer_shrinks (by assumption)

def readPayload (len : Nat) (conn : Connection) : Except PayloadError Bytes × Connection :=
  let fromBuffer := min conn.buffer.length len
  match (conn.advance fromBuffer).fillData len (conn.buffer.take fromBuffer) with
  | (.error error, conn) => (.error error, conn)
  | (.ok data, conn) =>
      match conn.fillTrailer with
      | (.error error, conn) => (.error error, conn)
      | (.ok (), conn) =>
          if conn.buffer.take 2 = ascii "\r\n" then (.ok data, conn.advance 2)
          else (.error .badChunk, conn.advance 2)

/-- `tokio::io::copy` of a reader limited by `take` into a sink. -/
def copyToSink (limit : Nat) (conn : Connection) : Connection :=
  if 0 < limit then
    if _ : (conn.readAtMost limit).1 = [] then (conn.readAtMost limit).2
    else (conn.readAtMost limit).2.copyToSink (limit - (conn.readAtMost limit).1.length)
  else conn
termination_by limit
decreasing_by
  have positive := List.length_pos_iff.mpr (by assumption)
  omega

def discardExact (count : UInt64) (conn : Connection) : Connection :=
  let fromBuffer := min conn.buffer.length count.toNat
  let conn := conn.advance fromBuffer
  let remaining := count.toNat - fromBuffer
  if 0 < remaining then conn.flush.copyToSink remaining else conn

def discardUntilNewline (conn : Connection) : Connection :=
  match memchr lf conn.buffer with
  | some pos => conn.advance (pos + 1)
  | none =>
      let cleared := { conn with buffer := [] }
      if _ : cleared.readBuf.1 = [] then cleared.readBuf.2
      else { cleared.readBuf.2 with buffer := cleared.readBuf.1 }.discardUntilNewline
termination_by conn.reader.arrivals.length
decreasing_by exact readBuf_shrinks { conn with buffer := [] } (by assumption)

def writeResponse (response : Response) (conn : Connection) : Connection :=
  { conn with writer := (responseWrites response).foldl BufWriter.writeAll conn.writer }

def reject (response : Response) (conn : Connection) : Connection :=
  (conn.writeResponse response).record (.rejected response)

end Connection

inductive Turn
  | again
  | returned (command : Option Command)
  | failed (error : IoError)
  deriving DecidableEq, Repr

section Numbers

variable [FromRadix10SignedChecked UInt32] [FromRadix10SignedChecked UInt64]
  [FromRadix10SignedChecked Int64]

def Connection.readCommandTurn (conn : Connection) : Turn × Connection :=
  match conn.readLine with
  | (.ok none, conn) => (.returned none, conn)
  | (.error .tooLong, conn) =>
      (.again, conn.discardUntilNewline.reject (.clientError "line too long"))
  | (.ok (some line), conn) =>
      match parseCommandLine line with
      | .error error =>
          match error.discard with
          | some count => (.again, (conn.discardExact count).reject error.response)
          | none => (.again, conn.reject error.response)
      | .ok (.immediate command) => (.returned (some command), conn)
      | .ok (.store pending) =>
          match conn.readPayload pending.len.toNat with
          | (.ok data, conn) => (.returned (some (pending.intoCommand data)), conn)
          | (.error .badChunk, conn) => (.again, conn.reject (.clientError "bad data chunk"))
          | (.error (.io error), conn) => (.failed error, conn)
      | .ok .quit => (.returned none, conn)

end Numbers

end Ousagi
