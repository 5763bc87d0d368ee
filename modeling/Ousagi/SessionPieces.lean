import Ousagi.SessionRuns

/-!
The pieces of the input that a session consumes: lines, payloads, and what is
discarded or skipped.  The stream is these pieces in their order and what is
left behind the last of them.
-/

namespace Ousagi

open Library

inductive Piece
  | line (bytes : Bytes)
  | payload (bytes : Bytes)
  | discarded (bytes : Bytes)
  | skipped (bytes : Bytes)
  deriving DecidableEq, Repr

def Piece.bytes : Piece → Bytes
  | .line bytes | .payload bytes | .discarded bytes | .skipped bytes => bytes

def pieceBytes (pieces : List Piece) : Bytes := pieces.flatMap Piece.bytes

theorem memchr_lf {haystack : Bytes} {pos : Nat} (found : memchr lf haystack = some pos) :
    haystack.take (pos + 1) = haystack.take pos ++ [lf] ∧ lf ∉ haystack.take pos := by
  obtain ⟨bound, here, before⟩ := List.findIdx?_eq_some_iff_getElem.mp found
  have same : haystack[pos] = lf := by simpa using here
  refine ⟨by rw [List.take_add_one, List.getElem?_eq_getElem bound, same, Option.toList_some], ?_⟩
  intro member
  obtain ⟨index, inside, equal⟩ := List.mem_take_iff_getElem.mp member
  exact before index (by omega) (by simpa using equal)

theorem memchr_missing {haystack : Bytes} (missing : memchr lf haystack = none) :
    lf ∉ haystack := by
  intro member
  simpa using List.findIdx?_eq_none_iff.mp missing lf member

namespace Connection

def taken (before after : Connection) : Bytes :=
  before.stream.take (before.stream.length - after.stream.length)

theorem taken_drop {before after : Connection} {count : Nat}
    (rest : after.stream = before.stream.drop count) :
    taken before after = before.stream.take count := by
  rw [taken, rest, List.length_drop]
  rcases Nat.le_total count before.stream.length with inside | outside
  · rw [Nat.sub_sub_self inside]
  · rw [List.take_of_length_le outside, List.take_of_length_le (by omega)]

theorem taken_append {before after : Connection} {count : Nat}
    (rest : after.stream = before.stream.drop count) :
    taken before after ++ after.stream = before.stream := by
  rw [taken_drop rest, rest, List.take_append_drop]

theorem fillBuffer_spent {conn : Connection} (empty : conn.fillBuffer.1 = 0) :
    conn.fillBuffer.2.reader.stream = [] := by
  have whole := conn.reader.readBuf_stream
  rw [fillBuffer_end empty, List.append_eq_nil_iff] at whole
  exact whole.2

theorem readLine_spent {conn : Connection} (ended : conn.readLine.1 = .ok none) :
    conn.readLine.2.reader.stream = [] := by
  fun_induction readLine conn with
  | case1 conn pos found => simp at ended
  | case2 conn missing full => simp at ended
  | case3 conn missing room empty => exact fillBuffer_spent empty
  | case4 conn missing room more ih => exact ih ended

theorem fillTrailer_spent {conn : Connection} {error : PayloadError}
    (failed : conn.fillTrailer.1 = .error error) : conn.fillTrailer.2.reader.stream = [] := by
  fun_induction fillTrailer conn with
  | case1 conn short empty => exact fillBuffer_spent empty
  | case2 conn short more ih => exact ih failed
  | case3 conn enough => simp at failed

theorem fillData_spent {len : Nat} {data : Bytes} {conn : Connection} {error : PayloadError}
    (failed : (conn.fillData len data).1 = .error error) :
    (conn.fillData len data).2.reader.stream = [] := by
  fun_induction fillData len data conn with
  | case1 data conn short empty =>
      have ended : conn.reader.stream = [] := Socket.readAtMost_end (by omega) empty
      have whole := conn.reader.readAtMost_stream (len - data.length)
      rw [ended, List.append_eq_nil_iff] at whole
      exact whole.2
  | case2 data conn short more ih => exact ih failed
  | case3 data conn full => simp at failed

theorem readPayload_spent {len : Nat} {conn : Connection} {error : IoError}
    (failed : (conn.readPayload len).1 = .error (.io error)) :
    (conn.readPayload len).2.reader.stream = [] := by
  simp only [readPayload] at failed ⊢
  have filled := @fillData_spent len (conn.buffer.take (min conn.buffer.length len))
    (conn.advance (min conn.buffer.length len))
  generalize (conn.advance (min conn.buffer.length len)).fillData len
    (conn.buffer.take (min conn.buffer.length len)) = first at failed filled ⊢
  obtain ⟨_ | data, middle⟩ := first
  · exact filled rfl
  · have trailed := @fillTrailer_spent middle
    simp only at failed ⊢
    generalize middle.fillTrailer = second at failed trailed ⊢
    obtain ⟨_ | _, last⟩ := second
    · exact trailed rfl
    · simp only at failed
      split at failed <;> simp at failed

end Connection

section Numbers

variable [FromRadix10SignedChecked UInt32] [FromRadix10SignedChecked UInt64]
  [FromRadix10SignedChecked Int64]

/-- The pieces that one pass of `read_command` takes off the stream, each what one of its calls
takes. -/
def Connection.pieces (conn : Connection) : List Piece :=
  match conn.readLine with
  | (.ok none, _) => []
  | (.error .tooLong, after) => [.skipped (taken conn after.discardUntilNewline)]
  | (.ok (some line), after) =>
      .line (taken conn after) ::
        match parseCommandLine line with
        | .error error =>
            match error.discard with
            | some count => [.discarded (taken after (after.discardExact count))]
            | none => []
        | .ok (.store pending) => [.payload (taken after (after.readPayload pending.len.toNat).2)]
        | .ok _ => []

def IsLine (bytes : Bytes) : Prop := ∃ body, bytes = body ++ [lf] ∧ lf ∉ body

/-- What the pieces of a pass are, given what it comes to and what it leaves. -/
inductive Pass : List Piece → Turn → Connection → Prop
  | ended {after : Connection} (unterminated : lf ∉ after.stream)
      (spent : after.reader.stream = []) : Pass [] (.returned none) after
  | skipped {body : Bytes} {after : Connection} (long : maxLineLen ≤ body.length)
      (clean : lf ∉ body) : Pass [.skipped (body ++ [lf])] .again after
  | skippedToEnd {body : Bytes} {after : Connection} (long : maxLineLen ≤ body.length)
      (clean : lf ∉ body) (spent : after.stream = []) : Pass [.skipped body] .again after
  | refused {line : Bytes} {error : ParseError} {after : Connection} (whole : IsLine line)
      (parsed : parseCommandLine (stripLineEnd line) = .error error)
      (keeps : error.discard = none) : Pass [.line line] .again after
  | discarded {line bytes : Bytes} {error : ParseError} {count : UInt64} {after : Connection}
      (whole : IsLine line) (parsed : parseCommandLine (stripLineEnd line) = .error error)
      (counted : error.discard = some count)
      (exact : bytes.length = count.toNat ∨ bytes.length < count.toNat ∧ after.stream = []) :
      Pass [.line line, .discarded bytes] .again after
  | immediate {line : Bytes} {command : Command} {after : Connection} (whole : IsLine line)
      (parsed : parseCommandLine (stripLineEnd line) = .ok (.immediate command)) :
      Pass [.line line] (.returned (some command)) after
  | stored {line data : Bytes} {pending : PendingStore} {after : Connection} (whole : IsLine line)
      (parsed : parseCommandLine (stripLineEnd line) = .ok (.store pending))
      (sized : data.length = pending.len.toNat) :
      Pass [.line line, .payload (data ++ ascii "\r\n")] (.returned (some (pending.intoCommand data)))
        after
  | badChunk {line data trailer : Bytes} {pending : PendingStore} {after : Connection}
      (whole : IsLine line) (parsed : parseCommandLine (stripLineEnd line) = .ok (.store pending))
      (sized : data.length = pending.len.toNat) (two : trailer.length = 2)
      (other : trailer ≠ ascii "\r\n") :
      Pass [.line line, .payload (data ++ trailer)] .again after
  | cutShort {line data : Bytes} {pending : PendingStore} {error : IoError} {after : Connection}
      (whole : IsLine line) (parsed : parseCommandLine (stripLineEnd line) = .ok (.store pending))
      (short : data.length = pending.len.toNat ∧ after.stream.length < 2 ∨
        data.length < pending.len.toNat ∧ after.stream = [])
      (spent : after.reader.stream = []) (eof : error.kind = .unexpectedEof) :
      Pass [.line line, .payload data] (.failed error) after
  | quit {line : Bytes} {after : Connection} (whole : IsLine line)
      (parsed : parseCommandLine (stripLineEnd line) = .ok .quit) :
      Pass [.line line] (.returned none) after

namespace Connection

theorem discardExact_pass {line : Bytes} {error : ParseError} {count : UInt64} (conn : Connection)
    (whole : IsLine line) (parsed : parseCommandLine (stripLineEnd line) = .error error)
    (counted : error.discard = some count) :
    conn.stream = taken conn (conn.discardExact count) ++ (conn.discardExact count).stream ∧
      Pass [.line line, .discarded (taken conn (conn.discardExact count))] .again
        ((conn.discardExact count).reject error.response) := by
  obtain ⟨_, _, rest⟩ := conn.discardExact_cases count
  refine ⟨(taken_append rest).symm, .discarded whole parsed counted ?_⟩
  rw [taken_drop rest, reject_stream, rest, List.length_take]
  rcases Nat.lt_or_ge conn.stream.length count.toNat with short | enough
  · exact Or.inr ⟨by omega, List.drop_of_length_le (Nat.le_of_lt short)⟩
  · exact Or.inl (Nat.min_eq_left enough)

theorem readPayload_pass {line : Bytes} {pending : PendingStore} (conn : Connection)
    (whole : IsLine line) (parsed : parseCommandLine (stripLineEnd line) = .ok (.store pending)) :
    let after := (conn.readPayload pending.len.toNat).2
    let pass := (match conn.readPayload pending.len.toNat with
      | (.ok data, conn) => (Turn.returned (some (pending.intoCommand data)), conn)
      | (.error .badChunk, conn) => (.again, conn.reject (.clientError "bad data chunk"))
      | (.error (.io error), conn) => (.failed error, conn))
    conn.stream = taken conn after ++ pass.2.stream ∧
      Pass [.line line, .payload (taken conn after)] pass.1 pass.2 := by
  have spent := @readPayload_spent pending.len.toNat conn
  obtain ⟨_, after, result, _, read, outcome⟩ := conn.readPayload_cases pending.len.toNat
  rw [read] at spent ⊢
  rcases outcome with ⟨enough, rest, found⟩ | ⟨short, rest, found⟩
  · have sized : (conn.stream.take pending.len.toNat).length = pending.len.toNat := by
      rw [List.length_take, Nat.min_eq_left (by omega)]
    have pieces : taken conn after = conn.stream.take pending.len.toNat ++
        (conn.stream.drop pending.len.toNat).take 2 := by
      rw [taken_drop rest, List.take_add]
    by_cases closed : (conn.stream.drop pending.len.toNat).take 2 = ascii "\r\n"
    · rw [if_pos closed] at found
      subst found
      refine ⟨(taken_append rest).symm, ?_⟩
      rw [pieces, closed]
      exact .stored whole parsed sized
    · rw [if_neg closed] at found
      subst found
      refine ⟨(taken_append rest).symm, ?_⟩
      rw [pieces]
      exact .badChunk whole parsed sized (by simp; omega) closed
  · have cut : (taken conn after).length = pending.len.toNat ∧ after.stream.length < 2 ∨
        (taken conn after).length < pending.len.toNat ∧ after.stream = [] := by
      rw [taken_drop rest, rest, List.length_take, List.length_drop]
      rcases Nat.lt_or_ge conn.stream.length pending.len.toNat with few | enough
      · exact Or.inr ⟨by omega, List.drop_of_length_le (Nat.le_of_lt few)⟩
      · exact Or.inl ⟨Nat.min_eq_left enough, by omega⟩
    subst found
    exact ⟨(taken_append rest).symm, .cutShort whole parsed cut (spent rfl) rfl⟩

theorem discardUntilNewline_pass {conn full : Connection} (same : full.stream = conn.stream)
    (missing : memchr lf full.buffer = none) (long : maxLineLen ≤ full.buffer.length) :
    conn.stream = taken conn full.discardUntilNewline ++ full.discardUntilNewline.stream ∧
      Pass [.skipped (taken conn full.discardUntilNewline)] .again
        (full.discardUntilNewline.reject (.clientError "line too long")) := by
  obtain ⟨_, _, _, outcome⟩ := full.discardUntilNewline_cases
  rw [same] at outcome
  have filled : full.buffer.length ≤ conn.stream.length := by
    rw [← same, stream, List.length_append]
    exact Nat.le_add_right _ _
  rcases outcome with ⟨pos, found, rest⟩ | ⟨none, rest⟩
  · refine ⟨(taken_append rest).symm, ?_⟩
    obtain ⟨split, clean⟩ := memchr_lf found
    have behind : full.buffer.length ≤ pos := by
      rw [← same, stream, memchr_append_none full.reader.stream missing, Option.map_eq_some_iff]
        at found
      obtain ⟨_, _, rfl⟩ := found
      exact Nat.le_add_left _ _
    have bound := memchr_cut found
    rw [taken_drop rest, split]
    refine .skipped ?_ clean
    rw [List.length_take]
    omega
  · have all : full.discardUntilNewline.stream = conn.stream.drop conn.stream.length := by
      rw [rest, List.drop_length]
    refine ⟨(taken_append all).symm, ?_⟩
    rw [taken_drop all, List.take_length]
    exact .skippedToEnd (Nat.le_trans long filled) (memchr_missing none) rest

theorem readLine_pass {conn after : Connection} {line : Bytes} (whole : IsLine (taken conn after))
    (first : conn.stream = taken conn after ++ after.stream)
    (read : conn.readLine = (.ok (some line), after))
    (stripped : line = stripLineEnd (taken conn after)) :
    conn.stream = pieceBytes conn.pieces ++ conn.readCommandTurn.2.stream ∧
      Pass conn.pieces conn.readCommandTurn.1 conn.readCommandTurn.2 := by
  have alone : conn.stream = pieceBytes [.line (taken conn after)] ++ after.stream := by
    simpa [pieceBytes, Piece.bytes] using first
  have joined : ∀ {piece : Piece} {last : Connection},
      after.stream = piece.bytes ++ last.stream → conn.stream =
        pieceBytes [.line (taken conn after), piece] ++ last.stream := by
    intro piece last more
    rw [first, more]
    simp [pieceBytes, Piece.bytes]
  simp only [pieces, readCommandTurn, read]
  subst stripped
  cases parsed : parseCommandLine (stripLineEnd (taken conn after)) with
  | error error =>
      cases counted : error.discard with
      | none =>
          simp only [counted]
          exact ⟨alone, .refused whole parsed counted⟩
      | some count =>
          obtain ⟨more, pass⟩ := after.discardExact_pass whole parsed counted
          simp only [counted]
          exact ⟨joined more, pass⟩
  | ok header =>
      cases header with
      | immediate command => exact ⟨alone, .immediate whole parsed⟩
      | quit => exact ⟨alone, .quit whole parsed⟩
      | store pending =>
          obtain ⟨more, pass⟩ := after.readPayload_pass whole parsed
          exact ⟨joined more, pass⟩

theorem readCommandTurn_pass (conn : Connection) :
    conn.stream = pieceBytes conn.pieces ++ conn.readCommandTurn.2.stream ∧
      Pass conn.pieces conn.readCommandTurn.1 conn.readCommandTurn.2 := by
  obtain ⟨_, _, outcome⟩ := conn.readLine_cases
  cases step : conn.readLine with
  | mk result after =>
      rw [step] at outcome
      rcases outcome with ⟨pos, found, read, rest, _⟩ | ⟨missing, _, read, rest, _⟩ |
        ⟨read, missing, long, rest, _⟩
      · obtain ⟨split, clean⟩ := memchr_lf found
        have whole : IsLine (conn.stream.take (pos + 1)) := ⟨_, split, clean⟩
        rw [← taken_drop rest] at read whole
        rw [show result = _ from read] at step
        exact readLine_pass whole (taken_append rest).symm step rfl
      · have spent := @readLine_spent conn
        rw [show result = _ from read] at step
        rw [step] at spent
        simp only [pieces, readCommandTurn, step]
        refine ⟨rest.symm, .ended ?_ (spent rfl)⟩
        rw [show after.stream = conn.stream from rest]
        exact memchr_missing missing
      · rw [show result = _ from read] at step
        obtain ⟨whole, pass⟩ := discardUntilNewline_pass rest missing long
        simp only [pieces, readCommandTurn, step]
        refine ⟨?_, pass⟩
        simpa [pieceBytes, Piece.bytes] using whole

end Connection

section Handler

variable {σ : Type} (handle : Command → σ → Response × σ)

def Session.passes (session : Session σ) : List (Session σ) :=
  match _ : session.next handle with
  | none => [session]
  | some after => session :: after.passes
termination_by session.conn.stream.length
decreasing_by exact Session.next_shrinks handle (by assumption)

def Session.pieces (session : Session σ) : List Piece :=
  (session.passes handle).flatMap fun pass => pass.conn.pieces

inductive Closing : List Piece → Except IoError Unit → Connection → Prop
  | atEnd {pieces : List Piece} {last : Connection} (unterminated : lf ∉ last.stream)
      (spent : last.reader.stream = []) : Closing pieces (.ok ()) last
  | quit {pieces : List Piece} {line : Bytes} {last : Connection}
      (ends : pieces.getLast? = some (.line line))
      (parsed : parseCommandLine (stripLineEnd line) = .ok .quit) : Closing pieces (.ok ()) last
  | midPayload {pieces : List Piece} {data : Bytes} {error : IoError} {last : Connection}
      (ends : pieces.getLast? = some (.payload data)) (eof : error.kind = .unexpectedEof)
      (rest : last.stream.length < 2) (spent : last.reader.stream = []) :
      Closing pieces (.error error) last

structure Session.Accounts (session : Session σ) (result : Except IoError Unit × Connection × σ) :
    Prop where
  input : session.conn.stream = pieceBytes (session.pieces handle) ++ result.2.1.stream
  each : ∀ pass ∈ session.passes handle,
    pass.conn.stream = pieceBytes pass.conn.pieces ++ pass.conn.readCommandTurn.2.stream ∧
      Pass pass.conn.pieces pass.conn.readCommandTurn.1 pass.conn.readCommandTurn.2
  progress : ∀ pass ∈ session.passes handle, (pass.next handle).isSome →
    0 < (pieceBytes pass.conn.pieces).length
  bounded : (session.passes handle).length ≤ session.conn.stream.length + 1
  returns : ∃ last, (session.passes handle).getLast? = some last ∧ last.next handle = none ∧
    result = (last.conn.readCommandTurn.1.ending, last.conn.readCommandTurn.2, last.store)
  closing : Closing (session.pieces handle) result.1 result.2.1

theorem Session.next_stream {before after : Session σ} (step : before.next handle = some after) :
    after.conn.stream = before.conn.readCommandTurn.2.stream := by
  rcases before.next_cases handle step with ⟨_, same⟩ | ⟨command, _, conn, _⟩
  · rw [same]
  · rw [conn, answer_stream]

theorem Session.next_consumes {before after : Session σ} (step : before.next handle = some after) :
    0 < (pieceBytes before.conn.pieces).length := by
  have shorter := before.next_shrinks handle step
  have split := congrArg List.length before.conn.readCommandTurn_pass.1
  rw [next_stream handle step] at shorter
  rw [List.length_append] at split
  omega

theorem Pass.closes {pieces : List Piece} {turn : Turn} {after : Connection}
    (pass : Pass pieces turn after)
    (stops : turn = .returned none ∨ ∃ error, turn = .failed error) :
    Closing pieces turn.ending after := by
  cases pass with
  | ended unterminated spent => exact .atEnd unterminated spent
  | quit whole parsed => exact .quit rfl parsed
  | cutShort whole parsed short spent eof =>
      have few : after.stream.length < 2 := by
        rcases short with ⟨_, few⟩ | ⟨_, none⟩
        · exact few
        · simp [none]
      exact .midPayload rfl eof few spent
  | _ => simp at stops

theorem Closing.append {pieces : List Piece} {result : Except IoError Unit} {last : Connection}
    (closing : Closing pieces result last) (earlier : List Piece) :
    Closing (earlier ++ pieces) result last := by
  have kept : ∀ {piece : Piece}, pieces.getLast? = some piece →
      (earlier ++ pieces).getLast? = some piece := by
    intro piece ends
    rw [List.getLast?_append, ends, Option.some_or]
  cases closing with
  | atEnd unterminated spent => exact .atEnd unterminated spent
  | quit ends parsed => exact .quit (kept ends) parsed
  | midPayload ends eof rest spent => exact .midPayload (kept ends) eof rest spent

theorem Session.passes_last {session : Session σ} (stopped : session.next handle = none) :
    session.passes handle = [session] := by
  rw [passes]
  split
  · rfl
  · rename_i step
    simp [stopped] at step

theorem Session.passes_more {before after : Session σ} (step : before.next handle = some after) :
    before.passes handle = before :: after.passes handle := by
  rw [passes]
  split
  · rename_i stopped
    simp [stopped] at step
  · rename_i other taken
    rw [step, Option.some.injEq] at taken
    rw [taken]

theorem Session.accounts_last {session : Session σ} (stopped : session.next handle = none) :
    session.Accounts handle (serve handle session.conn session.store) := by
  have whole := session.passes_last handle stopped
  have pieces : session.pieces handle = session.conn.pieces := by simp [Session.pieces, whole]
  obtain ⟨input, pass⟩ := session.conn.readCommandTurn_pass
  rw [session.serve_stopped handle stopped]
  constructor
  · rw [pieces]
    exact input
  · rw [whole, List.forall_mem_singleton]
    exact ⟨input, pass⟩
  · rw [whole, List.forall_mem_singleton, stopped]
    simp
  · rw [whole, List.length_singleton]
    omega
  · exact ⟨session, by rw [whole]; rfl, stopped, rfl⟩
  · rw [pieces]
    exact pass.closes (session.next_stopped handle stopped)

theorem Session.accounts_more {before after : Session σ} (step : before.next handle = some after)
    (later : after.Accounts handle (serve handle after.conn after.store)) :
    before.Accounts handle (serve handle before.conn before.store) := by
  have whole := before.passes_more handle step
  have pieces : before.pieces handle = before.conn.pieces ++ after.pieces handle := by
    simp [Session.pieces, whole]
  have here := before.conn.readCommandTurn_pass
  rw [Session.next_serve handle step]
  constructor
  · rw [pieces, pieceBytes, List.flatMap_append, List.append_assoc, ← pieceBytes, ← pieceBytes,
      ← later.input, next_stream handle step]
    exact here.1
  · rw [whole, List.forall_mem_cons]
    exact ⟨here, later.each⟩
  · rw [whole, List.forall_mem_cons]
    exact ⟨fun _ => next_consumes handle step, later.progress⟩
  · have shorter := before.next_shrinks handle step
    have bounded := later.bounded
    rw [whole, List.length_cons]
    omega
  · obtain ⟨last, final, stopped, result⟩ := later.returns
    refine ⟨last, ?_, stopped, result⟩
    rw [whole, List.getLast?_cons, final, Option.getD_some]
  · rw [pieces]
    exact later.closing.append _

/-- A session over any input ends after at most one pass more than the input has bytes, and the
input is, in order, the pieces that its passes consume and what is left at the end. -/
theorem process_accounts (socket : Socket) (overflow : Overflow) (store : σ) :
    (Session.start socket overflow store).conn.stream = socket.stream ∧
      (Session.start socket overflow store).Accounts handle
        (process handle socket overflow store) := by
  refine ⟨rfl, ?_⟩
  suffices every : ∀ session : Session σ,
      session.Accounts handle (serve handle session.conn session.store) from every _
  intro session
  fun_induction Session.passes handle session with
  | case1 session stopped => exact Session.accounts_last handle stopped
  | case2 session after step ih => exact Session.accounts_more handle step ih

end Handler

end Numbers

end Ousagi
