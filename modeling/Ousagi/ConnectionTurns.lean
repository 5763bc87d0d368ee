import Ousagi.ConnectionChecks

/-!
One pass through the loop of `read_command`, told on the stream of bytes still
to be read: which bytes it consumes, what it returns and which error it writes.
-/

namespace Ousagi

/-- What a pass comes to, the error response it writes if any, and the bytes it leaves. -/
structure Cut where
  turn : Turn
  rejection : Option Response
  rest : Bytes
  deriving DecidableEq, Repr

def cutPayload (pending : PendingStore) (rest : Bytes) : Cut :=
  let len := pending.len.toNat
  if rest.length < len + 2 then
    { turn := .failed { kind := .unexpectedEof, message := "connection closed mid-payload" }
      rejection := none
      rest := rest.drop len }
  else if (rest.drop len).take 2 = ascii "\r\n" then
    { turn := .returned (some (pending.intoCommand (rest.take len)))
      rejection := none
      rest := rest.drop (len + 2) }
  else
    { turn := .again
      rejection := some (.clientError "bad data chunk")
      rest := rest.drop (len + 2) }

theorem cutPayload_append {pending : PendingStore} {body : Bytes}
    (enough : ¬body.length < pending.len.toNat + 2) (more : Bytes) :
    cutPayload pending (body ++ more) =
      { cutPayload pending body with rest := (cutPayload pending body).rest ++ more } := by
  have enough' : ¬(body ++ more).length < pending.len.toNat + 2 := by
    rw [List.length_append]
    omega
  have data : (body ++ more).take pending.len.toNat = body.take pending.len.toNat :=
    List.take_append_of_le_length (by omega)
  have trailer : ((body ++ more).drop pending.len.toNat).take 2 =
      (body.drop pending.len.toNat).take 2 := by
    rw [List.drop_append_of_le_length (by omega),
      List.take_append_of_le_length (by rw [List.length_drop]; omega)]
  have later : (body ++ more).drop (pending.len.toNat + 2) =
      body.drop (pending.len.toNat + 2) ++ more :=
    List.drop_append_of_le_length (by omega)
  simp only [cutPayload, if_neg enough, if_neg enough', data, trailer, later]
  split <;> rfl

namespace Connection

theorem readPayload_cut (pending : PendingStore) (conn : Connection) :
    ∃ count middle, Waited count conn middle ∧
      middle.stream = (cutPayload pending conn.stream).rest ∧
      (match conn.readPayload pending.len.toNat with
        | (.ok data, conn) => (Turn.returned (some (pending.intoCommand data)), conn)
        | (.error .badChunk, conn) => (.again, conn.reject (.clientError "bad data chunk"))
        | (.error (.io error), conn) => (.failed error, conn)) =
      ((cutPayload pending conn.stream).turn,
        (cutPayload pending conn.stream).rejection.elim middle (middle.reject ·)) := by
  obtain ⟨count, middle, result, waited, read, outcome⟩ :=
    conn.readPayload_cases pending.len.toNat
  refine ⟨count, middle, waited, ?_⟩
  simp only [read, cutPayload]
  rcases outcome with ⟨enough, rest, found⟩ | ⟨short, rest, found⟩
  · rw [if_neg (by omega)]
    subst found
    split
    · exact ⟨rest, rfl⟩
    · exact ⟨rest, rfl⟩
  · rw [if_pos short]
    subst found
    exact ⟨rest, rfl⟩

end Connection

section Numbers

variable [FromRadix10SignedChecked UInt32] [FromRadix10SignedChecked UInt64]
  [FromRadix10SignedChecked Int64]

def cutLine (line rest : Bytes) : Cut :=
  match parseCommandLine line with
  | .error error =>
      { turn := .again
        rejection := some error.response
        rest := rest.drop (error.discard.elim 0 UInt64.toNat) }
  | .ok (.immediate command) => { turn := .returned (some command), rejection := none, rest }
  | .ok (.store pending) => cutPayload pending rest
  | .ok .quit => { turn := .returned none, rejection := none, rest }

def cutTurn (stream : Bytes) : Cut :=
  match memchr lf stream with
  | none => { turn := .returned none, rejection := none, rest := stream }
  | some pos => cutLine (stripLineEnd (stream.take (pos + 1))) (stream.drop (pos + 1))

theorem cutLine_suffix (line rest : Bytes) : (cutLine line rest).rest <:+ rest := by
  simp only [cutLine, cutPayload]
  split
  · exact List.drop_suffix _ _
  · exact List.suffix_rfl
  · split
    · exact List.drop_suffix _ _
    · split <;> exact List.drop_suffix _ _
  · exact List.suffix_rfl

theorem cutLine_rest (line rest : Bytes) : (cutLine line rest).rest.length ≤ rest.length :=
  (cutLine_suffix line rest).length_le

theorem cutLine_rejects {line rest : Bytes} (rejects : (cutLine line rest).rejection ≠ none) :
    (cutLine line rest).turn = .again := by
  simp only [cutLine, cutPayload] at rejects ⊢
  cases parsed : parseCommandLine line with
  | error error => rfl
  | ok header =>
      simp only [parsed] at rejects
      cases header with
      | immediate command => simp at rejects
      | store pending =>
          simp only at rejects ⊢
          split at rejects
          · simp at rejects
          · split at rejects
            · simp at rejects
            · simp [*]
      | quit => simp at rejects

theorem cutTurn_rejects {stream : Bytes} (rejects : (cutTurn stream).rejection ≠ none) :
    (cutTurn stream).turn = .again := by
  simp only [cutTurn] at rejects ⊢
  split at rejects
  · simp at rejects
  · exact cutLine_rejects rejects

theorem cutLine_closing {line rest : Bytes} (closing : (cutLine line rest).turn = .returned none) :
    parseCommandLine line = .ok .quit := by
  simp only [cutLine, cutPayload] at closing
  cases parsed : parseCommandLine line with
  | error error => simp [parsed] at closing
  | ok header =>
      cases header with
      | immediate command => simp [parsed] at closing
      | store pending =>
          simp only [parsed] at closing
          split at closing
          · simp at closing
          · split at closing <;> simp at closing
      | quit => rfl

namespace Connection

theorem readCommandTurn_handed {conn : Connection}
    (handed : conn.readLine.1 ≠ .error .tooLong) :
    ∃ count middle, Waited count conn middle ∧
      middle.stream = (cutTurn conn.stream).rest ∧
      conn.readCommandTurn = ((cutTurn conn.stream).turn,
        (cutTurn conn.stream).rejection.elim middle (middle.reject ·)) ∧
      (count = 0 → memchr lf conn.buffer ≠ none) := by
  obtain ⟨count, waited, outcome⟩ := conn.readLine_cases
  generalize read : conn.readLine = step at waited outcome handed
  obtain ⟨result, middle⟩ := step
  simp only at waited outcome handed
  rcases outcome with ⟨pos, found, line, rest, buffered⟩ | ⟨missing, _, line, rest, some⟩ |
    ⟨line, _⟩
  · subst line
    simp only [readCommandTurn, read, cutTurn, found, cutLine, ← rest]
    have seen : count = 0 → memchr lf conn.buffer ≠ none := by
      intro zero
      simp [buffered zero]
    cases parseCommandLine (stripLineEnd (conn.stream.take (pos + 1))) with
    | error error =>
        cases discard : error.discard with
        | none =>
            refine ⟨count, middle, waited, ?_, ?_, seen⟩
            · simp [discard]
            · simp [discard]
        | some amount =>
            obtain ⟨reads, skipped, remaining⟩ := middle.discardExact_cases amount
            refine ⟨count + reads, middle.discardExact amount, waited.trans skipped, ?_, ?_, ?_⟩
            · simp [discard, remaining]
            · simp [discard]
            · exact fun zero => seen (by omega)
    | ok header =>
        cases header with
        | immediate command => exact ⟨count, middle, waited, rfl, rfl, seen⟩
        | store pending =>
            obtain ⟨reads, last, later, remaining, paid⟩ := readPayload_cut pending middle
            exact ⟨count + reads, last, waited.trans later, remaining, paid,
              fun zero => seen (by omega)⟩
        | quit => exact ⟨count, middle, waited, rfl, rfl, seen⟩
  · subst line
    simp only [readCommandTurn, read, cutTurn, missing]
    exact ⟨count, middle, waited, rest, rfl, by omega⟩
  · exact absurd line handed

theorem readCommandTurn_tooLong {conn : Connection} (long : conn.readLine.1 = .error .tooLong) :
    ∃ count full, Waited count conn full ∧ full.stream = conn.stream ∧
      memchr lf full.buffer = none ∧ maxLineLen ≤ full.buffer.length ∧
      (count = 0 → full = conn) ∧
      conn.readCommandTurn =
        (.again, full.discardUntilNewline.reject (.clientError "line too long")) := by
  obtain ⟨count, waited, outcome⟩ := conn.readLine_cases
  generalize read : conn.readLine = step at waited outcome long
  obtain ⟨result, full⟩ := step
  simp only at waited outcome long
  subst long
  rcases outcome with ⟨_, _, line, _⟩ | ⟨_, _, line, _⟩ | ⟨_, missing, filled, rest, same⟩
  · simp at line
  · simp at line
  · exact ⟨count, full, waited, rest, missing, filled, same, by simp [readCommandTurn, read]⟩

theorem readCommandTurn_cases (conn : Connection) :
    (∃ count middle, Waited count conn middle ∧
      middle.stream = (cutTurn conn.stream).rest ∧
      conn.readCommandTurn = ((cutTurn conn.stream).turn,
        (cutTurn conn.stream).rejection.elim middle (middle.reject ·)) ∧
      (count = 0 → memchr lf conn.buffer ≠ none)) ∨
    (∃ count full, Waited count conn full ∧ full.stream = conn.stream ∧
      memchr lf full.buffer = none ∧ maxLineLen ≤ full.buffer.length ∧
      (count = 0 → full = conn) ∧
      conn.readCommandTurn =
        (.again, full.discardUntilNewline.reject (.clientError "line too long"))) := by
  by_cases long : conn.readLine.1 = .error .tooLong
  · exact Or.inr (readCommandTurn_tooLong long)
  · exact Or.inl (readCommandTurn_handed long)

theorem readCommandTurn_shrinks (conn : Connection)
    (goesOn : conn.readCommandTurn.1 = .again ∨ ∃ command,
      conn.readCommandTurn.1 = .returned (some command)) :
    conn.readCommandTurn.2.stream.length < conn.stream.length := by
  rcases conn.readCommandTurn_cases with ⟨_, middle, _, rest, step, _⟩ |
    ⟨_, full, _, same, missing, long, _, step⟩
  · rw [step] at goesOn ⊢
    have kept : (((cutTurn conn.stream).rejection.elim middle (middle.reject ·))).stream =
        (cutTurn conn.stream).rest := by
      rw [← rest]
      cases (cutTurn conn.stream).rejection <;> rfl
    simp only [kept]
    cases found : memchr lf conn.stream with
    | none => simp [cutTurn, found] at goesOn
    | some pos =>
        have bound := memchr_cut found
        have shorter := cutLine_rest (stripLineEnd (conn.stream.take (pos + 1)))
          (conn.stream.drop (pos + 1))
        simp only [cutTurn, found]
        simp only [List.length_drop] at shorter
        omega
  · rw [step]
    obtain ⟨_, _, _, outcome⟩ := full.discardUntilNewline_cases
    simp only [reject_stream]
    have nonempty : 0 < conn.stream.length := by
      rw [← same, stream, List.length_append]
      simp only [maxLineLen] at long
      omega
    rw [same] at outcome
    rcases outcome with ⟨pos, _, rest⟩ | ⟨_, rest⟩
    · rw [rest, List.length_drop]
      omega
    · simpa [rest] using nonempty

end Connection

end Numbers

end Ousagi
