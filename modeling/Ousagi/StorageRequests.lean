import Ousagi.AtoiCore
import Ousagi.ParserGrammar
import Ousagi.SessionReference

/-!
Storage requests whose payload length is known: whatever else is wrong with the
line, the pass of `read_command` that reads it also consumes the payload.
-/

namespace Ousagi

open Library

def storeVerb : StoreOp → Bytes
  | .set => ascii "set"
  | .add => ascii "add"
  | .replace => ascii "replace"
  | .append => ascii "append"
  | .prepend => ascii "prepend"
  | .cas => ascii "cas"

def noreplySuffix (noreply : Bool) : List Bytes :=
  if noreply then [ascii "noreply"] else []

theorem noreplyTokens_ok {list : List Bytes} {noreply : Bool} :
    noreplyTokens list = .ok noreply ↔ list = noreplySuffix noreply := by
  rcases list with _ | ⟨token, _ | ⟨second, more⟩⟩
  · cases noreply <;> simp [noreplyTokens, noreplySuffix]
  · by_cases same : token = ascii "noreply"
    · cases noreply <;> simp [noreplyTokens, noreplySuffix, same, endTokens]
    · cases noreply <;> simp [noreplyTokens, noreplySuffix, same]
  · by_cases same : token = ascii "noreply"
    · cases noreply <;> simp [noreplyTokens, noreplySuffix, same, endTokens]
    · cases noreply <;> simp [noreplyTokens, noreplySuffix, same]

theorem noreplyTokens_error {list : List Bytes} {error : ParseError}
    (failed : noreplyTokens list = .error error) : error = .new .badFormat := by
  rcases list with _ | ⟨token, _ | ⟨second, more⟩⟩
  · simp [noreplyTokens] at failed
  · by_cases same : token = ascii "noreply"
    · simp [noreplyTokens, same, endTokens] at failed
    · simpa [noreplyTokens, same] using failed.symm
  · by_cases same : token = ascii "noreply"
    · simpa [noreplyTokens, same, endTokens] using failed.symm
    · simpa [noreplyTokens, same] using failed.symm

theorem keyToken_cases (key : Bytes) :
    (validateKey key = some () ∧ keyToken key = .ok key) ∨
      (validateKey key ≠ some () ∧ keyToken key = .error (.new .badFormat)) := by
  cases valid : validateKey key with
  | none => exact Or.inr ⟨by simp, by simp [keyToken, valid, okOr]⟩
  | some _ => exact Or.inl ⟨rfl, by simp [keyToken, valid, okOr]⟩

def StoreTail [FromRadix10SignedChecked UInt64] (op : StoreOp) (cas : Option UInt64)
    (noreply : Bool) (more : List Bytes) : Prop :=
  if op = .cas then
    ∃ token value, parseField UInt64 token = some value ∧ cas = some value ∧
      more = token :: noreplySuffix noreply
  else cas = none ∧ more = noreplySuffix noreply

theorem storeTail_cases [FromRadix10SignedChecked UInt64] (op : StoreOp) (len : UInt64)
    (more : List Bytes) (finish : Option UInt64 → Bool → CommandHeader) :
    (∃ cas noreply, StoreTail op cas noreply more ∧
      (do
        let (cas, list) ← casTokens op len more
        let noreply ← (noreplyTokens list).mapError (·.withDiscard (len + 2))
        return finish cas noreply) = Except.ok (finish cas noreply)) ∨
    ((∀ cas noreply, ¬StoreTail op cas noreply more) ∧
      (do
        let (cas, list) ← casTokens op len more
        let noreply ← (noreplyTokens list).mapError (·.withDiscard (len + 2))
        return finish cas noreply) =
        Except.error ((ParseError.new .badFormat).withDiscard (len + 2))) := by
  by_cases isCas : op = .cas
  · simp only [casTokens, StoreTail, if_pos isCas]
    cases more with
    | nil => exact Or.inr ⟨by simp, rfl⟩
    | cons token list =>
        cases value : parseField UInt64 token with
        | none =>
            refine Or.inr ⟨?_, by simp [value, okOr, bind, Except.bind]⟩
            rintro cas noreply ⟨other, read, found, _, same⟩
            rw [List.cons.injEq] at same
            rw [← same.1, value] at found
            simp at found
        | some read =>
            cases tail : noreplyTokens list with
            | ok noreply =>
                refine Or.inl ⟨some read, noreply, ⟨token, read, value, rfl, ?_⟩, ?_⟩
                · rw [noreplyTokens_ok.mp tail]
                · simp [value, okOr, tail, Except.mapError, bind, Except.bind, pure, Except.pure]
            | error error =>
                refine Or.inr ⟨?_, ?_⟩
                · rintro cas noreply ⟨other, read, _, _, same⟩
                  rw [List.cons.injEq] at same
                  rw [noreplyTokens_ok.mpr same.2] at tail
                  simp at tail
                · rw [noreplyTokens_error tail] at tail
                  simp [value, okOr, tail, Except.mapError, bind, Except.bind, pure, Except.pure]
  · simp only [casTokens, StoreTail, if_neg isCas]
    cases tail : noreplyTokens more with
    | ok noreply =>
        refine Or.inl ⟨none, noreply, ⟨rfl, noreplyTokens_ok.mp tail⟩, ?_⟩
        simp [tail, Except.mapError, bind, Except.bind, pure, Except.pure]
    | error error =>
        refine Or.inr ⟨?_, ?_⟩
        · rintro cas noreply ⟨_, same⟩
          rw [noreplyTokens_ok.mpr same] at tail
          simp at tail
        · rw [noreplyTokens_error tail] at tail
          simp [tail, Except.mapError, bind, Except.bind]

theorem Connection.readLine_keeps {conn after : Connection} {line : Bytes}
    (read : conn.readLine = (.ok (some line), after)) :
    ∃ count, Waited count conn after := by
  obtain ⟨count, waited, _⟩ := conn.readLine_cases
  rw [read] at waited
  exact ⟨count, waited⟩

section Numbers

variable [FromRadix10SignedChecked UInt32] [FromRadix10SignedChecked UInt64]
  [FromRadix10SignedChecked Int64]

/-- The fields of a storage line other than its length are valid and denote `pending`. -/
structure StoreFields (op : StoreOp) (key flags exptime : Bytes) (more : List Bytes)
    (pending : PendingStore) : Prop where
  sameOp : pending.op = op
  validKey : validateKey key = some ()
  key : pending.key = key
  flags : parseField UInt32 flags = some pending.flags
  exptime : parseField Int64 exptime = some pending.exptime
  tail : StoreTail op pending.cas pending.noreply more

theorem commandTokens_store (op : StoreOp) (list : List Bytes) :
    commandTokens (storeVerb op :: list) = storeTokens op list := by
  cases op <;> simp +decide [commandTokens]

theorem storeTokens_cases (op : StoreOp) (key flags exptime : Bytes) {lenToken : Bytes}
    (more : List Bytes) {len : UInt64} (parsed : parseField UInt64 lenToken = some len)
    (small : len.toNat ≤ maxItemSize) :
    (∃ pending, pending.len = len ∧ StoreFields op key flags exptime more pending ∧
      storeTokens op (key :: flags :: exptime :: lenToken :: more) = .ok (.store pending)) ∨
    ((¬∃ pending, StoreFields op key flags exptime more pending) ∧
      storeTokens op (key :: flags :: exptime :: lenToken :: more) =
        .error ((ParseError.new .badFormat).withDiscard (len + 2))) := by
  have fits : ¬maxItemSize < len.toNat := by omega
  simp only [storeTokens, parsed, okOr, bind, Except.bind, if_neg fits]
  rcases keyToken_cases key with ⟨valid, accepted⟩ | ⟨invalid, refused⟩
  · simp only [accepted, Except.mapError]
    cases flagsRead : parseField UInt32 flags with
    | none =>
        right
        refine ⟨?_, rfl⟩
        rintro ⟨_, fields⟩
        simpa [flagsRead] using fields.flags
    | some flagsValue =>
        cases exptimeRead : parseField Int64 exptime with
        | none =>
            right
            refine ⟨?_, rfl⟩
            rintro ⟨_, fields⟩
            simpa [exptimeRead] using fields.exptime
        | some exptimeValue =>
            rcases storeTail_cases op len more (fun cas noreply =>
              .store { op, key, flags := flagsValue, exptime := exptimeValue, len, cas, noreply })
              with ⟨cas, noreply, tail, result⟩ | ⟨none, result⟩
            · exact Or.inl ⟨_, rfl, ⟨rfl, valid, rfl, flagsRead, exptimeRead, tail⟩, result⟩
            · right
              refine ⟨?_, result⟩
              rintro ⟨pending, fields⟩
              exact none _ _ fields.tail
  · right
    constructor
    · rintro ⟨_, fields⟩
      exact invalid fields.validKey
    · rw [refused]
      rfl

theorem parseCommandLine_store {line : Bytes} {op : StoreOp} {list : List Bytes}
    (listed : tokens line = storeVerb op :: list) :
    parseCommandLine line = storeTokens op list := by
  rw [parseCommandLine_eq, listed, commandTokens_store]

def Connection.Refused (conn : Connection) : Prop :=
  conn.readCommandTurn.1 = .again ∧
    ∃ message, responses conn.readCommandTurn.2.history =
        responses conn.history ++ [.clientError message] ∧
      conn.readCommandTurn.2.writer.sent =
        conn.writer.sent ++ encodeResponse (.clientError message)

theorem Connection.refused {conn after middle : Connection} {count : Nat} {message : String}
    (waited : Waited count conn middle)
    (turn : conn.readCommandTurn = (.again, after))
    (wrote : after = middle.reject (.clientError message)) : conn.Refused := by
  refine ⟨by rw [turn], message, ?_, ?_⟩
  · rw [turn, wrote, reject_history, waited.history]
    simp
  · rw [turn, wrote, reject_sent, waited.sent]

/-- A storage request takes its whole payload and the two bytes after it off the stream, and
stores the payload exactly if the line and the end of the payload are valid. -/
theorem Connection.storage_consumes {conn after : Connection} {line : Bytes}
    (read : conn.readLine = (.ok (some line), after)) {op : StoreOp}
    {key flags exptime lenToken : Bytes} {more : List Bytes}
    (listed : tokens line = storeVerb op :: key :: flags :: exptime :: lenToken :: more)
    {len : UInt64} (parsed : parseField UInt64 lenToken = some len)
    (small : len.toNat ≤ maxItemSize) (enough : len.toNat + 2 ≤ after.stream.length) :
    conn.readCommandTurn.2.stream = after.stream.drop (len.toNat + 2) ∧
      ((∃ pending, StoreFields op key flags exptime more pending ∧
          (after.stream.drop len.toNat).take 2 = ascii "\r\n" ∧
          conn.readCommandTurn.1 =
            .returned (some (pending.intoCommand (after.stream.take len.toNat))) ∧
          responses conn.readCommandTurn.2.history = responses conn.history ∧
          conn.readCommandTurn.2.writer.sent = conn.writer.sent) ∨
        (¬((∃ pending, StoreFields op key flags exptime more pending) ∧
            (after.stream.drop len.toNat).take 2 = ascii "\r\n") ∧ conn.Refused)) := by
  obtain ⟨count, waited⟩ := readLine_keeps read
  have header := parseCommandLine_store listed
  rcases storeTokens_cases op key flags exptime more parsed small with
    ⟨pending, sameLen, fields, accepted⟩ | ⟨invalid, rejected⟩
  · obtain ⟨reads, last, result, later, paid, outcome⟩ := after.readPayload_cases len.toNat
    rcases outcome with ⟨_, rest, found⟩ | ⟨short, _⟩
    · by_cases ends : (after.stream.drop len.toNat).take 2 = ascii "\r\n"
      · rw [if_pos ends] at found
        have turn : conn.readCommandTurn =
            (.returned (some (pending.intoCommand (after.stream.take len.toNat))), last) := by
          simp only [readCommandTurn, read, header, accepted, sameLen, paid, found]
        refine ⟨by rw [turn, rest], Or.inl ⟨pending, fields, ends, by rw [turn], ?_, ?_⟩⟩
        · rw [turn, later.history, waited.history]
          simp
        · rw [turn, later.sent, waited.sent]
      · rw [if_neg ends] at found
        have turn : conn.readCommandTurn =
            (.again, last.reject (.clientError "bad data chunk")) := by
          simp only [readCommandTurn, read, header, accepted, sameLen, paid, found]
        refine ⟨by rw [turn, reject_stream, rest], Or.inr ⟨fun both => ends both.2, ?_⟩⟩
        exact refused (waited.trans later) turn rfl
    · omega
  · have whole : (len + 2).toNat = len.toNat + 2 := by
      simp only [maxItemSize] at small
      rw [UInt64.toNat_add]
      simp
      omega
    obtain ⟨reads, skipped, rest⟩ := after.discardExact_cases (len + 2)
    have turn : conn.readCommandTurn = (.again, (after.discardExact (len + 2)).reject
        (.clientError "bad command line format")) := by
      simp only [readCommandTurn, read, header, rejected]
      rfl
    refine ⟨by rw [turn, reject_stream, rest, whole], Or.inr ⟨fun both => invalid both.1, ?_⟩⟩
    exact refused (waited.trans skipped) turn rfl

end Numbers

/-- A pipelining client: the first read ends inside the payload. -/
def splitRequest : Connection :=
  { reader := ⟨[ascii "b\r", ascii "\nget k\r\n"], by decide⟩
    writer := .new .tokio
    buffer := ascii "set k 7 0 2\r\na"
    history := [] }

theorem splitRequest_consumes :
    splitRequest.readCommandTurn.2.stream = ascii "get k\r\n" ∧
      splitRequest.readCommandTurn.1 = .returned (some (.store .set {
        key := ascii "k", flags := 7, exptime := 0, data := ascii "ab", noreply := false,
        cas := none })) := by
  have found : memchr lf splitRequest.buffer = some 12 := by decide
  have listed : tokens (stripLineEnd (splitRequest.buffer.take 13)) =
      [storeVerb .set, ascii "k", ascii "7", ascii "0", ascii "2"] := by decide
  have parsed : parseField UInt64 (ascii "2") = some 2 := by decide
  have consumed := Connection.storage_consumes (Connection.readLine_buffered found) listed parsed
    (by decide) (by decide)
  exact ⟨consumed.1.trans (by decide), by decide +kernel⟩

section Numbers

variable [FromRadix10SignedChecked UInt32] [FromRadix10SignedChecked UInt64]
  [FromRadix10SignedChecked Int64]

/-- A length beyond the item limit is skipped exactly unless the count of bytes wraps. -/
theorem oversized_skips {line : Bytes} {op : StoreOp} {key flags exptime lenToken : Bytes}
    {more : List Bytes}
    (listed : tokens line = storeVerb op :: key :: flags :: exptime :: lenToken :: more)
    {len : UInt64} (parsed : parseField UInt64 lenToken = some len)
    (large : maxItemSize < len.toNat) :
    ((∃ error count, parseCommandLine line = .error error ∧ error.discard = some count ∧
        count.toNat = len.toNat + 2) ∧
      ∀ conn after : Connection, conn.readLine = (.ok (some line), after) →
        conn.readCommandTurn.1 = .again ∧
          conn.readCommandTurn.2.stream = after.stream.drop (len.toNat + 2)) ↔
      len.toNat + 2 < 2 ^ 64 := by
  have header : parseCommandLine line =
      .error ((ParseError.new .tooLarge).withDiscard (len + 2)) := by
    rw [parseCommandLine_store listed]
    simp only [storeTokens, parsed, okOr, bind, Except.bind, if_pos large]
  constructor
  · rintro ⟨⟨error, count, failed, discard, exact⟩, _⟩
    rw [header, Except.error.injEq] at failed
    rw [← exact]
    exact count.toNat_lt
  · intro fits
    have whole : (len + 2).toNat = len.toNat + 2 := by
      rw [UInt64.toNat_add]
      exact Nat.mod_eq_of_lt fits
    refine ⟨⟨_, len + 2, header, rfl, whole⟩, ?_⟩
    intro conn after read
    obtain ⟨reads, _, rest⟩ := after.discardExact_cases (len + 2)
    have turn : conn.readCommandTurn = (.again, (after.discardExact (len + 2)).reject
        (.serverError "object too large for cache")) := by
      simp only [Connection.readCommandTurn, read, header]
      rfl
    rw [turn, Connection.reject_stream, rest, whole]
    exact ⟨rfl, rfl⟩

end Numbers

theorem oversized_skips_millions :
    ((∃ error count, parseCommandLine (ascii "set k 0 0 1048577") = .error error ∧
        error.discard = some count ∧ count.toNat = 1048579) ∧
      ∀ conn after : Connection,
        conn.readLine = (.ok (some (ascii "set k 0 0 1048577")), after) →
          conn.readCommandTurn.1 = .again ∧
            conn.readCommandTurn.2.stream = after.stream.drop 1048579) := by
  have listed : tokens (ascii "set k 0 0 1048577") =
      [storeVerb .set, ascii "k", ascii "0", ascii "0", ascii "1048577"] := by decide
  have parsed : parseField UInt64 (ascii "1048577") = some 1048577 := by decide
  exact (oversized_skips listed parsed (by decide)).mpr (by decide)

/-- The largest length wraps to a discard of one byte, and the payload is read as a command. -/
theorem oversized_wraps :
    parseField UInt64 (ascii "18446744073709551615") = some 18446744073709551615 ∧
      parseCommandLine (ascii "set k 0 0 18446744073709551615") =
        .error ((ParseError.new .tooLarge).withDiscard 1) ∧
      (1 : UInt64).toNat ≠ 18446744073709551615 + 2 ∧
      (reference (ascii "set k 0 0 18446744073709551615\r\nxversion\r\n")).1 =
        [.rejected (.serverError "object too large for cache"), .received .version] := by
  exact ⟨by decide, by decide +kernel, by decide, by decide +kernel⟩

end Ousagi
