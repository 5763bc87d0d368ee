import Ousagi.AtoiCore
import Ousagi.ParserGrammar
import Ousagi.SessionReference
import Ousagi.StorageRequests

/-!
The canonical wire form of a command, and the round trip of a pipelined stream
of commands through `read_command`.
-/

namespace Ousagi

open Library

structure ValidKey (key : Bytes) : Prop where
  nonempty : 1 ≤ key.length
  bound : key.length ≤ maxKeyLen
  clean : ∀ byte ∈ key, 0x20 < byte ∧ byte ≠ 0x7F

instance : DecidablePred ValidKey := fun key =>
  have : Decidable (∀ byte ∈ key, 0x20 < byte ∧ byte ≠ 0x7F) := List.decidableBAll _ key
  decidable_of_iff
    (1 ≤ key.length ∧ key.length ≤ maxKeyLen ∧ ∀ byte ∈ key, 0x20 < byte ∧ byte ≠ 0x7F)
    ⟨fun ⟨nonempty, bound, clean⟩ => ⟨nonempty, bound, clean⟩,
      fun valid => ⟨valid.nonempty, valid.bound, valid.clean⟩⟩

def Word (token : Bytes) : Prop := token ≠ [] ∧ ∀ byte ∈ token, space < byte

instance : DecidablePred Word := fun token =>
  @instDecidableAnd _ _ inferInstance (List.decidableBAll _ token)

def Command.wireTokens : Command → List Bytes
  | .get keys withCas => ascii (if withCas then "gets" else "get") :: keys
  | .store op args =>
      [storeVerb op, args.key, decimal args.flags.toNat, signedDecimal args.exptime.toInt,
        decimal args.data.length] ++ args.cas.toList.map (fun token => decimal token.toNat) ++
        noreplySuffix args.noreply
  | .delete key noreply => [ascii "delete", key] ++ noreplySuffix noreply
  | .arithmetic op key delta noreply =>
      [ascii (if op = .incr then "incr" else "decr"), key, decimal delta.toNat] ++
        noreplySuffix noreply
  | .getAndTouch keys exptime withCas =>
      ascii (if withCas then "gats" else "gat") :: signedDecimal exptime.toInt :: keys
  | .touch key exptime noreply =>
      [ascii "touch", key, signedDecimal exptime.toInt] ++ noreplySuffix noreply
  | .flushAll delay noreply =>
      [ascii "flush_all"] ++ delay.toList.map (fun secs => decimal secs.toNat) ++
        noreplySuffix noreply
  | .version => [ascii "version"]
  | .verbosity level noreply => [ascii "verbosity", decimal level.toNat] ++ noreplySuffix noreply
  | .stats => [ascii "stats"]

def Command.wireLine (command : Command) : Bytes := [space].intercalate command.wireTokens

def Command.wirePayload : Command → Bytes
  | .store _ args => args.data ++ ascii "\r\n"
  | _ => []

def Command.wire (command : Command) : Bytes :=
  command.wireLine ++ ascii "\r\n" ++ command.wirePayload

def Command.WellFormed : Command → Prop
  | .get keys _ => keys ≠ [] ∧ ∀ key ∈ keys, ValidKey key
  | .getAndTouch keys _ _ => keys ≠ [] ∧ ∀ key ∈ keys, ValidKey key
  | .store op args =>
      ValidKey args.key ∧ args.data.length ≤ maxItemSize ∧ (args.cas.isSome ↔ op = .cas)
  | .delete key _ => ValidKey key
  | .arithmetic _ key _ _ => ValidKey key
  | .touch key _ _ => ValidKey key
  | .flushAll _ _ => True
  | .version => True
  | .verbosity _ _ => True
  | .stats => True

theorem validateKey_valid {key : Bytes} (valid : ValidKey key) : validateKey key = some () := by
  have nonempty := valid.nonempty
  have bound := valid.bound
  have filled : key ≠ [] := by
    rw [← List.length_pos_iff]
    omega
  have clean : key.any (fun byte => byte ≤ 0x20 || byte = 0x7F) = false := by
    rw [List.any_eq_false]
    intro byte member
    have ⟨above, other⟩ := valid.clean byte member
    simp [other, UInt8.not_le.mpr above]
  simp [validateKey, clean, filled, Nat.not_lt.mpr bound]

theorem keyToken_valid {key : Bytes} (valid : ValidKey key) : keyToken key = .ok key := by
  simp [keyToken, validateKey_valid valid, okOr]

theorem keyTokens_valid {keys : List Bytes} (valid : ∀ key ∈ keys, ValidKey key) :
    keyTokens keys = .ok keys := by
  induction keys with
  | nil => rfl
  | cons key more ih =>
      rw [keyTokens, keyToken_valid (valid key (by simp)),
        ih fun other member => valid other (by simp [member])]
      rfl

theorem noreplyTokens_suffix (noreply : Bool) :
    noreplyTokens (noreplySuffix noreply) = .ok noreply :=
  noreplyTokens_ok.mpr rfl

theorem ValidKey.word {key : Bytes} (valid : ValidKey key) : Word key := by
  have nonempty := valid.nonempty
  refine ⟨?_, fun byte member => (valid.clean byte member).1⟩
  rw [Ne, ← List.length_eq_zero_iff]
  omega

theorem isDigit_clean {byte : UInt8} (digit : isDigit byte = true) : space < byte := by
  simp only [isDigit, Bool.and_eq_true, decide_eq_true_eq] at digit
  exact UInt8.lt_of_lt_of_le (by decide) digit.1

theorem word_decimal (value : Nat) : Word (decimal value) :=
  ⟨decimal_nonempty value, fun _ member => isDigit_clean (decimal_digits member)⟩

theorem word_signedDecimal (value : Int) : Word (signedDecimal value) := by
  refine ⟨signedDecimal_nonempty value, ?_⟩
  intro byte member
  rw [signedDecimal] at member
  split at member
  · rcases List.mem_cons.mp member with sign | digit
    · rw [sign]
      decide
    · exact isDigit_clean (decimal_digits digit)
  · exact isDigit_clean (decimal_digits member)

theorem word_verb (op : StoreOp) : Word (storeVerb op) := by
  cases op <;> decide

theorem words_noreply (noreply : Bool) : ∀ token ∈ noreplySuffix noreply, Word token := by
  cases noreply <;> decide

theorem wireTokens_words {command : Command} (wellFormed : command.WellFormed) :
    ∀ token ∈ command.wireTokens, Word token := by
  cases command with
  | get keys withCas =>
      rw [Command.wireTokens, List.forall_mem_cons]
      exact ⟨by cases withCas <;> decide, fun key member => (wellFormed.2 key member).word⟩
  | getAndTouch keys exptime withCas =>
      rw [Command.wireTokens, List.forall_mem_cons, List.forall_mem_cons]
      exact ⟨by cases withCas <;> decide, word_signedDecimal _,
        fun key member => (wellFormed.2 key member).word⟩
  | store op args =>
      simp only [Command.wireTokens, List.forall_mem_append, List.forall_mem_cons,
        List.forall_mem_map]
      exact ⟨⟨⟨word_verb op, wellFormed.1.word, word_decimal _, word_signedDecimal _,
        word_decimal _, by simp⟩, fun _ _ => word_decimal _⟩, words_noreply _⟩
  | delete key noreply =>
      simp only [Command.wireTokens, List.forall_mem_append, List.forall_mem_cons]
      exact ⟨⟨by decide, ValidKey.word wellFormed, by simp⟩, words_noreply _⟩
  | arithmetic op key delta noreply =>
      simp only [Command.wireTokens, List.forall_mem_append, List.forall_mem_cons]
      exact ⟨⟨by cases op <;> decide, ValidKey.word wellFormed, word_decimal _, by simp⟩,
        words_noreply _⟩
  | touch key exptime noreply =>
      simp only [Command.wireTokens, List.forall_mem_append, List.forall_mem_cons]
      exact ⟨⟨by decide, ValidKey.word wellFormed, word_signedDecimal _, by simp⟩,
        words_noreply _⟩
  | flushAll delay noreply =>
      simp only [Command.wireTokens, List.forall_mem_append, List.forall_mem_cons,
        List.forall_mem_map]
      exact ⟨⟨⟨by decide, by simp⟩, fun _ _ => word_decimal _⟩, words_noreply _⟩
  | verbosity level noreply =>
      simp only [Command.wireTokens, List.forall_mem_append, List.forall_mem_cons]
      exact ⟨⟨by decide, word_decimal _, by simp⟩, words_noreply _⟩
  | version => decide
  | stats => decide

theorem tokens_wireLine {command : Command} (wellFormed : command.WellFormed) :
    tokens command.wireLine = command.wireTokens := by
  refine fields_intercalate (fun token member => (wireTokens_words wellFormed token member).1) ?_
  intro token member inside
  have above := (wireTokens_words wellFormed token member).2 space inside
  simp at above

theorem mem_intercalate {words : List Bytes} (clean : ∀ token ∈ words, Word token) :
    ∀ byte ∈ [space].intercalate words, space ≤ byte := by
  induction words with
  | nil => simp
  | cons token more ih =>
      have later := ih fun other member => clean other (by simp [member])
      have first : ∀ byte ∈ token, space ≤ byte := fun byte member =>
        UInt8.le_of_lt ((clean token (by simp)).2 byte member)
      by_cases last : more = []
      · simpa [last] using first
      · rw [List.intercalate_cons_of_ne_nil last]
        simp only [List.forall_mem_append]
        exact ⟨⟨first, by simp⟩, later⟩

theorem memchr_line {line : Bytes} (clean : ∀ byte ∈ line, space ≤ byte) (rest : Bytes) :
    memchr lf (line ++ ascii "\r\n" ++ rest) = some (line.length + 1) := by
  have free : lf ∉ line ++ [13] := by
    intro among
    rcases List.mem_append.mp among with inside | last
    · exact absurd (clean lf inside) (by decide)
    · exact absurd last (by decide)
  have whole : line ++ ascii "\r\n" ++ rest = (line ++ [13]) ++ lf :: rest := by
    rw [List.append_assoc, List.append_assoc]
    rfl
  rw [whole, memchr_body free, List.length_append, List.length_singleton]

theorem stripLineEnd_line {line : Bytes} (clean : ∀ byte ∈ line, space ≤ byte) :
    stripLineEnd (line ++ ascii "\r\n") = line := by
  have ends : ascii "\r\n" = [cr, lf] := by decide
  rw [ends, stripLineEnd, ← List.singleton_append (x := cr), ← List.append_assoc,
    List.rdropWhile_concat_pos _ _ _ (by decide), List.rdropWhile_concat_pos _ _ _ (by decide),
    List.rdropWhile_eq_self_iff]
  intro filled
  have above := clean _ (List.getLast_mem filled)
  intro ends
  simp only [Bool.or_eq_true, decide_eq_true_eq] at ends
  rcases ends with same | same <;> rw [same] at above <;> exact absurd above (by decide)

theorem decimal_ne_noreply (value : Nat) : decimal value ≠ ascii "noreply" := by
  intro same
  have inside : (110 : UInt8) ∈ decimal value := by
    rw [same]
    decide
  exact not_mem_decimal (by decide) inside

def Command.header : Command → CommandHeader
  | .store op args => .store {
      op
      key := args.key
      flags := args.flags
      exptime := args.exptime
      len := UInt64.ofNat args.data.length
      cas := args.cas
      noreply := args.noreply }
  | command => .immediate command

theorem lineShort_wire {command : Command} (wellFormed : command.WellFormed)
    (fits : command.wireLine.length + 2 ≤ maxLineLen) (rest : Bytes) :
    lineShort (command.wire ++ rest) := by
  have clean : ∀ byte ∈ command.wireLine, space ≤ byte :=
    mem_intercalate (wireTokens_words wellFormed)
  have found := memchr_line clean (command.wirePayload ++ rest)
  simp only [Command.wire, List.append_assoc] at found ⊢
  rw [lineShort, found]
  simp only [decide_eq_true_eq]
  omega

section Numbers

variable [FromRadix10SignedChecked UInt32] [FromRadix10SignedChecked UInt64]
  [FromRadix10SignedChecked Int64]

section Canonical

variable (canonical : CanonicalDecimals)

include canonical

theorem parseField_uint32 (value : UInt32) :
    parseField UInt32 (decimal value.toNat) = some value := by
  simp [parseField, canonical.uint32]

theorem parseField_uint64 (value : UInt64) :
    parseField UInt64 (decimal value.toNat) = some value := by
  simp [parseField, canonical.uint64]

theorem parseField_int64 (value : Int64) :
    parseField Int64 (signedDecimal value.toInt) = some value := by
  simp [parseField, canonical.int64]

theorem parseField_length {length : Nat} (bound : length ≤ maxItemSize) :
    parseField UInt64 (decimal length) = some (UInt64.ofNat length) := by
  have fits : (UInt64.ofNat length).toNat = length := by
    simp only [maxItemSize] at bound
    rw [UInt64.toNat_ofNat']
    omega
  rw [← fits, parseField_uint64 canonical, fits]

theorem storeTokens_wire {op : StoreOp} {args : StoreArgs}
    (wellFormed : (Command.store op args).WellFormed) :
    commandTokens (Command.store op args).wireTokens = .ok (Command.store op args).header := by
  obtain ⟨validKey, bound, casExactly⟩ := wellFormed
  have fits : ¬maxItemSize < (UInt64.ofNat args.data.length).toNat := by
    simp only [maxItemSize] at bound ⊢
    rw [UInt64.toNat_ofNat']
    omega
  simp only [Command.wireTokens, List.cons_append, List.nil_append, commandTokens_store,
    storeTokens, parseField_length canonical bound, parseField_uint32 canonical,
    parseField_int64 canonical, okOr, keyToken_valid validKey, bind, Except.bind, if_neg fits,
    Except.mapError]
  by_cases isCas : op = .cas
  · obtain ⟨cas, present⟩ := Option.isSome_iff_exists.mp (casExactly.mpr isCas)
    simp [casTokens, isCas, present, parseField_uint64 canonical, okOr, noreplyTokens_suffix,
      bind, Except.bind, pure, Except.pure, Command.header]
  · have absent : args.cas = none := by
      rw [← Option.not_isSome_iff_eq_none]
      exact fun present => isCas (casExactly.mp present)
    simp [casTokens, isCas, absent, noreplyTokens_suffix, pure, Except.pure, Command.header]

theorem commandTokens_wire {command : Command} (wellFormed : command.WellFormed) :
    commandTokens command.wireTokens = .ok command.header := by
  cases command with
  | store op args => exact storeTokens_wire canonical wellFormed
  | get keys withCas =>
      cases withCas <;>
        simp +decide [Command.wireTokens, commandTokens, getTokens, wellFormed.1,
          keyTokens_valid wellFormed.2, Command.header, bind, Except.bind, pure, Except.pure]
  | getAndTouch keys exptime withCas =>
      cases withCas <;>
        simp +decide [Command.wireTokens, commandTokens, getAndTouchTokens, wellFormed.1,
          parseField_int64 canonical, okOr, keyTokens_valid wellFormed.2, Command.header, bind,
          Except.bind, pure, Except.pure]
  | delete key noreply =>
      simp +decide [Command.wireTokens, commandTokens, deleteTokens, keyToken_valid wellFormed,
        noreplyTokens_suffix, Command.header, bind, Except.bind, pure, Except.pure]
  | arithmetic op key delta noreply =>
      cases op <;>
        simp +decide [Command.wireTokens, commandTokens, arithmeticTokens,
          keyToken_valid wellFormed, parseField_uint64 canonical, okOr, noreplyTokens_suffix,
          Command.header, bind, Except.bind, pure, Except.pure]
  | touch key exptime noreply =>
      simp +decide [Command.wireTokens, commandTokens, touchTokens, keyToken_valid wellFormed,
        parseField_int64 canonical, okOr, noreplyTokens_suffix, Command.header, bind, Except.bind,
        pure, Except.pure]
  | flushAll delay noreply =>
      cases delay with
      | none =>
          cases noreply <;>
            simp +decide [Command.wireTokens, commandTokens, flushAllTokens, noreplySuffix,
              endTokens, Command.header]
      | some secs =>
          simp +decide [Command.wireTokens, commandTokens, flushAllTokens, decimal_ne_noreply,
            parseField_uint32 canonical, okOr, noreplyTokens_suffix, Command.header, bind,
            Except.bind, pure, Except.pure]
  | verbosity level noreply =>
      simp +decide [Command.wireTokens, commandTokens, verbosityTokens,
        parseField_uint32 canonical, okOr, noreplyTokens_suffix, Command.header, bind,
        Except.bind, pure, Except.pure]
  | version => rfl
  | stats => rfl

theorem parse_wireLine {command : Command} (wellFormed : command.WellFormed) :
    parseCommandLine command.wireLine = .ok command.header := by
  rw [parseCommandLine_eq, tokens_wireLine wellFormed, commandTokens_wire canonical wellFormed]

theorem cutLine_wire {command : Command} (wellFormed : command.WellFormed) (rest : Bytes) :
    cutLine command.wireLine (command.wirePayload ++ rest) =
      { turn := .returned (some command), rejection := none, rest } := by
  rw [cutLine, parse_wireLine canonical wellFormed]
  cases command with
  | store op args =>
      have bound := wellFormed.2.1
      have fits : (UInt64.ofNat args.data.length).toNat = args.data.length := by
        simp only [maxItemSize] at bound
        rw [UInt64.toNat_ofNat']
        omega
      have two : (ascii "\r\n").length = 2 := by decide
      simp only [Command.header, cutPayload, fits, Command.wirePayload, List.append_assoc]
      rw [if_neg (by simp only [List.length_append, two]; omega), List.drop_left,
        List.take_append_of_le_length (by omega), List.take_of_length_le (by omega), if_pos rfl,
        List.take_left, ← List.drop_drop, List.drop_left, ← two, List.drop_left]
      rfl
  | _ => rfl

theorem cutTurn_wire {command : Command} (wellFormed : command.WellFormed) (rest : Bytes) :
    cutTurn (command.wire ++ rest) =
      { turn := .returned (some command), rejection := none, rest } := by
  have clean : ∀ byte ∈ command.wireLine, space ≤ byte :=
    mem_intercalate (wireTokens_words wellFormed)
  have found := memchr_line clean (command.wirePayload ++ rest)
  have whole : command.wire ++ rest =
      (command.wireLine ++ ascii "\r\n") ++ (command.wirePayload ++ rest) := by
    simp [Command.wire]
  have length : command.wireLine.length + 1 + 1 = (command.wireLine ++ ascii "\r\n").length := by
    rw [List.length_append]
    rfl
  rw [cutTurn, whole, found]
  simp only [length, List.take_left, List.drop_left]
  rw [stripLineEnd_line clean, cutLine_wire canonical wellFormed]

end Canonical

def Connection.readCommands : Nat → Connection →
    List (Except IoError (Option Command)) × Connection
  | 0, conn => ([], conn)
  | count + 1, conn =>
      let (result, conn) := conn.readCommand
      let (later, conn) := conn.readCommands count
      (result :: later, conn)

theorem Connection.readCommand_quiet {conn : Connection} {command : Option Command}
    (short : lineShort conn.stream) (turn : (cutTurn conn.stream).turn = .returned command) :
    ∃ count after, Waited count conn after ∧ after.stream = (cutTurn conn.stream).rest ∧
      conn.readCommand = (.ok command, after) := by
  obtain ⟨count, middle, waited, rest, step⟩ := readCommandTurn_short short
  have quiet : (cutTurn conn.stream).rejection = none := by
    by_contra rejects
    simp [cutTurn_rejects rejects] at turn
  rw [quiet, turn] at step
  refine ⟨count, middle, waited, rest, ?_⟩
  have returned : conn.readCommandTurn.1 = .returned command := by rw [step]
  rw [readCommand_returned returned, step]
  rfl

theorem Connection.readCommands_wire (canonical : CanonicalDecimals) {commands : List Command}
    (wellFormed : ∀ command ∈ commands, command.WellFormed)
    (fits : ∀ command ∈ commands, command.wireLine.length + 2 ≤ maxLineLen)
    {conn : Connection} (input : conn.stream = commands.flatMap Command.wire) :
    ∃ count after, Waited count conn after ∧
      conn.readCommands (commands.length + 1) =
        (commands.map (fun command => .ok (some command)) ++ [.ok none], after) := by
  induction commands generalizing conn with
  | nil =>
      have empty : conn.stream = [] := input
      have short : lineShort conn.stream := by
        rw [empty]
        decide
      have turn : (cutTurn conn.stream).turn = .returned none := by
        rw [empty]
        rfl
      obtain ⟨count, after, waited, _, read⟩ := readCommand_quiet short turn
      exact ⟨count, after, waited, by simp [readCommands, read]⟩
  | cons command more ih =>
      rw [List.flatMap_cons] at input
      have first := wellFormed command (by simp)
      have cut := cutTurn_wire canonical first (more.flatMap Command.wire)
      have short : lineShort conn.stream := by
        rw [input]
        exact lineShort_wire first (fits command (by simp)) _
      have turn : (cutTurn conn.stream).turn = .returned (some command) := by rw [input, cut]
      obtain ⟨count, middle, waited, rest, read⟩ := readCommand_quiet short turn
      rw [input, cut] at rest
      obtain ⟨later, after, remaining, result⟩ := ih
        (fun other member => wellFormed other (by simp [member]))
        (fun other member => fits other (by simp [member])) rest
      refine ⟨count + later, after, waited.trans remaining, ?_⟩
      rw [List.length_cons, readCommands, read]
      simp only [result, List.map_cons, List.cons_append]

/-- Decoding undoes encoding for a whole connection. -/
theorem readCommands_roundTrip (canonical : CanonicalDecimals) (commands : List Command)
    (wellFormed : ∀ command ∈ commands, command.WellFormed)
    (fits : ∀ command ∈ commands, command.wireLine.length + 2 ≤ maxLineLen)
    (socket : Socket) (input : socket.stream = commands.flatMap Command.wire)
    (overflow : Overflow) :
    ((Connection.new socket overflow).readCommands (commands.length + 1)).1 =
        commands.map (fun command => .ok (some command)) ++ [.ok none] ∧
      responses ((Connection.new socket overflow).readCommands
        (commands.length + 1)).2.history = [] ∧
      ((Connection.new socket overflow).readCommands
        (commands.length + 1)).2.writer.sent = [] := by
  have whole : (Connection.new socket overflow).stream = commands.flatMap Command.wire := input
  obtain ⟨count, after, waited, result⟩ :=
    Connection.readCommands_wire canonical wellFormed fits whole
  rw [result]
  refine ⟨rfl, ?_, ?_⟩
  · rw [waited.history, responses_append, responses_awaited]
    rfl
  · rw [waited.sent]
    rfl

end Numbers

/-- Positional words that look like keywords, a payload that looks like a command, and reads that
end inside a line end and inside a word. -/
def trickyCommands : List Command :=
  [.store .cas {
      key := ascii "noreply"
      flags := 4294967295
      exptime := -1
      data := ascii "get a\r\n"
      noreply := true
      cas := some 18446744073709551615 },
    .flushAll none true,
    .getAndTouch [ascii "a", ascii "b"] 60 true]

def trickySocket : Socket :=
  ⟨[ascii "cas noreply 4294967295 -1 7 18446744073709551615 noreply\r",
    ascii "\nget a\r\n\r\nflush_all nore", ascii "ply\r\ngats 60 a b\r\n"], by decide⟩

theorem trickyCommands_wellFormed : ∀ command ∈ trickyCommands, command.WellFormed := by
  intro command member
  simp only [trickyCommands, List.mem_cons, List.not_mem_nil, or_false] at member
  rcases member with same | same | same
  · rw [same]
    exact ⟨by decide, by decide, by decide⟩
  · rw [same]
    trivial
  · rw [same]
    refine ⟨by decide, ?_⟩
    rw [List.forall_mem_cons, List.forall_mem_singleton]
    exact ⟨by decide, by decide⟩

theorem readCommands_tricky :
    ((Connection.new trickySocket .tokio).readCommands 4).1 =
        trickyCommands.map (fun command => .ok (some command)) ++ [.ok none] ∧
      responses ((Connection.new trickySocket .tokio).readCommands 4).2.history = [] ∧
      ((Connection.new trickySocket .tokio).readCommands 4).2.writer.sent = [] :=
  readCommands_roundTrip canonicalDecimals trickyCommands trickyCommands_wellFormed (by decide)
    trickySocket (by decide) .tokio

end Ousagi
