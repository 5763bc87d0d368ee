import Ousagi.ConnectionChecks
import Ousagi.RequestWire
import Ousagi.Library.PrefixCode

/-!
Responses on the wire: a pipelined stream of responses determines the responses,
whatever bytes the values hold.
-/

namespace Ousagi

open Library

theorem asBytes_injective {first second : String} (same : asBytes first = asBytes second) :
    first = second := by
  have arrays : first.toUTF8.data = second.toUTF8.data := Array.toList_inj.mp same
  have bytes : first.toUTF8 = second.toUTF8 := ByteArray.ext arrays
  exact String.toByteArray_inj.mp bytes

@[simp] theorem ascii_space : ascii " " = [space] := by decide

@[simp] theorem ascii_crlf : ascii "\r\n" = [cr, lf] := by decide

structure CleanText (text : String) : Prop where
  cr : cr ∉ asBytes text
  lf : lf ∉ asBytes text

/-- The responses that the server can write: valid keys, and texts that stay on their line. -/
def Response.WellFormed : Response → Prop
  | .values list => ∀ value ∈ list, ValidKey value.1
  | .version text => CleanText text
  | .clientError text => CleanText text
  | .serverError text => CleanText text
  | .stats entries => entries ≠ [] ∧ ∀ entry ∈ entries,
      (CleanText entry.1 ∧ space ∉ asBytes entry.1) ∧
        (CleanText entry.2 ∧ space ∉ asBytes entry.2)
  | _ => True

def encodeCas (cas : Option UInt64) : Bytes :=
  match cas with
  | some token => ascii " " ++ decimal token.toNat
  | none => []

def encodeValue (value : Bytes × UInt32 × Bytes × Option UInt64) : Bytes :=
  ascii "VALUE " ++ value.1 ++ ascii " " ++ decimal value.2.1.toNat ++ ascii " " ++
    decimal value.2.2.1.length ++ encodeCas value.2.2.2 ++ ascii "\r\n" ++ value.2.2.1 ++
    ascii "\r\n"

def encodeStat (entry : String × String) : Bytes :=
  ascii "STAT " ++ asBytes entry.1 ++ ascii " " ++ asBytes entry.2 ++ ascii "\r\n"

theorem encodeResponse_values (values : List (Bytes × UInt32 × Bytes × Option UInt64)) :
    encodeResponse (.values values) = values.flatMap encodeValue ++ ascii "END\r\n" := by
  simp only [encodeResponse, responseWrites, List.flatten_append, List.flatten_singleton]
  congr 1
  induction values with
  | nil => rfl
  | cons value more ih =>
      obtain ⟨key, flags, data, cas⟩ := value
      rw [List.flatMap_cons, List.flatten_append, ih, List.flatMap_cons]
      cases cas <;> simp only [encodeValue, encodeCas, List.flatten_cons, List.flatten_nil,
        List.append_assoc, List.append_nil]

theorem encodeResponse_stats (entries : List (String × String)) :
    encodeResponse (.stats entries) = entries.flatMap encodeStat ++ ascii "END\r\n" := by
  simp only [encodeResponse, responseWrites, List.flatten_append, List.flatten_singleton]
  congr 1
  induction entries with
  | nil => rfl
  | cons entry more ih =>
      rw [List.flatMap_cons, List.flatten_append, ih, List.flatMap_cons]
      simp only [encodeStat, List.flatten_cons, List.flatten_nil, List.append_assoc,
        List.append_nil]

theorem cut_decimal {first second : Nat} {left right : UInt8} {rest other : Bytes}
    (leftMark : left = space ∨ left = cr) (rightMark : right = space ∨ right = cr)
    (same : decimal first ++ left :: rest = decimal second ++ right :: other) :
    first = second ∧ left = right ∧ rest = other := by
  have clean : ∀ value : Nat, ∀ byte ∈ decimal value, ¬(byte = space ∨ byte = cr) := by
    rintro value byte member (blank | blank)
    · exact not_mem_decimal (by decide) (blank ▸ member)
    · exact not_mem_decimal (by decide) (blank ▸ member)
  obtain ⟨words, marks, rests⟩ := cut_at_mark (fun byte => byte = space ∨ byte = cr)
    (clean first) (clean second) leftMark rightMark same
  exact ⟨decimal_injective words, marks, rests⟩

theorem cut_cas {first second : Option UInt64} {rest other : Bytes}
    (same : encodeCas first ++ cr :: rest = encodeCas second ++ cr :: other) :
    first = second ∧ rest = other := by
  cases first with
  | none =>
      cases second with
      | none => simpa [encodeCas] using same
      | some token => simp +decide [encodeCas] at same
  | some token =>
      cases second with
      | none => simp +decide [encodeCas] at same
      | some other =>
          simp only [encodeCas, ascii_space, List.cons_append, List.nil_append,
            List.cons.injEq, true_and] at same
          obtain ⟨values, _, rests⟩ := cut_decimal (Or.inr rfl) (Or.inr rfl) same
          exact ⟨by rw [UInt64.toNat_inj.mp values], rests⟩

theorem encodeCas_mark (cas : Option UInt64) (rest : Bytes) :
    ∃ mark tail, encodeCas cas ++ cr :: rest = mark :: tail ∧ (mark = space ∨ mark = cr) := by
  cases cas with
  | none => exact ⟨cr, rest, rfl, Or.inr rfl⟩
  | some token => exact ⟨space, decimal token.toNat ++ cr :: rest, by simp [encodeCas], Or.inl rfl⟩

theorem ValidKey.no_space {key : Bytes} (valid : ValidKey key) : ∀ byte ∈ key, ¬byte = space := by
  intro byte member same
  have above := (valid.clean byte member).1
  rw [same] at above
  exact absurd above (by decide)

/-- The length field tells where the data of a value ends. -/
theorem prefixCode_value : PrefixCode
    (fun value : Bytes × UInt32 × Bytes × Option UInt64 => ValidKey value.1) encodeValue := by
  rintro ⟨key, flags, data, cas⟩ ⟨otherKey, otherFlags, otherData, otherCas⟩ valid otherValid
    rest other same
  simp only [encodeValue, List.append_assoc, ascii_space, ascii_crlf, List.cons_append,
    List.nil_append] at same
  obtain ⟨keys, _, same⟩ := cut_at_mark (· = space) valid.no_space otherValid.no_space rfl rfl
    (List.append_cancel_left same)
  obtain ⟨numbers, _, same⟩ := cut_decimal (Or.inl rfl) (Or.inl rfl) same
  obtain ⟨mark, tail, first, marked⟩ := encodeCas_mark cas (lf :: (data ++ cr :: lf :: rest))
  obtain ⟨otherMark, otherTail, second, otherMarked⟩ :=
    encodeCas_mark otherCas (lf :: (otherData ++ cr :: lf :: other))
  rw [first, second] at same
  obtain ⟨lengths, marks, tails⟩ := cut_decimal marked otherMarked same
  rw [marks, tails, ← second] at first
  obtain ⟨tokens, same⟩ := cut_cas first
  simp only [List.cons.injEq, true_and] at same
  obtain ⟨payloads, same⟩ := List.append_inj same lengths
  simp only [List.cons.injEq, true_and] at same
  exact ⟨Prod.ext keys (Prod.ext (UInt32.toNat_inj.mp numbers) (Prod.ext payloads tokens)), same⟩

theorem prefixCode_stat : PrefixCode
    (fun entry : String × String => (CleanText entry.1 ∧ space ∉ asBytes entry.1) ∧
      (CleanText entry.2 ∧ space ∉ asBytes entry.2)) encodeStat := by
  rintro ⟨name, value⟩ ⟨otherName, otherValue⟩ ⟨⟨_, blank⟩, ⟨clean, _⟩⟩
    ⟨⟨_, otherBlank⟩, ⟨otherClean, _⟩⟩ rest other same
  simp only [encodeStat, List.append_assoc, ascii_space, ascii_crlf, List.cons_append,
    List.nil_append] at same
  obtain ⟨names, _, same⟩ := cut_at_mark (· = space)
    (fun byte member same => blank (same ▸ member))
    (fun byte member same => otherBlank (same ▸ member)) rfl rfl (List.append_cancel_left same)
  obtain ⟨values, _, same⟩ := cut_at_mark (· = cr)
    (fun byte member same => clean.cr (same ▸ member))
    (fun byte member same => otherClean.cr (same ▸ member)) rfl rfl same
  simp only [List.cons.injEq, true_and] at same
  exact ⟨Prod.ext (asBytes_injective names) (asBytes_injective values), same⟩

theorem cut_text {word : Bytes} {first second : String} (clean : CleanText first)
    (otherClean : CleanText second) {rest other : Bytes}
    (same : word ++ (asBytes first ++ (ascii "\r\n" ++ rest)) =
      word ++ (asBytes second ++ (ascii "\r\n" ++ other))) : first = second ∧ rest = other := by
  simp only [ascii_crlf, List.cons_append, List.nil_append] at same
  obtain ⟨texts, _, same⟩ := cut_at_mark (· = cr)
    (fun byte member same => clean.cr (same ▸ member))
    (fun byte member same => otherClean.cr (same ▸ member)) rfl rfl (List.append_cancel_left same)
  simp only [List.cons.injEq, true_and] at same
  exact ⟨asBytes_injective texts, same⟩

def Response.word : Response → Bytes
  | .stored => ascii "STORED"
  | .notStored => ascii "NOT_STORED"
  | .deleted => ascii "DELETED"
  | .notFound => ascii "NOT_FOUND"
  | .exists => ascii "EXISTS"
  | .touched => ascii "TOUCHED"
  | .values [] => ascii "END"
  | .values (_ :: _) => ascii "VALUE"
  | .number value => decimal value.toNat
  | .ok => ascii "OK"
  | .version _ => ascii "VERSION"
  | .error => ascii "ERROR"
  | .clientError _ => ascii "CLIENT_ERROR"
  | .serverError _ => ascii "SERVER_ERROR"
  | .stats _ => ascii "STAT"

def responseWords : List (Bytes × Nat) :=
  [(ascii "STORED", 0), (ascii "NOT_STORED", 1), (ascii "DELETED", 2), (ascii "NOT_FOUND", 3),
    (ascii "EXISTS", 4), (ascii "TOUCHED", 5), (ascii "END", 6), (ascii "VALUE", 6),
    (ascii "OK", 8), (ascii "VERSION", 9), (ascii "ERROR", 10), (ascii "CLIENT_ERROR", 11),
    (ascii "SERVER_ERROR", 12), (ascii "STAT", 13)]

def wordKind (word : Bytes) : Nat := (responseWords.lookup word).getD 7

theorem decimal_kind (value : Nat) : wordKind (decimal value) = 7 := by
  have missing : responseWords.lookup (decimal value) = none := by
    rw [List.lookup_eq_none_iff]
    intro entry member
    have letter : ∀ entry ∈ responseWords, ∃ byte ∈ entry.1, isDigit byte = false := by decide
    obtain ⟨byte, inside, other⟩ := letter entry member
    rw [bne_iff_ne]
    intro same
    exact not_mem_decimal other (same ▸ inside)
  rw [wordKind, missing]
  rfl

theorem word_kind (response : Response) : wordKind response.word = response.ctorIdx := by
  cases response with
  | number value => exact decimal_kind value.toNat
  | values list => cases list <;> rfl
  | _ => rfl

theorem word_clean (response : Response) :
    ∀ byte ∈ response.word, ¬(byte = space ∨ byte = cr) := by
  cases response with
  | number value =>
      rintro byte member (blank | blank)
      · exact not_mem_decimal (by decide) (blank ▸ member)
      · exact not_mem_decimal (by decide) (blank ▸ member)
  | values list => cases list <;> simp only [Response.word] <;> decide +kernel
  | _ => simp only [Response.word]; decide +kernel

theorem encodeResponse_word {response : Response} (wellFormed : response.WellFormed) :
    ∃ mark tail, encodeResponse response = response.word ++ mark :: tail ∧
      (mark = space ∨ mark = cr) := by
  cases response with
  | values list =>
      rw [encodeResponse_values]
      cases list with
      | nil => exact ⟨cr, [lf], rfl, Or.inr rfl⟩
      | cons value more => exact ⟨space, _, rfl, Or.inl rfl⟩
  | stats entries =>
      rw [encodeResponse_stats]
      cases entries with
      | nil => exact absurd rfl wellFormed.1
      | cons entry more => exact ⟨space, _, rfl, Or.inl rfl⟩
  | number value =>
      exact ⟨cr, [lf], by simp [encodeResponse, responseWrites, Response.word], Or.inr rfl⟩
  | version text => exact ⟨space, _, rfl, Or.inl rfl⟩
  | clientError text => exact ⟨space, _, rfl, Or.inl rfl⟩
  | serverError text => exact ⟨space, _, rfl, Or.inl rfl⟩
  | _ => exact ⟨cr, [lf], rfl, Or.inr rfl⟩

theorem same_kind {first second : Response} (wellFormed : first.WellFormed)
    (otherWellFormed : second.WellFormed) {rest other : Bytes}
    (same : encodeResponse first ++ rest = encodeResponse second ++ other) :
    first.ctorIdx = second.ctorIdx := by
  obtain ⟨mark, tail, encoded, marked⟩ := encodeResponse_word wellFormed
  obtain ⟨otherMark, otherTail, otherEncoded, otherMarked⟩ := encodeResponse_word otherWellFormed
  rw [encoded, otherEncoded, List.append_assoc, List.append_assoc, List.cons_append,
    List.cons_append] at same
  obtain ⟨words, _, _⟩ := cut_at_mark (fun byte => byte = space ∨ byte = cr) (word_clean first)
    (word_clean second) marked otherMarked same
  rw [← word_kind, words, word_kind]

theorem value_apart {value : Bytes × UInt32 × Bytes × Option UInt64} {rest other : Bytes} :
    encodeValue value ++ rest ≠ ascii "END\r\n" ++ other := by
  simp only [encodeValue, List.append_assoc]
  intro same
  exact absurd (List.cons.inj same).1 (by decide)

theorem stat_apart {entry : String × String} {rest other : Bytes} :
    encodeStat entry ++ rest ≠ ascii "END\r\n" ++ other := by
  simp only [encodeStat, List.append_assoc]
  intro same
  exact absurd (List.cons.inj same).1 (by decide)

theorem prefixCode_response : PrefixCode Response.WellFormed encodeResponse := by
  intro first second wellFormed otherWellFormed rest other same
  have kinds := same_kind wellFormed otherWellFormed same
  cases first with
  | values list =>
      cases second with
      | values otherList =>
          rw [encodeResponse_values, encodeResponse_values] at same
          obtain ⟨lists, rests⟩ := prefixCode_value.closed (fun _ => value_apart) wellFormed
            otherWellFormed same
          exact ⟨by rw [lists], rests⟩
      | _ => simp [Response.ctorIdx] at kinds
  | stats entries =>
      cases second with
      | stats otherEntries =>
          rw [encodeResponse_stats, encodeResponse_stats] at same
          obtain ⟨lists, rests⟩ := prefixCode_stat.closed (fun _ => stat_apart) wellFormed.2
            otherWellFormed.2 same
          exact ⟨by rw [lists], rests⟩
      | _ => simp [Response.ctorIdx] at kinds
  | number value =>
      cases second with
      | number otherValue =>
          simp only [encodeResponse, responseWrites, List.flatten_cons, List.flatten_nil,
            List.append_nil, List.append_assoc, ascii_crlf, List.cons_append,
            List.nil_append] at same
          obtain ⟨values, _, rests⟩ := cut_decimal (Or.inr rfl) (Or.inr rfl) same
          simp only [List.cons.injEq, true_and] at rests
          exact ⟨by rw [UInt64.toNat_inj.mp values], rests⟩
      | _ => simp [Response.ctorIdx] at kinds
  | version text =>
      cases second with
      | version otherText =>
          simp only [encodeResponse, responseWrites, List.flatten_cons, List.flatten_nil,
            List.append_nil, List.append_assoc] at same
          obtain ⟨texts, rests⟩ := cut_text wellFormed otherWellFormed same
          exact ⟨by rw [texts], rests⟩
      | _ => simp [Response.ctorIdx] at kinds
  | clientError text =>
      cases second with
      | clientError otherText =>
          simp only [encodeResponse, responseWrites, List.flatten_cons, List.flatten_nil,
            List.append_nil, List.append_assoc] at same
          obtain ⟨texts, rests⟩ := cut_text wellFormed otherWellFormed same
          exact ⟨by rw [texts], rests⟩
      | _ => simp [Response.ctorIdx] at kinds
  | serverError text =>
      cases second with
      | serverError otherText =>
          simp only [encodeResponse, responseWrites, List.flatten_cons, List.flatten_nil,
            List.append_nil, List.append_assoc] at same
          obtain ⟨texts, rests⟩ := cut_text wellFormed otherWellFormed same
          exact ⟨by rw [texts], rests⟩
      | _ => simp [Response.ctorIdx] at kinds
  | _ =>
      cases second <;> simp [Response.ctorIdx] at kinds
      exact ⟨rfl, List.append_cancel_left same⟩

theorem encodeResponse_nonempty {response : Response} (wellFormed : response.WellFormed) :
    encodeResponse response ≠ [] := by
  obtain ⟨mark, tail, encoded, _⟩ := encodeResponse_word wellFormed
  rw [encoded]
  simp

/-- What `write_response` emits for a list of responses determines the list. -/
theorem responses_decodable {first second : List Response}
    (wellFormed : ∀ response ∈ first, response.WellFormed)
    (otherWellFormed : ∀ response ∈ second, response.WellFormed)
    (same : first.flatMap encodeResponse = second.flatMap encodeResponse) : first = second :=
  prefixCode_response.flatMap_injective encodeResponse_nonempty wellFormed otherWellFormed same

def deceptiveResponses : List Response :=
  [.values [(ascii "k", 7, ascii "END\r\nSTORED\r\n", some 18446744073709551615)],
    .stats [("curr_items", "1")],
    .clientError "bad data chunk"]

theorem deceptiveResponses_decodable :
    deceptiveResponses =
      [.values [(ascii "k", 7, ascii "END\r\nSTORED\r\n", some 18446744073709551615)],
        .stats [("curr_items", "1")], .clientError "bad data chunk"] := by
  have wellFormed : ∀ response ∈ deceptiveResponses, response.WellFormed := by
    simp only [deceptiveResponses, List.forall_mem_cons]
    refine ⟨?_, ?_, ⟨by decide +kernel, by decide +kernel⟩, by simp⟩
    · intro value member
      rw [List.mem_singleton.mp member]
      decide
    · refine ⟨by simp, ?_⟩
      intro entry member
      rw [List.mem_singleton.mp member]
      exact ⟨⟨⟨by decide +kernel, by decide +kernel⟩, by decide +kernel⟩,
        ⟨⟨by decide +kernel, by decide +kernel⟩, by decide +kernel⟩⟩
  exact responses_decodable wellFormed wellFormed rfl

end Ousagi
