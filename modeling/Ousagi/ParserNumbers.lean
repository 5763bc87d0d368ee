import Mathlib.Data.List.Forall2
import Ousagi.AtoiCore
import Ousagi.ParserLanguage

/-!
The numeric arguments of the command lines: the tokens that stand in a numeric
position, the numbers of the header, and when the former denote the latter.
-/

namespace Ousagi

open Library

inductive NumericType
  | u32
  | u64
  | i64
  deriving DecidableEq, Repr

def NumericType.Fits : NumericType → Int → Prop
  | .u32, number => 0 ≤ number ∧ number < 2 ^ 32
  | .u64, number => 0 ≤ number ∧ number < 2 ^ 64
  | .i64, number => -2 ^ 63 ≤ number ∧ number < 2 ^ 63

structure NumericField where
  type : NumericType
  token : Bytes
  deriving DecidableEq, Repr

namespace NumericField

def Denotes (field : NumericField) (number : Int) : Prop :=
  Numeral field.token number ∧ field.type.Fits number

def signOnly (field : NumericField) : Bool := field.token = [43] || field.token = [45]

structure Reads (field : NumericField) (number : Int) : Prop where
  whole : (readSigned field.token).2 = field.token.length
  value : number = (readSigned field.token).1
  fits : field.type.Fits number

theorem Reads.denotes {field : NumericField} {number : Int} (reads : field.Reads number)
    (some : field.token ≠ []) (digits : field.signOnly = false) : field.Denotes number := by
  simp only [signOnly, Bool.or_eq_false_iff, decide_eq_false_iff_not] at digits
  rw [reads.value]
  exact ⟨readSigned_whole reads.whole some digits, reads.value ▸ reads.fits⟩

theorem Denotes.digits {field : NumericField} {number : Int} (denotes : field.Denotes number) :
    field.signOnly = false := by
  obtain ⟨_, plus, minus⟩ := numeral_more denotes.1
  simp [signOnly, plus, minus]

end NumericField

/-- The types of the numbers of a line, and the places of their tokens. -/
def numericPositions : List Bytes → List (NumericType × Nat)
  | [] => []
  | verb :: arguments =>
      if verb = ascii "gat" ∨ verb = ascii "gats" then [(.i64, 0)]
      else if ∃ op ∈ [StoreOp.set, .add, .replace, .append, .prepend], verb = storeVerb op then
        [(.u32, 1), (.i64, 2), (.u64, 3)]
      else if verb = ascii "cas" then [(.u32, 1), (.i64, 2), (.u64, 3), (.u64, 4)]
      else if verb = ascii "incr" ∨ verb = ascii "decr" then [(.u64, 1)]
      else if verb = ascii "touch" then [(.i64, 1)]
      -- The word `noreply` may stand in the place of the delay.
      else if verb = ascii "flush_all" ∧ arguments.head? ≠ some (ascii "noreply") then [(.u32, 0)]
      else if verb = ascii "verbosity" then [(.u32, 0)]
      else []

def numericFields (list : List Bytes) : List NumericField :=
  (numericPositions list).filterMap fun (type, place) =>
    list.tail[place]?.map fun token => { type, token }

def CommandHeader.numbers : CommandHeader → List Int
  | .immediate (.getAndTouch _ exptime _) => [exptime.toInt]
  | .immediate (.arithmetic _ _ delta _) => [delta.toNat]
  | .immediate (.touch _ exptime _) => [exptime.toInt]
  | .immediate (.flushAll delay _) => delay.toList.map fun delay => (delay.toNat : Int)
  | .immediate (.verbosity level _) => [level.toNat]
  | .store pending =>
      [(pending.flags.toNat : Int), pending.exptime.toInt, pending.len.toNat] ++
        pending.cas.toList.map fun cas => (cas.toNat : Int)
  | _ => []

theorem forall₂_left {α β : Type} {related : α → β → Prop} {lefts : List α} {rights : List β}
    (all : List.Forall₂ related lefts rights) : ∀ left ∈ lefts, ∃ right, related left right := by
  intro left member
  induction all with
  | nil => cases member
  | cons one _ ih =>
      rcases List.mem_cons.mp member with rfl | later
      · exact ⟨_, one⟩
      · exact ih later

theorem numericField_token {line : Bytes} {field : NumericField}
    (member : field ∈ numericFields (tokens line)) : field.token ≠ [] := by
  obtain ⟨⟨type, place⟩, _, found⟩ := List.mem_filterMap.mp member
  obtain ⟨token, there, rfl⟩ := Option.map_eq_some_iff.mp found
  have inside : token ∈ tokens line := List.mem_of_mem_tail (List.mem_of_getElem? there)
  have kept := List.mem_filter.mp inside
  exact of_decide_eq_true kept.2

section Numbers

theorem parseField_reads {α : Type} [FromRadix10SignedChecked α] {number : α → Int}
    {type : NumericType} (reader : SignedReader α number) (fits : ∀ value, type.Fits (number value))
    {token : Bytes} {value : α} (parsed : parseField α token = some value) :
    NumericField.Reads ⟨type, token⟩ (number value) := by
  simp only [parseField] at parsed
  split at parsed
  · rename_i whole
    exact ⟨(reader.used token).symm.trans whole, (reader.value token value).mp parsed, fits value⟩
  · cases parsed

theorem fits_uint32 (value : UInt32) : NumericType.u32.Fits value.toNat := by
  have bound := value.toNat_lt
  exact ⟨by omega, by omega⟩

theorem fits_uint64 (value : UInt64) : NumericType.u64.Fits value.toNat := by
  have bound := value.toNat_lt
  exact ⟨by omega, by omega⟩

theorem fits_int64 (value : Int64) : NumericType.i64.Fits value.toInt :=
  ⟨value.le_toInt, value.toInt_lt⟩

variable [FromRadix10SignedChecked UInt32] [FromRadix10SignedChecked UInt64]
  [FromRadix10SignedChecked Int64]

theorem Derives.reads (signed : SignedDecimals) {list : List Bytes} {header : CommandHeader}
    (derivation : Derives list header) :
    List.Forall₂ NumericField.Reads (numericFields list) header.numbers := by
  have u32 := @parseField_reads _ _ _ _ signed.uint32 fits_uint32
  have u64 := @parseField_reads _ _ _ _ signed.uint64 fits_uint64
  have i64 := @parseField_reads _ _ _ _ signed.int64 fits_int64
  cases derivation with
  | get | gets | delete | version | stats | quit => exact .nil
  | gat timed | gats timed => exact .cons (i64 timed) .nil
  | @store op key flagsToken time lenToken flags exptime len noreply ordinary valid flagged timed
      sized small =>
      cases op with
      | cas => exact absurd rfl ordinary
      | _ => exact .cons (u32 flagged) (.cons (i64 timed) (.cons (u64 sized) .nil))
  | cas noreply valid flagged timed sized small token =>
      exact .cons (u32 flagged) (.cons (i64 timed) (.cons (u64 sized) (.cons (u64 token) .nil)))
  | incr noreply valid amount | decr noreply valid amount => exact .cons (u64 amount) .nil
  | touch noreply valid timed => exact .cons (i64 timed) .nil
  | flushAll noreply => cases noreply <;> exact .nil
  | @flushAllDelayed delayToken delay noreply word seconds =>
      have delayed : numericPositions (ascii "flush_all" :: delayToken :: noreplySuffix noreply) =
          [(.u32, 0)] := by
        rw [numericPositions]
        iterate 5 rw [if_neg (by decide)]
        rw [if_pos ⟨rfl, by simpa using word⟩]
      rw [numericFields, delayed]
      exact .cons (u32 seconds) .nil
  | verbosity noreply read => exact .cons (u32 read) .nil

/-- The numbers of an accepted line are those that its tokens denote, exactly if no token in a
numeric position is a sign alone; and any other token there that is no number of the type makes
the line be refused. -/
theorem parseCommandLine_numbers (signed : SignedDecimals) (line : Bytes) :
    (∀ header, parseCommandLine line = .ok header →
      (List.Forall₂ NumericField.Denotes (numericFields (tokens line)) header.numbers ↔
        ∀ field ∈ numericFields (tokens line), field.signOnly = false)) ∧
      ((∃ field ∈ numericFields (tokens line), field.signOnly = false ∧
          ¬∃ number, field.Denotes number) →
        ∃ error, parseCommandLine line = .error error) := by
  have reads : ∀ header, parseCommandLine line = .ok header →
      List.Forall₂ NumericField.Reads (numericFields (tokens line)) header.numbers :=
    fun header accepted => (((parseCommandLine_derives line).1 header).mp accepted).reads signed
  constructor
  · intro header accepted
    constructor
    · intro denotes field member
      obtain ⟨number, denoted⟩ := forall₂_left denotes field member
      exact denoted.digits
    · intro digits
      have clean := (List.forall₂_and_left _ _).mpr ⟨digits, reads header accepted⟩
      have named := (List.forall₂_and_left _ _).mpr ⟨fun _ => numericField_token, clean⟩
      exact named.imp fun field number ⟨nonempty, digits, read⟩ => read.denotes nonempty digits
  · rintro ⟨field, member, digits, denotes⟩
    cases result : parseCommandLine line with
    | error error => exact ⟨error, rfl⟩
    | ok header =>
        obtain ⟨number, read⟩ := forall₂_left (reads header result) field member
        exact absurd ⟨number, read.denotes (numericField_token member) digits⟩ denotes

end Numbers

theorem signed_numbers :
    List.Forall₂ NumericField.Denotes
      (numericFields (tokens (ascii "cas k +7 -1 0005 18446744073709551615 noreply")))
      [7, -1, 5, 18446744073709551615] :=
  ((parseCommandLine_numbers signedDecimals _).1
    (.store { op := .cas, key := ascii "k", flags := 7, exptime := -1, len := 5
              cas := some 18446744073709551615, noreply := true }) (by rfl)).mpr (by decide)

/-- A sign alone is taken for the number 0. -/
theorem signOnly_accepted :
    parseCommandLine (ascii "incr k +") =
        .ok (.immediate (.arithmetic .incr (ascii "k") 0 false)) ∧
      numericFields (tokens (ascii "incr k +")) = [⟨.u64, ascii "+"⟩] ∧
      ¬∃ number, Numeral (ascii "+") number := by
  refine ⟨by rfl, by decide, ?_⟩
  rintro ⟨number, numeral⟩
  exact (numeral_more numeral).2.1 rfl

end Ousagi
