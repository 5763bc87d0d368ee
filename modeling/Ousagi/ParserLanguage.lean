import Ousagi.RequestWire

/-!
The grammar of the command lines, over the tokens of a line, and the agreement of
the parser with it: what is accepted, what it denotes, and which refused lines
come with a count of bytes to discard.
-/

namespace Ousagi

open Library

section Accepted

variable {α β ε : Type}

theorem bind_ok {value : Except ε α} {next : α → Except ε β} {result : β} :
    value >>= next = .ok result ↔ ∃ found, value = .ok found ∧ next found = .ok result := by
  cases value with
  | error error => simp [bind, Except.bind]
  | ok found => simp [bind, Except.bind]

theorem ite_ok {condition : Prop} [Decidable condition] {first second : Except ε α} {result : α} :
    (if condition then first else second) = .ok result ↔
      condition ∧ first = .ok result ∨ ¬condition ∧ second = .ok result := by
  by_cases holds : condition <;> simp [holds]

theorem okOr_ok {value : Option α} {error : ε} {found : α} :
    okOr value error = .ok found ↔ value = some found := by
  cases value <;> simp [okOr]

theorem validateKey_iff {key : Bytes} : validateKey key = some () ↔ ValidKey key := by
  refine ⟨?_, validateKey_valid⟩
  intro accepted
  simp only [validateKey] at accepted
  split at accepted
  · cases accepted
  · rename_i sized
    split at accepted
    · cases accepted
    · rename_i clean
      simp only [Bool.or_eq_true, decide_eq_true_eq, not_or, List.isEmpty_iff] at sized
      refine ⟨List.length_pos_iff.mpr sized.1, Nat.not_lt.mp sized.2, ?_⟩
      intro byte member
      have outside := List.any_eq_false.mp (Bool.not_eq_true _ ▸ clean) byte member
      simp only [Bool.or_eq_true, decide_eq_true_eq, not_or] at outside
      exact ⟨UInt8.not_le.mp outside.1, outside.2⟩

theorem keyToken_ok {key found : Bytes} :
    keyToken key = .ok found ↔ ValidKey key ∧ found = key := by
  rw [keyToken, okOr_ok, ← validateKey_iff]
  cases validateKey key <;> simp [eq_comm]

theorem keyTokens_ok {list keys : List Bytes} :
    keyTokens list = .ok keys ↔ (∀ key ∈ list, ValidKey key) ∧ keys = list := by
  induction list generalizing keys with
  | nil => simp [keyTokens, eq_comm]
  | cons key more ih =>
      simp only [keyTokens, bind_ok, keyToken_ok, ih, List.forall_mem_cons]
      constructor
      · rintro ⟨_, ⟨valid, rfl⟩, _, ⟨others, rfl⟩, result⟩
        cases result
        exact ⟨⟨valid, others⟩, rfl⟩
      · rintro ⟨⟨valid, others⟩, rfl⟩
        exact ⟨key, ⟨valid, rfl⟩, more, ⟨others, rfl⟩, rfl⟩

theorem endTokens_ok {list : List Bytes} {result : Unit} :
    endTokens list = .ok result ↔ list = [] := by
  cases list <;> simp [endTokens]

end Accepted

theorem noreplySuffix_injective {first second : Bool}
    (same : noreplySuffix first = noreplySuffix second) : first = second := by
  cases first <;> cases second <;> first | rfl | cases same

section Verbs

variable {list : List Bytes} {header : CommandHeader}

theorem getTokens_ok {withCas : Bool} :
    getTokens withCas list = .ok header ↔
      list ≠ [] ∧ (∀ key ∈ list, ValidKey key) ∧ header = .immediate (.get list withCas) := by
  by_cases empty : list = []
  · simp [getTokens, empty]
  · simp only [getTokens, if_neg empty, bind_ok, keyTokens_ok]
    constructor
    · rintro ⟨_, ⟨valid, rfl⟩, result⟩
      cases result
      exact ⟨empty, valid, rfl⟩
    · rintro ⟨_, valid, rfl⟩
      exact ⟨list, ⟨valid, rfl⟩, rfl⟩

theorem getAndTouchTokens_ok [FromRadix10SignedChecked Int64] {withCas : Bool} :
    getAndTouchTokens withCas list = .ok header ↔
      ∃ time exptime keys, list = time :: keys ∧ parseField Int64 time = some exptime ∧
        keys ≠ [] ∧ (∀ key ∈ keys, ValidKey key) ∧
        header = .immediate (.getAndTouch keys exptime withCas) := by
  cases list with
  | nil => simp [getAndTouchTokens]
  | cons time keys =>
      simp only [getAndTouchTokens, bind_ok, okOr_ok]
      constructor
      · rintro ⟨exptime, timed, result⟩
        by_cases empty : keys = []
        · rw [if_pos empty] at result
          cases result
        · rw [if_neg empty] at result
          obtain ⟨found, read, same⟩ := bind_ok.mp result
          obtain ⟨valid, rfl⟩ := keyTokens_ok.mp read
          cases same
          exact ⟨time, exptime, found, rfl, timed, empty, valid, rfl⟩
      · rintro ⟨_, exptime, _, same, timed, some, valid, rfl⟩
        cases same
        refine ⟨exptime, timed, ?_⟩
        rw [if_neg some]
        exact bind_ok.mpr ⟨keys, keyTokens_ok.mpr ⟨valid, rfl⟩, rfl⟩

theorem deleteTokens_ok :
    deleteTokens list = .ok header ↔
      ∃ key noreply, list = key :: noreplySuffix noreply ∧ ValidKey key ∧
        header = .immediate (.delete key noreply) := by
  cases list with
  | nil => simp [deleteTokens]
  | cons key more =>
      simp only [deleteTokens, bind_ok, keyToken_ok, noreplyTokens_ok]
      constructor
      · rintro ⟨key, ⟨valid, rfl⟩, noreply, rfl, result⟩
        cases result
        exact ⟨key, noreply, rfl, valid, rfl⟩
      · rintro ⟨_, noreply, same, valid, rfl⟩
        cases same
        exact ⟨key, ⟨valid, rfl⟩, noreply, rfl, rfl⟩

theorem arithmeticTokens_ok [FromRadix10SignedChecked UInt64] {op : ArithmeticOp} :
    arithmeticTokens op list = .ok header ↔
      ∃ key deltaToken delta noreply, list = key :: deltaToken :: noreplySuffix noreply ∧
        ValidKey key ∧ parseField UInt64 deltaToken = some delta ∧
        header = .immediate (.arithmetic op key delta noreply) := by
  rcases list with _ | ⟨key, _ | ⟨deltaToken, more⟩⟩
  · simp [arithmeticTokens]
  · simp [arithmeticTokens]
  · simp only [arithmeticTokens, bind_ok, keyToken_ok, okOr_ok, noreplyTokens_ok]
    constructor
    · rintro ⟨key, ⟨valid, rfl⟩, delta, amount, noreply, rfl, result⟩
      cases result
      exact ⟨key, deltaToken, delta, noreply, rfl, valid, amount, rfl⟩
    · rintro ⟨_, _, delta, noreply, same, valid, amount, rfl⟩
      cases same
      exact ⟨key, ⟨valid, rfl⟩, delta, amount, noreply, rfl, rfl⟩

theorem touchTokens_ok [FromRadix10SignedChecked Int64] :
    touchTokens list = .ok header ↔
      ∃ key time exptime noreply, list = key :: time :: noreplySuffix noreply ∧
        ValidKey key ∧ parseField Int64 time = some exptime ∧
        header = .immediate (.touch key exptime noreply) := by
  rcases list with _ | ⟨key, _ | ⟨time, more⟩⟩
  · simp [touchTokens]
  · simp [touchTokens]
  · simp only [touchTokens, bind_ok, keyToken_ok, okOr_ok, noreplyTokens_ok]
    constructor
    · rintro ⟨key, ⟨valid, rfl⟩, exptime, timed, noreply, rfl, result⟩
      cases result
      exact ⟨key, time, exptime, noreply, rfl, valid, timed, rfl⟩
    · rintro ⟨_, _, exptime, noreply, same, valid, timed, rfl⟩
      cases same
      exact ⟨key, ⟨valid, rfl⟩, exptime, timed, noreply, rfl, rfl⟩

theorem flushAllTokens_ok [FromRadix10SignedChecked UInt32] :
    flushAllTokens list = .ok header ↔
      (∃ noreply, list = noreplySuffix noreply ∧
        header = .immediate (.flushAll none noreply)) ∨
      ∃ delayToken delay noreply, list = delayToken :: noreplySuffix noreply ∧
        delayToken ≠ ascii "noreply" ∧ parseField UInt32 delayToken = some delay ∧
        header = .immediate (.flushAll (some delay) noreply) := by
  cases list with
  | nil =>
      constructor
      · intro accepted
        cases accepted
        exact Or.inl ⟨false, rfl, rfl⟩
      · rintro (⟨noreply, same, rfl⟩ | ⟨_, _, _, same, _⟩)
        · cases noreply with
          | false => rfl
          | true => cases same
        · cases same
  | cons token more =>
      by_cases word : token = ascii "noreply"
      · rw [flushAllTokens, if_pos word, bind_ok]
        constructor
        · rintro ⟨_, ended, result⟩
          cases result
          rw [endTokens_ok.mp ended, word]
          exact Or.inl ⟨true, rfl, rfl⟩
        · rintro (⟨noreply, same, rfl⟩ | ⟨_, _, _, same, other, _⟩)
          · cases noreply with
            | false => cases same
            | true =>
                rw [noreplySuffix, if_pos rfl, List.cons.injEq] at same
                exact ⟨(), endTokens_ok.mpr same.2, rfl⟩
          · rw [List.cons.injEq] at same
            exact absurd (same.1 ▸ word) other
      · rw [flushAllTokens, if_neg word, bind_ok]
        constructor
        · rintro ⟨delay, seconds, result⟩
          obtain ⟨noreply, flag, result⟩ := bind_ok.mp result
          cases result
          rw [noreplyTokens_ok.mp flag]
          exact Or.inr ⟨token, delay, noreply, rfl, word, okOr_ok.mp seconds, rfl⟩
        · rintro (⟨noreply, same, rfl⟩ | ⟨_, delay, noreply, same, _, seconds, rfl⟩)
          · cases noreply with
            | false => cases same
            | true =>
                rw [noreplySuffix, if_pos rfl, List.cons.injEq] at same
                exact absurd same.1 word
          · cases same
            exact ⟨delay, okOr_ok.mpr seconds,
              bind_ok.mpr ⟨noreply, noreplyTokens_ok.mpr rfl, rfl⟩⟩

theorem plainTokens_ok {command : Command} :
    plainTokens command list = .ok header ↔ list = [] ∧ header = .immediate command := by
  simp only [plainTokens, bind_ok, endTokens_ok]
  constructor
  · rintro ⟨_, rfl, result⟩
    cases result
    exact ⟨rfl, rfl⟩
  · rintro ⟨rfl, rfl⟩
    exact ⟨(), rfl, rfl⟩

theorem verbosityTokens_ok [FromRadix10SignedChecked UInt32] :
    verbosityTokens list = .ok header ↔
      ∃ levelToken level noreply, list = levelToken :: noreplySuffix noreply ∧
        parseField UInt32 levelToken = some level ∧
        header = .immediate (.verbosity level noreply) := by
  cases list with
  | nil => simp [verbosityTokens]
  | cons levelToken more =>
      simp only [verbosityTokens, bind_ok, okOr_ok, noreplyTokens_ok]
      constructor
      · rintro ⟨level, read, noreply, rfl, result⟩
        cases result
        exact ⟨levelToken, level, noreply, rfl, read, rfl⟩
      · rintro ⟨_, level, noreply, same, read, rfl⟩
        cases same
        exact ⟨level, read, noreply, rfl, rfl⟩

theorem StoreTail.unique [FromRadix10SignedChecked UInt64] {op : StoreOp} {more : List Bytes}
    {first second : Option UInt64} {flag other : Bool} (left : StoreTail op first flag more)
    (right : StoreTail op second other more) : first = second ∧ flag = other := by
  simp only [StoreTail] at left right
  split at left
  · rename_i isCas
    rw [if_pos isCas] at right
    obtain ⟨token, value, read, rfl, listed⟩ := left
    obtain ⟨_, _, again, rfl, same⟩ := right
    rw [listed, List.cons.injEq] at same
    rw [← same.1, read] at again
    exact ⟨again, noreplySuffix_injective same.2⟩
  · rename_i isCas
    rw [if_neg isCas] at right
    exact ⟨left.1.trans right.1.symm, noreplySuffix_injective (left.2.symm.trans right.2)⟩

end Verbs

section Refused

def KeepsPayload {α : Type} (result : Except ParseError α) : Prop :=
  ∀ error, result = .error error → error.discard = none

variable {α β : Type}

theorem keeps_ok (value : α) : KeepsPayload (.ok value : Except ParseError α) := by
  rintro error ⟨⟩

theorem keeps_new (kind : ParseErrorKind) :
    KeepsPayload (.error (.new kind) : Except ParseError α) := by
  rintro error ⟨⟩
  rfl

theorem keeps_bind {value : Except ParseError α} {next : α → Except ParseError β}
    (first : KeepsPayload value) (second : ∀ found, KeepsPayload (next found)) :
    KeepsPayload (value >>= next) := by
  cases value with
  | error error =>
      rintro other ⟨⟩
      exact first error rfl
  | ok found => exact second found

theorem keeps_ite {condition : Prop} [Decidable condition] {first second : Except ParseError α}
    (left : condition → KeepsPayload first) (right : ¬condition → KeepsPayload second) :
    KeepsPayload (if condition then first else second) := by
  by_cases holds : condition
  · rw [if_pos holds]
    exact left holds
  · rw [if_neg holds]
    exact right holds

theorem keeps_okOr (value : Option α) (kind : ParseErrorKind) :
    KeepsPayload (okOr value (.new kind)) := by
  cases value with
  | none => exact keeps_new kind
  | some found => exact keeps_ok found

theorem keeps_keyToken (key : Bytes) : KeepsPayload (keyToken key) := keeps_okOr _ _

theorem keeps_keyTokens (list : List Bytes) : KeepsPayload (keyTokens list) := by
  induction list with
  | nil => exact keeps_ok []
  | cons key more ih =>
      refine keeps_bind (keeps_keyToken key) ?_
      intro found
      exact keeps_bind ih fun keys => keeps_ok _

theorem keeps_endTokens (list : List Bytes) : KeepsPayload (endTokens list) := by
  cases list with
  | nil => exact keeps_ok ()
  | cons token more => exact keeps_new .badFormat

theorem keeps_noreplyTokens (list : List Bytes) : KeepsPayload (noreplyTokens list) := by
  cases list with
  | nil => exact keeps_ok false
  | cons token more =>
      refine keeps_ite (fun _ => ?_) fun _ => keeps_new .badFormat
      exact keeps_bind (keeps_endTokens more) fun _ => keeps_ok true

theorem keeps_getTokens (withCas : Bool) (list : List Bytes) :
    KeepsPayload (getTokens withCas list) := by
  refine keeps_ite (fun _ => keeps_new .unknown) fun _ => ?_
  exact keeps_bind (keeps_keyTokens list) fun keys => keeps_ok _

theorem keeps_getAndTouchTokens [FromRadix10SignedChecked Int64] (withCas : Bool)
    (list : List Bytes) :    KeepsPayload (getAndTouchTokens withCas list) := by
  cases list with
  | nil => exact keeps_new .unknown
  | cons time keys =>
      refine keeps_bind (keeps_okOr _ .badFormat) fun exptime => ?_
      refine keeps_ite (fun _ => keeps_new .unknown) fun _ => ?_
      exact keeps_bind (keeps_keyTokens keys) fun keys => keeps_ok _

theorem keeps_deleteTokens (list : List Bytes) : KeepsPayload (deleteTokens list) := by
  cases list with
  | nil => exact keeps_new .unknown
  | cons key more =>
      refine keeps_bind (keeps_keyToken key) fun key => ?_
      exact keeps_bind (keeps_noreplyTokens more) fun noreply => keeps_ok _

theorem keeps_arithmeticTokens [FromRadix10SignedChecked UInt64] (op : ArithmeticOp)
    (list : List Bytes) :    KeepsPayload (arithmeticTokens op list) := by
  rcases list with _ | ⟨key, _ | ⟨deltaToken, more⟩⟩
  · exact keeps_new .unknown
  · exact keeps_new .unknown
  · refine keeps_bind (keeps_keyToken key) fun key => ?_
    refine keeps_bind (keeps_okOr _ .numericDelta) fun delta => ?_
    exact keeps_bind (keeps_noreplyTokens more) fun noreply => keeps_ok _

theorem keeps_touchTokens [FromRadix10SignedChecked Int64] (list : List Bytes) :
    KeepsPayload (touchTokens list) := by
  rcases list with _ | ⟨key, _ | ⟨time, more⟩⟩
  · exact keeps_new .unknown
  · exact keeps_new .unknown
  · refine keeps_bind (keeps_keyToken key) fun key => ?_
    refine keeps_bind (keeps_okOr _ .badFormat) fun exptime => ?_
    exact keeps_bind (keeps_noreplyTokens more) fun noreply => keeps_ok _

theorem keeps_flushAllTokens [FromRadix10SignedChecked UInt32] (list : List Bytes) :
    KeepsPayload (flushAllTokens list) := by
  cases list with
  | nil => exact keeps_ok _
  | cons token more =>
      refine keeps_ite (fun _ => ?_) fun _ => ?_
      · exact keeps_bind (keeps_endTokens more) fun _ => keeps_ok _
      · refine keeps_bind (keeps_okOr _ .numericDelay) fun delay => ?_
        exact keeps_bind (keeps_noreplyTokens more) fun noreply => keeps_ok _

theorem keeps_plainTokens (command : Command) (list : List Bytes) :
    KeepsPayload (plainTokens command list) :=
  keeps_bind (keeps_endTokens list) fun _ => keeps_ok _

theorem keeps_verbosityTokens [FromRadix10SignedChecked UInt32] (list : List Bytes) :
    KeepsPayload (verbosityTokens list) := by
  cases list with
  | nil => exact keeps_new .unknown
  | cons levelToken more =>
      refine keeps_bind (keeps_okOr _ .badFormat) fun level => ?_
      exact keeps_bind (keeps_noreplyTokens more) fun noreply => keeps_ok _

end Refused

section Numbers

variable [FromRadix10SignedChecked UInt32] [FromRadix10SignedChecked UInt64]
  [FromRadix10SignedChecked Int64]

/-- The derivations of a header from the tokens of a line. -/
inductive Derives : List Bytes → CommandHeader → Prop
  | get {keys : List Bytes} (some : keys ≠ []) (valid : ∀ key ∈ keys, ValidKey key) :
      Derives (ascii "get" :: keys) (.immediate (.get keys false))
  | gets {keys : List Bytes} (some : keys ≠ []) (valid : ∀ key ∈ keys, ValidKey key) :
      Derives (ascii "gets" :: keys) (.immediate (.get keys true))
  | gat {time : Bytes} {exptime : Int64} {keys : List Bytes}
      (timed : parseField Int64 time = some exptime) (some : keys ≠ [])
      (valid : ∀ key ∈ keys, ValidKey key) :
      Derives (ascii "gat" :: time :: keys) (.immediate (.getAndTouch keys exptime false))
  | gats {time : Bytes} {exptime : Int64} {keys : List Bytes}
      (timed : parseField Int64 time = some exptime) (some : keys ≠ [])
      (valid : ∀ key ∈ keys, ValidKey key) :
      Derives (ascii "gats" :: time :: keys) (.immediate (.getAndTouch keys exptime true))
  | store {op : StoreOp} {key flagsToken time lenToken : Bytes} {flags : UInt32}
      {exptime : Int64} {len : UInt64} (noreply : Bool) (ordinary : op ≠ .cas)
      (valid : ValidKey key) (flagged : parseField UInt32 flagsToken = some flags)
      (timed : parseField Int64 time = some exptime)
      (sized : parseField UInt64 lenToken = some len) (small : len.toNat ≤ maxItemSize) :
      Derives (storeVerb op :: key :: flagsToken :: time :: lenToken :: noreplySuffix noreply)
        (.store { op, key, flags, exptime, len, cas := none, noreply })
  | cas {key flagsToken time lenToken casToken : Bytes} {flags : UInt32} {exptime : Int64}
      {len cas : UInt64} (noreply : Bool) (valid : ValidKey key)
      (flagged : parseField UInt32 flagsToken = some flags)
      (timed : parseField Int64 time = some exptime)
      (sized : parseField UInt64 lenToken = some len) (small : len.toNat ≤ maxItemSize)
      (token : parseField UInt64 casToken = some cas) :
      Derives (ascii "cas" :: key :: flagsToken :: time :: lenToken :: casToken ::
          noreplySuffix noreply)
        (.store { op := .cas, key, flags, exptime, len, cas := some cas, noreply })
  | delete {key : Bytes} (noreply : Bool) (valid : ValidKey key) :
      Derives (ascii "delete" :: key :: noreplySuffix noreply)
        (.immediate (.delete key noreply))
  | incr {key deltaToken : Bytes} {delta : UInt64} (noreply : Bool) (valid : ValidKey key)
      (amount : parseField UInt64 deltaToken = some delta) :
      Derives (ascii "incr" :: key :: deltaToken :: noreplySuffix noreply)
        (.immediate (.arithmetic .incr key delta noreply))
  | decr {key deltaToken : Bytes} {delta : UInt64} (noreply : Bool) (valid : ValidKey key)
      (amount : parseField UInt64 deltaToken = some delta) :
      Derives (ascii "decr" :: key :: deltaToken :: noreplySuffix noreply)
        (.immediate (.arithmetic .decr key delta noreply))
  | touch {key time : Bytes} {exptime : Int64} (noreply : Bool) (valid : ValidKey key)
      (timed : parseField Int64 time = some exptime) :
      Derives (ascii "touch" :: key :: time :: noreplySuffix noreply)
        (.immediate (.touch key exptime noreply))
  | flushAll (noreply : Bool) :
      Derives (ascii "flush_all" :: noreplySuffix noreply) (.immediate (.flushAll none noreply))
  | flushAllDelayed {delayToken : Bytes} {delay : UInt32} (noreply : Bool)
      -- The word `noreply` in the place of the delay is the flag.
      (word : delayToken ≠ ascii "noreply") (seconds : parseField UInt32 delayToken = some delay) :
      Derives (ascii "flush_all" :: delayToken :: noreplySuffix noreply)
        (.immediate (.flushAll (some delay) noreply))
  | version : Derives [ascii "version"] (.immediate .version)
  | verbosity {levelToken : Bytes} {level : UInt32} (noreply : Bool)
      (read : parseField UInt32 levelToken = some level) :
      Derives (ascii "verbosity" :: levelToken :: noreplySuffix noreply)
        (.immediate (.verbosity level noreply))
  | stats : Derives [ascii "stats"] (.immediate .stats)
  | quit (rest : List Bytes) : Derives (ascii "quit" :: rest) .quit

section Headers

variable {list : List Bytes} {header : CommandHeader}

theorem StoreFields.unique {op : StoreOp} {key flags time : Bytes} {more : List Bytes}
    {first second : PendingStore} (left : StoreFields op key flags time more first)
    (right : StoreFields op key flags time more second) (len : first.len = second.len) :
    first = second := by
  obtain ⟨tokens, replies⟩ := left.tail.unique right.tail
  have sameFlags := left.flags.symm.trans right.flags
  have sameTime := left.exptime.symm.trans right.exptime
  rw [Option.some.injEq] at sameFlags sameTime
  have sameOp := left.sameOp.trans right.sameOp.symm
  have sameKey := left.key.trans right.key.symm
  cases first
  cases second
  simp only at *
  subst tokens replies sameFlags sameTime sameOp sameKey len
  rfl

theorem storeTokens_ok {op : StoreOp} :
    storeTokens op list = .ok header ↔
      ∃ key flags time lenToken more pending,
        list = key :: flags :: time :: lenToken :: more ∧
        parseField UInt64 lenToken = some pending.len ∧ pending.len.toNat ≤ maxItemSize ∧
        StoreFields op key flags time more pending ∧ header = .store pending := by
  constructor
  · intro accepted
    rcases list with _ | ⟨key, _ | ⟨flags, _ | ⟨time, _ | ⟨lenToken, more⟩⟩⟩⟩
    iterate 4 cases accepted
    obtain ⟨len, sized, result⟩ := bind_ok.mp accepted
    have sized := okOr_ok.mp sized
    split at result
    · cases result
    · rename_i small
      have small := Nat.not_lt.mp small
      rcases storeTokens_cases op key flags time more sized small with
        ⟨pending, rfl, fields, same⟩ | ⟨_, same⟩
      · rw [same] at accepted
        cases accepted
        exact ⟨key, flags, time, lenToken, more, pending, rfl, sized, small, fields, rfl⟩
      · rw [same] at accepted
        cases accepted
  · rintro ⟨key, flags, time, lenToken, more, pending, rfl, sized, small, fields, rfl⟩
    rcases storeTokens_cases op key flags time more sized small with
      ⟨other, len, others, same⟩ | ⟨none, _⟩
    · rw [same, others.unique fields len]
    · exact absurd ⟨pending, fields⟩ none

theorem storeTokens_derives {op : StoreOp} (accepted : storeTokens op list = .ok header) :
    Derives (storeVerb op :: list) header := by
  obtain ⟨key, flags, time, lenToken, more, pending, rfl, sized, small, fields, rfl⟩ :=
    storeTokens_ok.mp accepted
  obtain ⟨sameOp, accepts, sameKey, flagged, timed, tail⟩ := fields
  have valid := validateKey_iff.mp accepts
  obtain ⟨_, _, flagsValue, exptime, len, cas, noreply⟩ := pending
  subst sameOp sameKey
  simp only [StoreTail] at tail
  split at tail
  · rename_i isCas
    obtain ⟨casToken, value, token, rfl, rfl⟩ := tail
    subst isCas
    exact .cas noreply valid flagged timed sized small token
  · rename_i ordinary
    obtain ⟨rfl, rfl⟩ := tail
    exact .store noreply ordinary valid flagged timed sized small

end Headers

theorem commandTokens_derives {list : List Bytes} {header : CommandHeader}
    (accepted : commandTokens list = .ok header) : Derives list header := by
  cases list with
  | nil => cases accepted
  | cons verb list =>
      rw [commandTokens] at accepted
      rcases ite_ok.mp accepted with ⟨either, found⟩ | ⟨_, accepted⟩
      · obtain ⟨some, valid, rfl⟩ := getTokens_ok.mp found
        rcases either with rfl | rfl
        · exact .get some valid
        · exact .gets some valid
      rcases ite_ok.mp accepted with ⟨either, found⟩ | ⟨_, accepted⟩
      · obtain ⟨time, exptime, keys, rfl, timed, some, valid, rfl⟩ :=
          getAndTouchTokens_ok.mp found
        rcases either with rfl | rfl
        · exact .gat timed some valid
        · exact .gats timed some valid
      rcases ite_ok.mp accepted with ⟨rfl, found⟩ | ⟨_, accepted⟩
      · exact storeTokens_derives found
      rcases ite_ok.mp accepted with ⟨rfl, found⟩ | ⟨_, accepted⟩
      · exact storeTokens_derives found
      rcases ite_ok.mp accepted with ⟨rfl, found⟩ | ⟨_, accepted⟩
      · exact storeTokens_derives found
      rcases ite_ok.mp accepted with ⟨rfl, found⟩ | ⟨_, accepted⟩
      · exact storeTokens_derives found
      rcases ite_ok.mp accepted with ⟨rfl, found⟩ | ⟨_, accepted⟩
      · exact storeTokens_derives found
      rcases ite_ok.mp accepted with ⟨rfl, found⟩ | ⟨_, accepted⟩
      · exact storeTokens_derives found
      rcases ite_ok.mp accepted with ⟨rfl, found⟩ | ⟨_, accepted⟩
      · obtain ⟨key, noreply, rfl, valid, rfl⟩ := deleteTokens_ok.mp found
        exact .delete noreply valid
      rcases ite_ok.mp accepted with ⟨rfl, found⟩ | ⟨_, accepted⟩
      · obtain ⟨key, deltaToken, delta, noreply, rfl, valid, amount, rfl⟩ :=
          arithmeticTokens_ok.mp found
        exact .incr noreply valid amount
      rcases ite_ok.mp accepted with ⟨rfl, found⟩ | ⟨_, accepted⟩
      · obtain ⟨key, deltaToken, delta, noreply, rfl, valid, amount, rfl⟩ :=
          arithmeticTokens_ok.mp found
        exact .decr noreply valid amount
      rcases ite_ok.mp accepted with ⟨rfl, found⟩ | ⟨_, accepted⟩
      · obtain ⟨key, time, exptime, noreply, rfl, valid, timed, rfl⟩ := touchTokens_ok.mp found
        exact .touch noreply valid timed
      rcases ite_ok.mp accepted with ⟨rfl, found⟩ | ⟨_, accepted⟩
      · rcases flushAllTokens_ok.mp found with
          ⟨noreply, rfl, rfl⟩ | ⟨delayToken, delay, noreply, rfl, word, seconds, rfl⟩
        · exact .flushAll noreply
        · exact .flushAllDelayed noreply word seconds
      rcases ite_ok.mp accepted with ⟨rfl, found⟩ | ⟨_, accepted⟩
      · obtain ⟨rfl, rfl⟩ := plainTokens_ok.mp found
        exact .version
      rcases ite_ok.mp accepted with ⟨rfl, found⟩ | ⟨_, accepted⟩
      · obtain ⟨levelToken, level, noreply, rfl, read, rfl⟩ := verbosityTokens_ok.mp found
        exact .verbosity noreply read
      rcases ite_ok.mp accepted with ⟨rfl, found⟩ | ⟨_, accepted⟩
      · obtain ⟨rfl, rfl⟩ := plainTokens_ok.mp found
        exact .stats
      rcases ite_ok.mp accepted with ⟨rfl, found⟩ | ⟨_, accepted⟩
      · cases found
        exact .quit list
      · cases accepted

theorem Derives.accepted {list : List Bytes} {header : CommandHeader}
    (derivation : Derives list header) : commandTokens list = .ok header := by
  cases derivation with
  | get some valid => exact getTokens_ok.mpr ⟨some, valid, rfl⟩
  | gets some valid => exact getTokens_ok.mpr ⟨some, valid, rfl⟩
  | gat timed some valid =>
      exact getAndTouchTokens_ok.mpr ⟨_, _, _, rfl, timed, some, valid, rfl⟩
  | gats timed some valid =>
      exact getAndTouchTokens_ok.mpr ⟨_, _, _, rfl, timed, some, valid, rfl⟩
  | store noreply ordinary valid flagged timed sized small =>
      rw [commandTokens_store]
      refine storeTokens_ok.mpr ⟨_, _, _, _, _, _, rfl, sized, small,
        ⟨rfl, validateKey_valid valid, rfl, flagged, timed, ?_⟩, rfl⟩
      rw [StoreTail, if_neg ordinary]
      exact ⟨rfl, rfl⟩
  | cas noreply valid flagged timed sized small token =>
      refine (commandTokens_store .cas _).trans (storeTokens_ok.mpr ⟨_, _, _, _, _, _, rfl, sized,
        small, ⟨rfl, validateKey_valid valid, rfl, flagged, timed, ?_⟩, rfl⟩)
      rw [StoreTail, if_pos rfl]
      exact ⟨_, _, token, rfl, rfl⟩
  | delete noreply valid => exact deleteTokens_ok.mpr ⟨_, _, rfl, valid, rfl⟩
  | incr noreply valid amount =>
      exact arithmeticTokens_ok.mpr ⟨_, _, _, _, rfl, valid, amount, rfl⟩
  | decr noreply valid amount =>
      exact arithmeticTokens_ok.mpr ⟨_, _, _, _, rfl, valid, amount, rfl⟩
  | touch noreply valid timed => exact touchTokens_ok.mpr ⟨_, _, _, _, rfl, valid, timed, rfl⟩
  | flushAll noreply => exact flushAllTokens_ok.mpr (Or.inl ⟨noreply, rfl, rfl⟩)
  | flushAllDelayed noreply word seconds =>
      exact flushAllTokens_ok.mpr (Or.inr ⟨_, _, noreply, rfl, word, seconds, rfl⟩)
  | version => rfl
  | verbosity noreply read => exact verbosityTokens_ok.mpr ⟨_, _, _, rfl, read, rfl⟩
  | stats => rfl
  | quit rest => rfl

section Discards

theorem keeps_commandTokens {verb : Bytes} (other : ∀ op, verb ≠ storeVerb op)
    (list : List Bytes) : KeepsPayload (commandTokens (verb :: list)) := by
  rw [commandTokens]
  refine keeps_ite (fun _ => keeps_getTokens _ list) fun _ => ?_
  refine keeps_ite (fun _ => keeps_getAndTouchTokens _ list) fun _ => ?_
  refine keeps_ite (fun same => absurd same (other .add)) fun _ => ?_
  refine keeps_ite (fun same => absurd same (other .set)) fun _ => ?_
  refine keeps_ite (fun same => absurd same (other .replace)) fun _ => ?_
  refine keeps_ite (fun same => absurd same (other .append)) fun _ => ?_
  refine keeps_ite (fun same => absurd same (other .prepend)) fun _ => ?_
  refine keeps_ite (fun same => absurd same (other .cas)) fun _ => ?_
  refine keeps_ite (fun _ => keeps_deleteTokens list) fun _ => ?_
  refine keeps_ite (fun _ => keeps_arithmeticTokens .incr list) fun _ => ?_
  refine keeps_ite (fun _ => keeps_arithmeticTokens .decr list) fun _ => ?_
  refine keeps_ite (fun _ => keeps_touchTokens list) fun _ => ?_
  refine keeps_ite (fun _ => keeps_flushAllTokens list) fun _ => ?_
  refine keeps_ite (fun _ => keeps_plainTokens .version list) fun _ => ?_
  refine keeps_ite (fun _ => keeps_verbosityTokens list) fun _ => ?_
  refine keeps_ite (fun _ => keeps_plainTokens .stats list) fun _ => ?_
  exact keeps_ite (fun _ => keeps_ok CommandHeader.quit) fun _ => keeps_new .unknown

def DeclaresLength (list : List Bytes) (len : UInt64) : Prop :=
  ∃ op key flags time lenToken more, list = storeVerb op :: key :: flags :: time :: lenToken :: more ∧
    parseField UInt64 lenToken = some len

theorem storeTokens_error {op : StoreOp} {key flags time lenToken : Bytes} {more : List Bytes}
    {error : ParseError}
    (refused : storeTokens op (key :: flags :: time :: lenToken :: more) = .error error) :
    error.discard = (parseField UInt64 lenToken).map (· + 2) := by
  cases sized : parseField UInt64 lenToken with
  | none =>
      simp only [storeTokens, sized, okOr, bind, Except.bind] at refused
      cases refused
      rfl
  | some len =>
      by_cases large : maxItemSize < len.toNat
      · simp only [storeTokens, sized, okOr, bind, Except.bind, if_pos large] at refused
        cases refused
        rfl
      · rcases storeTokens_cases op key flags time more sized (Nat.not_lt.mp large) with
          ⟨pending, _, _, same⟩ | ⟨_, same⟩
        · rw [same] at refused
          cases refused
        · rw [same] at refused
          cases refused
          rfl

theorem commandTokens_discard {list : List Bytes} {error : ParseError}
    (refused : commandTokens list = .error error) (count : UInt64) :
    error.discard = some count ↔ ∃ len, DeclaresLength list len ∧ count = len + 2 := by
  by_cases storage : ∃ op key flags time lenToken more,
      list = storeVerb op :: key :: flags :: time :: lenToken :: more
  · obtain ⟨op, key, flags, time, lenToken, more, rfl⟩ := storage
    rw [commandTokens_store] at refused
    rw [storeTokens_error refused, Option.map_eq_some_iff]
    constructor
    · rintro ⟨len, sized, rfl⟩
      exact ⟨len, ⟨op, key, flags, time, lenToken, more, rfl, sized⟩, rfl⟩
    · rintro ⟨len, ⟨_, _, _, _, _, _, same, sized⟩, rfl⟩
      simp only [List.cons.injEq] at same
      rw [same.2.2.2.2.1]
      exact ⟨len, sized, rfl⟩
  · have keeps : error.discard = none := by
      cases list with
      | nil =>
          cases refused
          rfl
      | cons verb rest =>
          by_cases other : ∀ op, verb ≠ storeVerb op
          · exact keeps_commandTokens other rest error refused
          · obtain ⟨op, same⟩ := not_forall_not.mp other
            rw [same, commandTokens_store] at refused
            rcases rest with _ | ⟨key, _ | ⟨flags, _ | ⟨time, _ | ⟨lenToken, more⟩⟩⟩⟩
            iterate 4
              cases refused
              rfl
            exact absurd ⟨op, key, flags, time, lenToken, more, by rw [same]⟩ storage
    rw [keeps]
    constructor
    · rintro ⟨⟩
    · rintro ⟨len, ⟨op, key, flags, time, lenToken, more, same, _⟩, _⟩
      exact absurd ⟨op, key, flags, time, lenToken, more, same⟩ storage

end Discards

/-- The parser accepts exactly the lines whose tokens have a derivation, with the header that they
derive, and refuses all others, with a count of bytes to discard if their length is readable. -/
theorem parseCommandLine_derives (line : Bytes) :
    (∀ header, parseCommandLine line = .ok header ↔ Derives (tokens line) header) ∧
      (∀ other, tokens other = tokens line → parseCommandLine other = parseCommandLine line) ∧
      ((¬∃ header, Derives (tokens line) header) →
        ∃ error, parseCommandLine line = .error error ∧
          ∀ count, error.discard = some count ↔
            ∃ len, DeclaresLength (tokens line) len ∧ count = len + 2) := by
  refine ⟨?_, ?_, ?_⟩
  · intro header
    rw [parseCommandLine_eq]
    exact ⟨commandTokens_derives, Derives.accepted⟩
  · intro other same
    rw [parseCommandLine_eq, parseCommandLine_eq, same]
  · intro underivable
    rw [parseCommandLine_eq]
    cases result : commandTokens (tokens line) with
    | error error => exact ⟨error, rfl, commandTokens_discard result⟩
    | ok header => exact absurd ⟨header, commandTokens_derives result⟩ underivable

end Numbers

end Ousagi
