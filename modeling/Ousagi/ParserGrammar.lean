import Mathlib.Data.List.TakeWhile
import Ousagi.ParserCore
import Ousagi.Library.Fields

/-!
The parser read as a function of the token list.  Every parser of `ParserCore`
equals its counterpart here, so a line matters only through its tokens.
-/

namespace Ousagi

open Library

def tokens (line : Bytes) : List Bytes := fields space line

theorem Tokenizer.next_tokens (tokenizer : Tokenizer) :
    ∃ after, tokenizer.next = ((tokens tokenizer.rest).head?, after) ∧
      tokens after.rest = (tokens tokenizer.rest).tail := by
  have same := fields_dropWhile space tokenizer.rest
  simp only [next, tokens]
  rw [← same]
  cases dropped : tokenizer.rest.dropWhile (· = space) with
  | nil => exact ⟨{ tokenizer with rest := [] }, by simp, by simp⟩
  | cons first rest =>
      have stops := List.head?_dropWhile_not (· = space) tokenizer.rest
      rw [dropped] at stops
      have different : first ≠ space := by simpa using stops
      rw [fields_takeWhile different]
      exact ⟨_, rfl, rfl⟩

def keyToken (key : Bytes) : Except ParseError Bytes :=
  okOr ((validateKey key).map fun _ => key) (.new .badFormat)

theorem extractKey_eq (tokenizer : Tokenizer) (key : Bytes) :
    tokenizer.extractKey key = keyToken key := by
  simp only [Tokenizer.extractKey, keyToken, okOr]
  cases validateKey key <;> rfl

def endTokens : List Bytes → Except ParseError Unit
  | [] => .ok ()
  | _ :: _ => .error (.new .badFormat)

theorem expectEnd_eq (tokenizer : Tokenizer) :
    expectEnd tokenizer = endTokens (tokens tokenizer.rest) := by
  obtain ⟨after, step, _⟩ := tokenizer.next_tokens
  simp only [expectEnd, step]
  cases tokens tokenizer.rest <;> rfl

def noreplyTokens : List Bytes → Except ParseError Bool
  | [] => .ok false
  | token :: more =>
      if token = ascii "noreply" then do
        endTokens more
        return true
      else .error (.new .badFormat)

theorem parseNoreply_eq (tokenizer : Tokenizer) :
    parseNoreply tokenizer = noreplyTokens (tokens tokenizer.rest) := by
  obtain ⟨after, step, rest⟩ := tokenizer.next_tokens
  cases listed : tokens tokenizer.rest <;> rw [listed] at step rest <;>
    simp [parseNoreply, step, noreplyTokens, expectEnd_eq, rest]

def keyTokens : List Bytes → Except ParseError (List Bytes)
  | [] => .ok []
  | token :: more => do
      let key ← keyToken token
      let keys ← keyTokens more
      return key :: keys

theorem collectKeys_last {tokenizer after : Tokenizer} (keys : List Bytes)
    (step : tokenizer.next = (none, after)) : collectKeys tokenizer keys = .ok keys := by
  rw [collectKeys]
  split
  · rfl
  · rename_i found
    simp [step] at found

theorem collectKeys_more {tokenizer after : Tokenizer} {token : Bytes} (keys : List Bytes)
    (step : tokenizer.next = (some token, after)) :
    collectKeys tokenizer keys =
      (keyToken token).bind fun key => collectKeys after (keys ++ [key]) := by
  rw [collectKeys]
  split
  · rename_i found
    simp [step] at found
  · rename_i other found
    have same : other = token := by simpa [step] using found.symm
    rw [same, extractKey_eq, step]
    cases keyToken token <;> rfl

theorem collectKeys_eq (tokenizer : Tokenizer) (keys : List Bytes) :
    collectKeys tokenizer keys =
      (keyTokens (tokens tokenizer.rest)).map (keys ++ ·) := by
  generalize listed : tokens tokenizer.rest = list
  obtain ⟨after, step, rest⟩ := tokenizer.next_tokens
  induction list generalizing tokenizer keys after with
  | nil =>
      rw [listed] at step
      rw [collectKeys_last keys step]
      simp [keyTokens, Except.map]
  | cons token more ih =>
      rw [listed] at step rest
      rw [collectKeys_more keys step, keyTokens]
      cases keyToken token with
      | error error => rfl
      | ok key =>
          obtain ⟨later, laterStep, laterRest⟩ := after.next_tokens
          simp only [Except.bind, ih after (keys ++ [key]) rest later laterStep laterRest]
          cases keyTokens more <;> simp [Except.map, bind, Except.bind, pure, Except.pure]

def getTokens (withCas : Bool) (list : List Bytes) : Except ParseError CommandHeader :=
  if list = [] then .error (.new .unknown)
  else do
    let keys ← keyTokens list
    return .immediate (.get keys withCas)

theorem parseGet_eq (withCas : Bool) (tokenizer : Tokenizer) :
    parseGet withCas tokenizer = getTokens withCas (tokens tokenizer.rest) := by
  obtain ⟨after, step, rest⟩ := tokenizer.next_tokens
  cases listed : tokens tokenizer.rest with
  | nil =>
      rw [listed] at step
      simp [parseGet, step, getTokens]
  | cons token more =>
      rw [listed] at step rest
      simp only [parseGet, step, getTokens, extractKey_eq, collectKeys_eq, rest, keyTokens,
        List.head?_cons, List.tail_cons]
      cases keyToken token with
      | error error => rfl
      | ok key => cases keyTokens more <;> rfl

def deleteTokens : List Bytes → Except ParseError CommandHeader
  | [] => .error (.new .unknown)
  | key :: more => do
      let key ← keyToken key
      let noreply ← noreplyTokens more
      return .immediate (.delete key noreply)

theorem parseDelete_eq (tokenizer : Tokenizer) :
    parseDelete tokenizer = deleteTokens (tokens tokenizer.rest) := by
  obtain ⟨after, step, rest⟩ := tokenizer.next_tokens
  cases listed : tokens tokenizer.rest <;> rw [listed] at step rest <;>
    simp [parseDelete, step, deleteTokens, extractKey_eq, parseNoreply_eq, rest]

def plainTokens (command : Command) (list : List Bytes) : Except ParseError CommandHeader := do
  endTokens list
  return .immediate command

theorem parseVersion_eq (tokenizer : Tokenizer) :
    parseVersion tokenizer = plainTokens .version (tokens tokenizer.rest) := by
  simp only [parseVersion, plainTokens, expectEnd_eq]

theorem parseStats_eq (tokenizer : Tokenizer) :
    parseStats tokenizer = plainTokens .stats (tokens tokenizer.rest) := by
  simp only [parseStats, plainTokens, expectEnd_eq]

section Times

variable [FromRadix10SignedChecked Int64]

def getAndTouchTokens (withCas : Bool) : List Bytes → Except ParseError CommandHeader
  | [] => .error (.new .unknown)
  | exptime :: list => do
      let exptime ← okOr (parseField Int64 exptime) (.new .badFormat)
      if list = [] then .error (.new .unknown)
      else
        let keys ← keyTokens list
        return .immediate (.getAndTouch keys exptime withCas)

theorem parseGetAndTouch_eq (withCas : Bool) (tokenizer : Tokenizer) :
    parseGetAndTouch withCas tokenizer =
      getAndTouchTokens withCas (tokens tokenizer.rest) := by
  obtain ⟨second, step, rest⟩ := tokenizer.next_tokens
  obtain ⟨third, secondStep, secondRest⟩ := second.next_tokens
  cases listed : tokens tokenizer.rest with
  | nil =>
      rw [listed] at step
      simp [parseGetAndTouch, step, getAndTouchTokens]
  | cons exptime list =>
      rw [listed] at step rest
      rw [rest] at secondStep secondRest
      simp only [parseGetAndTouch, step, secondStep, getAndTouchTokens, List.head?_cons,
        List.tail_cons]
      cases okOr (parseField Int64 exptime) (ParseError.new .badFormat) with
      | error error => rfl
      | ok exptime =>
          cases list with
          | nil => rfl
          | cons key more =>
              simp only [extractKey_eq, collectKeys_eq, secondRest, keyTokens, List.head?_cons,
                List.tail_cons]
              cases keyToken key with
              | error error => rfl
              | ok key => cases keyTokens more <;> rfl

def touchTokens : List Bytes → Except ParseError CommandHeader
  | key :: exptime :: list => do
      let key ← keyToken key
      let exptime ← okOr (parseField Int64 exptime) (.new .badFormat)
      let noreply ← noreplyTokens list
      return .immediate (.touch key exptime noreply)
  | _ => .error (.new .unknown)

theorem parseTouch_eq (tokenizer : Tokenizer) :
    parseTouch tokenizer = touchTokens (tokens tokenizer.rest) := by
  obtain ⟨second, firstStep, firstRest⟩ := tokenizer.next_tokens
  obtain ⟨third, secondStep, secondRest⟩ := second.next_tokens
  rw [firstRest] at secondStep secondRest
  rcases listed : tokens tokenizer.rest with _ | ⟨key, _ | ⟨exptime, list⟩⟩ <;>
    rw [listed] at firstStep secondStep secondRest <;>
    simp [parseTouch, firstStep, secondStep, touchTokens, extractKey_eq, parseNoreply_eq,
      secondRest]

end Times

section Values

variable [FromRadix10SignedChecked UInt64]

def casTokens (op : StoreOp) (len : UInt64) (list : List Bytes) :
    Except ParseError (Option UInt64 × List Bytes) :=
  if op = .cas then
    match list with
    | casToken :: more => do
        let cas ← okOr (parseField UInt64 casToken)
          ((ParseError.new .badFormat).withDiscard (len + 2))
        return (some cas, more)
    | [] => .error ((ParseError.new .badFormat).withDiscard (len + 2))
  else .ok (none, list)

theorem parseCasToken_eq (op : StoreOp) (len : UInt64) (tokenizer : Tokenizer)
    (finish : Option UInt64 → Bool → CommandHeader) :
    (do
      let (cas, tokenizer) ← parseCasToken op len tokenizer
      let noreply ← (parseNoreply tokenizer).mapError (·.withDiscard (len + 2))
      return finish cas noreply : Except ParseError CommandHeader) =
    (do
      let (cas, list) ← casTokens op len (tokens tokenizer.rest)
      let noreply ← (noreplyTokens list).mapError (·.withDiscard (len + 2))
      return finish cas noreply) := by
  obtain ⟨after, step, rest⟩ := tokenizer.next_tokens
  simp only [parseCasToken, casTokens, step]
  split
  · cases listed : tokens tokenizer.rest with
    | nil => rfl
    | cons casToken more =>
        rw [listed] at rest
        simp only [List.head?_cons]
        cases okOr (parseField UInt64 casToken)
            ((ParseError.new .badFormat).withDiscard (len + 2)) with
        | error error => rfl
        | ok cas => simp [parseNoreply_eq, rest, bind, Except.bind, pure, Except.pure]
  · simp [parseNoreply_eq, bind, Except.bind]

def arithmeticTokens (op : ArithmeticOp) : List Bytes → Except ParseError CommandHeader
  | key :: delta :: list => do
      let key ← keyToken key
      let delta ← okOr (parseField UInt64 delta) (.new .numericDelta)
      let noreply ← noreplyTokens list
      return .immediate (.arithmetic op key delta noreply)
  | _ => .error (.new .unknown)

theorem parseArithmetic_eq (op : ArithmeticOp) (tokenizer : Tokenizer) :
    parseArithmetic op tokenizer = arithmeticTokens op (tokens tokenizer.rest) := by
  obtain ⟨second, firstStep, firstRest⟩ := tokenizer.next_tokens
  obtain ⟨third, secondStep, secondRest⟩ := second.next_tokens
  rw [firstRest] at secondStep secondRest
  rcases listed : tokens tokenizer.rest with _ | ⟨key, _ | ⟨delta, list⟩⟩ <;>
    rw [listed] at firstStep secondStep secondRest <;>
    simp [parseArithmetic, firstStep, secondStep, arithmeticTokens, extractKey_eq,
      parseNoreply_eq, secondRest]

end Values

section Delays

variable [FromRadix10SignedChecked UInt32]

def flushAllTokens : List Bytes → Except ParseError CommandHeader
  | [] => .ok (.immediate (.flushAll none false))
  | token :: list =>
      if token = ascii "noreply" then do
        endTokens list
        return .immediate (.flushAll none true)
      else do
        let delay ← okOr (parseField UInt32 token) (.new .numericDelay)
        let noreply ← noreplyTokens list
        return .immediate (.flushAll (some delay) noreply)

theorem parseFlushAll_eq (tokenizer : Tokenizer) :
    parseFlushAll tokenizer = flushAllTokens (tokens tokenizer.rest) := by
  obtain ⟨after, step, rest⟩ := tokenizer.next_tokens
  cases listed : tokens tokenizer.rest <;> rw [listed] at step rest <;>
    simp [parseFlushAll, step, flushAllTokens, expectEnd_eq, parseNoreply_eq, rest]

def verbosityTokens : List Bytes → Except ParseError CommandHeader
  | [] => .error (.new .unknown)
  | level :: list => do
      let level ← okOr (parseField UInt32 level) (.new .badFormat)
      let noreply ← noreplyTokens list
      return .immediate (.verbosity level noreply)

theorem parseVerbosity_eq (tokenizer : Tokenizer) :
    parseVerbosity tokenizer = verbosityTokens (tokens tokenizer.rest) := by
  obtain ⟨after, step, rest⟩ := tokenizer.next_tokens
  cases listed : tokens tokenizer.rest <;> rw [listed] at step rest <;>
    simp [parseVerbosity, step, verbosityTokens, parseNoreply_eq, rest]

end Delays

section Numbers

variable [FromRadix10SignedChecked UInt32] [FromRadix10SignedChecked UInt64]
  [FromRadix10SignedChecked Int64]

def storeTokens (op : StoreOp) : List Bytes → Except ParseError CommandHeader
  | key :: flags :: exptime :: len :: list => do
      let len ← okOr (parseField UInt64 len) (.new .badFormat)
      if maxItemSize < len.toNat then
        .error ((ParseError.new .tooLarge).withDiscard (len + 2))
      else
        let key ← (keyToken key).mapError (·.withDiscard (len + 2))
        let flags ← okOr (parseField UInt32 flags)
          ((ParseError.new .badFormat).withDiscard (len + 2))
        let exptime ← okOr (parseField Int64 exptime)
          ((ParseError.new .badFormat).withDiscard (len + 2))
        let (cas, list) ← casTokens op len list
        let noreply ← (noreplyTokens list).mapError (·.withDiscard (len + 2))
        return .store { op, key, flags, exptime, len, cas, noreply }
  | _ => .error (.new .unknown)

theorem parseStore_eq (op : StoreOp) (tokenizer : Tokenizer) :
    parseStore op tokenizer = storeTokens op (tokens tokenizer.rest) := by
  obtain ⟨second, firstStep, firstRest⟩ := tokenizer.next_tokens
  obtain ⟨third, secondStep, secondRest⟩ := second.next_tokens
  obtain ⟨fourth, thirdStep, thirdRest⟩ := third.next_tokens
  obtain ⟨fifth, fourthStep, fourthRest⟩ := fourth.next_tokens
  rw [firstRest] at secondStep secondRest
  rw [secondRest] at thirdStep thirdRest
  rw [thirdRest] at fourthStep fourthRest
  simp only [parseStore, firstStep, secondStep, thirdStep, fourthStep]
  rcases listed : tokens tokenizer.rest with
    _ | ⟨key, _ | ⟨flags, _ | ⟨exptime, _ | ⟨len, list⟩⟩⟩⟩
  iterate 4 rfl
  rw [listed] at fourthRest
  simp only [List.head?_cons, List.tail_cons, storeTokens, extractKey_eq]
  simp only [List.tail_cons] at fourthRest
  rw [← fourthRest]
  refine bind_congr fun len => ?_
  split
  · rfl
  · refine bind_congr fun key => bind_congr fun flags => bind_congr fun exptime => ?_
    exact parseCasToken_eq op len fifth fun cas noreply =>
      .store { op, key, flags, exptime, len, cas, noreply }

def commandTokens : List Bytes → Except ParseError CommandHeader
  | [] => .error (.new .unknown)
  | op :: list =>
      if op = ascii "get" ∨ op = ascii "gets" then getTokens (op = ascii "gets") list
      else if op = ascii "gat" ∨ op = ascii "gats" then
        getAndTouchTokens (op = ascii "gats") list
      else if op = ascii "add" then storeTokens .add list
      else if op = ascii "set" then storeTokens .set list
      else if op = ascii "replace" then storeTokens .replace list
      else if op = ascii "append" then storeTokens .append list
      else if op = ascii "prepend" then storeTokens .prepend list
      else if op = ascii "cas" then storeTokens .cas list
      else if op = ascii "delete" then deleteTokens list
      else if op = ascii "incr" then arithmeticTokens .incr list
      else if op = ascii "decr" then arithmeticTokens .decr list
      else if op = ascii "touch" then touchTokens list
      else if op = ascii "flush_all" then flushAllTokens list
      else if op = ascii "version" then plainTokens .version list
      else if op = ascii "verbosity" then verbosityTokens list
      else if op = ascii "stats" then plainTokens .stats list
      else if op = ascii "quit" then .ok .quit
      else .error (.new .unknown)

/-- The parser looks at a line only through its tokens. -/
theorem parseCommandLine_eq (line : Bytes) :
    parseCommandLine line = commandTokens (tokens line) := by
  obtain ⟨after, step, rest⟩ := (Tokenizer.new line).next_tokens
  have whole : (Tokenizer.new line).rest = line := rfl
  rw [whole] at step rest
  cases listed : tokens line <;> rw [listed] at step rest <;>
    simp only [parseCommandLine, commandTokens, step, rest, List.head?_nil, List.head?_cons,
      List.tail_cons, parseGet_eq, parseGetAndTouch_eq, parseStore_eq, parseDelete_eq,
      parseArithmetic_eq, parseTouch_eq, parseFlushAll_eq, parseVersion_eq, parseVerbosity_eq,
      parseStats_eq]

end Numbers

end Ousagi
