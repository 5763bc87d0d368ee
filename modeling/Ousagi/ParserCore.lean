import Mathlib.Data.List.Basic
import Ousagi.CommandsCore

/-!
The line parser of `parser.rs`.  The number reader of the `atoi` crate stays a
parameter, as the trait `FromRadix10SignedChecked` of the source; additions on
`usize` wrap, as the release profile compiles them.
-/

namespace Ousagi

def maxKeyLen : Nat := 250

def maxItemSize : Nat := 1024 * 1024

inductive ParseErrorKind
  | badFormat
  | numericDelta
  | numericDelay
  | tooLarge
  | unknown
  deriving DecidableEq, Repr

structure ParseError where
  kind : ParseErrorKind
  discard : Option UInt64
  deriving DecidableEq, Repr

namespace ParseError

def new (kind : ParseErrorKind) : ParseError := { kind, discard := none }

def withDiscard (error : ParseError) (count : UInt64) : ParseError :=
  { error with discard := some count }

def response (error : ParseError) : Response :=
  match error.kind with
  | .badFormat => .clientError "bad command line format"
  | .numericDelta => .clientError "invalid numeric delta"
  | .numericDelay => .clientError "invalid numeric delay"
  | .tooLarge => .serverError "object too large for cache"
  | .unknown => .error

end ParseError

structure PendingStore where
  op : StoreOp
  key : Bytes
  flags : UInt32
  exptime : Int64
  len : UInt64
  cas : Option UInt64
  noreply : Bool
  deriving DecidableEq, Repr

def PendingStore.intoCommand (pending : PendingStore) (data : Bytes) : Command :=
  .store pending.op {
    key := pending.key
    flags := pending.flags
    exptime := pending.exptime
    data
    noreply := pending.noreply
    cas := pending.cas
  }

inductive CommandHeader
  | immediate (command : Command)
  | store (pending : PendingStore)
  | quit
  deriving DecidableEq, Repr

def validateKey (key : Bytes) : Option Unit :=
  if key.isEmpty || maxKeyLen < key.length then none
  else if key.any fun byte => byte ≤ 0x20 || byte = 0x7F then none
  else some ()

structure Tokenizer where
  line : Bytes
  rest : Bytes
  deriving DecidableEq, Repr

namespace Tokenizer

def new (line : Bytes) : Tokenizer := { line, rest := line }

/-- `slice_ref` shares the bytes of the line, so the key it returns is the token itself. -/
def extractKey (_ : Tokenizer) (key : Bytes) : Except ParseError Bytes :=
  match validateKey key with
  | none => .error (.new .badFormat)
  | some () => .ok key

def next (tokenizer : Tokenizer) : Option Bytes × Tokenizer :=
  let rest := tokenizer.rest.dropWhile (· = space)
  if rest.isEmpty then (none, { tokenizer with rest })
  else (some (rest.takeWhile (· ≠ space)), { tokenizer with rest := rest.dropWhile (· ≠ space) })

theorem next_shrinks (tokenizer : Tokenizer) {token : Bytes}
    (found : tokenizer.next.1 = some token) :
    tokenizer.next.2.rest.length < tokenizer.rest.length := by
  simp only [next] at found ⊢
  have shorter := (List.dropWhile_sublist (· = space) (l := tokenizer.rest)).length_le
  have stops := List.head?_dropWhile_not (· = space) tokenizer.rest
  split at found
  · simp at found
  · rename_i nonempty
    simp only [nonempty, Bool.false_eq_true, ↓reduceIte]
    cases dropped : tokenizer.rest.dropWhile (· = space) with
    | nil => simp [dropped] at nonempty
    | cons first tail =>
        simp only [dropped, List.head?_cons, decide_eq_false_iff_not] at stops
        have tailShorter := (List.dropWhile_sublist (· ≠ space) (l := tail)).length_le
        simp only [dropped, List.length_cons] at shorter
        rw [List.dropWhile_cons, if_pos (by simpa using stops)]
        omega

end Tokenizer

/-- Number reader of the `atoi` crate: the value, if it fits the type, and the bytes used. -/
class FromRadix10SignedChecked (α : Type) where
  fromRadix10SignedChecked : Bytes → Option α × Nat

/-- Parse a field (e.g. flags) directly from ASCII bytes. -/
def parseField (α : Type) [FromRadix10SignedChecked α] (token : Bytes) : Option α :=
  let (value, used) := FromRadix10SignedChecked.fromRadix10SignedChecked (α := α) token
  if used = token.length then value else none

def okOr {α ε : Type} (value : Option α) (error : ε) : Except ε α :=
  match value with
  | some value => .ok value
  | none => .error error

def expectEnd (tokenizer : Tokenizer) : Except ParseError Unit :=
  match tokenizer.next with
  | (none, _) => .ok ()
  | (some _, _) => .error (.new .badFormat)

def parseNoreply (tokenizer : Tokenizer) : Except ParseError Bool :=
  match tokenizer.next with
  | (none, _) => .ok false
  | (some token, tokenizer) =>
      if token = ascii "noreply" then do
        expectEnd tokenizer
        return true
      else .error (.new .badFormat)

/-- The loop `while let Some(k) = tokenizer.next()` of `parse_get` and `parse_get_and_touch`. -/
def collectKeys (tokenizer : Tokenizer) (keys : List Bytes) : Except ParseError (List Bytes) :=
  match _ : tokenizer.next.1 with
  | none => .ok keys
  | some token =>
      match tokenizer.next.2.extractKey token with
      | .error error => .error error
      | .ok key => collectKeys tokenizer.next.2 (keys ++ [key])
termination_by tokenizer.rest.length
decreasing_by exact tokenizer.next_shrinks (by assumption)

def parseGet (withCas : Bool) (tokenizer : Tokenizer) : Except ParseError CommandHeader :=
  match tokenizer.next with
  | (none, _) => .error (.new .unknown)
  | (some firstKey, tokenizer) => do
      let firstKey ← tokenizer.extractKey firstKey
      let keys ← collectKeys tokenizer [firstKey]
      return .immediate (.get keys withCas)

def parseDelete (tokenizer : Tokenizer) : Except ParseError CommandHeader :=
  match tokenizer.next with
  | (none, _) => .error (.new .unknown)
  | (some key, tokenizer) => do
      let key ← tokenizer.extractKey key
      let noreply ← parseNoreply tokenizer
      return .immediate (.delete key noreply)

def parseVersion (tokenizer : Tokenizer) : Except ParseError CommandHeader := do
  expectEnd tokenizer
  return .immediate .version

def parseStats (tokenizer : Tokenizer) : Except ParseError CommandHeader := do
  expectEnd tokenizer
  return .immediate .stats

section Numbers

variable [FromRadix10SignedChecked UInt32] [FromRadix10SignedChecked UInt64]
  [FromRadix10SignedChecked Int64]

def parseGetAndTouch (withCas : Bool) (tokenizer : Tokenizer) :
    Except ParseError CommandHeader :=
  match tokenizer.next with
  | (none, _) => .error (.new .unknown)
  | (some exptime, tokenizer) => do
      let exptime ← okOr (parseField Int64 exptime) (.new .badFormat)
      match tokenizer.next with
      | (none, _) => .error (.new .unknown)
      | (some firstKey, tokenizer) => do
          let firstKey ← tokenizer.extractKey firstKey
          let keys ← collectKeys tokenizer [firstKey]
          return .immediate (.getAndTouch keys exptime withCas)

def parseCasToken (op : StoreOp) (len : UInt64) (tokenizer : Tokenizer) :
    Except ParseError (Option UInt64 × Tokenizer) :=
  if op = .cas then
    match tokenizer.next with
    | (some casToken, tokenizer) => do
        let cas ← okOr (parseField UInt64 casToken)
          ((ParseError.new .badFormat).withDiscard (len + 2))
        return (some cas, tokenizer)
    | (none, _) => .error ((ParseError.new .badFormat).withDiscard (len + 2))
  else .ok (none, tokenizer)

def parseStore (op : StoreOp) (tokenizer : Tokenizer) : Except ParseError CommandHeader :=
  let (key, tokenizer) := tokenizer.next
  let (flags, tokenizer) := tokenizer.next
  let (exptime, tokenizer) := tokenizer.next
  let (len, tokenizer) := tokenizer.next
  match key, flags, exptime, len with
  | some key, some flags, some exptime, some len => do
      let len ← okOr (parseField UInt64 len) (.new .badFormat)
      if maxItemSize < len.toNat then
        .error ((ParseError.new .tooLarge).withDiscard (len + 2))
      else
        let key ← (tokenizer.extractKey key).mapError (·.withDiscard (len + 2))
        let flags ← okOr (parseField UInt32 flags)
          ((ParseError.new .badFormat).withDiscard (len + 2))
        let exptime ← okOr (parseField Int64 exptime)
          ((ParseError.new .badFormat).withDiscard (len + 2))
        let (cas, tokenizer) ← parseCasToken op len tokenizer
        let noreply ← (parseNoreply tokenizer).mapError (·.withDiscard (len + 2))
        return .store { op, key, flags, exptime, len, cas, noreply }
  | _, _, _, _ => .error (.new .unknown)

def parseArithmetic (op : ArithmeticOp) (tokenizer : Tokenizer) :
    Except ParseError CommandHeader :=
  let (key, tokenizer) := tokenizer.next
  let (delta, tokenizer) := tokenizer.next
  match key, delta with
  | some key, some delta => do
      let key ← tokenizer.extractKey key
      let delta ← okOr (parseField UInt64 delta) (.new .numericDelta)
      let noreply ← parseNoreply tokenizer
      return .immediate (.arithmetic op key delta noreply)
  | _, _ => .error (.new .unknown)

def parseTouch (tokenizer : Tokenizer) : Except ParseError CommandHeader :=
  let (key, tokenizer) := tokenizer.next
  let (exptime, tokenizer) := tokenizer.next
  match key, exptime with
  | some key, some exptime => do
      let key ← tokenizer.extractKey key
      let exptime ← okOr (parseField Int64 exptime) (.new .badFormat)
      let noreply ← parseNoreply tokenizer
      return .immediate (.touch key exptime noreply)
  | _, _ => .error (.new .unknown)

def parseFlushAll (tokenizer : Tokenizer) : Except ParseError CommandHeader :=
  match tokenizer.next with
  | (none, _) => .ok (.immediate (.flushAll none false))
  | (some token, tokenizer) =>
      if token = ascii "noreply" then do
        expectEnd tokenizer
        return .immediate (.flushAll none true)
      else do
        let delay ← okOr (parseField UInt32 token) (.new .numericDelay)
        let noreply ← parseNoreply tokenizer
        return .immediate (.flushAll (some delay) noreply)

def parseVerbosity (tokenizer : Tokenizer) : Except ParseError CommandHeader :=
  match tokenizer.next with
  | (none, _) => .error (.new .unknown)
  | (some level, tokenizer) => do
      let level ← okOr (parseField UInt32 level) (.new .badFormat)
      let noreply ← parseNoreply tokenizer
      return .immediate (.verbosity level noreply)

def parseCommandLine (line : Bytes) : Except ParseError CommandHeader :=
  match (Tokenizer.new line).next with
  | (none, _) => .error (.new .unknown)
  | (some op, tokenizer) =>
      if op = ascii "get" ∨ op = ascii "gets" then parseGet (op = ascii "gets") tokenizer
      else if op = ascii "gat" ∨ op = ascii "gats" then
        parseGetAndTouch (op = ascii "gats") tokenizer
      else if op = ascii "add" then parseStore .add tokenizer
      else if op = ascii "set" then parseStore .set tokenizer
      else if op = ascii "replace" then parseStore .replace tokenizer
      else if op = ascii "append" then parseStore .append tokenizer
      else if op = ascii "prepend" then parseStore .prepend tokenizer
      else if op = ascii "cas" then parseStore .cas tokenizer
      else if op = ascii "delete" then parseDelete tokenizer
      else if op = ascii "incr" then parseArithmetic .incr tokenizer
      else if op = ascii "decr" then parseArithmetic .decr tokenizer
      else if op = ascii "touch" then parseTouch tokenizer
      else if op = ascii "flush_all" then parseFlushAll tokenizer
      else if op = ascii "version" then parseVersion tokenizer
      else if op = ascii "verbosity" then parseVerbosity tokenizer
      else if op = ascii "stats" then parseStats tokenizer
      else if op = ascii "quit" then .ok .quit
      else .error (.new .unknown)

end Numbers

end Ousagi
