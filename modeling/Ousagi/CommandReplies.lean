import Ousagi.ResponseWire
import Ousagi.ServerChecks

/-!
The replies that a command can get, whatever the store holds.  All of them, and all
refusals of `read_command`, can be told apart on the wire.
-/

namespace Ousagi

open Library

def Retrieval.showsCas : Retrieval → Bool
  | .get withCas | .getAndTouch _ withCas => withCas

structure Shown (showsCas : Bool) (asked : List Bytes) (values : List Value) : Prop where
  order : (values.map Prod.fst).Sublist asked
  tokens : ∀ value ∈ values, value.2.2.2.isSome = showsCas

theorem Shown.append {showsCas : Bool} {asked later : List Bytes} {values more : List Value}
    (shown : Shown showsCas asked values) (onward : Shown showsCas later more) :
    Shown showsCas (asked ++ later) (values ++ more) where
  order := by
    rw [List.map_append]
    exact shown.order.append onward.order
  tokens value among := (List.mem_append.mp among).elim (shown.tokens value) (onward.tokens value)

inductive Fits : Command → Response → Prop
  | found {command : Command} {retrieval : Retrieval} {keys : List Bytes} {values : List Value}
      (retrieves : command.retrieval = some (retrieval, keys))
      (shown : Shown retrieval.showsCas keys values) : Fits command (.values values)
  | stored (op : StoreOp) (args : StoreArgs) : Fits (.store op args) .stored
  | notStored {op : StoreOp} (args : StoreArgs) (conditional : op ≠ .set ∧ op ≠ .cas) :
      Fits (.store op args) .notStored
  | swapLost (args : StoreArgs) : Fits (.store .cas args) .exists
  | swapMissed (args : StoreArgs) : Fits (.store .cas args) .notFound
  | deleted (key : Bytes) (noreply : Bool) : Fits (.delete key noreply) .deleted
  | deleteMissed (key : Bytes) (noreply : Bool) : Fits (.delete key noreply) .notFound
  | number (op : ArithmeticOp) (key : Bytes) (delta : UInt64) (noreply : Bool) (value : UInt64) :
      Fits (.arithmetic op key delta noreply) (.number value)
  | nonNumeric (op : ArithmeticOp) (key : Bytes) (delta : UInt64) (noreply : Bool) :
      Fits (.arithmetic op key delta noreply) (.clientError op.error)
  | countMissed (op : ArithmeticOp) (key : Bytes) (delta : UInt64) (noreply : Bool) :
      Fits (.arithmetic op key delta noreply) .notFound
  | touched (key : Bytes) (exptime : Int64) (noreply : Bool) :
      Fits (.touch key exptime noreply) .touched
  | touchMissed (key : Bytes) (exptime : Int64) (noreply : Bool) :
      Fits (.touch key exptime noreply) .notFound
  | flushed (delay : Option UInt32) (noreply : Bool) : Fits (.flushAll delay noreply) .ok
  | verbosity (level : UInt32) (noreply : Bool) : Fits (.verbosity level noreply) .ok
  | version : Fits .version (.version "0.2.0")
  | stats (stats : Stats) (currItems : Nat) : Fits .stats (.stats (stats.report currItems))

section Handling

theorem Retrieval.visit_shown (retrieval : Retrieval) (now : UInt64) (oldestLive : Option UInt64)
    (key : Bytes) (store : Store) :
    Shown retrieval.showsCas [key] (retrieval.visit now oldestLive key store).1.toList := by
  obtain ⟨items, stats, result, _⟩ := retrieval.visit_effect now oldestLive store key
  rw [result]
  cases retrieval with
  | get withCas | getAndTouch _ withCas =>
      cases visibleItem now oldestLive store.items key with
      | none => exact ⟨List.nil_sublist _, by simp [effect]⟩
      | some item => exact ⟨List.Sublist.refl _, by cases withCas <;> simp [effect, showsCas]⟩

theorem collect_shown (retrieval : Retrieval) (now : UInt64) (oldestLive : Option UInt64)
    (keys : List Bytes) (store : Store) :
    Shown retrieval.showsCas keys
      (collect (fun key later => retrieval.visit now oldestLive key later) keys store).1 := by
  induction keys generalizing store with
  | nil => exact ⟨List.Sublist.refl _, by simp [collect]⟩
  | cons key rest ih => exact (retrieval.visit_shown now oldestLive key store).append (ih _)

theorem Update.effect_answers {command : Command} {update : Update}
    (updates : command.update = some update) (wellFormed : update.WellFormed) (now cas : UInt64)
    (found : Option Item) : Fits command (update.effect now cas found).1 := by
  cases command with
  | store op args =>
      cases updates
      cases op with
      | set => exact .stored _ _
      | add =>
          cases found with
          | none => exact .stored _ _
          | some item => exact .notStored args (by decide)
      | replace | append | prepend =>
          cases found with
          | none => exact .notStored args (by decide)
          | some item => exact .stored _ _
      | cas =>
          obtain ⟨expected, token⟩ := Option.isSome_iff_exists.mp (wellFormed.2.2.mpr rfl)
          cases found with
          | none => simpa only [effect, token] using .swapMissed args
          | some item =>
              by_cases other : item.cas = expected
              · simpa [effect, token, other] using Fits.stored .cas args
              · simpa [effect, token, other] using Fits.swapLost args
  | arithmetic op key delta noreply =>
      cases updates
      cases found with
      | none => exact .countMissed op key delta noreply
      | some item =>
          cases number : numericValue item.data with
          | none => simpa [effect, number] using Fits.nonNumeric op key delta noreply
          | some value =>
              simpa [effect, number] using
                Fits.number op key delta noreply (op.apply value delta)
  | touch key exptime noreply =>
      cases updates
      cases found with
      | none => exact .touchMissed key exptime noreply
      | some item => exact .touched key exptime noreply
  | get | getAndTouch | delete | flushAll | version | verbosity | stats => cases updates

theorem update_wellFormed {command : Command} {update : Update}
    (updates : command.update = some update) (wellFormed : command.WellFormed) :
    update.WellFormed := by
  cases command with
  | store | arithmetic | touch =>
      cases updates
      exact wellFormed
  | get | getAndTouch | delete | flushAll | version | verbosity | stats => cases updates

theorem deleteEntry_answers (key : Bytes) (noreply : Bool) (now : UInt64)
    (oldestLive : Option UInt64) (store : Store) :
    Fits (.delete key noreply) (store.deleteEntry key now oldestLive).1 := by
  obtain ⟨stats, result⟩ := Store.deleteEntry_eq now oldestLive store key
  rw [result]
  cases visibleItem now oldestLive store.items key with
  | none => exact .deleteMissed key noreply
  | some item => exact .deleted key noreply

theorem handle_replies {command : Command} (wellFormed : command.WellFormed) (now : UInt64)
    (store : Store) : Fits command (handle now command store).1 := by
  have updates : ∀ {update : Update}, command.update = some update →
      Fits command (handle now command store).1 := by
    intro update updates
    obtain ⟨items, stats, result, _⟩ := handle_update now store updates
    rw [result]
    exact update.effect_answers updates (update_wellFormed updates wellFormed) _ _ _
  have retrieves : ∀ {retrieval : Retrieval} {keys : List Bytes},
      command.retrieval = some (retrieval, keys) →
        Fits command (handle now command store).1 := by
    intro retrieval keys retrieves
    rw [handle_retrieval now store retrieves]
    exact .found retrieves (collect_shown retrieval now _ keys _)
  cases command with
  | get | getAndTouch => exact retrieves rfl
  | store | arithmetic | touch => exact updates rfl
  | delete key noreply => exact deleteEntry_answers key noreply now store.oldestLive store
  | flushAll delay noreply =>
      obtain ⟨stats, result⟩ := Store.flush_eq delay now store
      rw [handle, result]
      exact .flushed delay noreply
  | version => exact .version
  | verbosity level noreply => exact .verbosity level noreply
  | stats => exact .stats store.stats store.itemCount

end Handling

section Texts

theorem asBytes_toString (value : Nat) : asBytes (toString value) = decimal value := by
  have all : ∀ digit ∈ Nat.toDigits 10 value, digit.isDigit = true :=
    fun digit inside => Nat.isDigit_of_mem_toDigits (by omega) (by omega) inside
  have bytes : (Nat.toDigits 10 value).flatMap String.utf8EncodeChar = decimal value := by
    rw [decimal, List.map_eq_flatMap]
    exact List.flatMap_congr fun digit inside => encode_digit (all digit inside)
  have encoded : (toString value).toUTF8 = (Nat.toDigits 10 value).utf8Encode := rfl
  rw [asBytes, encoded, List.utf8Encode, List.data_toByteArray, bytes]

def CleanWord (text : String) : Prop := CleanText text ∧ space ∉ asBytes text

instance (text : String) : Decidable (CleanText text) :=
  decidable_of_iff (cr ∉ asBytes text ∧ lf ∉ asBytes text)
    ⟨fun ⟨first, second⟩ => ⟨first, second⟩, fun clean => ⟨clean.cr, clean.lf⟩⟩

instance (text : String) : Decidable (CleanWord text) :=
  inferInstanceAs (Decidable (CleanText text ∧ space ∉ asBytes text))

theorem cleanWord_toString (value : Nat) : CleanWord (toString value) := by
  refine ⟨⟨?_, ?_⟩, ?_⟩ <;> rw [asBytes_toString] <;> exact not_mem_decimal (by decide)

theorem report_clean (stats : Stats) (currItems : Nat) :
    ∀ entry ∈ stats.report currItems, CleanWord entry.1 ∧ CleanWord entry.2 := by
  intro entry among
  have names : ∀ name ∈ (stats.report currItems).map Prod.fst, CleanWord name := by
    simp only [Stats.report, List.map_cons, List.map_nil]
    decide +kernel
  refine ⟨names entry.1 (List.mem_map_of_mem among), ?_⟩
  have values : ∀ other ∈ stats.report currItems, ∃ value : Nat, other.2 = toString value := by
    simp [Stats.report]
  obtain ⟨value, same⟩ := values entry among
  rw [same]
  exact cleanWord_toString value

end Texts

/-- The error responses that `read_command` writes itself. -/
inductive Refusal : Response → Prop
  | line (error : ParseError) : Refusal error.response
  | chunk : Refusal (.clientError "bad data chunk")
  | overlong : Refusal (.clientError "line too long")

theorem Refusal.wellFormed {response : Response} (refusal : Refusal response) :
    response.WellFormed := by
  cases refusal with
  | line error =>
      obtain ⟨kind, discard⟩ := error
      cases kind with
      | badFormat => exact show CleanText "bad command line format" by decide +kernel
      | numericDelta => exact show CleanText "invalid numeric delta" by decide +kernel
      | numericDelay => exact show CleanText "invalid numeric delay" by decide +kernel
      | tooLarge => exact show CleanText "object too large for cache" by decide +kernel
      | unknown => trivial
  | chunk => exact show CleanText "bad data chunk" by decide +kernel
  | overlong => exact show CleanText "line too long" by decide +kernel

theorem retrieval_wellFormed {command : Command} {retrieval : Retrieval} {keys : List Bytes}
    (retrieves : command.retrieval = some (retrieval, keys)) (wellFormed : command.WellFormed) :
    ∀ key ∈ keys, ValidKey key := by
  cases command with
  | get | getAndTouch =>
      cases retrieves
      exact wellFormed.2
  | store | delete | arithmetic | touch | flushAll | version | verbosity | stats => cases retrieves

/-- All that the server answers to a command that the parser lets through stays on its lines. -/
theorem Fits.wellFormed {command : Command} {response : Response}
    (answers : Fits command response) (wellFormed : command.WellFormed) :
    response.WellFormed := by
  cases answers with
  | found retrieves shown =>
      intro value among
      exact retrieval_wellFormed retrieves wellFormed value.1
        (shown.order.subset (List.mem_map_of_mem among))
  | nonNumeric op key delta noreply =>
      cases op with
      | incr => exact show CleanText "cannot increment non-numeric value" by decide +kernel
      | decr => exact show CleanText "cannot decrement non-numeric value" by decide +kernel
  | version => exact show CleanText "0.2.0" by decide +kernel
  | stats stats currItems => exact ⟨by simp [Stats.report], report_clean stats currItems⟩
  | _ => trivial

end Ousagi
