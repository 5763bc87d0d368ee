import Mathlib.Data.List.Infix
import Mathlib.Data.List.TakeWhile
import Ousagi.ClientsTokens

/-!
Runs of any number of clients in which one item stays: the changes of its data
that take effect do so one after the other, and none is lost or done twice.
-/

namespace Ousagi

open Library

section Numbers

theorem encode_digit {digit : Char} (isDigit : digit.isDigit = true) :
    String.utf8EncodeChar digit = [digit.toUInt8] := by
  have bound := (toUInt8_digit isDigit).2.2
  apply String.utf8EncodeChar_eq_singleton
  rw [Char.utf8Size_eq_one_iff, UInt32.le_iff_toNat_le]
  exact Nat.le_trans bound (by decide)

theorem fromUtf8_digits {digits : List Char} (all : ∀ digit ∈ digits, digit.isDigit = true) :
    fromUtf8 (digits.map Char.toUInt8) = some digits := by
  have bytes : digits.flatMap String.utf8EncodeChar = digits.map Char.toUInt8 := by
    rw [List.map_eq_flatMap]
    exact List.flatMap_congr fun digit inside => encode_digit (all digit inside)
  have encoded : (⟨(digits.map Char.toUInt8).toArray⟩ : ByteArray) = digits.utf8Encode := by
    rw [List.utf8Encode, bytes]
    exact ByteArray.ext List.data_toByteArray.symm
  rw [fromUtf8, encoded, String.fromUTF8?, dif_pos ByteArray.isValidUTF8_utf8Encode, Option.map_some]
  exact congrArg some String.toList_ofList

theorem not_isWhitespace {digit : Char} (isDigit : digit.isDigit = true) :
    isWhitespace digit = false := by
  obtain ⟨_, lower, upper⟩ := toUInt8_digit isDigit
  simp only [isWhitespace, Bool.or_eq_false_iff, Bool.and_eq_false_iff, decide_eq_false_iff_not]
  omega

theorem trim_digits {digits : List Char} (all : ∀ digit ∈ digits, digit.isDigit = true) :
    trim digits = digits := by
  have kept : ∀ {text : List Char}, (∀ digit ∈ text, digit.isDigit = true) →
      text.dropWhile isWhitespace = text := by
    intro text all
    rw [List.dropWhile_eq_self_iff]
    intro nonempty
    rw [not_isWhitespace (all _ (List.getElem_mem _))]
    exact Bool.false_ne_true
  rw [trim, kept all, kept, List.reverse_reverse]
  intro digit inside
  exact all digit (List.mem_reverse.mp inside)

theorem parseU64_digits (value : UInt64) :
    parseU64 (Nat.toDigits 10 value.toNat) = some value := by
  have all : ∀ digit ∈ Nat.toDigits 10 value.toNat, digit.isDigit = true :=
    fun digit inside => Nat.isDigit_of_mem_toDigits (by omega) (by omega) inside
  have unsigned : (Nat.toDigits 10 value.toNat).head? ≠ some '+' := by
    intro sign
    have digit := all _ (List.mem_of_mem_head? (Option.mem_def.mpr sign))
    revert digit
    decide
  simp only [parseU64, if_neg unsigned, Nat.ofDigitChars_ten_toDigits]
  rw [if_pos ⟨Nat.toDigits_ne_nil, List.all_eq_true.mpr all, value.toNat_lt⟩, UInt64.ofNat_toNat]

theorem numericValue_decimal (value : UInt64) : numericValue (decimal value.toNat) = some value := by
  have all : ∀ digit ∈ Nat.toDigits 10 value.toNat, digit.isDigit = true :=
    fun digit inside => Nat.isDigit_of_mem_toDigits (by omega) (by omega) inside
  rw [numericValue, decimal, fromUtf8_digits all, Option.bind_some, trim_digits all,
    parseU64_digits]

end Numbers

structure Performed where
  update : Update
  now : UInt64
  cas : UInt64
  response : Response

variable {Client : Type} [DecidableEq Client]

namespace World

def performed (key : Bytes) (event : ClientEvent Client) (world : World Client) :
    Option Performed :=
  match event with
  | .act client =>
      match world.phase client with
      | .updating update now oldestLive cas =>
          if update.key = key then
            let (response, _) := update.perform now oldestLive cas world.store
            some { update, now, cas, response }
          else none
      | _ => none
  | _ => none

/-- The step does nothing to the item but to read it, to fail on it, or to do one of the changes,
and it does not take it for expired. -/
def spares (changes : Update → Bool) (key : Bytes) (item : Item) (event : ClientEvent Client)
    (world : World Client) : Bool :=
  match event with
  | .act client =>
      match world.phase client with
      | .visiting retrieval now oldestLive (visited :: _) _ =>
          visited ≠ key || !retrieval.touches && !item.isExpired now oldestLive
      | .updating update now oldestLive cas =>
          update.key ≠ key || !item.isExpired now oldestLive &&
            (changes update || (update.perform now oldestLive cas world.store).1.failed)
      | .deleting deleted _ _ => deleted ≠ key
      | _ => true
  | .clear _ cleared => cleared ≠ key
  | .evict evicted => evicted ≠ key
  | _ => true

def quiet : ClientEvent Client → Bool
  | .act _ | .clear _ _ | .evict _ => false
  | _ => true

section Steps

variable {world after : World Client} {key : Bytes} {item current : Item}
  {changes : Update → Bool}

theorem isExpired_same {first second : Item} (deadline : first.expiresAt = second.expiresAt)
    (stored : first.storedAt = second.storedAt) (now : UInt64) (oldestLive : Option UInt64) :
    first.isExpired now oldestLive = second.isExpired now oldestLive := by
  simp only [Item.isExpired, deadline, stored]

theorem visible_current {items : Cache Bytes Item} (found : items.lookup key = some current)
    (deadline : current.expiresAt = item.expiresAt) (stored : current.storedAt = item.storedAt)
    {now : UInt64} {oldestLive : Option UInt64} (alive : item.isExpired now oldestLive = false) :
    visibleItem now oldestLive items key = some current := by
  rw [visibleItem, found]
  simp [Option.filter, Ousagi.alive, isExpired_same deadline stored, alive]

theorem step_quiet {event : ClientEvent Client} (taken : world.step event = some after)
    (nothing : quiet event) : after.store.items = world.store.items := by
  cases step_stepped taken with
  | called client command phase idle begins => exact (command_count command world.store).1
  | timed client now operation during => exact (operation_count operation world.store).1
  | drawn client update now oldestLive during =>
      exact (update_count update world.store.nextCas.2).1
  | scheduled | resumed | refused | cleared | replied => rfl
  | visited | updated | deleted | gathered | flushed | erased | evicted => cases nothing

def Continues (changes : Update → Bool) (key : Bytes) (current : Item) (after : World Client) :
    Option Performed → Prop
  | none => after.store.items.lookup key = some current
  | some entry =>
      (changes entry.update ∨ entry.response.failed) ∧
        entry.response = (entry.update.effect entry.now entry.cas (some current)).1 ∧
        after.store.items.lookup key =
          (entry.update.effect entry.now entry.cas (some current)).2

omit [DecidableEq Client] in
theorem visit_continues {client : Client} {retrieval : Retrieval} {now : UInt64}
    {oldestLive : Option UInt64} {visited : Bytes} {rest : List Bytes} {values : List Value}
    (during : world.phase client = .visiting retrieval now oldestLive (visited :: rest) values)
    (spared : world.spares changes key item (.act client))
    (found : world.store.items.lookup key = some current)
    (deadline : current.expiresAt = item.expiresAt) (stored : current.storedAt = item.storedAt) :
    (retrieval.visit now oldestLive visited world.store).2.items.lookup key = some current := by
  simp only [spares, during] at spared
  obtain ⟨items, stats, result, leaves⟩ :=
    Retrieval.visit_effect now oldestLive world.store retrieval visited
  rw [result]
  by_cases here : visited = key
  · subst here
    simp only [ne_eq, not_true, decide_false, Bool.false_or, Bool.and_eq_true,
      Bool.not_eq_true'] at spared
    rw [leaves.here, visible_current found deadline stored spared.2]
    cases retrieval with
    | get => rfl
    | getAndTouch => cases spared.1
  · rw [leaves.others key (Ne.symm here), found]

theorem perform_continues {client : Client} {update : Update} {now : UInt64}
    {oldestLive : Option UInt64} {cas : UInt64}
    (during : world.phase client = .updating update now oldestLive cas)
    (spared : world.spares changes key item (.act client))
    (found : world.store.items.lookup key = some current)
    (deadline : current.expiresAt = item.expiresAt) (stored : current.storedAt = item.storedAt) :
    Continues changes key current
      ({ world with store := (update.perform now oldestLive cas world.store).2 }.enter client
        (.finished (update.perform now oldestLive cas world.store).1))
      (world.performed key (.act client)) := by
  simp only [spares, during] at spared
  simp only [performed, during]
  obtain ⟨items, stats, result, outcome⟩ :=
    Update.perform_effect now oldestLive cas world.store update
  by_cases here : update.key = key
  · subst here
    simp only [ne_eq, not_true, decide_false, Bool.false_or, Bool.and_eq_true, Bool.or_eq_true,
      Bool.not_eq_true'] at spared
    rw [if_pos rfl]
    rw [visible_current found deadline stored spared.1] at result outcome
    refine ⟨spared.2, congrArg Prod.fst result, ?_⟩
    simp only [enter_store, result]
    rcases outcome with leaves | ⟨_, same, kept⟩
    · exact leaves.here
    · rw [same, kept, found]
  · rw [if_neg here]
    simp only [Continues, enter_store, result]
    rcases outcome with leaves | ⟨_, same, _⟩
    · rw [leaves.others key (Ne.symm here), found]
    · rw [same, found]

theorem step_continues {event : ClientEvent Client} (taken : world.step event = some after)
    (spared : world.spares changes key item event)
    (found : world.store.items.lookup key = some current)
    (deadline : current.expiresAt = item.expiresAt) (stored : current.storedAt = item.storedAt) :
    Continues changes key current after (world.performed key event) := by
  have kept : quiet event → after.store.items.lookup key = some current := by
    intro nothing
    rw [step_quiet taken nothing, found]
  cases step_stepped taken with
  | visited client retrieval now oldestLive visited rest values during =>
      simp only [performed, during]
      exact visit_continues during spared found deadline stored
  | updated client update now oldestLive cas during =>
      exact perform_continues during spared found deadline stored
  | deleted client deleted now oldestLive during =>
      simp only [spares, during] at spared
      simp only [performed, during]
      obtain ⟨stats, result⟩ := Store.deleteEntry_eq now oldestLive world.store deleted
      simp only [Continues, enter_store, result]
      rw [Cache.erase_lookup, if_neg (Ne.symm (of_decide_eq_true spared)), found]
  | gathered client during | flushed client secs now during =>
      simp only [performed, during]
      exact found
  | erased client cleared keys during =>
      simp only [performed, Continues, enter_store]
      rw [Cache.erase_lookup, if_neg (Ne.symm (of_decide_eq_true spared)), found]
  | evicted evicted =>
      simp only [performed, Continues, Store.evict]
      split
      · simp only [Store.count_items]
        rw [Cache.erase_lookup, if_neg (Ne.symm (of_decide_eq_true spared)), found]
      · exact found
  | _ => exact kept rfl

end Steps

/-- What the item is after any log of updates, and what is known of the log, come from the effect
of one more update. -/
theorem run_folds {events : List (ClientEvent Client)} {first last : World Client} {key : Bytes}
    {item : Item} {changes : Update → Bool} {folded : List Performed → Item}
    {known : List Performed → Prop}
    (snoc : ∀ log entry, known log → (changes entry.update ∨ entry.response.failed) →
      entry.response = (entry.update.effect entry.now entry.cas (some (folded log))).1 →
        known (log ++ [entry]) ∧
          (entry.update.effect entry.now entry.cas (some (folded log))).2 =
            some (folded (log ++ [entry])))
    (life : ∀ log, (folded log).expiresAt = item.expiresAt ∧ (folded log).storedAt = item.storedAt)
    (reached : run step events first = some last)
    (spared : Throughout step (fun event world => world.spares changes key item event) events first)
    (start : known []) (found : first.store.items.lookup key = some (folded [])) :
    known (observe step (performed key) events first) ∧
      last.store.items.lookup key = some (folded (observe step (performed key) events first)) := by
  let holds : List Performed → World Client → Prop := fun log world =>
    known log ∧ world.store.items.lookup key = some (folded log)
  have keeps : ∀ {log event before after}, before.spares changes key item event →
      step event before = some after → holds log before →
      holds (log ++ (before.performed key event).toList) after := by
    intro log event before after fine taken ⟨logged, there⟩
    have continues := step_continues taken fine there (life log).1 (life log).2
    cases happens : before.performed key event with
    | none =>
        rw [happens] at continues
        rw [Option.toList_none, List.append_nil]
        exact ⟨logged, continues⟩
    | some entry =>
        rw [happens] at continues
        obtain ⟨allowed, replies, there⟩ := continues
        obtain ⟨longer, next⟩ := snoc log entry logged allowed replies
        exact ⟨longer, there.trans next⟩
  have first : holds [] first := ⟨start, found⟩
  exact run_observed keeps spared reached first

end World

def Performed.token (entry : Performed) : Option UInt64 :=
  if entry.response.failed then none else some entry.cas

def lastToken (item : Item) (log : List Performed) : UInt64 :=
  (log.filterMap Performed.token).getLastD item.cas

theorem lastToken_snoc (item : Item) (log : List Performed) (entry : Performed) :
    lastToken item (log ++ [entry]) =
      if entry.response.failed then lastToken item log else entry.cas := by
  simp only [lastToken, List.filterMap_append]
  by_cases failed : entry.response.failed = true
  · simp [Performed.token, failed]
  · simp [Performed.token, failed]

section Joining

def Update.joins : Update → Bool
  | .store .append _ | .store .prepend _ => true
  | _ => false

def Performed.appended (entry : Performed) : Option Bytes :=
  match entry.update, entry.response with
  | .store .append args, .stored => some args.data
  | _, _ => none

def Performed.prepended (entry : Performed) : Option Bytes :=
  match entry.update, entry.response with
  | .store .prepend args, .stored => some args.data
  | _, _ => none

def joined (item : Item) (log : List Performed) : Item :=
  { item with
    data := (log.filterMap Performed.prepended).reverse.flatten ++ item.data ++
      (log.filterMap Performed.appended).flatten
    cas := lastToken item log }

variable {item : Item} {log : List Performed} {entry : Performed}

theorem joined_failed (failed : entry.response.failed) :
    joined item (log ++ [entry]) = joined item log := by
  have nothing : entry.appended = none ∧ entry.prepended = none := by
    obtain ⟨update, now, cas, response⟩ := entry
    cases response <;> cases failed <;> cases update with
    | store op args => cases op <;> exact ⟨rfl, rfl⟩
    | arithmetic | touch => exact ⟨rfl, rfl⟩
  rw [joined, joined, lastToken_snoc, if_pos failed]
  simp [nothing]

theorem joined_snoc (allowed : entry.update.joins ∨ entry.response.failed)
    (replies : entry.response =
      (entry.update.effect entry.now entry.cas (some (joined item log))).1) :
    (entry.update.joins → entry.response = .stored) ∧
      (entry.update.effect entry.now entry.cas (some (joined item log))).2 =
        some (joined item (log ++ [entry])) := by
  by_cases joins : entry.update.joins = true
  · obtain ⟨update, now, cas, response⟩ := entry
    cases update with
    | store op args =>
        cases op with
        | append =>
            cases replies
            refine ⟨fun _ => rfl, ?_⟩
            simp [Update.effect, joined, lastToken_snoc, Response.failed, Performed.appended,
              Performed.prepended]
        | prepend =>
            cases replies
            refine ⟨fun _ => rfl, ?_⟩
            simp [Update.effect, joined, lastToken_snoc, Response.failed, Performed.appended,
              Performed.prepended]
        | set | add | replace | cas => cases joins
    | arithmetic | touch => cases joins
  · have failed := allowed.resolve_left joins
    refine ⟨fun here => absurd here joins, ?_⟩
    rw [joined_failed failed, Update.effect_failed]
    rw [← replies]
    exact failed

end Joining

namespace World

/-- Appends and prepends of any clients lose no fragment and double none: each kind is there in
its own order, whatever the order of the two kinds. -/
theorem joins_lose_nothing {events : List (ClientEvent Client)} {first last : World Client}
    {key : Bytes} {item : Item} (reached : run step events first = some last)
    (found : first.store.items.lookup key = some item)
    (spared : Throughout step (fun event world => world.spares Update.joins key item event) events
      first) :
    let log := observe step (performed key) events first
    (∀ entry ∈ log, entry.update.joins → entry.response = .stored) ∧
      last.store.items.lookup key = some (joined item log) := by
  let stored : List Performed → Prop := fun log =>
    ∀ entry ∈ log, entry.update.joins → entry.response = .stored
  have snoc : ∀ log entry, stored log → (entry.update.joins ∨ entry.response.failed) →
      entry.response = (entry.update.effect entry.now entry.cas (some (joined item log))).1 →
      stored (log ++ [entry]) ∧
        (entry.update.effect entry.now entry.cas (some (joined item log))).2 =
          some (joined item (log ++ [entry])) := by
    intro log entry known allowed replies
    obtain ⟨here, next⟩ := joined_snoc allowed replies
    refine ⟨?_, next⟩
    intro other among
    rcases List.mem_append.mp among with earlier | now
    · exact known other earlier
    · rw [List.mem_singleton.mp now]
      exact here
  have start : first.store.items.lookup key = some (joined item []) := by
    rw [found]
    simp [joined, lastToken]
  exact run_folds snoc (fun _ => ⟨rfl, rfl⟩) reached spared (by simp [stored]) start

def joinItem : Item := Item.new (ascii "b") 7 0 1 1000

def itemWorld (item : Item) : World Nat :=
  { new with store := { Store.new with items := AList.insert (ascii "k") item ∅ } }

/-- Two clients take their steps in turn, and the one that begins second acts first. -/
def turns (first second : Command) : List (ClientEvent Nat) :=
  [.call 0 first, .call 1 second, .readClock 0 1001, .readClock 1 1002, .readCutoff 0,
    .readCutoff 1, .draw 0, .draw 1, .act 1, .act 0]

def joinCommand (op : StoreOp) (data : String) : Command :=
  .store op
    { key := ascii "k", flags := 0, exptime := 60, data := ascii data, noreply := false, cas := none }

def joinTurns : List (ClientEvent Nat) := turns (joinCommand .append "x") (joinCommand .prepend "y")

theorem turns_lose_nothing :
    ((run step joinTurns (itemWorld joinItem)).getD new).store.items.lookup (ascii "k") =
      some { joinItem with data := ascii "ybx", cas := 1 } :=
  (joins_lose_nothing (show run step joinTurns (itemWorld joinItem) = some _ from rfl)
    (show (itemWorld joinItem).store.items.lookup (ascii "k") = some joinItem by decide)
    (by decide)).2

end World

section Counting

def Update.computes : Update → Bool
  | .arithmetic _ _ _ => true
  | _ => false

def Performed.change (entry : Performed) : Option (ArithmeticOp × UInt64) :=
  match entry.update with
  | .arithmetic op _ delta => some (op, delta)
  | _ => none

def Performed.answer (entry : Performed) : Option Response :=
  entry.change.map fun _ => entry.response

/-- The left fold of the changes, `incr` modulo 2^64 and `decr` down to zero. -/
def total (value : UInt64) (changes : List (ArithmeticOp × UInt64)) : UInt64 :=
  changes.foldl (fun value change => change.1.apply value change.2) value

def counted (item : Item) (value : UInt64) (log : List Performed) : Item :=
  let changes := log.filterMap Performed.change
  { item with
    data := if changes = [] then item.data else decimal (total value changes).toNat
    cas := lastToken item log }

theorem total_snoc (value : UInt64) (changes : List (ArithmeticOp × UInt64))
    (change : ArithmeticOp × UInt64) :
    total value (changes ++ [change]) = change.1.apply (total value changes) change.2 := by
  simp [total]

theorem total_incr (value : UInt64) {changes : List (ArithmeticOp × UInt64)}
    (increments : ∀ change ∈ changes, change.1 = .incr) :
    (total value changes).toNat =
      (value.toNat + (changes.map fun change => change.2.toNat).sum) % 2 ^ 64 := by
  induction changes generalizing value with
  | nil => exact (Nat.mod_eq_of_lt value.toNat_lt).symm
  | cons change rest ih =>
      have first := increments change (List.mem_cons_self ..)
      have later := ih (value + change.2) fun other among =>
        increments other (List.mem_cons_of_mem _ among)
      rw [total, List.foldl_cons, first, ArithmeticOp.apply]
      rw [total] at later
      rw [later, UInt64.toNat_add, List.map_cons, List.sum_cons]
      omega

variable {item : Item} {value : UInt64} {log : List Performed} {entry : Performed}

theorem counted_number (number : numericValue item.data = some value) :
    numericValue (counted item value log).data =
      some (total value (log.filterMap Performed.change)) := by
  simp only [counted]
  by_cases untouched : log.filterMap Performed.change = []
  · rw [if_pos untouched, untouched]
    exact number
  · rw [if_neg untouched]
    exact numericValue_decimal _

theorem counted_snoc (number : numericValue item.data = some value)
    (allowed : entry.update.computes ∨ entry.response.failed)
    (replies : entry.response =
      (entry.update.effect entry.now entry.cas (some (counted item value log))).1) :
    (∀ change, entry.change = some change →
        entry.response = .number (total value (log.filterMap Performed.change ++ [change]))) ∧
      (entry.update.effect entry.now entry.cas (some (counted item value log))).2 =
        some (counted item value (log ++ [entry])) := by
  obtain ⟨update, now, cas, response⟩ := entry
  by_cases computes : update.computes = true
  · cases update with
    | arithmetic op key delta =>
        have read : numericValue (counted item value log).data =
            some (total value (log.filterMap Performed.change)) := counted_number number
        simp only [Update.effect, read] at replies ⊢
        subst replies
        have reached : total value (log.filterMap Performed.change ++ [(op, delta)]) =
            op.apply (total value (log.filterMap Performed.change)) delta := total_snoc ..
        constructor
        · intro change same
          cases same
          rw [reached]
        · simp only [counted, lastToken_snoc, Response.failed, List.filterMap_append,
            List.filterMap_cons, List.filterMap_nil, Performed.change, reached]
          simp
    | store | touch => cases computes
  · have failed := allowed.resolve_left computes
    have nothing : ∀ response, Performed.change { update, now, cas, response } = none := by
      cases update with
      | arithmetic => exact absurd rfl computes
      | store | touch => exact fun _ => rfl
    constructor
    · intro change same
      rw [nothing] at same
      cases same
    · rw [Update.effect_failed]
      · simp [counted, lastToken_snoc, failed, nothing]
      · rw [← replies]
        exact failed

end Counting

namespace World

def countItem : Item := Item.new (decimal 5) 7 0 1 1000

def countTurns : List (ClientEvent Nat) :=
  turns (.arithmetic .incr (ascii "k") 18446744073709551615 false)
    (.arithmetic .incr (ascii "k") 3 false)

end World

end Ousagi
