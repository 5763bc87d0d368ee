import Ousagi.StoreReference

/-!
The lazy store answers as the eager reference does, as long as no delayed flush
replaces a cutoff that still hides items.
-/

namespace Ousagi

open Library

def Item.record (item : Item) : Record :=
  { data := item.data, flags := item.flags, deadline := item.expiresAt.map UInt64.toNat
    storedAt := item.storedAt.toNat, token := item.cas }

theorem resolveExpiry_deadline (exptime : Int64) {now : UInt64} (clock : inRange now) :
    (Item.resolveExpiry exptime now).map UInt64.toNat = resolveDeadline exptime now.toNat := by
  have whole : exptime = 0 ↔ exptime.toInt = 0 := by
    rw [← Int64.toInt_inj, Int64.toInt_zero]
  have sign : exptime < 0 ↔ exptime.toInt < 0 := by
    rw [Int64.lt_iff_toInt_lt, Int64.toInt_zero]
  have month : exptime ≤ thirtyDaysSecs ↔ exptime.toInt ≤ 60 * 60 * 24 * 30 := by
    rw [Int64.le_iff_toInt_le]
    rfl
  simp only [Item.resolveExpiry, resolveDeadline, whole, sign, month]
  by_cases never : exptime.toInt = 0
  · simp [never]
  by_cases past : exptime.toInt < 0
  · simp [never, past]
  have unsigned : exptime.toUInt64.toNat = exptime.toInt.toNat := by
    rw [Int64.toNat_toUInt64_of_le (Int64.le_iff_toInt_le.mpr (by simpa using past)),
      Int64.toNat_toInt]
  by_cases relative : exptime.toInt ≤ 60 * 60 * 24 * 30
  · have room : now.toNat + exptime.toInt.toNat < 2 ^ 64 := by
      simp only [inRange] at clock
      omega
    simp only [never, past, relative, if_true, if_false, Option.map_some, Option.some.injEq]
    rw [UInt64.toNat_add, unsigned, Nat.mod_eq_of_lt room]
  · simp only [never, past, relative, if_false, Option.map_some, unsigned]

theorem isExpired_iff (item : Item) (now : UInt64) (oldestLive : Option UInt64) :
    item.isExpired now oldestLive ↔
      (∃ time, item.expiresAt = some time ∧ time ≤ now) ∨
        ∃ time, oldestLive = some time ∧ time ≤ now ∧ item.storedAt < time := by
  simp only [Item.isExpired]
  cases item.expiresAt <;> cases oldestLive <;> simp

theorem Record.dead_iff (record : Record) (now : Nat) (cutoff : Option Nat) :
    record.dead now cutoff ↔
      (∃ time, record.deadline = some time ∧ time ≤ now) ∨
        ∃ time, cutoff = some time ∧ time ≤ now ∧ record.storedAt < time := by
  simp only [Record.dead, Bool.or_eq_true, Option.any_eq_true, Bool.and_eq_true,
    decide_eq_true_eq]

theorem isExpired_record (item : Item) (now : UInt64) (oldestLive : Option UInt64) :
    item.isExpired now oldestLive =
      item.record.dead now.toNat (oldestLive.map UInt64.toNat) := by
  rw [Bool.eq_iff_iff, isExpired_iff, Record.dead_iff]
  simp [Item.record, UInt64.le_iff_toNat_le, UInt64.lt_iff_toNat_lt]

theorem alive_record (item : Item) (now : UInt64) (oldestLive : Option UInt64) :
    alive now oldestLive item = !item.record.dead now.toNat (oldestLive.map UInt64.toNat) := by
  rw [alive, isExpired_record]

theorem Record.dead_later {record : Record} {now later : Nat} {cutoff : Option Nat}
    (after : now ≤ later) (gone : record.dead now cutoff) : record.dead later cutoff := by
  rw [Record.dead_iff] at gone ⊢
  rcases gone with ⟨time, known, past⟩ | ⟨time, known, past, older⟩
  · exact Or.inl ⟨time, known, by omega⟩
  · exact Or.inr ⟨time, known, by omega, older⟩

theorem Eager.find_later {eager : Eager} {now later : Nat} (after : now ≤ later) (key : Bytes) :
    eager.find later key = (eager.find now key).filter fun record =>
      !record.dead later eager.cutoff := by
  rw [Eager.find, Eager.find, Option.filter_filter]
  congr 1
  funext record
  cases gone : record.dead now eager.cutoff with
  | true => simp [Record.dead_later after gone]
  | false => simp

theorem filter_record (now : UInt64) (oldestLive : Option UInt64) (found : Option Item) :
    (found.map Item.record).filter (fun record =>
        !record.dead now.toNat (oldestLive.map UInt64.toNat)) =
      (found.filter (alive now oldestLive)).map Item.record := by
  cases found with
  | none => rfl
  | some item =>
      simp only [Option.map_some, Option.filter, alive_record]
      split <;> rfl

theorem isExpired_scheduled (item : Item) {now time : UInt64} (ahead : now < time) :
    item.isExpired now (some time) = item.isExpired now none := by
  have before : ¬time ≤ now := UInt64.not_le.mpr ahead
  rw [Bool.eq_iff_iff, isExpired_iff, isExpired_iff]
  simp [before]

theorem filter_alive_alive {now : UInt64} {first second : Option UInt64} (found : Option Item)
    (kept : ∀ item, found = some item → item.isExpired now first → item.isExpired now second) :
    found.filter (alive now second) =
      (found.filter (alive now first)).filter (alive now second) := by
  cases found with
  | none => rfl
  | some item =>
      rw [Option.filter_filter]
      cases gone : item.isExpired now first with
      | true => simp [Option.filter, alive, gone, kept item rfl gone]
      | false => simp [Option.filter, alive, gone]

/-- The reference and the store hold the same items, each as far as a client can see. -/
structure Agrees (now : UInt64) (store : Store) (eager : Eager) : Prop where
  counter : eager.counter = store.nextCasCell
  cutoff : eager.cutoff = store.oldestLive.map UInt64.toNat
  found : ∀ key, eager.find now.toNat key = (store.visible now key).map Item.record

structure Mirrors (now : UInt64) (store : Store) (eager : Eager) : Prop where
  counter : eager.counter = store.nextCasCell
  cutoff : eager.cutoff = store.oldestLive.map UInt64.toNat
  records : ∀ key, eager.records key = (store.visible now key).map Item.record

section Agreement

variable {now : UInt64} {store after : Store} {eager later : Eager}

theorem Agrees.advance {moment : UInt64} (agrees : Agrees now store eager) (ahead : now ≤ moment) :
    Agrees moment store eager := by
  refine ⟨agrees.counter, agrees.cutoff, ?_⟩
  intro key
  rw [Eager.find_later (UInt64.le_iff_toNat_le.mp ahead), agrees.found, agrees.cutoff,
    visible_later ahead, filter_record]

theorem Agrees.purge (agrees : Agrees now store eager) :
    Mirrors now store (eager.purge now.toNat) :=
  ⟨agrees.counter, agrees.cutoff, agrees.found⟩

theorem agrees_of_items (counter : later.counter = after.nextCasCell)
    (cutoff : later.cutoff = after.oldestLive.map UInt64.toNat) (items : Bytes → Option Item)
    (seen : ∀ key, after.visible now key = (items key).filter (alive now after.oldestLive))
    (kept : ∀ key, later.records key = (items key).map Item.record) :
    Agrees now after later := by
  refine ⟨counter, cutoff, ?_⟩
  intro key
  rw [Eager.find, kept, cutoff, filter_record, seen]

theorem Mirrors.agrees (mirrors : Mirrors now store eager) : Agrees now store eager :=
  agrees_of_items mirrors.counter mirrors.cutoff (store.visible now)
    (fun key => (visible_alive store now key).symm) mirrors.records

theorem Mirrors.entry (mirrors : Mirrors now store eager) {α : Type} {live : Item → α × Item}
    {key : Bytes}
    (items : after.items = (store.items.entry key (liveOnly now store.oldestLive live)).2)
    (cell : after.oldestLiveCell = store.oldestLiveCell)
    (counter : later.counter = after.nextCasCell) (cutoff : later.cutoff = eager.cutoff)
    (here : later.records key = (store.visible now key).map fun item => (live item).2.record)
    (there : ∀ other, other ≠ key → later.records other = eager.records other) :
    Agrees now after later := by
  have sameCutoff : after.oldestLive = store.oldestLive := by simp only [Store.oldestLive, cell]
  apply agrees_of_items counter (by rw [cutoff, mirrors.cutoff, sameCutoff]) fun other =>
    if other = key then (store.visible now key).map fun item => (live item).2
    else store.visible now other
  · intro other
    rw [Store.visible, sameCutoff, items, entry_visible]
    by_cases same : other = key
    · simp only [if_pos same]
      rfl
    · simp only [if_neg same]
      exact (visible_alive store now other).symm
  · intro other
    by_cases same : other = key
    · simp only [if_pos same]
      rw [same, here, Option.map_map]
      rfl
    · simp only [if_neg same]
      rw [there other same, mirrors.records]

/-- An operation that finds nothing to change draws its token all the same. -/
theorem Mirrors.keep (mirrors : Mirrors now store eager) {α : Type} {live : Item → α × Item}
    {key : Bytes} {stats : Stats}
    (kept : ∀ item, store.visible now key = some item → (live item).2 = item) :
    Agrees now
      { store with
        items := (store.items.entry key (liveOnly now store.oldestLive live)).2
        nextCasCell := store.nextCasCell + 1
        stats }
      eager.draw.2 := by
  refine mirrors.entry rfl rfl ?_ rfl ?_ fun _ _ => rfl
  · simp [Eager.draw, mirrors.counter]
  · simp only [Eager.draw, mirrors.records]
    cases found : store.visible now key with
    | none => rfl
    | some item => simp [kept item found]

theorem Mirrors.change (mirrors : Mirrors now store eager) {α : Type} {live : Item → α × Item}
    {key : Bytes} {item : Item} {record : Record} {stats : Stats}
    (found : store.visible now key = some item) (same : (live item).2.record = record) :
    Agrees now
      { store with
        items := (store.items.entry key (liveOnly now store.oldestLive live)).2
        nextCasCell := store.nextCasCell + 1
        stats }
      (eager.draw.2.put key (some record)) := by
  refine mirrors.entry rfl rfl ?_ rfl ?_ ?_
  · simp [Eager.put, Eager.draw, mirrors.counter]
  · simp [Eager.put, found, same]
  · intro other different
    simp [Eager.put, Eager.draw, different]

theorem Mirrors.write (mirrors : Mirrors now store eager) {key : Bytes} {item : Item}
    {record : Record} {items : Cache Bytes Item} {stats : Stats}
    (written : ∀ other, visibleItem now store.oldestLive items other =
      visibleItem now store.oldestLive (AList.insert key item store.items) other)
    (same : item.record = record) :
    Agrees now { store with items, nextCasCell := store.nextCasCell + 1, stats }
      (eager.draw.2.put key (some record)) := by
  refine agrees_of_items (by simp [Eager.put, Eager.draw, mirrors.counter]) mirrors.cutoff
    (fun other => if other = key then some item else store.visible now other) ?_ ?_
  · intro other
    rw [Store.visible]
    refine (written other).trans ?_
    rw [insert_visible]
    by_cases here : other = key
    · simp only [if_pos here]
      rfl
    · simp only [if_neg here]
      exact (visible_alive store now other).symm
  · intro other
    by_cases here : other = key
    · simp [Eager.put, here, same]
    · simp [Eager.put, Eager.draw, here, mirrors.records]

end Agreement

def Answers (now : UInt64) (left : Response × Store) (right : Response × Eager) : Prop :=
  left.1 = right.1 ∧ Agrees now left.2 right.2

section Operations

variable {now : UInt64} {store : Store} {eager : Eager}

theorem Mirrors.fresh (mirrors : Mirrors now store eager) (clock : inRange now)
    (args : StoreArgs) :
    (Item.new args.data args.flags args.exptime store.nextCasCell now).record =
      Record.ofArgs args eager.counter now.toNat := by
  simp only [Item.record, Item.new, Record.ofArgs, resolveExpiry_deadline _ clock, mirrors.counter]

theorem get_answers (mirrors : Mirrors now store eager) (keys : List Bytes) (withCas : Bool) :
    Answers now (store.get keys withCas now)
      (.values (keys.filterMap fun key => (eager.records key).map (Record.value withCas key)),
        eager) := by
  obtain ⟨items, stats, result, kept⟩ := Store.get_eq keys withCas now store
  rw [result]
  constructor
  · simp only [mirrors.records, Option.map_map]
    rfl
  · refine agrees_of_items mirrors.counter mirrors.cutoff (store.visible now) ?_ mirrors.records
    intro key
    exact (kept key).trans (visible_alive store now key).symm

theorem set_answers (mirrors : Mirrors now store eager) (clock : inRange now) (args : StoreArgs) :
    Answers now (store.store .set args now) (eager.store .set args now.toNat) := by
  obtain ⟨stats, result⟩ := Store.set_eq args now store
  rw [result]
  exact ⟨rfl, mirrors.write (fun _ => rfl) (mirrors.fresh clock args)⟩

theorem add_answers (mirrors : Mirrors now store eager) (clock : inRange now) (args : StoreArgs) :
    Answers now (store.store .add args now) (eager.store .add args now.toNat) := by
  obtain ⟨items, stats, result, looked⟩ := Store.add_eq args now store
  rw [result]
  have held := mirrors.records args.key
  cases found : store.visible now args.key with
  | none =>
      rw [found] at held looked
      have wrote : eager.store .add args now.toNat = (.stored, eager.draw.2.put args.key
          (some (Record.ofArgs args eager.counter now.toNat))) := by
        simp [Eager.store, Eager.draw, held]
      rw [wrote]
      refine ⟨rfl, mirrors.write ?_ (mirrors.fresh clock args)⟩
      intro other
      rw [visibleItem, looked, visibleItem, Cache.insert_lookup]
      rfl
  | some item =>
      rw [found] at held looked
      have refused : eager.store .add args now.toNat = (.notStored, eager.draw.2) := by
        simp [Eager.store, Eager.draw, held]
      rw [refused]
      refine ⟨rfl, agrees_of_items ?_ mirrors.cutoff (store.visible now) ?_ mirrors.records⟩
      · simp [Eager.draw, mirrors.counter]
      · intro other
        rw [Store.visible, visibleItem, looked]
        by_cases same : other = args.key
        · rw [if_pos same, same, found]
          rfl
        · rw [if_neg same]
          exact (visible_alive store now other).symm

theorem replace_answers (mirrors : Mirrors now store eager) (clock : inRange now)
    (args : StoreArgs) :
    Answers now (store.store .replace args now) (eager.store .replace args now.toNat) := by
  obtain ⟨stats, result⟩ := Store.replace_eq args now store
  rw [result]
  have held := mirrors.records args.key
  cases found : store.visible now args.key with
  | none =>
      rw [found] at held
      have missed : eager.store .replace args now.toNat = (.notStored, eager.draw.2) := by
        simp [Eager.store, Eager.draw, held]
      rw [missed]
      exact ⟨rfl, mirrors.keep (by simp [found])⟩
  | some item =>
      rw [found] at held
      have wrote : eager.store .replace args now.toNat = (.stored, eager.draw.2.put args.key
          (some (Record.ofArgs args eager.counter now.toNat))) := by
        simp [Eager.store, Eager.draw, held]
      rw [wrote]
      exact ⟨rfl, mirrors.change found (mirrors.fresh clock args)⟩

theorem concat_answers (mirrors : Mirrors now store eager) {op : StoreOp}
    (isConcat : op = .append ∨ op = .prepend) (args : StoreArgs) :
    Answers now (store.store op args now) (eager.store op args now.toNat) := by
  obtain ⟨stats, result⟩ := Store.concat_eq args now store isConcat
  rw [result]
  have held := mirrors.records args.key
  cases found : store.visible now args.key with
  | none =>
      rw [found] at held
      have missed : eager.store op args now.toNat = (.notStored, eager.draw.2) := by
        rcases isConcat with same | same <;> simp [same, Eager.store, Eager.draw, held]
      rw [missed]
      exact ⟨rfl, mirrors.keep (by simp [found])⟩
  | some item =>
      rw [found] at held
      have wrote : eager.store op args now.toNat = (.stored, eager.draw.2.put args.key
          (some { item.record with
            data := if op = .append then item.data ++ args.data else args.data ++ item.data
            token := eager.counter })) := by
        rcases isConcat with same | same <;>
          simp [same, Eager.store, Eager.draw, held, Item.record]
      rw [wrote]
      refine ⟨rfl, mirrors.change found ?_⟩
      rcases isConcat with same | same <;> simp [same, Item.record, mirrors.counter]

theorem cas_answers (mirrors : Mirrors now store eager) (clock : inRange now) (args : StoreArgs) :
    Answers now (store.store .cas args now) (eager.store .cas args now.toNat) := by
  have held := mirrors.records args.key
  cases token : args.cas with
  | none =>
      rw [Store.casMissing_eq args now store token]
      have refused : eager.store .cas args now.toNat =
          (.serverError "missing cas value", eager.draw.2) := by
        simp [Eager.store, Eager.draw, token]
      rw [refused]
      refine ⟨rfl, agrees_of_items ?_ mirrors.cutoff (store.visible now) ?_ mirrors.records⟩
      · simp [Eager.draw, Store.nextCas, mirrors.counter]
      · exact fun key => (visible_alive store now key).symm
  | some expected =>
      obtain ⟨stats, result⟩ := Store.cas_eq args now store token
      rw [result]
      cases found : store.visible now args.key with
      | none =>
          rw [found] at held
          have missed : eager.store .cas args now.toNat = (.notFound, eager.draw.2) := by
            simp [Eager.store, Eager.draw, token, held]
          rw [missed]
          exact ⟨rfl, mirrors.keep (by simp [found])⟩
      | some item =>
          rw [found] at held
          by_cases same : item.cas = expected
          · have wrote : eager.store .cas args now.toNat = (.stored, eager.draw.2.put args.key
                (some (Record.ofArgs args eager.counter now.toNat))) := by
              simp [Eager.store, Eager.draw, token, held, Item.record, same]
            rw [wrote]
            refine ⟨by simp [same], mirrors.change found ?_⟩
            simp [same, mirrors.fresh clock args]
          · have refused : eager.store .cas args now.toNat = (.exists, eager.draw.2) := by
              simp [Eager.store, Eager.draw, token, held, Item.record, same]
            rw [refused]
            exact ⟨by simp [same], mirrors.keep (by simp [found, same])⟩

theorem store_answers (mirrors : Mirrors now store eager) (clock : inRange now) (op : StoreOp)
    (args : StoreArgs) :
    Answers now (store.store op args now) (eager.store op args now.toNat) := by
  cases op with
  | set => exact set_answers mirrors clock args
  | add => exact add_answers mirrors clock args
  | replace => exact replace_answers mirrors clock args
  | append => exact concat_answers mirrors (Or.inl rfl) args
  | prepend => exact concat_answers mirrors (Or.inr rfl) args
  | cas => exact cas_answers mirrors clock args

theorem delete_agrees (mirrors : Mirrors now store eager) (key : Bytes) {stats : Stats} :
    Agrees now { store with items := AList.erase key store.items, stats } (eager.put key none) := by
  refine agrees_of_items mirrors.counter mirrors.cutoff
    (fun other => if other = key then none else store.visible now other) ?_ ?_
  · intro other
    refine (erase_visible now store.oldestLive store.items key other).trans ?_
    by_cases here : other = key
    · simp [here]
    · simp only [if_neg here]
      exact (visible_alive store now other).symm
  · intro other
    by_cases here : other = key
    · simp [Eager.put, here]
    · simp [Eager.put, here, mirrors.records]

theorem delete_answers (mirrors : Mirrors now store eager) (key : Bytes) :
    Answers now (store.delete key now)
      (match eager.records key with
      | none => (.notFound, eager)
      | some _ => (.deleted, eager.put key none)) := by
  obtain ⟨stats, result⟩ := Store.delete_eq now store key
  have erased : Agrees now { store with items := AList.erase key store.items, stats }
      (eager.put key none) := delete_agrees mirrors key
  have held := mirrors.records key
  rw [result]
  cases found : store.visible now key with
  | none =>
      rw [found] at held
      have same : eager.put key none = eager := by
        rw [Eager.put, ← Option.map_none, ← held, Function.update_eq_self]
      rw [held]
      rw [same] at erased
      exact ⟨rfl, erased⟩
  | some item =>
      rw [found] at held
      rw [held]
      exact ⟨rfl, erased⟩

theorem arithmetic_answers (mirrors : Mirrors now store eager) (op : ArithmeticOp) (key : Bytes)
    (delta : UInt64) :
    Answers now (store.arithmetic op key delta now) (eager.arithmetic op key delta) := by
  obtain ⟨stats, result⟩ := Store.arithmetic_eq now store op key delta
  rw [result]
  have held := mirrors.records key
  cases found : store.visible now key with
  | none =>
      rw [found] at held
      have missed : eager.arithmetic op key delta = (.notFound, eager.draw.2) := by
        simp [Eager.arithmetic, Eager.draw, held]
      rw [missed]
      exact ⟨rfl, mirrors.keep (by simp [found])⟩
  | some item =>
      rw [found] at held
      cases number : numericValue item.data with
      | none =>
          have refused : eager.arithmetic op key delta = (.clientError op.error, eager.draw.2) := by
            simp [Eager.arithmetic, Eager.draw, held, Item.record, number]
          rw [refused]
          exact ⟨by simp [number], mirrors.keep (by simp [found, number])⟩
      | some value =>
          have wrote : eager.arithmetic op key delta = (.number (op.apply value delta),
              eager.draw.2.put key (some { item.record with
                data := decimal (op.apply value delta).toNat, token := eager.counter })) := by
            simp [Eager.arithmetic, Eager.draw, held, Item.record, number]
          rw [wrote]
          refine ⟨by simp [number], mirrors.change found ?_⟩
          simp [number, Item.record, mirrors.counter]

theorem touch_answers (mirrors : Mirrors now store eager) (clock : inRange now) (key : Bytes)
    (exptime : Int64) :
    Answers now (store.touch key exptime now) (eager.touch key exptime now.toNat) := by
  obtain ⟨stats, result⟩ := Store.touch_eq now store key exptime
  rw [result]
  have held := mirrors.records key
  cases found : store.visible now key with
  | none =>
      rw [found] at held
      have missed : eager.touch key exptime now.toNat = (.notFound, eager.draw.2) := by
        simp [Eager.touch, Eager.draw, held]
      rw [missed]
      exact ⟨rfl, mirrors.keep (by simp [found])⟩
  | some item =>
      rw [found] at held
      have wrote : eager.touch key exptime now.toNat = (.touched, eager.draw.2.put key
          (some { item.record with
            deadline := resolveDeadline exptime now.toNat, token := eager.counter })) := by
        simp [Eager.touch, Eager.draw, held, Item.record]
      rw [wrote]
      refine ⟨rfl, mirrors.change found ?_⟩
      simp [Item.record, resolveExpiry_deadline _ clock, mirrors.counter]

theorem touchKey_agrees (agrees : Agrees now store eager) (clock : inRange now) (exptime : Int64)
    (withCas : Bool) (key : Bytes) :
    (store.getAndTouchKey exptime now store.oldestLive withCas key).1 =
        (eager.touchKey exptime now.toNat withCas key).1 ∧
      Agrees now (store.getAndTouchKey exptime now store.oldestLive withCas key).2
        (eager.touchKey exptime now.toNat withCas key).2 := by
  obtain ⟨stats, result⟩ := Store.getAndTouchKey_eq exptime now store.oldestLive withCas key store
  have mirrors := agrees.purge
  have held := mirrors.records key
  rw [result]
  cases found : store.visible now key with
  | none =>
      rw [found] at held
      have missed : eager.touchKey exptime now.toNat withCas key =
          (none, eager.purge now.toNat) := by
        simp [Eager.touchKey, held]
      rw [missed]
      rw [Store.visible] at found
      rw [found]
      refine ⟨rfl, mirrors.entry rfl rfl mirrors.counter rfl ?_ fun _ _ => rfl⟩
      rw [mirrors.records, Store.visible, found]
      rfl
  | some item =>
      rw [found] at held
      have wrote : eager.touchKey exptime now.toNat withCas key =
          (some (key, item.flags, item.data, if withCas then some eager.counter else none),
            (eager.purge now.toNat).draw.2.put key (some { item.record with
              deadline := resolveDeadline exptime now.toNat, token := eager.counter })) := by
        simp only [Eager.touchKey, held, Option.map_some]
        rfl
      rw [wrote]
      have shown := found
      rw [Store.visible] at shown
      rw [shown]
      refine ⟨by simp [agrees.counter], mirrors.change found ?_⟩
      simp [Item.record, resolveExpiry_deadline _ clock, agrees.counter]

theorem getAndTouch_answers (agrees : Agrees now store eager) (clock : inRange now)
    (keys : List Bytes) (exptime : Int64) (withCas : Bool) :
    Answers now (store.getAndTouch keys exptime withCas now)
      (eager.execute now.toNat (.getAndTouch keys exptime withCas)) := by
  let related := fun (state : Store) (reference : Eager) =>
    Agrees now state reference ∧ state.oldestLive = store.oldestLive
  have start : related (store.count .cmdGet keys.length) (eager.purge now.toNat) :=
    ⟨⟨agrees.counter, agrees.cutoff, agrees.purge.agrees.found⟩, rfl⟩
  have step : ∀ (key : Bytes) (state : Store) (reference : Eager), True →
      related state reference →
      (state.getAndTouchKey exptime now store.oldestLive withCas key).1 =
          (reference.touchKey exptime now.toNat withCas key).1 ∧
        related (state.getAndTouchKey exptime now store.oldestLive withCas key).2
          (reference.touchKey exptime now.toNat withCas key).2 := by
    intro key state reference _ before
    obtain ⟨agreed, cutoff⟩ := before
    have one := touchKey_agrees agreed clock exptime withCas key
    rw [cutoff] at one
    refine ⟨one.1, one.2, ?_⟩
    obtain ⟨stats, result⟩ :=
      Store.getAndTouchKey_eq exptime now store.oldestLive withCas key state
    rw [result]
    exact cutoff
  have run := collect_simulates step
    (allowedRun_of_forall (fun _ _ => trivial) keys (store.count .cmdGet keys.length)) start
  exact ⟨congrArg Response.values run.1, run.2.1⟩

theorem flushAll_cutoff (clock : inRange now) {secs : UInt32} (delayed : secs ≠ 0)
    (store : Store) :
    ∃ cutoff, (store.flushAll secs now).oldestLive = some cutoff ∧ now < cutoff ∧
      cutoff.toNat = now.toNat + secs.toNat := by
  have width := secs.toNat_lt
  have positive : secs.toNat ≠ 0 := fun zero => delayed (UInt32.toNat_inj.mp zero)
  have later : (now + secs.toUInt64).toNat = now.toNat + secs.toNat := by
    simp only [inRange] at clock
    rw [UInt64.toNat_add, UInt32.toNat_toUInt64, Nat.mod_eq_of_lt (by omega)]
  refine ⟨now + secs.toUInt64, ?_, ?_, later⟩
  · have nonzero : now + secs.toUInt64 ≠ 0 := by
      intro zero
      rw [zero, UInt64.toNat_zero] at later
      omega
    exact if_neg nonzero
  · rw [UInt64.lt_iff_toNat_lt, later]
    omega

theorem flush_answers (mirrors : Mirrors now store eager) (clock : inRange now)
    (delay : Option UInt32)
    (keepsDead : delay.getD 0 ≠ 0 → ∀ entry ∈ store.items.entries,
      entry.2.isExpired now store.oldestLive → entry.2.isExpired now none) :
    Answers now (store.flush delay now) (eager.flush (delay.getD 0).toNat now.toNat) := by
  obtain ⟨stats, result⟩ := Store.flush_eq delay now store
  rw [result]
  by_cases immediate : delay.getD 0 = 0
  · rw [if_pos immediate, Eager.flush, immediate, if_pos (by rfl)]
    refine ⟨rfl, agrees_of_items mirrors.counter mirrors.cutoff (fun _ => none) ?_ fun _ => rfl⟩
    intro key
    simp [Store.visible, visibleItem]
  · obtain ⟨cutoff, scheduled, ahead, moment⟩ := flushAll_cutoff clock immediate store
    have positive : (delay.getD 0).toNat ≠ 0 := fun zero => immediate (UInt32.toNat_inj.mp zero)
    rw [if_neg immediate, Eager.flush, if_neg positive]
    refine ⟨rfl, agrees_of_items mirrors.counter ?_ (store.visible now) ?_ mirrors.records⟩
    · simp only [Store.oldestLive] at scheduled ⊢
      rw [scheduled, Option.map_some, moment]
    · intro key
      refine filter_alive_alive (store.items.lookup key) fun item present expired => ?_
      simp only [Store.oldestLive] at scheduled ⊢
      rw [scheduled, isExpired_scheduled item ahead]
      exact keepsDead immediate ⟨key, item⟩ (AList.mem_lookup_iff.mp present) expired

theorem handle_answers (agrees : Agrees now store eager) (clock : inRange now)
    (command : Command) (inStore : command ≠ .stats)
    (keepsDead : (StoreStep.command command).KeepsDead ⟨now, store⟩) :
    Answers now (handle now command store) (eager.execute now.toNat command) := by
  have mirrors := agrees.purge
  cases command with
  | get keys withCas => exact get_answers mirrors keys withCas
  | store op args => exact store_answers mirrors clock op args
  | delete key noreply => exact delete_answers mirrors key
  | arithmetic op key delta noreply => exact arithmetic_answers mirrors op key delta
  | getAndTouch keys exptime withCas => exact getAndTouch_answers agrees clock keys exptime withCas
  | touch key exptime noreply => exact touch_answers mirrors clock key exptime
  | flushAll delay noreply =>
      refine flush_answers mirrors clock delay fun delayed => keepsDead ?_
      simpa [StoreStep.schedules] using delayed
  | version => exact ⟨rfl, mirrors.agrees⟩
  | verbosity level noreply => exact ⟨rfl, mirrors.agrees⟩
  | stats => exact absurd rfl inStore

theorem evict_agrees (agrees : Agrees now store eager) (key : Bytes) :
    Agrees now (store.evict key) (eager.put key none) := by
  have cells : (store.evict key).nextCasCell = store.nextCasCell ∧
      (store.evict key).oldestLive = store.oldestLive := by
    simp only [Store.evict]
    split <;> exact ⟨rfl, rfl⟩
  refine ⟨agrees.counter.trans cells.1.symm, by rw [cells.2]; exact agrees.cutoff, ?_⟩
  intro other
  rw [evict_visible]
  by_cases same : other = key
  · simp [Eager.find, Eager.put, same]
  · rw [if_neg same, ← agrees.found]
    simp [Eager.find, Eager.put, same]

end Operations

def Clocked.Agree (left : Clocked Store) (right : Clocked Eager) : Prop :=
  left.now = right.now ∧ inRange left.now ∧ Agrees left.now left.state right.state

theorem Clocked.step_agrees (step : StoreStep) (left : Clocked Store) (right : Clocked Eager)
    (allowed : step.Admissible left ∧ step.KeepsDead left) (agree : left.Agree right) :
    (lazyStep step left).1 = (eagerStep step right).1 ∧
      (lazyStep step left).2.Agree (eagerStep step right).2 := by
  obtain ⟨now, store⟩ := left
  obtain ⟨moment, eager⟩ := right
  obtain ⟨same, clock, agrees⟩ := agree
  obtain ⟨admissible, keepsDead⟩ := allowed
  simp only at same clock agrees
  subst same
  cases step with
  | tick later => exact ⟨rfl, rfl, admissible.2, agrees.advance admissible.1⟩
  | command command =>
      obtain ⟨response, after⟩ := handle_answers agrees clock command admissible keepsDead
      exact ⟨congrArg some response, rfl, clock, after⟩
  | evict key => exact ⟨rfl, rfl, clock, evict_agrees agrees key⟩

theorem Agrees.new (now : UInt64) : Agrees now Store.new Eager.new :=
  ⟨rfl, rfl, fun _ => rfl⟩

section Flushes

def flushArgs : StoreArgs :=
  { key := ascii "k", flags := 0, exptime := 0, data := ascii "v", noreply := false, cas := none }

def collectedFlushes : List StoreStep :=
  [.command (.store .set flushArgs), .command (.flushAll (some 10) false), .tick 1011,
    .command (.get [ascii "k"] false), .command (.flushAll (some 100) false),
    .command (.getAndTouch [ascii "k"] 60 false), .command (.store .add flushArgs),
    .command (.getAndTouch [ascii "k"] 60 true), .tick 1071, .command (.touch (ascii "k") 60 false)]

/-- The second flush finds the item that the first one hides, and puts off its cutoff. -/
def resurrected : List StoreStep :=
  [.command (.store .set flushArgs), .command (.flushAll (some 10) false), .tick 1011,
    .command (.flushAll (some 100) false), .command (.get [ascii "k"] false)]

end Flushes

end Ousagi
