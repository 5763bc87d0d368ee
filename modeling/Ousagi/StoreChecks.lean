import Ousagi.StoreCore

/-!
What each operation of the store does to the visible items: those that are in
the cache and not expired at the time of the operation.
-/

namespace Ousagi

open Library

section Visible

variable (now : UInt64) (oldestLive : Option UInt64)

def alive (item : Item) : Bool := !item.isExpired now oldestLive

def visibleItem (items : Cache Bytes Item) (key : Bytes) : Option Item :=
  (items.lookup key).filter (alive now oldestLive)

variable {α : Type} (live : Item → α × Item)

theorem liveOnly_result (found : Option Item) :
    Cache.entryResult (liveOnly now oldestLive live) found =
      match found.filter (alive now oldestLive) with
      | some item => .retained (live item).1
      | none => if found.isSome then .removed else .vacant := by
  cases found with
  | none => rfl
  | some item => cases expired : item.isExpired now oldestLive <;>
      simp [Cache.entryResult, liveOnly, Option.filter, alive, expired]

theorem liveOnly_value (found : Option Item) :
    Cache.entryValue (liveOnly now oldestLive live) found =
      (found.filter (alive now oldestLive)).map fun item => (live item).2 := by
  cases found with
  | none => rfl
  | some item => cases expired : item.isExpired now oldestLive <;>
      simp [Cache.entryValue, liveOnly, alive, expired]

theorem entry_visible (items : Cache Bytes Item) (key other : Bytes) :
    visibleItem now oldestLive (items.entry key (liveOnly now oldestLive live)).2 other =
      if other = key then
        ((visibleItem now oldestLive items key).map fun item => (live item).2).filter
          (alive now oldestLive)
      else visibleItem now oldestLive items other := by
  rw [visibleItem, Cache.entry_lookup]
  split
  · rw [liveOnly_value, visibleItem]
  · rfl

theorem entry_outcome (items : Cache Bytes Item) (key : Bytes) :
    (items.entry key (liveOnly now oldestLive live)).1 =
      match visibleItem now oldestLive items key with
      | some item => .retained (live item).1
      | none => if (items.lookup key).isSome then .removed else .vacant := by
  rw [Cache.entry_result, liveOnly_result, visibleItem]

theorem insert_visible (items : Cache Bytes Item) (key other : Bytes) (item : Item) :
    visibleItem now oldestLive (AList.insert key item items) other =
      if other = key then (some item).filter (alive now oldestLive)
      else visibleItem now oldestLive items other := by
  rw [visibleItem, Cache.insert_lookup]
  split <;> rfl

theorem erase_visible (items : Cache Bytes Item) (key other : Bytes) :
    visibleItem now oldestLive (AList.erase key items) other =
      if other = key then none else visibleItem now oldestLive items other := by
  rw [visibleItem, Cache.erase_lookup]
  split <;> rfl

end Visible

def Response.entries : Response → List (Bytes × UInt32 × Bytes × Option UInt64)
  | .values found => found
  | _ => []

namespace Store

def visible (store : Store) (now : UInt64) (key : Bytes) : Option Item :=
  visibleItem now store.oldestLive store.items key

section Count

variable (counter : Counter) (amount : Nat) (store : Store)

@[simp] theorem count_items : (store.count counter amount).items = store.items := rfl

@[simp] theorem count_nextCasCell :
    (store.count counter amount).nextCasCell = store.nextCasCell := rfl

@[simp] theorem count_oldestLive :
    (store.count counter amount).oldestLive = store.oldestLive := rfl

end Count

theorem getKey_eq (now : UInt64) (oldestLive : Option UInt64) (withCas : Bool) (key : Bytes)
    (store : Store) :
    ∃ stats, store.getKey now oldestLive withCas key =
      ((visibleItem now oldestLive store.items key).map fun item =>
          (key, item.flags, item.data, if withCas then some item.cas else none),
        { store with
          items := (store.items.entry key (getClosure now oldestLive)).2
          stats }) := by
  have outcome : (store.items.entry key (getClosure now oldestLive)).1 = _ :=
    entry_outcome now oldestLive _ store.items key
  simp only [getKey, count]
  rcases step : store.items.entry key (getClosure now oldestLive) with ⟨result, items⟩
  simp only [step] at outcome ⊢
  subst outcome
  cases visibleItem now oldestLive store.items key with
  | none => cases store.items.lookup key <;> exact ⟨_, rfl⟩
  | some item => exact ⟨_, rfl⟩

theorem getAndTouchKey_eq (exptime : Int64) (now : UInt64) (oldestLive : Option UInt64)
    (withCas : Bool) (key : Bytes) (store : Store) :
    ∃ stats, store.getAndTouchKey exptime now oldestLive withCas key =
      ((visibleItem now oldestLive store.items key).map fun item =>
          (key, item.flags, item.data, if withCas then some store.nextCasCell else none),
        { store with
          items := (store.items.entry key
            (getAndTouchClosure now oldestLive exptime store.nextCasCell)).2
          nextCasCell := (visibleItem now oldestLive store.items key).elim store.nextCasCell
            fun _ => store.nextCasCell + 1
          stats }) := by
  have outcome : (store.items.entry key
      (getAndTouchClosure now oldestLive exptime store.nextCasCell)).1 = _ :=
    entry_outcome now oldestLive _ store.items key
  simp only [getAndTouchKey, nextCas, count]
  rcases step : store.items.entry key
    (getAndTouchClosure now oldestLive exptime store.nextCasCell) with ⟨result, items⟩
  simp only [step] at outcome ⊢
  subst outcome
  cases visibleItem now oldestLive store.items key with
  | none => cases store.items.lookup key <;> exact ⟨_, rfl⟩
  | some item => exact ⟨_, rfl⟩

section Entries

variable (args : StoreArgs) (now : UInt64) (oldestLive : Option UInt64) (cas : UInt64)
  (store : Store)

theorem setEntry_eq :
    ∃ stats, store.storeEntry .set args now oldestLive cas =
      (.stored, { store with
        items := AList.insert args.key (Item.new args.data args.flags args.exptime cas now)
          store.items
        stats }) :=
  ⟨_, rfl⟩

theorem replaceEntry_eq :
    ∃ stats, store.storeEntry .replace args now oldestLive cas =
      ((visibleItem now oldestLive store.items args.key).elim .notStored fun _ => .stored,
        { store with
          items := (store.items.entry args.key (replaceClosure now oldestLive args cas)).2
          stats }) := by
  have outcome : (store.items.entry args.key (replaceClosure now oldestLive args cas)).1 = _ :=
    entry_outcome now oldestLive _ store.items args.key
  simp only [storeEntry, count]
  generalize store.items.entry args.key (replaceClosure now oldestLive args cas) = step
    at outcome ⊢
  obtain ⟨result, items⟩ := step
  simp only at outcome
  subst outcome
  cases visibleItem now oldestLive store.items args.key with
  | none => cases store.items.lookup args.key <;> exact ⟨_, rfl⟩
  | some item => exact ⟨_, rfl⟩

theorem concatEntry_eq {op : StoreOp} (isConcat : op = .append ∨ op = .prepend) :
    ∃ stats, store.storeEntry op args now oldestLive cas =
      ((visibleItem now oldestLive store.items args.key).elim .notStored fun _ => .stored,
        { store with
          items := (store.items.entry args.key
            (concatClosure now oldestLive (op = .append) args cas)).2
          stats }) := by
  have outcome : (store.items.entry args.key
      (concatClosure now oldestLive (op = .append) args cas)).1 = _ :=
    entry_outcome now oldestLive _ store.items args.key
  rcases isConcat with same | same
  all_goals
    subst same
    simp only [storeEntry, count, decide_true, decide_false, reduceCtorEq] at outcome ⊢
    generalize store.items.entry args.key (concatClosure now oldestLive _ args cas) = step
      at outcome ⊢
    obtain ⟨result, items⟩ := step
    simp only at outcome
    subst outcome
    cases visibleItem now oldestLive store.items args.key with
    | none => cases store.items.lookup args.key <;> exact ⟨_, rfl⟩
    | some item => exact ⟨_, rfl⟩

theorem casEntry_eq {expectedCas : UInt64} (token : args.cas = some expectedCas) :
    ∃ stats, store.storeEntry .cas args now oldestLive cas =
      ((visibleItem now oldestLive store.items args.key).elim .notFound fun item =>
          if item.cas ≠ expectedCas then .exists else .stored,
        { store with
          items := (store.items.entry args.key
            (casClosure now oldestLive expectedCas args cas)).2
          stats }) := by
  have outcome : (store.items.entry args.key
      (casClosure now oldestLive expectedCas args cas)).1 = _ :=
    entry_outcome now oldestLive _ store.items args.key
  simp only [storeEntry, count, token]
  generalize store.items.entry args.key (casClosure now oldestLive expectedCas args cas) = step
    at outcome ⊢
  obtain ⟨result, items⟩ := step
  simp only at outcome
  subst outcome
  cases visibleItem now oldestLive store.items args.key with
  | none => cases store.items.lookup args.key <;> exact ⟨_, rfl⟩
  | some item =>
      simp only [Option.elim]
      by_cases other : item.cas ≠ expectedCas
      · simp only [if_pos other]
        exact ⟨_, rfl⟩
      · simp only [if_neg other]
        exact ⟨_, rfl⟩

theorem casMissingEntry_eq (token : args.cas = none) :
    store.storeEntry .cas args now oldestLive cas = (.serverError "missing cas value", store) := by
  simp only [storeEntry, token]

theorem addEntry_eq :
    ∃ items stats, store.storeEntry .add args now oldestLive cas =
      ((visibleItem now oldestLive store.items args.key).elim .stored fun _ => .notStored,
        { store with items, stats }) ∧
      ∀ key, items.lookup key =
        if key = args.key then
          some ((visibleItem now oldestLive store.items args.key).getD
            (Item.new args.data args.flags args.exptime cas now))
        else store.items.lookup key := by
  have outcome := Cache.entry_result store.items args.key (addClosure now oldestLive args cas)
  have looked := fun key =>
    Cache.entry_lookup store.items args.key key (addClosure now oldestLive args cas)
  simp only [storeEntry, count]
  generalize store.items.entry args.key (addClosure now oldestLive args cas) = step
    at outcome looked ⊢
  obtain ⟨result, items⟩ := step
  simp only at outcome looked
  subst outcome
  simp only [visibleItem]
  cases found : store.items.lookup args.key with
  | none =>
      refine ⟨_, _, rfl, ?_⟩
      intro key
      rw [Cache.insert_lookup, looked]
      by_cases same : key = args.key <;> simp [same]
  | some item =>
      rw [found] at looked
      by_cases expired : item.isExpired now oldestLive = true
      · simp only [Cache.entryResult, addClosure, expired, Option.filter, alive]
        refine ⟨_, _, rfl, ?_⟩
        intro key
        rw [looked]
        by_cases same : key = args.key <;> simp [same, Cache.entryValue, addClosure, expired]
      · simp only [Cache.entryResult, addClosure, expired, Option.filter, alive]
        refine ⟨_, _, rfl, ?_⟩
        intro key
        rw [looked]
        by_cases same : key = args.key <;> simp [same, Cache.entryValue, addClosure, expired]

theorem deleteEntry_eq (key : Bytes) :
    ∃ stats, store.deleteEntry key now oldestLive =
      ((visibleItem now oldestLive store.items key).elim .notFound fun _ => .deleted,
        { store with items := store.items.erase key, stats }) := by
  simp only [deleteEntry, count, visibleItem]
  cases store.items.lookup key with
  | none => exact ⟨_, rfl⟩
  | some item =>
      simp only [Option.filter, alive]
      by_cases expired : item.isExpired now oldestLive = true
      · simp only [expired]
        exact ⟨_, rfl⟩
      · simp only [expired]
        exact ⟨_, rfl⟩

theorem deleteEntry_lookup (key : Bytes) :
    (store.deleteEntry key now oldestLive).2.items.lookup key = none := by
  obtain ⟨stats, result⟩ := deleteEntry_eq now oldestLive store key
  rw [result, Cache.erase_lookup, if_pos rfl]

theorem arithmeticEntry_eq (op : ArithmeticOp) (key : Bytes) (delta : UInt64) :
    ∃ stats, store.arithmeticEntry op key delta now oldestLive cas =
      ((visibleItem now oldestLive store.items key).elim .notFound fun item =>
          (numericValue item.data).elim (.clientError op.error) fun value =>
            .number (op.apply value delta),
        { store with
          items := (store.items.entry key (arithmeticClosure now oldestLive op delta cas)).2
          stats }) := by
  have outcome : (store.items.entry key (arithmeticClosure now oldestLive op delta cas)).1 = _ :=
    entry_outcome now oldestLive _ store.items key
  simp only [arithmeticEntry, count]
  generalize store.items.entry key (arithmeticClosure now oldestLive op delta cas) = step
    at outcome ⊢
  obtain ⟨result, items⟩ := step
  simp only at outcome
  subst outcome
  cases visibleItem now oldestLive store.items key with
  | none => cases store.items.lookup key <;> exact ⟨_, rfl⟩
  | some item =>
      simp only [Option.elim]
      cases numericValue item.data with
      | none => exact ⟨_, rfl⟩
      | some value => exact ⟨_, rfl⟩

theorem touchEntry_eq (key : Bytes) (exptime : Int64) :
    ∃ stats, store.touchEntry key exptime now oldestLive cas =
      ((visibleItem now oldestLive store.items key).elim .notFound fun _ => .touched,
        { store with
          items := (store.items.entry key (touchClosure now oldestLive exptime cas)).2
          stats }) := by
  have outcome : (store.items.entry key (touchClosure now oldestLive exptime cas)).1 = _ :=
    entry_outcome now oldestLive _ store.items key
  simp only [touchEntry, count]
  generalize store.items.entry key (touchClosure now oldestLive exptime cas) = step
    at outcome ⊢
  obtain ⟨result, items⟩ := step
  simp only at outcome
  subst outcome
  cases visibleItem now oldestLive store.items key with
  | none => cases store.items.lookup key <;> exact ⟨_, rfl⟩
  | some item => exact ⟨_, rfl⟩

end Entries

section Operations

variable (args : StoreArgs) (now : UInt64) (store : Store)

theorem set_eq :
    ∃ stats, store.store .set args now =
      (.stored, { store with
        items := AList.insert args.key
          (Item.new args.data args.flags args.exptime store.nextCasCell now) store.items
        nextCasCell := store.nextCasCell + 1
        stats }) :=
  setEntry_eq args now store.oldestLive store.nextCasCell (store.count .cmdSet 1).nextCas.2

theorem replace_eq :
    ∃ stats, store.store .replace args now =
      ((store.visible now args.key).elim .notStored fun _ => .stored,
        { store with
          items := (store.items.entry args.key
            (replaceClosure now store.oldestLive args store.nextCasCell)).2
          nextCasCell := store.nextCasCell + 1
          stats }) :=
  replaceEntry_eq args now store.oldestLive store.nextCasCell (store.count .cmdSet 1).nextCas.2

theorem concat_eq {op : StoreOp} (isConcat : op = .append ∨ op = .prepend) :
    ∃ stats, store.store op args now =
      ((store.visible now args.key).elim .notStored fun _ => .stored,
        { store with
          items := (store.items.entry args.key
            (concatClosure now store.oldestLive (op = .append) args store.nextCasCell)).2
          nextCasCell := store.nextCasCell + 1
          stats }) :=
  concatEntry_eq args now store.oldestLive store.nextCasCell (store.count .cmdSet 1).nextCas.2
    isConcat

theorem cas_eq {expectedCas : UInt64} (token : args.cas = some expectedCas) :
    ∃ stats, store.store .cas args now =
      ((store.visible now args.key).elim .notFound fun item =>
          if item.cas ≠ expectedCas then .exists else .stored,
        { store with
          items := (store.items.entry args.key
            (casClosure now store.oldestLive expectedCas args store.nextCasCell)).2
          nextCasCell := store.nextCasCell + 1
          stats }) :=
  casEntry_eq args now store.oldestLive store.nextCasCell (store.count .cmdSet 1).nextCas.2 token

theorem casMissing_eq (token : args.cas = none) :
    store.store .cas args now =
      (.serverError "missing cas value", (store.count .cmdSet 1).nextCas.2) :=
  casMissingEntry_eq args now store.oldestLive store.nextCasCell (store.count .cmdSet 1).nextCas.2
    token

theorem add_eq :
    ∃ items stats, store.store .add args now =
      ((store.visible now args.key).elim .stored fun _ => .notStored,
        { store with items, nextCasCell := store.nextCasCell + 1, stats }) ∧
      ∀ key, items.lookup key =
        if key = args.key then
          some ((store.visible now args.key).getD
            (Item.new args.data args.flags args.exptime store.nextCasCell now))
        else store.items.lookup key :=
  addEntry_eq args now store.oldestLive store.nextCasCell (store.count .cmdSet 1).nextCas.2

theorem delete_eq (key : Bytes) :
    ∃ stats, store.delete key now =
      ((store.visible now key).elim .notFound fun _ => .deleted,
        { store with items := store.items.erase key, stats }) :=
  deleteEntry_eq now store.oldestLive store key

theorem arithmetic_eq (op : ArithmeticOp) (key : Bytes) (delta : UInt64) :
    ∃ stats, store.arithmetic op key delta now =
      ((store.visible now key).elim .notFound fun item =>
          (numericValue item.data).elim (.clientError op.error) fun value =>
            .number (op.apply value delta),
        { store with
          items := (store.items.entry key
            (arithmeticClosure now store.oldestLive op delta store.nextCasCell)).2
          nextCasCell := store.nextCasCell + 1
          stats }) :=
  arithmeticEntry_eq now store.oldestLive store.nextCasCell
    (store.count op.cmd 1).nextCas.2 op key delta

theorem touch_eq (key : Bytes) (exptime : Int64) :
    ∃ stats, store.touch key exptime now =
      ((store.visible now key).elim .notFound fun _ => .touched,
        { store with
          items := (store.items.entry key
            (touchClosure now store.oldestLive exptime store.nextCasCell)).2
          nextCasCell := store.nextCasCell + 1
          stats }) :=
  touchEntry_eq now store.oldestLive store.nextCasCell (store.nextCas.2.count .cmdTouch 1) key
    exptime

end Operations

theorem flush_eq (delay : Option UInt32) (now : UInt64) (store : Store) :
    ∃ stats, store.flush delay now =
      (.ok, if delay.getD 0 = 0 then { store with items := ∅, stats }
        else { store.flushAll (delay.getD 0) now with stats }) := by
  cases delay with
  | none => exact ⟨_, rfl⟩
  | some secs =>
      simp only [flush, Option.getD_some]
      by_cases immediate : secs = 0
      · simp only [if_pos immediate]
        exact ⟨_, rfl⟩
      · simp only [if_neg immediate]
        exact ⟨_, rfl⟩

def valueOf (withCas : Bool) (key : Bytes) (item : Item) :
    Bytes × UInt32 × Bytes × Option UInt64 :=
  (key, item.flags, item.data, if withCas then some item.cas else none)

theorem collect_getKey (now : UInt64) (oldestLive : Option UInt64) (withCas : Bool)
    (keys : List Bytes) (store : Store) :
    ∃ items stats, collect (getKey now oldestLive withCas) keys store =
      (keys.filterMap fun key =>
          (visibleItem now oldestLive store.items key).map (valueOf withCas key),
        { store with items, stats }) ∧
      ∀ key, visibleItem now oldestLive items key =
        visibleItem now oldestLive store.items key := by
  induction keys generalizing store with
  | nil => exact ⟨store.items, store.stats, rfl, fun _ => rfl⟩
  | cons key rest ih =>
      obtain ⟨stats, first⟩ := getKey_eq now oldestLive withCas key store
      obtain ⟨items, later, result, kept⟩ := ih ((store.getKey now oldestLive withCas key).2)
      have same : ∀ other, visibleItem now oldestLive
          (store.items.entry key (getClosure now oldestLive)).2 other =
            visibleItem now oldestLive store.items other := by
        intro other
        rw [getClosure, entry_visible]
        by_cases here : other = key
        · subst here
          simp [visibleItem]
        · rw [if_neg here]
      rw [first] at result kept
      simp only [same] at result kept
      refine ⟨items, later, ?_, kept⟩
      rw [collect, first]
      simp only [result]
      cases found : visibleItem now oldestLive store.items key with
      | none => simp [found]
      | some item => simp [found, valueOf]

theorem get_eq (keys : List Bytes) (withCas : Bool) (now : UInt64) (store : Store) :
    ∃ items stats, store.get keys withCas now =
      (.values (keys.filterMap fun key => (store.visible now key).map (valueOf withCas key)),
        { store with items, stats }) ∧
      ∀ key, visibleItem now store.oldestLive items key = store.visible now key := by
  obtain ⟨items, stats, result, kept⟩ := collect_getKey now store.oldestLive withCas keys
    (store.count .cmdGet keys.length)
  refine ⟨items, stats, ?_, kept⟩
  simp only [get, count_oldestLive, result]
  rfl

end Store

section Times

theorem visible_alive (store : Store) (now : UInt64) (key : Bytes) :
    (store.visible now key).filter (alive now store.oldestLive) = store.visible now key := by
  simp [Store.visible, visibleItem]

theorem isExpired_later {item : Item} {now later : UInt64} {oldestLive : Option UInt64}
    (after : now ≤ later) (expired : item.isExpired now oldestLive) :
    item.isExpired later oldestLive := by
  simp only [Item.isExpired] at expired ⊢
  by_cases past : item.expiresAt.any fun time => time ≤ later
  · rw [if_pos past]
  · have ahead : ¬item.expiresAt.any fun time => time ≤ now := by
      intro reached
      apply past
      rw [Option.any_eq_true] at reached ⊢
      obtain ⟨time, deadline, before⟩ := reached
      exact ⟨time, deadline, by simpa using UInt64.le_trans (by simpa using before) after⟩
    rw [if_neg past]
    rw [if_neg ahead] at expired
    cases oldestLive with
    | none => exact expired
    | some cutoff =>
        simp only [Bool.and_eq_true, decide_eq_true_eq] at expired ⊢
        exact ⟨UInt64.le_trans expired.1 after, expired.2⟩

theorem visible_later {now later : UInt64} (after : now ≤ later) (store : Store) (key : Bytes) :
    store.visible later key =
      (store.visible now key).filter (alive later store.oldestLive) := by
  rw [Store.visible, Store.visible, visibleItem, visibleItem, Option.filter_filter]
  congr 1
  funext item
  cases dead : item.isExpired now store.oldestLive with
  | true => simp [alive, isExpired_later after dead]
  | false => simp [alive, dead]

theorem evict_visible (store : Store) (now : UInt64) (key other : Bytes) :
    (store.evict key).visible now other =
      if other = key then none else store.visible now other := by
  simp only [Store.evict]
  by_cases present : (store.items.lookup key).isSome
  · rw [if_pos present]
    exact erase_visible now store.oldestLive store.items key other
  · rw [if_neg present]
    by_cases same : other = key
    · rw [if_pos same, same, Store.visible, visibleItem, Option.not_isSome_iff_eq_none.mp present]
      rfl
    · rw [if_neg same]

end Times

end Ousagi
