import Ousagi.StoreReference

/-!
The counters of the store against the replies that it gives: what each operation
adds to them is a bill, and the bills of a run balance.
-/

namespace Ousagi

open Library

abbrev Bill := List (Counter × Nat)

def Stats.pay (bill : Bill) (stats : Stats) : Stats :=
  bill.foldl (fun stats entry => stats.add entry.1 entry.2) stats

def due (counter : Counter) : Bill → Nat
  | [] => 0
  | (other, amount) :: rest => (if other = counter then amount else 0) + due counter rest

@[simp] theorem due_nil (counter : Counter) : due counter [] = 0 := rfl

@[simp] theorem due_cons (counter other : Counter) (amount : Nat) (rest : Bill) :
    due counter ((other, amount) :: rest) =
      (if other = counter then amount else 0) + due counter rest := rfl

@[simp] theorem due_append (counter : Counter) (first second : Bill) :
    due counter (first ++ second) = due counter first + due counter second := by
  induction first with
  | nil => simp
  | cons entry rest ih =>
      obtain ⟨other, amount⟩ := entry
      rw [List.cons_append, due_cons, due_cons, ih, Nat.add_assoc]

theorem due_absent {counter : Counter} {bill : Bill}
    (absent : ∀ entry ∈ bill, entry.1 ≠ counter) : due counter bill = 0 := by
  induction bill with
  | nil => rfl
  | cons entry rest ih =>
      rw [List.forall_mem_cons] at absent
      rw [due_cons, if_neg absent.1, ih absent.2]

theorem pay_due (bill : Bill) (stats : Stats) (counter : Counter) :
    stats.pay bill counter = stats counter + UInt64.ofNat (due counter bill) := by
  induction bill generalizing stats with
  | nil => simp [Stats.pay]
  | cons entry rest ih =>
      obtain ⟨other, amount⟩ := entry
      have later := ih (stats.add other amount)
      rw [Stats.pay] at later ⊢
      rw [List.foldl_cons, later, due_cons, UInt64.ofNat_add, ← UInt64.add_assoc]
      congr 1
      by_cases same : other = counter
      · rw [if_pos same, same, Stats.add, Function.update_self]
      · rw [if_neg same, Stats.add, Function.update_of_ne (Ne.symm same)]
        simp

theorem pay_pay (first second : Bill) (stats : Stats) :
    (stats.pay first).pay second = stats.pay (first ++ second) := by
  rw [Stats.pay, Stats.pay, Stats.pay, List.foldl_append]

def Counter.looks : Counter → Bool
  | .cmdGet | .getHits | .getMisses | .getExpired | .cmdGat | .gatHits | .gatMisses => true
  | _ => false

def Unlooked (bill : Bill) : Prop := ∀ entry ∈ bill, entry.1.looks = false

instance (bill : Bill) : Decidable (Unlooked bill) :=
  inferInstanceAs (Decidable (∀ entry ∈ bill, entry.1.looks = false))

theorem Unlooked.due {bill : Bill} (unlooked : Unlooked bill) {counter : Counter}
    (looks : counter.looks) : due counter bill = 0 := by
  apply due_absent
  rintro entry among rfl
  simp [unlooked entry among] at looks

abbrev Served := Command × Response

namespace Served

def stores : Served → Bool
  | (.store _ _, _) => true
  | _ => false

def swaps : Served → Bool
  | (.store .cas args, _) => args.cas.isSome
  | _ => false

def deletes : Served → Bool
  | (.delete _ _, _) => true
  | _ => false

def rejects (op : ArithmeticOp) : Served → Bool
  | (.arithmetic other _ _ _, .clientError _) => other = op
  | _ => false

def stored : Served → Bool
  | (_, .stored) => true
  | _ => false

def requested : Served → List Bytes
  | (.get keys _, _) | (.getAndTouch keys _ _, _) => keys
  | _ => []

def returned : Served → List (Bytes × UInt32 × Bytes × Option UInt64)
  | (.get _ _, reply) | (.getAndTouch _ _ _, reply) => reply.entries
  | _ => []

end Served

/-- The bill of a list of commands with their replies. -/
structure Settles (bill : Bill) (log : List Served) : Prop where
  retrievals : due .cmdGet bill = due .getHits bill + due .getMisses bill
  touches : due .cmdTouch bill = due .touchHits bill + due .touchMisses bill
  stores : due .cmdSet bill = log.countP Served.stores
  swaps : due .casHits bill + due .casMisses bill + due .casBadval bill = log.countP Served.swaps
  deletes : due .deleteHits bill + due .deleteMisses bill = log.countP Served.deletes
  increments : due .cmdIncr bill =
    due .incrHits bill + due .incrMisses bill + log.countP (Served.rejects .incr)
  decrements : due .cmdDecr bill =
    due .decrHits bill + due .decrMisses bill + log.countP (Served.rejects .decr)
  items : due .totalItems bill = log.countP Served.stored

theorem Settles.of_counts {bill : Bill} {log : List Served}
    (same : [due .cmdGet bill, due .cmdTouch bill, due .cmdSet bill,
        due .casHits bill + due .casMisses bill + due .casBadval bill,
        due .deleteHits bill + due .deleteMisses bill, due .cmdIncr bill, due .cmdDecr bill,
        due .totalItems bill] =
      [due .getHits bill + due .getMisses bill, due .touchHits bill + due .touchMisses bill,
        log.countP Served.stores, log.countP Served.swaps, log.countP Served.deletes,
        due .incrHits bill + due .incrMisses bill + log.countP (Served.rejects .incr),
        due .decrHits bill + due .decrMisses bill + log.countP (Served.rejects .decr),
        log.countP Served.stored]) : Settles bill log := by
  simp only [List.cons.injEq, and_true] at same
  obtain ⟨retrievals, touches, stores, swaps, deletes, increments, decrements, items⟩ := same
  exact ⟨retrievals, touches, stores, swaps, deletes, increments, decrements, items⟩

theorem Settles.append {first second : Bill} {earlier later : List Served}
    (left : Settles first earlier) (right : Settles second later) :
    Settles (first ++ second) (earlier ++ later) := by
  constructor
  all_goals
    simp only [due_append, List.countP_append]
  · rw [left.retrievals, right.retrievals]
    omega
  · rw [left.touches, right.touches]
    omega
  · rw [left.stores, right.stores]
  · rw [← left.swaps, ← right.swaps]
    omega
  · rw [← left.deletes, ← right.deletes]
    omega
  · rw [left.increments, right.increments]
    omega
  · rw [left.decrements, right.decrements]
    omega
  · rw [left.items, right.items]

section Operations

variable (now : UInt64) (oldestLive : Option UInt64) (cas : UInt64) (store : Store)

theorem storeEntry_bills (op : StoreOp) (args : StoreArgs) :
    ∃ bill, (store.storeEntry op args now oldestLive cas).2.stats = store.stats.pay bill ∧
      Settles ((.cmdSet, 1) :: bill)
        [(.store op args, (store.storeEntry op args now oldestLive cas).1)] ∧
      Unlooked ((.cmdSet, 1) :: bill) := by
  have kept : ∀ {op : StoreOp}, op ≠ .cas →
      Settles [(.cmdSet, 1), (.totalItems, 1)] [(.store op args, .stored)] ∧
        Settles [(.cmdSet, 1)] [(.store op args, .notStored)] := by
    intro op different
    cases op with
    | cas => exact absurd rfl different
    | _ => exact ⟨.of_counts rfl, .of_counts rfl⟩
  cases op with
  | set =>
      simp only [Store.storeEntry, Store.insert]
      cases store.items.lookup args.key with
      | none => exact ⟨[(.totalItems, 1)], rfl, (kept (by decide)).1, by decide⟩
      | some replaced =>
          exact ⟨[(.evictions, 1), (.totalItems, 1)], rfl, .of_counts rfl, by decide⟩
  | add =>
      simp only [Store.storeEntry]
      rcases store.items.entry args.key (addClosure now oldestLive args cas) with
        ⟨(_ | _) | _ | _, items⟩
      · exact ⟨[], rfl, (kept (by decide)).2, by decide⟩
      · exact ⟨[(.totalItems, 1)], rfl, (kept (by decide)).1, by decide⟩
      · exact ⟨[], rfl, (kept (by decide)).2, by decide⟩
      · exact ⟨[(.totalItems, 1)], rfl, (kept (by decide)).1, by decide⟩
  | replace =>
      simp only [Store.storeEntry]
      rcases store.items.entry args.key (replaceClosure now oldestLive args cas) with
        ⟨_ | _ | _, items⟩
      · exact ⟨[(.totalItems, 1)], rfl, (kept (by decide)).1, by decide⟩
      · exact ⟨[], rfl, (kept (by decide)).2, by decide⟩
      · exact ⟨[], rfl, (kept (by decide)).2, by decide⟩
  | append | prepend =>
      simp only [Store.storeEntry]
      rcases store.items.entry args.key (concatClosure now oldestLive _ args cas) with
        ⟨_ | _ | _, items⟩
      · exact ⟨[(.totalItems, 1)], rfl, (kept (by decide)).1, by decide⟩
      · exact ⟨[], rfl, (kept (by decide)).2, by decide⟩
      · exact ⟨[], rfl, (kept (by decide)).2, by decide⟩
  | cas =>
      simp only [Store.storeEntry]
      cases token : args.cas with
      | none =>
          exact ⟨[], rfl, ⟨rfl, rfl, rfl, by simp [Served.swaps, token], rfl, rfl, rfl, rfl⟩,
            by decide⟩
      | some expected =>
          have one : ∀ response, [((Command.store .cas args, response) : Served)].countP
              Served.swaps = 1 := by
            simp [Served.swaps, token]
          simp only
          rcases store.items.entry args.key (casClosure now oldestLive expected args cas) with
            ⟨(_ | _) | _ | _, items⟩
          · exact ⟨[(.casBadval, 1)], rfl, ⟨rfl, rfl, rfl, (one _).symm, rfl, rfl, rfl, rfl⟩,
              by decide⟩
          · exact ⟨[(.casHits, 1), (.totalItems, 1)], rfl,
              ⟨rfl, rfl, rfl, (one _).symm, rfl, rfl, rfl, rfl⟩,
              by decide⟩
          · exact ⟨[(.casMisses, 1)], rfl, ⟨rfl, rfl, rfl, (one _).symm, rfl, rfl, rfl, rfl⟩,
              by decide⟩
          · exact ⟨[(.casMisses, 1)], rfl, ⟨rfl, rfl, rfl, (one _).symm, rfl, rfl, rfl, rfl⟩,
              by decide⟩

def Bills (command : Command) (before : Store) (result : Response × Store) : Prop :=
  ∃ bill, result.2.stats = before.stats.pay bill ∧ Settles bill [(command, result.1)]

def Charges (command : Command) (before : Store) (result : Response × Store) : Prop :=
  ∃ bill, result.2.stats = before.stats.pay bill ∧ Settles bill [(command, result.1)] ∧
    Unlooked bill

theorem store_charges (op : StoreOp) (args : StoreArgs) :
    Charges (.store op args) store (store.store op args now) := by
  obtain ⟨bill, paid, settles, unlooked⟩ := storeEntry_bills now store.oldestLive
    store.nextCasCell (store.count .cmdSet 1).nextCas.2 op args
  exact ⟨(.cmdSet, 1) :: bill, paid, settles, unlooked⟩

theorem arithmetic_charges (op : ArithmeticOp) (key : Bytes) (delta : UInt64) (noreply : Bool) :
    Charges (.arithmetic op key delta noreply) store (store.arithmetic op key delta now) := by
  simp only [Store.arithmetic, Store.arithmeticEntry]
  rcases (store.count op.cmd 1).nextCas.2.items.entry key
    (arithmeticClosure now (store.count op.cmd 1).oldestLive op delta
      (store.count op.cmd 1).nextCas.1) with ⟨(_ | _) | _ | _, items⟩
  · cases op
    · exact ⟨[(.cmdIncr, 1)], rfl, .of_counts rfl, by decide⟩
    · exact ⟨[(.cmdDecr, 1)], rfl, .of_counts rfl, by decide⟩
  · cases op
    · exact ⟨[(.cmdIncr, 1), (.incrHits, 1)], rfl, .of_counts rfl, by decide⟩
    · exact ⟨[(.cmdDecr, 1), (.decrHits, 1)], rfl, .of_counts rfl, by decide⟩
  all_goals
    cases op
    · exact ⟨[(.cmdIncr, 1), (.incrMisses, 1)], rfl, .of_counts rfl, by decide⟩
    · exact ⟨[(.cmdDecr, 1), (.decrMisses, 1)], rfl, .of_counts rfl, by decide⟩

theorem touch_charges (key : Bytes) (exptime : Int64) (noreply : Bool) :
    Charges (.touch key exptime noreply) store (store.touch key exptime now) := by
  simp only [Store.touch, Store.touchEntry]
  rcases (store.nextCas.2.count .cmdTouch 1).items.entry key
    (touchClosure now store.oldestLive exptime store.nextCas.1) with ⟨_ | _ | _, items⟩
  · exact ⟨[(.cmdTouch, 1), (.touchHits, 1)], rfl, .of_counts rfl, by decide⟩
  all_goals
    exact ⟨[(.cmdTouch, 1), (.touchMisses, 1)], rfl, .of_counts rfl, by decide⟩

theorem flush_charges (delay : Option UInt32) (noreply : Bool) :
    Charges (.flushAll delay noreply) store (store.flush delay now) := by
  have settles : Settles [(.cmdFlush, 1)] [(.flushAll delay noreply, .ok)] := .of_counts rfl
  have unlooked : Unlooked [(.cmdFlush, 1)] := by decide
  simp only [Store.flush]
  cases delay with
  | none => exact ⟨_, rfl, settles, unlooked⟩
  | some secs =>
      simp only
      by_cases immediate : secs = 0
      · rw [if_pos immediate]
        exact ⟨_, rfl, settles, unlooked⟩
      · rw [if_neg immediate]
        exact ⟨_, rfl, settles, unlooked⟩

def deadItem (now : UInt64) (oldestLive : Option UInt64) (items : Cache Bytes Item) (key : Bytes) :
    Option Item :=
  (items.lookup key).filter fun item => item.isExpired now oldestLive

/-- The bill of a walk through some keys: a hit or a miss for each. -/
structure Visits (keys : Nat) (bill : Bill) : Prop where
  each : keys = due .getHits bill + due .getMisses bill
  only : ∀ counter, counter ∉ [Counter.getHits, .getMisses, .getExpired] → due counter bill = 0

/-- The dead items that a walk through some keys finds, each in what the keys before it leave. -/
def deadFinds {ο : Type} (now : UInt64) (oldestLive : Option UInt64)
    (visit : Bytes → Store → Option ο × Store) (keys : List Bytes) (store : Store) : List Item :=
  (collect (fun key store => (deadItem now oldestLive store.items key, (visit key store).2))
    keys store).1

structure Finds (keys returned dead : Nat) (bill : Bill) : Prop extends Visits keys bill where
  hits : due .getHits bill = returned
  expired : due .getExpired bill = dead
  missed : dead ≤ due .getMisses bill

theorem due_only {counter : Counter} {counters : List Counter} {bill : Bill}
    (among : ∀ entry ∈ bill, entry.1 ∈ counters) (other : counter ∉ counters) :
    due counter bill = 0 :=
  due_absent fun entry inside same => other (same ▸ among entry inside)

theorem finds_hit : Finds 1 1 0 [(.getHits, 1)] :=
  ⟨⟨rfl, fun _ => due_only (by decide)⟩, rfl, rfl, Nat.zero_le _⟩

theorem finds_dead : Finds 1 0 1 [(.getExpired, 1), (.getMisses, 1)] :=
  ⟨⟨rfl, fun _ => due_only (by decide)⟩, rfl, rfl, Nat.le_refl 1⟩

theorem finds_none : Finds 1 0 0 [(.getMisses, 1)] :=
  ⟨⟨rfl, fun _ => due_only (by decide)⟩, rfl, rfl, Nat.zero_le _⟩

def Looks {ο : Type} (now : UInt64) (oldestLive : Option UInt64)
    (visit : Bytes → Store → Option ο × Store) : Prop :=
  ∀ key store, ∃ bill, (visit key store).2.stats = store.stats.pay bill ∧
    Finds 1 (visit key store).1.toList.length (deadItem now oldestLive store.items key).toList.length
      bill

theorem getKey_looks (withCas : Bool) : Looks now oldestLive (Store.getKey now oldestLive withCas) := by
  intro key store
  simp only [Store.getKey, Cache.entry, getClosure, deadItem]
  cases store.items.lookup key with
  | none => exact ⟨_, rfl, finds_none⟩
  | some item =>
      cases expired : item.isExpired now oldestLive with
      | true =>
          simp only [liveOnly, Option.filter_some, expired]
          exact ⟨_, rfl, finds_dead⟩
      | false =>
          simp only [liveOnly, Option.filter_some, expired]
          exact ⟨_, rfl, finds_hit⟩

theorem getAndTouchKey_looks (exptime : Int64) (withCas : Bool) :
    Looks now oldestLive (Store.getAndTouchKey exptime now oldestLive withCas) := by
  intro key store
  simp only [Store.getAndTouchKey, Cache.entry, getAndTouchClosure, deadItem]
  cases store.items.lookup key with
  | none => exact ⟨_, rfl, finds_none⟩
  | some item =>
      cases expired : item.isExpired now oldestLive with
      | true =>
          simp only [liveOnly, Option.filter_some, expired]
          exact ⟨_, rfl, finds_dead⟩
      | false =>
          simp only [liveOnly, Option.filter_some, expired]
          exact ⟨_, rfl, finds_hit⟩

theorem collect_finds {ο : Type} {visit : Bytes → Store → Option ο × Store}
    (looks : Looks now oldestLive visit) (keys : List Bytes) (store : Store) :
    ∃ bill, (collect visit keys store).2.stats = store.stats.pay bill ∧
      Finds keys.length (collect visit keys store).1.length
        (deadFinds now oldestLive visit keys store).length bill := by
  induction keys generalizing store with
  | nil => exact ⟨[], rfl, ⟨rfl, fun _ _ => rfl⟩, rfl, rfl, Nat.le_refl 0⟩
  | cons key rest ih =>
      obtain ⟨first, paid, one⟩ := looks key store
      obtain ⟨later, paidLater, others⟩ := ih (visit key store).2
      refine ⟨first ++ later, ?_, ⟨?_, ?_⟩, ?_, ?_, ?_⟩
      · rw [collect, paidLater, paid, pay_pay]
      · have here := one.each
        rw [List.length_cons, due_append, due_append, others.each]
        omega
      · intro counter other
        rw [due_append, one.only counter other, others.only counter other]
      · rw [due_append, one.hits, others.hits, collect, List.length_append]
      · rw [due_append, one.expired, others.expired, deadFinds, deadFinds, collect, List.length_append]
      · rw [due_append, deadFinds, collect, List.length_append]
        exact Nat.add_le_add one.missed others.missed

theorem Visits.settles {keys : List Bytes} {bill : Bill} (visits : Visits keys.length bill)
    {command : Command} (found : List (Bytes × UInt32 × Bytes × Option UInt64))
    (retrieves : (∃ withCas, command = .get keys withCas) ∨
      ∃ exptime withCas, command = .getAndTouch keys exptime withCas) :
    Settles ((.cmdGet, keys.length) :: bill) [(command, .values found)] := by
  have only : ∀ counter, counter ∉ [Counter.cmdGet, .getHits, .getMisses, .getExpired] →
      due counter ((.cmdGet, keys.length) :: bill) = 0 := by
    intro counter other
    rw [List.mem_cons, not_or] at other
    rw [due_cons, if_neg (Ne.symm other.1), visits.only counter other.2]
  have uncounted : ∀ {counts : Served → Bool}, counts (command, .values found) = false →
      [((command, .values found) : Served)].countP counts = 0 := by
    intro counts never
    simp [never]
  have never : Served.stores (command, .values found) = false ∧
      Served.swaps (command, .values found) = false ∧
      Served.deletes (command, .values found) = false ∧
      (∀ op, Served.rejects op (command, .values found) = false) ∧
      Served.stored (command, .values found) = false := by
    rcases retrieves with ⟨withCas, rfl⟩ | ⟨exptime, withCas, rfl⟩ <;>
      exact ⟨rfl, rfl, rfl, fun _ => rfl, rfl⟩
  obtain ⟨stores, swaps, deletes, rejects, stored⟩ := never
  constructor
  · rw [due_cons, due_cons, due_cons, visits.only .cmdGet (by decide), visits.each]
    simp
  · rw [only _ (by decide), only _ (by decide), only _ (by decide)]
  · rw [only _ (by decide), uncounted stores]
  · rw [only _ (by decide), only _ (by decide), only _ (by decide), uncounted swaps]
  · rw [only _ (by decide), only _ (by decide), uncounted deletes]
  · rw [only _ (by decide), only _ (by decide), only _ (by decide), uncounted (rejects .incr)]
  · rw [only _ (by decide), only _ (by decide), only _ (by decide), uncounted (rejects .decr)]
  · rw [only _ (by decide), uncounted stored]

/-- The dead items that the lookups of a command find. -/
def Command.deadLookups (now : UInt64) (store : Store) : Command → List Item
  | .get keys withCas =>
      deadFinds now store.oldestLive (Store.getKey now store.oldestLive withCas) keys
        (store.count .cmdGet keys.length)
  | .getAndTouch keys exptime withCas =>
      deadFinds now store.oldestLive (Store.getAndTouchKey exptime now store.oldestLive withCas) keys
        (store.count .cmdGet keys.length)
  | _ => []

def Command.deadDeletes (now : UInt64) (store : Store) : Command → List Item
  | .delete key _ => (deadItem now store.oldestLive store.items key).toList
  | _ => []

structure Tallies (now : UInt64) (before : Store) (served : Served) (bill : Bill) : Prop where
  gats : due .cmdGat bill = 0 ∧ due .gatHits bill = 0 ∧ due .gatMisses bill = 0
  requested : due .cmdGet bill = served.requested.length
  returned : due .getHits bill = served.returned.length
  expired : due .getExpired bill =
    (served.1.deadLookups now before).length + (served.1.deadDeletes now before).length
  missed : (served.1.deadLookups now before).length ≤ due .getMisses bill

theorem Unlooked.tallies {bill : Bill} (unlooked : Unlooked bill) {served : Served}
    (others : served.requested = [] ∧ served.returned = [] ∧ served.1.deadLookups now store = [])
    (kept : served.1.deadDeletes now store = []) : Tallies now store served bill := by
  obtain ⟨noneAsked, noneFound, noneDead⟩ := others
  constructor
  · exact ⟨unlooked.due rfl, unlooked.due rfl, unlooked.due rfl⟩
  · rw [unlooked.due rfl, noneAsked, List.length_nil]
  · rw [unlooked.due rfl, noneFound, List.length_nil]
  · rw [unlooked.due rfl, noneDead, kept, List.length_nil]
  · rw [noneDead, List.length_nil]
    exact Nat.zero_le _

theorem Finds.tallies {keys : List Bytes} {served : Served} {bill : Bill}
    (finds : Finds keys.length served.returned.length (served.1.deadLookups now store).length bill)
    (asked : served.requested = keys) (kept : served.1.deadDeletes now store = []) :
    Tallies now store served ((.cmdGet, keys.length) :: bill) := by
  constructor
  · simp [finds.only]
  · simp [finds.only, asked]
  · simp [finds.hits]
  · simp [finds.expired, kept]
  · simpa using finds.missed

/-- A deletion of a dead item is counted among the expired, but not as a lookup. -/
theorem delete_charges (key : Bytes) (noreply : Bool) :
    ∃ bill, (store.delete key now).2.stats = store.stats.pay bill ∧
      Settles bill [(.delete key noreply, (store.delete key now).1)] ∧
      Tallies now store (.delete key noreply, (store.delete key now).1) bill := by
  simp only [Store.delete, Store.deleteEntry]
  cases present : store.items.lookup key with
  | none =>
      exact ⟨[(.deleteMisses, 1)], rfl, .of_counts rfl,
        Unlooked.tallies now store (by decide) ⟨rfl, rfl, rfl⟩
          (by simp [Command.deadDeletes, deadItem, present])⟩
  | some item =>
      simp only
      by_cases expired : item.isExpired now store.oldestLive = true
      · rw [if_pos expired]
        refine ⟨[(.getExpired, 1), (.deleteMisses, 1)], rfl,
          .of_counts rfl, ⟨rfl, rfl, rfl⟩, rfl, rfl, ?_, Nat.zero_le _⟩
        simp [Command.deadDeletes, Command.deadLookups, deadItem, present, Option.filter_some, expired]
      · rw [if_neg expired]
        exact ⟨[(.deleteHits, 1)], rfl, .of_counts rfl,
          Unlooked.tallies now store (by decide) ⟨rfl, rfl, rfl⟩
            (by simp [Command.deadDeletes, deadItem, present, Option.filter_some, expired])⟩

theorem handle_charges (command : Command) :
    ∃ bill, (handle now command store).2.stats = store.stats.pay bill ∧
      Settles bill [(command, (handle now command store).1)] ∧
      Tallies now store (command, (handle now command store).1) bill := by
  cases command with
  | get keys withCas =>
      obtain ⟨bill, paid, finds⟩ := collect_finds now store.oldestLive
        (getKey_looks now store.oldestLive withCas) keys (store.count .cmdGet keys.length)
      exact ⟨(.cmdGet, keys.length) :: bill, paid,
        finds.toVisits.settles _ (Or.inl ⟨withCas, rfl⟩), Finds.tallies now store finds rfl rfl⟩
  | getAndTouch keys exptime withCas =>
      obtain ⟨bill, paid, finds⟩ := collect_finds now store.oldestLive
        (getAndTouchKey_looks now store.oldestLive exptime withCas) keys
        (store.count .cmdGet keys.length)
      exact ⟨(.cmdGet, keys.length) :: bill, paid,
        finds.toVisits.settles _ (Or.inr ⟨exptime, withCas, rfl⟩),
        Finds.tallies now store finds rfl rfl⟩
  | store op args =>
      obtain ⟨bill, paid, settles, unlooked⟩ := store_charges now store op args
      exact ⟨bill, paid, settles, unlooked.tallies now store ⟨rfl, rfl, rfl⟩ rfl⟩
  | delete key noreply => exact delete_charges now store key noreply
  | arithmetic op key delta noreply =>
      obtain ⟨bill, paid, settles, unlooked⟩ := arithmetic_charges now store op key delta noreply
      exact ⟨bill, paid, settles, unlooked.tallies now store ⟨rfl, rfl, rfl⟩ rfl⟩
  | touch key exptime noreply =>
      obtain ⟨bill, paid, settles, unlooked⟩ := touch_charges now store key exptime noreply
      exact ⟨bill, paid, settles, unlooked.tallies now store ⟨rfl, rfl, rfl⟩ rfl⟩
  | flushAll delay noreply =>
      obtain ⟨bill, paid, settles, unlooked⟩ := flush_charges now store delay noreply
      exact ⟨bill, paid, settles, unlooked.tallies now store ⟨rfl, rfl, rfl⟩ rfl⟩
  | version | verbosity | stats =>
      exact ⟨[], rfl, .of_counts rfl,
        Unlooked.tallies now store (by decide) ⟨rfl, rfl, rfl⟩ rfl⟩

theorem handle_bills (command : Command) : Bills command store (handle now command store) := by
  obtain ⟨bill, paid, settles, _⟩ := handle_charges now store command
  exact ⟨bill, paid, settles⟩

end Operations

def tally (counts : Served → Bool) (log : List Served) : UInt64 := UInt64.ofNat (log.countP counts)

/-- The counters account for the commands served and their replies, modulo 2^64. -/
structure Balanced (stats : Stats) (log : List Served) : Prop where
  retrievals : stats .cmdGet = stats .getHits + stats .getMisses
  touches : stats .cmdTouch = stats .touchHits + stats .touchMisses
  stores : stats .cmdSet = tally Served.stores log
  swaps : stats .casHits + stats .casMisses + stats .casBadval = tally Served.swaps log
  deletes : stats .deleteHits + stats .deleteMisses = tally Served.deletes log
  increments : stats .cmdIncr =
    stats .incrHits + stats .incrMisses + tally (Served.rejects .incr) log
  decrements : stats .cmdDecr =
    stats .decrHits + stats .decrMisses + tally (Served.rejects .decr) log
  items : stats .totalItems = tally Served.stored log

theorem Settles.balanced {bill : Bill} {log : List Served} (settles : Settles bill log) :
    Balanced (Stats.zero.pay bill) log := by
  have counter : ∀ counter, Stats.zero.pay bill counter = UInt64.ofNat (due counter bill) := by
    intro counter
    rw [pay_due, Stats.zero]
    simp
  constructor
  all_goals
    simp only [counter, tally, ← UInt64.ofNat_add]
    apply congrArg UInt64.ofNat
  · exact settles.retrievals
  · exact settles.touches
  · exact settles.stores
  · exact settles.swaps
  · exact settles.deletes
  · exact settles.increments
  · exact settles.decrements
  · exact settles.items

namespace Clocked

def logged (step : StoreStep) (clocked : Clocked Store) : Option Served × Clocked Store :=
  let (response, after) := clocked.lazyStep step
  match step with
  | .command command => (response.map fun response => (command, response), after)
  | _ => (none, after)

end Clocked

def Accounted (log : List Served) (clocked : Clocked Store) : Prop :=
  ∃ bill, clocked.state.stats = Stats.zero.pay bill ∧ Settles bill log

theorem logged_accounted (log : List Served) (step : StoreStep) (clocked : Clocked Store)
    (accounted : Accounted log clocked) :
    Accounted (log ++ (Clocked.logged step clocked).1.toList) (Clocked.logged step clocked).2 := by
  obtain ⟨bill, paid, settles⟩ := accounted
  cases step with
  | tick now => exact ⟨bill, paid, by simpa [Clocked.logged] using settles⟩
  | command command =>
      obtain ⟨more, paidMore, settlesMore⟩ := handle_bills clocked.now clocked.state command
      refine ⟨bill ++ more, ?_, settles.append settlesMore⟩
      rw [← pay_pay, ← paid]
      exact paidMore
  | evict key =>
      simp only [Clocked.logged, Clocked.lazyStep, Store.evict, Option.toList_none, List.append_nil]
      by_cases present : (clocked.state.items.lookup key).isSome = true
      · have nothing : Settles [(.evictions, 1)] [] := .of_counts rfl
        have both := settles.append nothing
        rw [List.append_nil] at both
        refine ⟨bill ++ [(.evictions, 1)], ?_, both⟩
        rw [if_pos present, ← pay_pay, ← paid]
        rfl
      · rw [if_neg present]
        exact ⟨bill, paid, settles⟩

/-- After any operations from zero counters, with any clock and any evictions, they balance. -/
theorem counters_balance (steps : List StoreStep) (now : UInt64) (items : Cache Bytes Item)
    (nextCasCell oldestLiveCell : UInt64) :
    let start : Clocked Store :=
      { now, state := { items, nextCasCell, oldestLiveCell, stats := .zero } }
    let served := collect Clocked.logged steps start
    Balanced served.2.state.stats served.1 := by
  intro start served
  have begun : Accounted [] start := ⟨[], rfl, .of_counts rfl⟩
  obtain ⟨bill, paid, settles⟩ := collect_observed logged_accounted steps begun
  rw [List.nil_append] at settles
  have balanced := settles.balanced
  rwa [← paid] at balanced

end Ousagi
