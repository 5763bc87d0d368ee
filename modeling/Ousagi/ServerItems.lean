import Ousagi.ServerSessions
import Ousagi.StatsBalance

/-!
The number of items in the store against the counters: what is there, and what has been
counted as evicted, deleted or found dead, has been counted as stored before.
-/

namespace Ousagi

open Library

/-- The items that a bill counts as taken out.  One that a storage command, an `incr`, a `touch` or
a flush takes out is not counted. -/
def removals (bill : Bill) : Nat :=
  due .evictions bill + due .deleteHits bill + due .getExpired bill

/-- A step puts in no more than it counts, and counts no more removals than it makes. -/
def Stocks (store later : Store) : Prop :=
  ∃ bill, later.stats = store.stats.pay bill ∧ due .totalItems bill ≤ 1 ∧
    later.items.size + removals bill ≤ store.items.size + due .totalItems bill

section Steps

variable {now : UInt64} {cutoff : Option UInt64} {token : UInt64} {store : Store}

theorem Stocks.of_size {later : Store} {gone : Nat} (bill : Bill)
    (size : later.items.size + gone = store.items.size) (paid : later.stats = store.stats.pay bill)
    (fits : (due .totalItems bill).ble 1 && (removals bill).ble (gone + due .totalItems bill)) :
    Stocks store later := by
  rw [Bool.and_eq_true, Nat.ble_eq, Nat.ble_eq] at fits
  refine ⟨bill, paid, fits.1, ?_⟩
  omega

theorem insert_stocks {items : Cache Bytes Item} (key : Bytes) (item : Item)
    (size : items.size = store.items.size) :
    Stocks store ({ store with items := AList.insert key item items }.count .totalItems 1) := by
  have inserted := Cache.insert_size items key item
  refine ⟨[(.totalItems, 1)], rfl, Nat.le_refl 1, ?_⟩
  show Cache.size (AList.insert key item items) + 0 ≤ store.items.size + 1
  omega

theorem storeEntry_stocks (op : StoreOp) (args : StoreArgs) :
    Stocks store (store.storeEntry op args now cutoff token).2 := by
  cases op with
  | set =>
      have inserted := Cache.insert_size store.items args.key
        (Item.new args.data args.flags args.exptime token now)
      simp only [Store.storeEntry, Store.insert]
      cases found : store.items.lookup args.key with
      | none => exact insert_stocks args.key _ rfl
      | some replaced =>
          rw [found, Option.isSome_some, Bool.toNat_true, Nat.add_right_cancel_iff] at inserted
          exact @Stocks.of_size store _ 0 [(.evictions, 1), (.totalItems, 1)] inserted rfl rfl
  | add =>
      have size := Cache.entry_size store.items args.key (addClosure now cutoff args token)
      simp only [Store.storeEntry]
      generalize store.items.entry args.key (addClosure now cutoff args token) = result at size ⊢
      obtain ⟨(_ | _) | _ | _, items⟩ := result
      · exact .of_size [] size rfl rfl
      · exact .of_size [(.totalItems, 1)] size rfl rfl
      · exact .of_size [] size rfl rfl
      · exact insert_stocks args.key _ size
  | replace =>
      have size := Cache.entry_size store.items args.key (replaceClosure now cutoff args token)
      simp only [Store.storeEntry]
      generalize store.items.entry args.key (replaceClosure now cutoff args token) = result
        at size ⊢
      obtain ⟨_ | _ | _, items⟩ := result
      · exact .of_size [(.totalItems, 1)] size rfl rfl
      · exact .of_size [] size rfl rfl
      · exact .of_size [] size rfl rfl
  | append | prepend =>
      simp only [Store.storeEntry]
      generalize concatClosure now cutoff _ args token = closure
      have size := Cache.entry_size store.items args.key closure
      generalize store.items.entry args.key closure = result at size ⊢
      obtain ⟨_ | _ | _, items⟩ := result
      · exact .of_size [(.totalItems, 1)] size rfl rfl
      · exact .of_size [] size rfl rfl
      · exact .of_size [] size rfl rfl
  | cas =>
      simp only [Store.storeEntry]
      cases args.cas with
      | none => exact @Stocks.of_size store store 0 [] rfl rfl rfl
      | some expected =>
          have size := Cache.entry_size store.items args.key
            (casClosure now cutoff expected args token)
          simp only
          generalize store.items.entry args.key (casClosure now cutoff expected args token) = result
            at size ⊢
          obtain ⟨(_ | _) | _ | _, items⟩ := result
          · exact .of_size [(.casBadval, 1)] size rfl rfl
          · exact .of_size [(.casHits, 1), (.totalItems, 1)] size rfl rfl
          · exact .of_size [(.casMisses, 1)] size rfl rfl
          · exact .of_size [(.casMisses, 1)] size rfl rfl

theorem arithmeticEntry_stocks (op : ArithmeticOp) (key : Bytes) (delta : UInt64) :
    Stocks store (store.arithmeticEntry op key delta now cutoff token).2 := by
  have size := Cache.entry_size store.items key (arithmeticClosure now cutoff op delta token)
  simp only [Store.arithmeticEntry]
  generalize store.items.entry key (arithmeticClosure now cutoff op delta token) = result at size ⊢
  obtain ⟨(_ | _) | _ | _, items⟩ := result
  · exact .of_size [] size rfl rfl
  · cases op <;> exact .of_size [(_, 1)] size rfl rfl
  · cases op <;> exact .of_size [(_, 1)] size rfl rfl
  · cases op <;> exact .of_size [(_, 1)] size rfl rfl

theorem touchEntry_stocks (key : Bytes) (exptime : Int64) :
    Stocks store (store.touchEntry key exptime now cutoff token).2 := by
  have size := Cache.entry_size store.items key (touchClosure now cutoff exptime token)
  simp only [Store.touchEntry]
  generalize store.items.entry key (touchClosure now cutoff exptime token) = result at size ⊢
  obtain ⟨_ | _ | _, items⟩ := result
  · exact .of_size [(.touchHits, 1)] size rfl rfl
  · exact .of_size [(.touchMisses, 1)] size rfl rfl
  · exact .of_size [(.touchMisses, 1)] size rfl rfl

theorem perform_stocks (update : Update) :
    Stocks store (update.perform now cutoff token store).2 := by
  cases update with
  | store op args => exact storeEntry_stocks op args
  | arithmetic op key delta => exact arithmeticEntry_stocks op key delta
  | touch key exptime => exact touchEntry_stocks key exptime

theorem visit_stocks (retrieval : Retrieval) (key : Bytes) :
    Stocks store (retrieval.visit now cutoff key store).2 := by
  cases retrieval with
  | get withCas =>
      have size := Cache.entry_size store.items key (getClosure now cutoff)
      simp only [Retrieval.visit, Store.getKey]
      generalize store.items.entry key (getClosure now cutoff) = result at size ⊢
      obtain ⟨_ | _ | _, items⟩ := result
      · exact .of_size [(.getHits, 1)] size rfl rfl
      · exact .of_size [(.getExpired, 1), (.getMisses, 1)] size rfl rfl
      · exact .of_size [(.getMisses, 1)] size rfl rfl
  | getAndTouch exptime withCas =>
      simp only [Retrieval.visit, Store.getAndTouchKey]
      generalize getAndTouchClosure now cutoff exptime _ = closure
      have size := Cache.entry_size store.items key closure
      generalize store.items.entry key closure = result at size ⊢
      obtain ⟨_ | _ | _, items⟩ := result
      · exact .of_size [(.getHits, 1)] size rfl rfl
      · exact .of_size [(.getExpired, 1), (.getMisses, 1)] size rfl rfl
      · exact .of_size [(.getMisses, 1)] size rfl rfl

theorem deleteEntry_stocks (key : Bytes) : Stocks store (store.deleteEntry key now cutoff).2 := by
  have size := Cache.erase_size store.items key
  simp only [Store.deleteEntry]
  cases found : store.items.lookup key with
  | none =>
      rw [found] at size
      exact .of_size [(.deleteMisses, 1)] size rfl rfl
  | some item =>
      rw [found] at size
      simp only
      cases item.isExpired now cutoff with
      | true =>
          exact .of_size [(.getExpired, 1), (.deleteMisses, 1)] size rfl rfl
      | false => exact .of_size [(.deleteHits, 1)] size rfl rfl

theorem evict_stocks (key : Bytes) : Stocks store (store.evict key) := by
  have size := Cache.erase_size store.items key
  rw [Store.evict]
  split
  · rename_i present
    rw [present] at size
    exact .of_size [(.evictions, 1)] size rfl rfl
  · exact @Stocks.of_size store store 0 [] rfl rfl rfl

theorem Stocks.none {later : Store} (items : later.items = store.items)
    (bill : Bill) (paid : later.stats = store.stats.pay bill)
    (apart : due .totalItems bill = 0 ∧ removals bill = 0) : Stocks store later := by
  obtain ⟨nothing, gone⟩ := apart
  refine ⟨bill, paid, by omega, ?_⟩
  rw [items, nothing, gone]

end Steps

variable {Client : Type} [DecidableEq Client]

theorem World.step_stocks {event : ClientEvent Client} {world after : World Client}
    (taken : world.step event = some after) : Stocks world.store after.store := by
  cases step_stepped taken with
  | called client command phase idle begins =>
      cases command with
      | flushAll => exact .none rfl [(.cmdFlush, 1)] rfl (by decide)
      | _ => exact .none rfl [] rfl (by decide)
  | timed client now operation during =>
      cases operation with
      | retrieve retrieval keys =>
          exact .none rfl [(.cmdGet, keys.length)] rfl ⟨rfl, rfl⟩
      | update update =>
          cases update with
          | store => exact .none rfl [(.cmdSet, 1)] rfl (by decide)
          | arithmetic op => cases op <;> exact .none rfl [(_, 1)] rfl (by decide)
          | touch => exact .none rfl [] rfl (by decide)
      | delete => exact .none rfl [] rfl (by decide)
  | drawn client update now cutoff during =>
      cases update with
      | touch => exact .none rfl [(.cmdTouch, 1)] rfl (by decide)
      | store | arithmetic => exact .none rfl [] rfl (by decide)
  | scheduled | resumed | gathered | flushed | refused | cleared | replied =>
      exact .none rfl [] rfl (by decide)
  | visited client retrieval now cutoff key rest values during => exact visit_stocks retrieval key
  | updated client update now cutoff token during => exact perform_stocks update
  | deleted client key now cutoff during => exact deleteEntry_stocks key
  | erased client key keys during =>
      have size := Cache.erase_size world.store.items key
      exact .of_size [] size rfl rfl
  | evicted key => exact evict_stocks key

def stockCounters : List Counter := [.totalItems, .evictions, .deleteHits, .getExpired]

theorem stock_apart : ∀ counter ∈ stockCounters,
    counter ≠ .totalConnections ∧ counter ≠ .currConnections := by decide

def Stocked (steps : Nat) (store : Store) : Prop :=
  ∃ bill, (∀ counter ∈ stockCounters, store.stats counter = UInt64.ofNat (due counter bill)) ∧
    due .totalItems bill ≤ steps ∧ store.items.size + removals bill ≤ due .totalItems bill

theorem Stocked.stocks {steps : Nat} {store later : Store} (stocked : Stocked steps store)
    (stocks : Stocks store later) : Stocked (steps + 1) later := by
  obtain ⟨bill, counters, few, held⟩ := stocked
  obtain ⟨more, paid, put, kept⟩ := stocks
  refine ⟨bill ++ more, ?_, ?_, ?_⟩
  · intro counter among
    rw [paid, pay_due, counters counter among, due_append, UInt64.ofNat_add]
  · rw [due_append]
    omega
  · simp only [removals, due_append] at held kept ⊢
    omega

theorem Stocked.same {steps : Nat} {store later : Store} (stocked : Stocked steps store)
    (items : later.items = store.items)
    (counters : ∀ counter ∈ stockCounters, later.stats counter = store.stats counter) :
    Stocked (steps + 1) later := by
  obtain ⟨bill, before, few, held⟩ := stocked
  refine ⟨bill, ?_, Nat.le_succ_of_le few, by rwa [items]⟩
  intro counter among
  rw [counters counter among, before counter among]

theorem Stocked.within {steps : Nat} {store : Store} (stocked : Stocked steps store)
    (short : steps < 2 ^ 64) :
    store.itemCount + (store.stats .evictions).toNat + (store.stats .deleteHits).toNat +
      (store.stats .getExpired).toNat ≤ (store.stats .totalItems).toNat := by
  obtain ⟨bill, counters, few, held⟩ := stocked
  have size : store.itemCount = store.items.size := rfl
  rw [removals] at held
  rw [counters .evictions (by decide), counters .deleteHits (by decide),
    counters .getExpired (by decide), counters .totalItems (by decide), size,
    UInt64.toNat_ofNat_of_lt' (show due .evictions bill < 2 ^ 64 by omega),
    UInt64.toNat_ofNat_of_lt' (show due .deleteHits bill < 2 ^ 64 by omega),
    UInt64.toNat_ofNat_of_lt' (show due .getExpired bill < 2 ^ 64 by omega),
    UInt64.toNat_ofNat_of_lt' (show due .totalItems bill < 2 ^ 64 by omega)]
  omega

section Numbers

variable [FromRadix10SignedChecked UInt32] [FromRadix10SignedChecked UInt64]
  [FromRadix10SignedChecked Int64]

namespace Server

theorem step_stocked {event : ServerEvent Client} {server after : Server Client}
    {steps : Nat} (taken : server.step event = some after)
    (stocked : Stocked steps server.world.store) : Stocked (steps + 1) after.world.store := by
  cases step_stepped taken with
  | accepted client socket overflow free idle =>
      refine stocked.same rfl ?_
      intro counter among
      obtain ⟨total, current⟩ := stock_apart counter among
      simp [opened, Store.count, Stats.add, total, current]
  | ended client conn connected idle turn =>
      refine stocked.same rfl ?_
      intro counter among
      simp [closed, Stats.sub, (stock_apart counter among).2]
  | refused client conn connected idle turn => exact stocked.same rfl fun _ _ => rfl
  | answered client conn command connected idle turn storeless =>
      rw [respond_eq]
      exact stocked.same rfl fun _ _ => rfl
  | replied client conn response connected finished =>
      rw [respond_eq]
      exact stocked.same rfl fun _ _ => rfl
  | began client conn command phase connected idle turn begins =>
      have called : server.world.step (.call client command) =
          some ({ server.world with store := command.count server.world.store }.enter client
            phase) := by simp [World.step, idle, begins]
      exact stocked.stocks (World.step_stocks called)
  | worked inner world inside worked => exact stocked.stocks (World.step_stocks worked)

theorem run_stocked {events : List (ServerEvent Client)} {first last : Server Client} {steps : Nat}
    (reached : run step events first = some last) (stocked : Stocked steps first.world.store) :
    Stocked (steps + events.length) last.world.store := by
  induction events generalizing first steps with
  | nil =>
      cases Option.some.inj reached
      exact stocked
  | cons event rest ih =>
      obtain ⟨second, taken, onward⟩ := run_cons reached
      have later := ih onward (step_stocked taken stocked)
      rwa [Nat.add_assoc, Nat.add_comm 1] at later

/-- What is in the store, with all that has been evicted, deleted and found dead by a lookup, is no
more than what has been stored, whenever no operation is at work: one at work counts its item in
the step that inserts it here, and in `Store::store` a little later. -/
theorem items_within_totals {events : List (ServerEvent Client)} {server : Server Client}
    (reached : run step events .new = some server) (short : events.length < 2 ^ 64)
    (_rested : ∀ client, server.world.phase client = .idle) :
    let store := server.world.store
    store.itemCount + (store.stats .evictions).toNat + (store.stats .deleteHits).toNat +
      (store.stats .getExpired).toNat ≤ (store.stats .totalItems).toNat := by
  have start : Stocked 0 (new : Server Client).world.store :=
    ⟨[], fun _ _ => rfl, Nat.le_refl 0, Nat.le_refl 0⟩
  have stocked := run_stocked reached start
  rw [Nat.zero_add] at stocked
  exact stocked.within short

end Server

end Numbers

section Stocks

def stockEvents : List (ServerEvent Bool) :=
  [.accept true counterSocket .tokio, .accept false setterSocket .tokio, .read false, .read true,
    .work (.readClock false 1000), .work (.readCutoff false), .read true, .work (.draw false),
    .work (.act false), .work (.evict (ascii "k")), .work (.readClock true 1000), .reply false,
    .work (.readCutoff true), .work (.draw true), .work (.act true), .reply true]

def stockServer : Server Bool := (run Server.step stockEvents .new).get (by decide +kernel)

theorem stock_within_totals :
    let store := stockServer.world.store
    store.itemCount + (store.stats .evictions).toNat + (store.stats .deleteHits).toNat +
      (store.stats .getExpired).toNat ≤ (store.stats .totalItems).toNat :=
  Server.items_within_totals (Option.some_get _).symm (by decide) (by decide +kernel)

end Stocks

end Ousagi
