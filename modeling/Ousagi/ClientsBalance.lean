import Ousagi.Library.Accounts
import Ousagi.ClientsTokens
import Ousagi.StatsBalance

/-!
The counters of a store that many clients share.  The relaxed additions of different
operations interleave, and yet the counters obey the laws of bookkeeping: in every
reached state they are balanced but for what the operations still at work owe.
-/

namespace Ousagi

open Library

inductive Exchange
  | asked (command : Command)
  | told (response : Response)
  deriving DecidableEq, Repr

inductive Law
  | lookups
  | touches
  | requests
  | hits
  | stores
  | swaps
  | deletes
  | numbers (op : ArithmeticOp)
  | items
  | flushes
  deriving DecidableEq, Repr

namespace Law

def all : List Law :=
  [.lookups, .touches, .requests, .hits, .stores, .swaps, .deletes, .numbers .incr, .numbers .decr,
    .items, .flushes]

theorem mem_all (law : Law) : law ∈ all := by
  rcases law with _ | _ | _ | _ | _ | _ | _ | (_ | _) | _ | _ <;> decide

/-- The counters on the one side of a law. -/
def charged : Law → List Counter
  | .lookups => [.getHits, .getMisses]
  | .touches => [.touchHits, .touchMisses]
  | .requests => [.cmdGet]
  | .hits | .items => []
  | .stores => [.cmdSet]
  | .swaps => [.casHits, .casMisses, .casBadval]
  | .deletes => [.deleteHits, .deleteMisses]
  | .numbers .incr => [.incrHits, .incrMisses]
  | .numbers .decr => [.decrHits, .decrMisses]
  | .flushes => [.cmdFlush]

def credited : Law → List Counter
  | .lookups => [.cmdGet]
  | .touches => [.cmdTouch]
  | .hits => [.getHits]
  | .numbers op => [op.cmd]
  | .items => [.totalItems]
  | .requests | .stores | .swaps | .deletes | .flushes => []

def asks : Law → Command → Nat
  | .requests, .get keys _ | .requests, .getAndTouch keys _ _ => keys.length
  | .stores, .store _ _ => 1
  | .swaps, .store .cas args => args.cas.isSome.toNat
  | .deletes, .delete _ _ => 1
  | .flushes, .flushAll _ _ => 1
  | _, _ => 0

def tells : Law → Response → Nat
  | .hits, response => response.entries.length
  | .numbers op, response => (response = .clientError op.error : Bool).toNat
  | .items, response => (response = .stored : Bool).toNat
  | _, _ => 0

def told (law : Law) : Option Exchange → Nat
  | some (.told response) => law.tells response
  | _ => 0

def asked (law : Law) : Option Exchange → Nat
  | some (.asked command) => law.asks command
  | _ => 0

def charge (law : Law) (bill : Bill) : Nat := (law.charged.map (due · bill)).sum

def credit (law : Law) (bill : Bill) : Nat := (law.credited.map (due · bill)).sum

end Law

def Update.swaps : Update → Nat
  | .store .cas args => args.cas.isSome.toNat
  | _ => 0

def Update.numbers (op : ArithmeticOp) : Update → Nat
  | .arithmetic other _ _ => (other = op : Bool).toNat
  | _ => 0

/-- What a client at work is yet to charge, or to tell. -/
def Law.owes : Law → Phase → Nat
  | law, .finished response => law.tells response
  | .requests, .called (.retrieve _ keys) => keys.length
  | .stores, .called (.update (.store _ _)) => 1
  | .lookups, .timed (.retrieve _ keys) _ | .lookups, .visiting _ _ _ keys _ => keys.length
  | .hits, .visiting _ _ _ _ values => values.length
  | .touches, .updating (.touch _ _) _ _ _ => 1
  | .swaps, .called (.update update) | .swaps, .timed (.update update) _
  | .swaps, .drawing update _ _ | .swaps, .updating update _ _ _ => update.swaps
  | .deletes, .called (.delete _) | .deletes, .timed (.delete _) _ | .deletes, .deleting _ _ _ => 1
  | .numbers op, .timed (.update update) _ | .numbers op, .drawing update _ _
  | .numbers op, .updating update _ _ _ => update.numbers op
  | _, _ => 0

def Law.Keeps (law : Law) (bill : Bill) (exchange : Option Exchange) (before after : Phase) :
    Prop :=
  law.charge bill + law.told exchange + law.owes after =
    law.credit bill + law.asked exchange + law.owes before

theorem Law.keeps_all {bill : Bill} {exchange : Option Exchange} {before after : Phase}
    (same : Law.all.map (fun law => law.charge bill + law.told exchange + law.owes after) =
      Law.all.map fun law => law.credit bill + law.asked exchange + law.owes before)
    (law : Law) : law.Keeps bill exchange before after :=
  List.map_inj_left.mp same law law.mem_all

/-- A step from one phase to another adds a bill that keeps every law.  The counters of connections
are not the store's. -/
def Pays (exchange : Option Exchange) (before after : Phase) (store later : Store) : Prop :=
  ∃ bill, later.stats = store.stats.pay bill ∧
    (due .currConnections bill = 0 ∧ due .totalConnections bill = 0) ∧
    ∀ law : Law, law.Keeps bill exchange before after

section Steps

variable {now : UInt64} {oldestLive : Option UInt64} {cas : UInt64} {store : Store}

theorem storeEntry_pays (op : StoreOp) (args : StoreArgs) :
    Pays none (.updating (.store op args) now oldestLive cas)
      (.finished (store.storeEntry op args now oldestLive cas).1) store
      (store.storeEntry op args now oldestLive cas).2 := by
  cases op with
  | set =>
      simp only [Store.storeEntry, Store.insert]
      cases store.items.lookup args.key with
      | none => exact ⟨[(.totalItems, 1)], rfl, ⟨rfl, rfl⟩, Law.keeps_all rfl⟩
      | some replaced =>
          exact ⟨[(.evictions, 1), (.totalItems, 1)], rfl, ⟨rfl, rfl⟩, Law.keeps_all rfl⟩
  | add =>
      simp only [Store.storeEntry]
      rcases store.items.entry args.key (addClosure now oldestLive args cas) with
        ⟨(_ | _) | _ | _, items⟩
      · exact ⟨[], rfl, ⟨rfl, rfl⟩, Law.keeps_all rfl⟩
      · exact ⟨[(.totalItems, 1)], rfl, ⟨rfl, rfl⟩, Law.keeps_all rfl⟩
      · exact ⟨[], rfl, ⟨rfl, rfl⟩, Law.keeps_all rfl⟩
      · exact ⟨[(.totalItems, 1)], rfl, ⟨rfl, rfl⟩, Law.keeps_all rfl⟩
  | replace =>
      simp only [Store.storeEntry]
      rcases store.items.entry args.key (replaceClosure now oldestLive args cas) with
        ⟨_ | _ | _, items⟩
      · exact ⟨[(.totalItems, 1)], rfl, ⟨rfl, rfl⟩, Law.keeps_all rfl⟩
      · exact ⟨[], rfl, ⟨rfl, rfl⟩, Law.keeps_all rfl⟩
      · exact ⟨[], rfl, ⟨rfl, rfl⟩, Law.keeps_all rfl⟩
  | append | prepend =>
      simp only [Store.storeEntry]
      rcases store.items.entry args.key (concatClosure now oldestLive _ args cas) with
        ⟨_ | _ | _, items⟩
      · exact ⟨[(.totalItems, 1)], rfl, ⟨rfl, rfl⟩, Law.keeps_all rfl⟩
      · exact ⟨[], rfl, ⟨rfl, rfl⟩, Law.keeps_all rfl⟩
      · exact ⟨[], rfl, ⟨rfl, rfl⟩, Law.keeps_all rfl⟩
  | cas =>
      obtain ⟨key, flags, exptime, data, noreply, token⟩ := args
      cases token with
      | none => exact ⟨[], rfl, ⟨rfl, rfl⟩, Law.keeps_all rfl⟩
      | some expected =>
          simp only [Store.storeEntry]
          rcases store.items.entry key (casClosure now oldestLive expected _ cas) with
            ⟨(_ | _) | _ | _, items⟩
          · exact ⟨[(.casBadval, 1)], rfl, ⟨rfl, rfl⟩, Law.keeps_all rfl⟩
          · exact ⟨[(.casHits, 1), (.totalItems, 1)], rfl, ⟨rfl, rfl⟩, Law.keeps_all rfl⟩
          · exact ⟨[(.casMisses, 1)], rfl, ⟨rfl, rfl⟩, Law.keeps_all rfl⟩
          · exact ⟨[(.casMisses, 1)], rfl, ⟨rfl, rfl⟩, Law.keeps_all rfl⟩

theorem arithmeticEntry_pays (op : ArithmeticOp) (key : Bytes) (delta : UInt64) :
    Pays none (.updating (.arithmetic op key delta) now oldestLive cas)
      (.finished (store.arithmeticEntry op key delta now oldestLive cas).1) store
      (store.arithmeticEntry op key delta now oldestLive cas).2 := by
  simp only [Store.arithmeticEntry, Cache.entry]
  cases store.items.lookup key with
  | none =>
      cases op with
      | incr => exact ⟨[(.incrMisses, 1)], rfl, ⟨rfl, rfl⟩, Law.keeps_all rfl⟩
      | decr => exact ⟨[(.decrMisses, 1)], rfl, ⟨rfl, rfl⟩, Law.keeps_all rfl⟩
  | some item =>
      simp only [arithmeticClosure, liveOnly]
      cases item.isExpired now oldestLive with
      | true =>
          cases op with
          | incr => exact ⟨[(.incrMisses, 1)], rfl, ⟨rfl, rfl⟩, Law.keeps_all rfl⟩
          | decr => exact ⟨[(.decrMisses, 1)], rfl, ⟨rfl, rfl⟩, Law.keeps_all rfl⟩
      | false =>
          simp only [Bool.false_eq_true, if_false]
          cases numericValue item.data with
          | none => cases op <;> exact ⟨[], rfl, ⟨rfl, rfl⟩, Law.keeps_all rfl⟩
          | some value =>
              cases op with
              | incr => exact ⟨[(.incrHits, 1)], rfl, ⟨rfl, rfl⟩, Law.keeps_all rfl⟩
              | decr => exact ⟨[(.decrHits, 1)], rfl, ⟨rfl, rfl⟩, Law.keeps_all rfl⟩

theorem touchEntry_pays (key : Bytes) (exptime : Int64) :
    Pays none (.updating (.touch key exptime) now oldestLive cas)
      (.finished (store.touchEntry key exptime now oldestLive cas).1) store
      (store.touchEntry key exptime now oldestLive cas).2 := by
  simp only [Store.touchEntry]
  rcases store.items.entry key (touchClosure now oldestLive exptime cas) with ⟨_ | _ | _, items⟩
  · exact ⟨[(.touchHits, 1)], rfl, ⟨rfl, rfl⟩, Law.keeps_all rfl⟩
  · exact ⟨[(.touchMisses, 1)], rfl, ⟨rfl, rfl⟩, Law.keeps_all rfl⟩
  · exact ⟨[(.touchMisses, 1)], rfl, ⟨rfl, rfl⟩, Law.keeps_all rfl⟩

theorem perform_pays (update : Update) :
    Pays none (.updating update now oldestLive cas)
      (.finished (update.perform now oldestLive cas store).1) store
      (update.perform now oldestLive cas store).2 := by
  cases update with
  | store op args => exact storeEntry_pays op args
  | arithmetic op key delta => exact arithmeticEntry_pays op key delta
  | touch key exptime => exact touchEntry_pays key exptime

theorem deleteEntry_pays (key : Bytes) :
    Pays none (.deleting key now oldestLive)
      (.finished (store.deleteEntry key now oldestLive).1) store
      (store.deleteEntry key now oldestLive).2 := by
  simp only [Store.deleteEntry]
  cases store.items.lookup key with
  | none => exact ⟨[(.deleteMisses, 1)], rfl, ⟨rfl, rfl⟩, Law.keeps_all rfl⟩
  | some item =>
      simp only
      cases item.isExpired now oldestLive with
      | true =>
          exact ⟨[(.getExpired, 1), (.deleteMisses, 1)], rfl, ⟨rfl, rfl⟩, Law.keeps_all rfl⟩
      | false => exact ⟨[(.deleteHits, 1)], rfl, ⟨rfl, rfl⟩, Law.keeps_all rfl⟩

theorem Finds.keeps {value : Option Value} {dead : Nat} {bill : Bill}
    (finds : Finds 1 value.toList.length dead bill) (retrieval : Retrieval) (key : Bytes)
    (rest : List Bytes) (values : List Value) (law : Law) :
    law.Keeps bill none (.visiting retrieval now oldestLive (key :: rest) values)
      (.visiting retrieval now oldestLive rest (values ++ value.toList)) := by
  have each := finds.each
  have hits := finds.hits
  have only := finds.only
  rcases law with _ | _ | _ | _ | _ | _ | _ | (_ | _) | _ | _ <;>
    simp [Law.Keeps, Law.charge, Law.credit, Law.charged, Law.credited, Law.told, Law.asked,
      Law.owes, ArithmeticOp.cmd, only]
  · omega
  · omega

theorem visit_pays (retrieval : Retrieval) (key : Bytes) (rest : List Bytes)
    (values : List Value) :
    Pays none (.visiting retrieval now oldestLive (key :: rest) values)
      (.visiting retrieval now oldestLive rest
        (values ++ (retrieval.visit now oldestLive key store).1.toList)) store
      (retrieval.visit now oldestLive key store).2 := by
  have looks : Looks now oldestLive fun key store => retrieval.visit now oldestLive key store := by
    cases retrieval with
    | get withCas => exact getKey_looks now oldestLive withCas
    | getAndTouch exptime withCas => exact getAndTouchKey_looks now oldestLive exptime withCas
  obtain ⟨bill, paid, finds⟩ := looks key store
  exact ⟨bill, paid, ⟨finds.only _ (by decide), finds.only _ (by decide)⟩,
    finds.keeps retrieval key rest values⟩

def World.Books {Client : Type} (exchange : Option Exchange) (world after : World Client) : Prop :=
  ∃ before later, Pays exchange before later world.store after.store ∧
    ((before = later ∧ after.phase = world.phase) ∨ ∃ client, world.phase client = before ∧
      after.phase client = later ∧ ∀ other, other ≠ client → after.phase other = world.phase other)

end Steps

def ClientEvent.exchange {Client : Type} (event : ClientEvent Client) (world : World Client) :
    Option Exchange :=
  match event with
  | .call _ command => some (.asked command)
  | .reply client => (world.response client).map .told
  | _ => none

variable {Client : Type} [DecidableEq Client]

theorem World.step_books {event : ClientEvent Client} {world after : World Client}
    (taken : world.step event = some after) :
    World.Books (event.exchange world) world after := by
  have moves : ∀ {client : Client} {before later : Phase} {store : Store} {draws : Nat},
      world.phase client = before →
      Pays (event.exchange world) before later world.store store →
      World.Books (event.exchange world) world
        ({ world with store, draws }.enter client later) := by
    intro client before later store draws during pays
    refine ⟨before, later, pays, Or.inr ⟨client, during, enter_self _ _, ?_⟩⟩
    exact fun other different => (enter_phase ..).trans (if_neg different)
  cases step_stepped taken with
  | called client command phase idle begins =>
      refine moves idle ?_
      cases command with
      | store op args =>
          cases begins
          cases op <;> exact ⟨[], rfl, ⟨rfl, rfl⟩, Law.keeps_all rfl⟩
      | get | getAndTouch | delete | arithmetic | touch =>
          cases begins
          exact ⟨[], rfl, ⟨rfl, rfl⟩, Law.keeps_all rfl⟩
      | flushAll delay noreply =>
          cases begins
          split <;> exact ⟨[(.cmdFlush, 1)], rfl, ⟨rfl, rfl⟩, Law.keeps_all rfl⟩
      | version | verbosity | stats => cases begins
  | timed client now operation during =>
      refine moves during ?_
      cases operation with
      | retrieve retrieval keys =>
          refine ⟨[(.cmdGet, keys.length)], rfl, ⟨rfl, rfl⟩, Law.keeps_all ?_⟩
          simp [Law.all, Law.charge, Law.credit, Law.charged, Law.credited, Law.told, Law.asked,
            Law.owes, ArithmeticOp.cmd, ClientEvent.exchange]
      | update update =>
          cases update with
          | store op args =>
              exact ⟨[(.cmdSet, 1)], rfl, ⟨rfl, rfl⟩, Law.keeps_all rfl⟩
          | arithmetic op key delta =>
              cases op <;> exact ⟨[(_, 1)], rfl, ⟨rfl, rfl⟩, Law.keeps_all rfl⟩
          | touch key exptime => exact ⟨[], rfl, ⟨rfl, rfl⟩, Law.keeps_all rfl⟩
      | delete key => exact ⟨[], rfl, ⟨rfl, rfl⟩, Law.keeps_all rfl⟩
  | scheduled client now secs during =>
      exact moves during ⟨[], rfl, ⟨rfl, rfl⟩, Law.keeps_all rfl⟩
  | resumed client operation now during =>
      refine moves during ?_
      cases operation with
      | retrieve | update | delete => exact ⟨[], rfl, ⟨rfl, rfl⟩, Law.keeps_all rfl⟩
  | drawn client update now oldestLive during =>
      refine moves during ?_
      cases update with
      | store | arithmetic => exact ⟨[], rfl, ⟨rfl, rfl⟩, Law.keeps_all rfl⟩
      | touch key exptime => exact ⟨[(.cmdTouch, 1)], rfl, ⟨rfl, rfl⟩, Law.keeps_all rfl⟩
  | visited client retrieval now oldestLive key rest values during =>
      exact moves during (visit_pays retrieval key rest values)
  | updated client update now oldestLive cas during => exact moves during (perform_pays update)
  | deleted client key now oldestLive during => exact moves during (deleteEntry_pays key)
  | gathered client during => exact moves during ⟨[], rfl, ⟨rfl, rfl⟩, Law.keeps_all rfl⟩
  | flushed client secs now during =>
      exact moves during ⟨[], rfl, ⟨rfl, rfl⟩, Law.keeps_all rfl⟩
  | refused client args now oldestLive cas during vacant =>
      exact moves during ⟨[], rfl, ⟨rfl, rfl⟩, Law.keeps_all rfl⟩
  | erased client key keys during => exact moves during ⟨[], rfl, ⟨rfl, rfl⟩, Law.keeps_all rfl⟩
  | cleared client during =>
      exact moves during ⟨[], rfl, ⟨rfl, rfl⟩, Law.keeps_all rfl⟩
  | replied client response answered =>
      have told : (ClientEvent.reply client).exchange world = some (.told response) :=
        congrArg (Option.map Exchange.told) answered
      rw [told] at moves ⊢
      rw [World.response] at answered
      cases during : world.phase client with
      | visiting retrieval now oldestLive keys values =>
          rw [during] at answered
          cases keys with
          | nil =>
              cases answered
              exact moves during ⟨[], rfl, ⟨rfl, rfl⟩, Law.keeps_all rfl⟩
          | cons key rest => cases answered
      | finished reply =>
          rw [during] at answered
          cases answered
          exact moves during ⟨[], rfl, ⟨rfl, rfl⟩, Law.keeps_all rfl⟩
      | _ => simp [during] at answered
  | evicted key =>
      refine ⟨.idle, .idle, ?_, Or.inl ⟨rfl, rfl⟩⟩
      by_cases present : (world.store.items.lookup key).isSome
      · refine ⟨[(.evictions, 1)], ?_, ⟨rfl, rfl⟩, Law.keeps_all rfl⟩
        rw [Store.evict, if_pos present]
        rfl
      · refine ⟨[], ?_, ⟨rfl, rfl⟩, Law.keeps_all rfl⟩
        rw [Store.evict, if_neg present]
        rfl

def Law.toldAll (law : Law) (log : List Exchange) : Nat :=
  (log.map fun exchange => law.told (some exchange)).sum

def Law.askedAll (law : Law) (log : List Exchange) : Nat :=
  (log.map fun exchange => law.asked (some exchange)).sum

def Law.Accounts (law : Law) (bill : Bill) (log : List Exchange) (world : World Client) : Prop :=
  ∃ owed, Owing (fun client => law.owes (world.phase client)) owed ∧
    law.charge bill + law.toldAll log + owed = law.credit bill + law.askedAll log

def World.Accounted (log : List Exchange) (world : World Client) : Prop :=
  ∃ bill, world.store.stats = Stats.zero.pay bill ∧
    (due .currConnections bill = 0 ∧ due .totalConnections bill = 0) ∧
    ∀ law : Law, law.Accounts bill log world

theorem due_sums (counters : List Counter) (first second : Bill) :
    (counters.map (due · (first ++ second))).sum =
      (counters.map (due · first)).sum + (counters.map (due · second)).sum := by
  simp only [due_append, List.sum_map_add]

theorem Law.exchange_sums (law : Law) (log : List Exchange) (exchange : Option Exchange) :
    law.toldAll (log ++ exchange.toList) = law.toldAll log + law.told exchange ∧
      law.askedAll (log ++ exchange.toList) = law.askedAll log + law.asked exchange := by
  simp only [toldAll, askedAll, List.map_append, List.sum_append]
  cases exchange <;> simp [told, asked]

theorem Law.sums {law : Law} {bill more : Bill} {log : List Exchange} {exchange : Option Exchange}
    {owed later : Nat}
    (accounts : law.charge bill + law.toldAll log + owed = law.credit bill + law.askedAll log)
    (kept : law.charge more + law.told exchange + later =
      law.credit more + law.asked exchange + owed) :
    law.charge (bill ++ more) + law.toldAll (log ++ exchange.toList) + later =
      law.credit (bill ++ more) + law.askedAll (log ++ exchange.toList) := by
  have sums := law.exchange_sums log exchange
  rw [sums.1, sums.2]
  simp only [charge, credit, due_sums] at accounts kept ⊢
  omega

theorem World.step_accounted {event : ClientEvent Client} {log : List Exchange}
    {world after : World Client} (taken : world.step event = some after)
    (accounted : world.Accounted log) :
    after.Accounted (log ++ (event.exchange world).toList) := by
  obtain ⟨bill, paid, apart, accounts⟩ := accounted
  obtain ⟨before, later, ⟨more, added, others, keeps⟩, moved⟩ := step_books taken
  refine ⟨bill ++ more, by rw [← pay_pay, ← paid, added], by simp [apart, others], ?_⟩
  intro law
  obtain ⟨owed, owing, balance⟩ := accounts law
  have kept : law.charge more + law.told (event.exchange world) + law.owes later =
    law.credit more + law.asked (event.exchange world) + law.owes before := keeps law
  rcases moved with ⟨same, still⟩ | ⟨client, was, becomes, rest⟩
  · refine ⟨owed, by rwa [still], Law.sums balance ?_⟩
    rw [same] at kept
    omega
  · obtain ⟨grown, owingNow, change⟩ :
        ∃ grown, Owing (fun other => law.owes (after.phase other)) grown ∧
          grown + law.owes (world.phase client) = owed + law.owes (after.phase client) :=
      owing.changed client fun other different => congrArg law.owes (rest other different)
    rw [was, becomes] at change
    exact ⟨grown, owingNow, Law.sums balance (by omega)⟩

def exchanges (events : List (ClientEvent Client)) : List Exchange :=
  observe World.step ClientEvent.exchange events .new

theorem run_accounted {events : List (ClientEvent Client)} {world : World Client}
    (reached : run World.step events .new = some world) : world.Accounted (exchanges events) := by
  have start : World.Accounted [] (World.new : World Client) :=
    ⟨[], rfl, ⟨rfl, rfl⟩, fun law => ⟨0, Owing.none fun _ => by cases law <;> rfl,
      by cases law with
        | numbers op => cases op <;> rfl
        | _ => rfl⟩⟩
  exact run_logged World.step_accounted reached start

def Stats.total (stats : Stats) : List Counter → UInt64
  | [] => 0
  | counter :: rest => stats counter + stats.total rest

theorem total_paid (counters : List Counter) (bill : Bill) :
    (Stats.zero.pay bill).total counters = UInt64.ofNat (counters.map (due · bill)).sum := by
  induction counters with
  | nil => rfl
  | cons counter rest ih =>
      rw [Stats.total, ih, pay_due, List.map_cons, List.sum_cons, UInt64.ofNat_add]
      simp [Stats.zero]

/-- The law as the counters themselves, with what some of the clients owe. -/
def Law.Holds (law : Law) (stats : Stats) (log : List Exchange) (owed : Nat) : Prop :=
  stats.total law.charged + UInt64.ofNat (law.toldAll log + owed) =
    stats.total law.credited + UInt64.ofNat (law.askedAll log)

theorem Law.idle_owes (law : Law) : law.owes .idle = 0 := by cases law <;> rfl

theorem World.Accounted.holds {log : List Exchange} {world : World Client}
    (accounted : world.Accounted log) {busy : Finset Client}
    (among : ∀ client, client ∉ busy → world.phase client = .idle) (law : Law) :
    law.Holds world.store.stats log (∑ client ∈ busy, law.owes (world.phase client)) := by
  obtain ⟨bill, paid, _, accounts⟩ := accounted
  obtain ⟨owed, owing, balance⟩ := accounts law
  have total := owing.sum busy fun client absent => by rw [among client absent, law.idle_owes]
  rw [Law.Holds, paid, total_paid, total_paid, ← UInt64.ofNat_add, ← UInt64.ofNat_add, ← total,
    ← Nat.add_assoc]
  exact congrArg UInt64.ofNat balance

structure Rested (stats : Stats) (log : List Exchange) : Prop where
  lookups : stats .getHits + stats .getMisses = stats .cmdGet
  touches : stats .touchHits + stats .touchMisses = stats .cmdTouch
  requests : stats .cmdGet = UInt64.ofNat (Law.requests.askedAll log)
  hits : stats .getHits = UInt64.ofNat (Law.hits.toldAll log)
  stores : stats .cmdSet = UInt64.ofNat (Law.stores.askedAll log)
  swaps : stats .casHits + stats .casMisses + stats .casBadval =
    UInt64.ofNat (Law.swaps.askedAll log)
  deletes : stats .deleteHits + stats .deleteMisses = UInt64.ofNat (Law.deletes.askedAll log)
  increments : stats .cmdIncr = stats .incrHits + stats .incrMisses +
    UInt64.ofNat ((Law.numbers .incr).toldAll log)
  decrements : stats .cmdDecr = stats .decrHits + stats .decrMisses +
    UInt64.ofNat ((Law.numbers .decr).toldAll log)
  items : stats .totalItems = UInt64.ofNat (Law.items.toldAll log)
  flushes : stats .cmdFlush = UInt64.ofNat (Law.flushes.askedAll log)

theorem Law.toldAll_zero (law : Law) (never : ∀ response, law.tells response = 0)
    (log : List Exchange) : law.toldAll log = 0 := by
  refine List.sum_eq_zero ?_
  rintro _ among
  obtain ⟨exchange, _, rfl⟩ := List.mem_map.mp among
  cases exchange with
  | asked command => rfl
  | told response => exact never response

theorem Law.askedAll_zero (law : Law) (never : ∀ command, law.asks command = 0)
    (log : List Exchange) : law.askedAll log = 0 := by
  refine List.sum_eq_zero ?_
  rintro _ among
  obtain ⟨exchange, _, rfl⟩ := List.mem_map.mp among
  cases exchange with
  | asked command => exact never command
  | told response => rfl

theorem rested_of_laws {stats : Stats} {log : List Exchange}
    (holds : ∀ law : Law, law.Holds stats log 0) : Rested stats log := by
  have untold : ∀ law : Law, (∀ response, law.tells response = 0) → law.toldAll log = 0 :=
    fun law never => law.toldAll_zero never log
  have unasked : ∀ law : Law, (∀ command, law.asks command = 0) → law.askedAll log = 0 :=
    fun law never => law.askedAll_zero never log
  have sides : ∀ law : Law, stats.total law.charged + UInt64.ofNat (law.toldAll log) =
      stats.total law.credited + UInt64.ofNat (law.askedAll log) := holds
  constructor
  · simpa [Stats.total, Law.charged, Law.credited,
      untold .lookups fun _ => rfl, unasked .lookups fun _ => rfl]
      using sides .lookups
  · simpa [Stats.total, Law.charged, Law.credited,
      untold .touches fun _ => rfl, unasked .touches fun _ => rfl]
      using sides .touches
  · simpa [Stats.total, Law.charged, Law.credited,
      untold .requests fun _ => rfl] using sides .requests
  · simpa [Stats.total, Law.charged, Law.credited,
      unasked .hits fun _ => rfl] using (sides .hits).symm
  · simpa [Stats.total, Law.charged, Law.credited, untold .stores fun _ => rfl] using sides .stores
  · simpa [Stats.total, Law.charged, Law.credited, untold .swaps fun _ => rfl, UInt64.add_assoc]
      using sides .swaps
  · simpa [Stats.total, Law.charged, Law.credited,
      untold .deletes fun _ => rfl] using sides .deletes
  · simpa [Stats.total, Law.charged, Law.credited, ArithmeticOp.cmd,
      unasked (.numbers .incr) fun _ => rfl]
      using (sides (.numbers .incr)).symm
  · simpa [Stats.total, Law.charged, Law.credited, ArithmeticOp.cmd,
      unasked (.numbers .decr) fun _ => rfl]
      using (sides (.numbers .decr)).symm
  · simpa [Stats.total, Law.charged, Law.credited,
      unasked .items fun _ => rfl] using (sides .items).symm
  · simpa [Stats.total, Law.charged, Law.credited,
      untold .flushes fun _ => rfl] using sides .flushes

/-- However the operations of any number of clients interleave, every law holds in every state, up
to what the clients at work owe and modulo 2^64; when none is at work, they owe nothing. -/
theorem counters_obey {events : List (ClientEvent Client)} {world : World Client}
    (reached : run World.step events .new = some world) :
    (∀ busy : Finset Client, (∀ client, client ∉ busy → world.phase client = .idle) →
      ∀ law : Law, law.Holds world.store.stats (exchanges events)
        (∑ client ∈ busy, law.owes (world.phase client))) ∧
      ((∀ client, world.phase client = .idle) → Rested world.store.stats (exchanges events)) := by
  have accounted := run_accounted reached
  refine ⟨fun busy among => accounted.holds among, ?_⟩
  intro idle
  have nobody : ∀ client, client ∉ (∅ : Finset Client) → world.phase client = .idle :=
    fun client _ => idle client
  exact rested_of_laws fun law => accounted.holds nobody law

section Books

def bookEvents : List (ClientEvent Bool) :=
  [.call false (.get [ascii "k"] false), .readClock false 1000,
    .call true (.store .set ⟨ascii "k", 0, 0, ascii "a", false, none⟩), .readClock true 1000,
    .readCutoff true, .draw true, .act true, .readCutoff false, .act false, .reply true,
    .reply false]

def bookWorld : World Bool := (run World.step bookEvents .new).get (by decide +kernel)

theorem books_obey : Rested bookWorld.store.stats (exchanges bookEvents) :=
  (counters_obey (Option.some_get _).symm).2 (by decide +kernel)

end Books

end Ousagi
