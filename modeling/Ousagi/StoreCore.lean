import Ousagi.StatsCore
import Ousagi.Library.Cache
import Ousagi.Library.Decimal
import Ousagi.Library.Outputs

/-!
The store of `store.rs`.  The cache of `quick_cache` is a map with atomic entry
operations, whose `insert` tells `on_evict` of an item that it replaces; evictions
are steps of their own, outside these functions.  Every operation takes the clock
reading that it makes.
-/

namespace Ousagi

open Library

def thirtyDaysSecs : Int64 := 60 * 60 * 24 * 30

structure Item where
  data : Bytes
  flags : UInt32
  expiresAt : Option UInt64
  cas : UInt64
  storedAt : UInt64
  deriving DecidableEq, Repr

namespace Item

def resolveExpiry (exptime : Int64) (now : UInt64) : Option UInt64 :=
  if exptime = 0 then none
  else if exptime < 0 then some 0
  else if exptime ≤ thirtyDaysSecs then some (now + exptime.toUInt64)
  else some exptime.toUInt64

def new (data : Bytes) (flags : UInt32) (exptime : Int64) (cas now : UInt64) : Item :=
  { data, flags, expiresAt := resolveExpiry exptime now, cas, storedAt := now }

def isExpired (item : Item) (now : UInt64) (oldestLive : Option UInt64) : Bool :=
  if item.expiresAt.any fun time => time ≤ now then true
  else
    match oldestLive with
    | some cutoff => cutoff ≤ now && item.storedAt < cutoff
    | none => false

end Item

/-- The cells `next_cas` and `oldest_live` are atomics of the source. -/
structure Store where
  items : Cache Bytes Item
  nextCasCell : UInt64
  oldestLiveCell : UInt64
  stats : Stats

section Closures

variable (now : UInt64) (oldestLive : Option UInt64)

/-- The shape of all entry closures but that of `add`: an expired item is removed, a live one is
retained, changed or not. -/
def liveOnly {α : Type} (live : Item → α × Item) (item : Item) : Item × EntryAction α :=
  if item.isExpired now oldestLive then (item, .remove)
  else
    let (result, item) := live item
    (item, .retain result)

def getClosure : Item → Item × EntryAction (UInt32 × Bytes × UInt64) :=
  liveOnly now oldestLive fun item => ((item.flags, item.data, item.cas), item)

def getAndTouchClosure (exptime : Int64) (cas : UInt64) :
    Item → Item × EntryAction (UInt32 × Bytes × UInt64) :=
  liveOnly now oldestLive fun item =>
    let item := { item with expiresAt := Item.resolveExpiry exptime now, cas }
    ((item.flags, item.data, item.cas), item)

def addClosure (args : StoreArgs) (cas : UInt64) (item : Item) : Item × EntryAction Bool :=
  if item.isExpired now oldestLive then
    (Item.new args.data args.flags args.exptime cas now, .retain true)
  else (item, .retain false)

def replaceClosure (args : StoreArgs) (cas : UInt64) : Item → Item × EntryAction Unit :=
  liveOnly now oldestLive fun _ => ((), Item.new args.data args.flags args.exptime cas now)

def concatClosure (isAppend : Bool) (args : StoreArgs) (cas : UInt64) :
    Item → Item × EntryAction Unit :=
  liveOnly now oldestLive fun item =>
    let (first, second) := if isAppend then (item.data, args.data) else (args.data, item.data)
    ((), { item with data := first ++ second, cas })

def casClosure (expectedCas : UInt64) (args : StoreArgs) (cas : UInt64) :
    Item → Item × EntryAction Bool :=
  liveOnly now oldestLive fun item =>
    if item.cas ≠ expectedCas then (false, item)
    else (true, Item.new args.data args.flags args.exptime cas now)

def touchClosure (exptime : Int64) (cas : UInt64) : Item → Item × EntryAction Unit :=
  liveOnly now oldestLive fun item =>
    ((), { item with expiresAt := Item.resolveExpiry exptime now, cas })

end Closures

/-- `char::is_whitespace`: the characters with the Unicode property `White_Space`. -/
def isWhitespace (char : Char) : Bool :=
  let code := char.toNat
  (0x09 ≤ code && code ≤ 0x0D) || code = 0x20 || code = 0x85 || code = 0xA0 || code = 0x1680 ||
    (0x2000 ≤ code && code ≤ 0x200A) || code = 0x2028 || code = 0x2029 || code = 0x202F ||
    code = 0x205F || code = 0x3000

def trim (text : List Char) : List Char :=
  ((text.dropWhile isWhitespace).reverse.dropWhile isWhitespace).reverse

/-- `str::parse::<u64>`: an optional plus sign, then digits only, with the value in range. -/
def parseU64 (text : List Char) : Option UInt64 :=
  let digits := if text.head? = some '+' then text.tail else text
  let value := Nat.ofDigitChars 10 digits 0
  if digits ≠ [] ∧ digits.all Char.isDigit ∧ value < 2 ^ 64 then some (UInt64.ofNat value)
  else none

def fromUtf8 (data : Bytes) : Option (List Char) :=
  (String.fromUTF8? ⟨data.toArray⟩).map String.toList

def ArithmeticOp.apply (op : ArithmeticOp) (value delta : UInt64) : UInt64 :=
  match op with
  | .incr => value + delta
  | .decr => if delta ≤ value then value - delta else 0

def ArithmeticOp.error : ArithmeticOp → String
  | .incr => "cannot increment non-numeric value"
  | .decr => "cannot decrement non-numeric value"

def ArithmeticOp.cmd : ArithmeticOp → Counter
  | .incr => .cmdIncr
  | .decr => .cmdDecr

def numericValue (data : Bytes) : Option UInt64 :=
  (fromUtf8 data).bind fun text => parseU64 (trim text)

def arithmeticClosure (now : UInt64) (oldestLive : Option UInt64) (op : ArithmeticOp)
    (delta cas : UInt64) : Item → Item × EntryAction (Except String UInt64) :=
  liveOnly now oldestLive fun item =>
    match numericValue item.data with
    | none => (.error op.error, item)
    | some value =>
        let newValue := op.apply value delta
        (.ok newValue, { item with data := decimal newValue.toNat, cas })

namespace Store

def new : Store := { items := ∅, nextCasCell := 1, oldestLiveCell := 0, stats := .zero }

def count (counter : Counter) (count : Nat) (store : Store) : Store :=
  { store with stats := store.stats.add counter count }

def nextCas (store : Store) : UInt64 × Store :=
  (store.nextCasCell, { store with nextCasCell := store.nextCasCell + 1 })

def oldestLive (store : Store) : Option UInt64 :=
  if store.oldestLiveCell = 0 then none else some store.oldestLiveCell

def flushAll (delaySecs : UInt32) (now : UInt64) (store : Store) : Store :=
  { store with oldestLiveCell := now + delaySecs.toUInt64 }

def getKey (now : UInt64) (oldestLive : Option UInt64) (withCas : Bool) (key : Bytes)
    (store : Store) : Option (Bytes × UInt32 × Bytes × Option UInt64) × Store :=
  let (result, items) := store.items.entry key (getClosure now oldestLive)
  let store := { store with items }
  match result with
  | .retained (flags, data, cas) =>
      (some (key, flags, data, if withCas then some cas else none),
        store.count .getHits 1)
  | .removed => (none, (store.count .getExpired 1).count .getMisses 1)
  | .vacant => (none, store.count .getMisses 1)

def get (keys : List Bytes) (withCas : Bool) (now : UInt64) (store : Store) : Response × Store :=
  let store := store.count .cmdGet keys.length
  let oldestLive := store.oldestLive
  let (values, store) := collect (getKey now oldestLive withCas) keys store
  (.values values, store)

/-- The closure draws its token only for a live item. -/
def getAndTouchKey (exptime : Int64) (now : UInt64) (oldestLive : Option UInt64) (withCas : Bool)
    (key : Bytes) (store : Store) :
    Option (Bytes × UInt32 × Bytes × Option UInt64) × Store :=
  let (token, drawn) := store.nextCas
  let (result, items) :=
    store.items.entry key (getAndTouchClosure now oldestLive exptime token)
  match result with
  | .retained (flags, data, cas) =>
      let store := { drawn with items }
      (some (key, flags, data, if withCas then some cas else none),
        store.count .getHits 1)
  | .removed =>
      let store := { store with items }
      (none, (store.count .getExpired 1).count .getMisses 1)
  | .vacant =>
      let store := { store with items }
      (none, store.count .getMisses 1)

def getAndTouch (keys : List Bytes) (exptime : Int64) (withCas : Bool) (now : UInt64)
    (store : Store) : Response × Store :=
  let store := store.count .cmdGet keys.length
  let oldestLive := store.oldestLive
  let (values, store) := collect (getAndTouchKey exptime now oldestLive withCas) keys store
  (.values values, store)

def insert (key : Bytes) (item : Item) (store : Store) : Store :=
  let stats :=
    match store.items.lookup key with
    -- `on_evict` of the item that is replaced
    | some _ => store.stats.add .evictions 1
    | none => store.stats
  { store with items := AList.insert key item store.items, stats }

/-- The step of a storage command on its key, once its token is drawn.  The placeholder of a
vacant entry is still there when its guard inserts, so the insertion succeeds. -/
def storeEntry (op : StoreOp) (args : StoreArgs) (now : UInt64) (oldestLive : Option UInt64)
    (cas : UInt64) (store : Store) : Response × Store :=
  let item := Item.new args.data args.flags args.exptime cas now
  match op with
  | .set => (.stored, (store.insert args.key item).count .totalItems 1)
  | .add =>
      let (result, items) := store.items.entry args.key (addClosure now oldestLive args cas)
      let store := { store with items }
      match result with
      | .retained true => (.stored, store.count .totalItems 1)
      | .retained false => (.notStored, store)
      | .vacant =>
          let store := { store with items := AList.insert args.key item store.items }
          (.stored, store.count .totalItems 1)
      | .removed => (.notStored, store)
  | .replace =>
      let (result, items) := store.items.entry args.key (replaceClosure now oldestLive args cas)
      let store := { store with items }
      match result with
      | .retained () => (.stored, store.count .totalItems 1)
      | _ => (.notStored, store)
  | .append | .prepend =>
      let isAppend := op = .append
      let (result, items) :=
        store.items.entry args.key (concatClosure now oldestLive isAppend args cas)
      let store := { store with items }
      match result with
      | .retained () => (.stored, store.count .totalItems 1)
      | _ => (.notStored, store)
  | .cas =>
      match args.cas with
      | none => (.serverError "missing cas value", store)
      | some expectedCas =>
          let (result, items) :=
            store.items.entry args.key (casClosure now oldestLive expectedCas args cas)
          let store := { store with items }
          match result with
          | .retained true => (.stored, (store.count .casHits 1).count .totalItems 1)
          | .retained false => (.exists, store.count .casBadval 1)
          | .removed | .vacant => (.notFound, store.count .casMisses 1)

def store (op : StoreOp) (args : StoreArgs) (now : UInt64) (store : Store) : Response × Store :=
  let store := store.count .cmdSet 1
  let oldestLive := store.oldestLive
  let (cas, store) := store.nextCas
  store.storeEntry op args now oldestLive cas

def deleteEntry (key : Bytes) (now : UInt64) (oldestLive : Option UInt64) (store : Store) :
    Response × Store :=
  let found := store.items.lookup key
  let store := { store with items := store.items.erase key }
  match found with
  | some item =>
      if item.isExpired now oldestLive then
        (.notFound, (store.count .getExpired 1).count .deleteMisses 1)
      else (.deleted, store.count .deleteHits 1)
  | none => (.notFound, store.count .deleteMisses 1)

def delete (key : Bytes) (now : UInt64) (store : Store) : Response × Store :=
  let oldestLive := store.oldestLive
  store.deleteEntry key now oldestLive

def arithmeticEntry (op : ArithmeticOp) (key : Bytes) (delta now : UInt64)
    (oldestLive : Option UInt64) (cas : UInt64) (store : Store) : Response × Store :=
  let (hits, misses) :=
    match op with
    | .incr => (Counter.incrHits, Counter.incrMisses)
    | .decr => (Counter.decrHits, Counter.decrMisses)
  let (result, items) := store.items.entry key (arithmeticClosure now oldestLive op delta cas)
  let store := { store with items }
  match result with
  | .retained (.ok newValue) => (.number newValue, store.count hits 1)
  | .retained (.error message) => (.clientError message, store)
  | .removed | .vacant => (.notFound, store.count misses 1)

def arithmetic (op : ArithmeticOp) (key : Bytes) (delta : UInt64) (now : UInt64)
    (store : Store) : Response × Store :=
  let store := store.count op.cmd 1
  let oldestLive := store.oldestLive
  let (cas, store) := store.nextCas
  store.arithmeticEntry op key delta now oldestLive cas

def touchEntry (key : Bytes) (exptime : Int64) (now : UInt64) (oldestLive : Option UInt64)
    (cas : UInt64) (store : Store) : Response × Store :=
  let (result, items) := store.items.entry key (touchClosure now oldestLive exptime cas)
  let store := { store with items }
  match result with
  | .retained () => (.touched, store.count .touchHits 1)
  | .removed | .vacant => (.notFound, store.count .touchMisses 1)

def touch (key : Bytes) (exptime : Int64) (now : UInt64) (store : Store) : Response × Store :=
  let oldestLive := store.oldestLive
  let (cas, store) := store.nextCas
  let store := store.count .cmdTouch 1
  store.touchEntry key exptime now oldestLive cas

def flush (delay : Option UInt32) (now : UInt64) (store : Store) : Response × Store :=
  let store := store.count .cmdFlush 1
  match delay with
  | none => (.ok, { store with items := ∅ })
  | some secs =>
      if secs = 0 then (.ok, { store with items := ∅ }) else (.ok, store.flushAll secs now)

def itemCount (store : Store) : Nat := store.items.entries.length

def evict (key : Bytes) (store : Store) : Store :=
  if (store.items.lookup key).isSome then
    let store := { store with items := store.items.erase key }
    store.count .evictions 1
  else store

end Store

/-- `handler.rs`: the clock reading `now` is the one that the operation makes. -/
def handle (now : UInt64) (command : Command) (store : Store) : Response × Store :=
  match command with
  | .get keys withCas => store.get keys withCas now
  | .getAndTouch keys exptime withCas => store.getAndTouch keys exptime withCas now
  | .store op args => store.store op args now
  | .delete key _ => store.delete key now
  | .arithmetic op key delta _ => store.arithmetic op key delta now
  | .touch key exptime _ => store.touch key exptime now
  | .flushAll delay _ => store.flush delay now
  | .version => (.version "0.2.0", store)
  | .verbosity _ _ => (.ok, store)
  | .stats => (.stats (store.stats.report store.itemCount), store)

end Ousagi
