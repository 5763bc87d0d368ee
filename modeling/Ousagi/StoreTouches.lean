import Ousagi.StoreFrames

/-!
A retrieval that touches against a retrieval and a touch of each key in turn: the
same entries, and the same items but for their tokens.
-/

namespace Ousagi

open Library

def getThenTouch (exptime : Int64) (withCas : Bool) (now : UInt64) (key : Bytes) (store : Store) :
    Option Response × Store :=
  let (response, store) := store.get [key] withCas now
  let (_, store) := store.touch key exptime now
  (some response, store)

def Value.shown (value : Value) : Bytes × UInt32 × Bytes := (value.1, value.2.1, value.2.2.1)

/-- The token is one of those, this many, that were drawn from one state to the other. -/
def Store.Drew (count : Nat) (before after : Store) (token : UInt64) : Prop :=
  after.nextCasCell = before.nextCasCell + UInt64.ofNat count ∧
    ∃ index < count, token = before.nextCasCell + UInt64.ofNat index

section Agreement

variable (exptime : Int64) (withCas : Bool) (now : UInt64)

def Item.touched (cas : UInt64) (item : Item) : Item :=
  { item with expiresAt := Item.resolveExpiry exptime now, cas }

theorem get_one_effect (key : Bytes) (store : Store) :
    ∃ items stats, store.get [key] withCas now =
        (.values ((store.visible now key).map (Store.valueOf withCas key)).toList,
          { store with items, stats }) ∧
      Leaves store.items items key (store.visible now key) := by
  obtain ⟨items, stats, got, leaves⟩ :=
    Retrieval.visit_effect now store.oldestLive (store.count .cmdGet 1) (.get withCas) key
  refine ⟨items, stats, ?_, leaves⟩
  rw [Retrieval.visit] at got
  simp only [Store.get, collect, List.length_singleton, Store.count_oldestLive, got,
    Retrieval.effect, List.append_nil]
  rfl

theorem getThenTouch_effect (key : Bytes) (store : Store) :
    let found := store.visible now key
    ∃ items stats, getThenTouch exptime withCas now key store =
        (some (.values (found.map (Store.valueOf withCas key)).toList),
          { store with items, nextCasCell := store.nextCasCell + 1, stats }) ∧
      Leaves store.items items key (found.map (Item.touched exptime now store.nextCasCell)) := by
  obtain ⟨between, counted, got, kept⟩ := get_one_effect withCas now key store
  obtain ⟨items, stats, touched, leaves | ⟨tokenless, _⟩⟩ :=
    handle_update now { store with items := between, stats := counted }
      (show (Command.touch key exptime false).update = some (.touch key exptime) from rfl)
  · refine ⟨items, stats, ?_, ?_⟩
    · rw [handle] at touched
      simp only [getThenTouch, got, touched]
    · constructor
      · have same : ({ store with items := between, stats := counted } : Store).visible now key =
            store.visible now key := by
          rw [Store.visible, visibleItem, kept.here]
          exact visible_alive store now key
        refine leaves.here.trans ?_
        rw [Update.key, same]
        cases store.visible now key <;> rfl
      · intro other different
        rw [leaves.others other different, kept.others other different]
  · cases tokenless

theorem getAndTouchKey_effect (oldestLive : Option UInt64) (key : Bytes) (store : Store) :
    let found := visibleItem now oldestLive store.items key
    ∃ items stats, store.getAndTouchKey exptime now oldestLive withCas key =
        (found.map fun item =>
            Store.valueOf withCas key (item.touched exptime now store.nextCasCell),
          { store with
            items
            nextCasCell := if found.isSome then store.nextCasCell + 1 else store.nextCasCell
            stats }) ∧
      Leaves store.items items key (found.map (Item.touched exptime now store.nextCasCell)) :=
  Retrieval.visit_effect now oldestLive store (.getAndTouch exptime withCas) key

variable {left right : Store}

theorem key_alike (alike : Alike (fun _ => True) left right) (other : Bool) (key : Bytes) :
    let touched := left.getAndTouchKey exptime now left.oldestLive withCas key
    let pair := getThenTouch exptime other now key right
    touched.1.toList.map Value.shown =
        (pair.1.toList.flatMap Response.entries).map Value.shown ∧
      Alike (fun _ => True) touched.2 pair.2 ∧ touched.2.oldestLive = left.oldestLive := by
  intro touched pair
  obtain ⟨items, stats, step, leaves⟩ :=
    getAndTouchKey_effect exptime withCas now left.oldestLive key left
  obtain ⟨otherItems, otherStats, result, others⟩ :=
    getThenTouch_effect exptime other now key right
  have found : (visibleItem now left.oldestLive left.items key).map Item.untoken =
      (right.visible now key).map Item.untoken := by
    rw [Store.visible, ← alike.oldestLive]
    exact alike.visible now left.oldestLive trivial
  rw [show touched = _ from step, show pair = _ from result]
  cases here : visibleItem now left.oldestLive left.items key with
  | none =>
      rw [here, Option.map_none, eq_comm, Option.map_eq_none_iff] at found
      rw [here] at leaves
      rw [found] at others ⊢
      exact ⟨rfl, alike.leaves rfl rfl leaves others rfl, rfl⟩
  | some item =>
      rw [here, Option.map_some, eq_comm, Option.map_eq_some_iff] at found
      obtain ⟨twin, there, same⟩ := found
      rw [here] at leaves
      rw [there] at others ⊢
      simp only [Item.untoken, Item.mk.injEq] at same
      obtain ⟨data, flags, _, _, stored⟩ := same
      refine ⟨?_, alike.leaves rfl rfl leaves others ?_, rfl⟩
      · simp [Store.valueOf, Item.touched, Value.shown, Response.entries, data, flags]
      · simp [Item.touched, Item.untoken, data, flags, stored]

theorem keys_alike (alike : Alike (fun _ => True) left right) (oldestLive : Option UInt64)
    (same : left.oldestLive = oldestLive) (other : Bool) (keys : List Bytes) :
    let touched := collect (Store.getAndTouchKey exptime now oldestLive withCas) keys left
    let pairs := collect (getThenTouch exptime other now) keys right
    touched.1.map Value.shown = (pairs.1.flatMap Response.entries).map Value.shown ∧
      Alike (fun _ => True) touched.2 pairs.2 := by
  induction keys generalizing left right with
  | nil => exact ⟨rfl, alike⟩
  | cons key rest ih =>
      subst same
      obtain ⟨shown, next, cutoff⟩ := key_alike exptime withCas now alike other key
      obtain ⟨later, after⟩ := ih next cutoff
      refine ⟨?_, after⟩
      simp only [collect, List.map_append, List.flatMap_append]
      rw [shown, later]

end Agreement

/-- So many tokens were drawn since the start, and the items that were returned carry some of
them. -/
structure Freshened (start : Store) (count : Nat) (returned : List Value) (store : Store) :
    Prop where
  cell : store.nextCasCell = start.nextCasCell + UInt64.ofNat count
  tokens : ∀ value ∈ returned, ∀ item, store.items.lookup value.1 = some item →
    ∃ index < count, item.cas = start.nextCasCell + UInt64.ofNat index

section Freshness

variable {exptime : Int64} {now : UInt64} {start before after : Store} {count drawn : Nat}
  {returned : List Value} {key : Bytes} {found : Option Item}

theorem Freshened.leaves (freshened : Freshened start count returned before)
    (leaves : Leaves before.items after.items key
      (found.map (Item.touched exptime now before.nextCasCell)))
    (cell : after.nextCasCell = before.nextCasCell + UInt64.ofNat drawn)
    (draws : found.isSome → 0 < drawn) {more : List Value} (named : ∀ value ∈ more, value.1 = key) :
    Freshened start (count + drawn) (returned ++ more) after := by
  constructor
  · rw [cell, freshened.cell, UInt64.ofNat_add, UInt64.add_assoc]
  · intro value among item there
    by_cases here : value.1 = key
    · rw [here, leaves.here, Option.map_eq_some_iff] at there
      obtain ⟨live, seen, same⟩ := there
      have some := draws (by rw [seen, Option.isSome_some])
      refine ⟨count, by omega, ?_⟩
      rw [← same, Item.touched, freshened.cell]
    · have earlier : value ∈ returned :=
        (List.mem_append.mp among).resolve_right fun new => here (named value new)
      rw [leaves.others value.1 here] at there
      obtain ⟨index, below, token⟩ := freshened.tokens value earlier item there
      exact ⟨index, by omega, token⟩

theorem Freshened.drew (freshened : Freshened start count returned after) {value : Value}
    (among : value ∈ returned) {item : Item} (there : after.items.lookup value.1 = some item) :
    Store.Drew count start after item.cas :=
  ⟨freshened.cell, freshened.tokens value among item there⟩

variable (exptime : Int64) (withCas : Bool) (now : UInt64) (start : Store)

theorem key_freshened (oldestLive : Option UInt64) (log : List Value) (key : Bytes) (store : Store)
    (freshened : Freshened start log.length log store) :
    let touched := store.getAndTouchKey exptime now oldestLive withCas key
    Freshened start (log ++ touched.1.toList).length (log ++ touched.1.toList) touched.2 := by
  intro touched
  obtain ⟨items, stats, step, leaves⟩ :=
    getAndTouchKey_effect exptime withCas now oldestLive key store
  rw [show touched = _ from step, List.length_append]
  refine freshened.leaves leaves ?_ ?_ ?_
  · cases visibleItem now oldestLive store.items key <;> simp
  · cases visibleItem now oldestLive store.items key <;> simp
  · simp [Store.valueOf]

theorem pair_freshened (log : List Response) (key : Bytes) (store : Store)
    (freshened : Freshened start log.length (log.flatMap Response.entries) store) :
    let pair := getThenTouch exptime withCas now key store
    Freshened start (log ++ pair.1.toList).length ((log ++ pair.1.toList).flatMap Response.entries)
      pair.2 := by
  intro pair
  obtain ⟨items, stats, step, leaves⟩ := getThenTouch_effect exptime withCas now key store
  rw [show pair = _ from step, List.length_append, List.flatMap_append]
  refine freshened.leaves leaves ?_ ?_ ?_
  · simp
  · simp
  · simp [Response.entries, Store.valueOf]

end Freshness

/-- Whatever the store holds and however often a key is named, a retrieval that touches returns
the entries of a get and a touch of each key in turn, and leaves the same items but for their
tokens, which are new where an item was returned. -/
theorem getAndTouch_agrees (keys : List Bytes) (exptime : Int64) (withCas other : Bool)
    (now : UInt64) (store : Store) :
    let touched := store.getAndTouch keys exptime withCas now
    let pairs := collect (getThenTouch exptime other now) keys store
    let returned := touched.1.entries
    let got := pairs.1.flatMap Response.entries
    returned.map Value.shown = got.map Value.shown ∧
      (∀ key, (touched.2.items.lookup key).map Item.untoken =
        (pairs.2.items.lookup key).map Item.untoken) ∧
      (∀ value ∈ returned, ∀ item, touched.2.items.lookup value.1 = some item →
        Store.Drew returned.length store touched.2 item.cas) ∧
      ∀ value ∈ got, ∀ item, pairs.2.items.lookup value.1 = some item →
        Store.Drew keys.length store pairs.2 item.cas := by
  intro touched pairs returned got
  let counted := store.count .cmdGet keys.length
  obtain ⟨shown, alike⟩ := keys_alike exptime withCas now
    (show Alike (fun _ => True) counted store from ⟨rfl, fun _ _ => rfl⟩) store.oldestLive rfl
    other keys
  refine ⟨shown, fun key => alike.items key trivial, ?_, ?_⟩
  · have freshened := @collect_observed _ _ _ (fun log => Freshened counted log.length log) _
      (key_freshened exptime withCas now counted store.oldestLive) keys [] counted
      ⟨by simp, nofun⟩
    rw [List.nil_append] at freshened
    exact fun value among item => freshened.drew among
  · have freshened := @collect_observed _ _ _
      (fun log => Freshened store log.length (log.flatMap Response.entries)) _
      (pair_freshened exptime other now store) keys [] store ⟨by simp, nofun⟩
    rw [List.nil_append, collect_length (fun _ _ => rfl)] at freshened
    exact fun value among item => freshened.drew among

end Ousagi
