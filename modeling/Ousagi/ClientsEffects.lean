import Ousagi.ClientsChecks

/-!
Each step on a key as a function of the live item under it: the reply, and the
item that is there afterwards.  All that is proved about the data of the store
goes through these functions.
-/

namespace Ousagi

open Library

/-- The reply of an update and the item it leaves, from the item that is live under its key. -/
def Update.effect (now cas : UInt64) (found : Option Item) : Update → Response × Option Item
  | .store op args =>
      let written := Item.new args.data args.flags args.exptime cas now
      match op, found with
      | .set, _ => (.stored, some written)
      | .add, none => (.stored, some written)
      | .add, some item => (.notStored, some item)
      | .replace, none => (.notStored, none)
      | .replace, some _ => (.stored, some written)
      | .append, none => (.notStored, none)
      | .append, some item => (.stored, some { item with data := item.data ++ args.data, cas })
      | .prepend, none => (.notStored, none)
      | .prepend, some item => (.stored, some { item with data := args.data ++ item.data, cas })
      | .cas, found =>
          match args.cas, found with
          | none, found => (.serverError "missing cas value", found)
          | some _, none => (.notFound, none)
          | some expected, some item =>
              if item.cas ≠ expected then (.exists, some item) else (.stored, some written)
  | .arithmetic op _ delta =>
      match found with
      | none => (.notFound, none)
      | some item =>
          match numericValue item.data with
          | none => (.clientError op.error, some item)
          | some value =>
              let data := decimal (op.apply value delta).toNat
              (.number (op.apply value delta), some { item with data, cas })
  | .touch _ exptime =>
      match found with
      | none => (.notFound, none)
      | some item =>
          (.touched, some { item with expiresAt := Item.resolveExpiry exptime now, cas })

def Retrieval.effect (now cas : UInt64) (key : Bytes) (found : Option Item) :
    Retrieval → Option Value × Option Item
  | .get withCas =>
      (found.map fun item => (key, item.flags, item.data, if withCas then some item.cas else none),
        found)
  | .getAndTouch exptime withCas =>
      (found.map fun item => (key, item.flags, item.data, if withCas then some cas else none),
        found.map fun item => { item with expiresAt := Item.resolveExpiry exptime now, cas })

/-- A `cas` without a token looks at no key. -/
def Update.tokenless : Update → Bool
  | .store .cas args => args.cas.isNone
  | _ => false

structure Leaves (before after : Cache Bytes Item) (key : Bytes) (left : Option Item) : Prop where
  here : after.lookup key = left
  others : ∀ other, other ≠ key → after.lookup other = before.lookup other

theorem Leaves.kept {now : UInt64} {oldestLive : Option UInt64} {before after : Cache Bytes Item}
    {key : Bytes} {left : Option Item} (leaves : Leaves before after key left)
    (same : left = visibleItem now oldestLive before key) : Kept before after := by
  intro other
  by_cases here : other = key
  · rw [here, leaves.here, same]
    cases found : visibleItem now oldestLive before key with
    | none => exact Or.inr rfl
    | some item => exact Or.inl (visible_lookup found).symm
  · exact Or.inl (leaves.others other here)

section Effects

variable (now : UInt64) (oldestLive : Option UInt64) (cas : UInt64) (store : Store)

theorem entry_leaves {α : Type} {live : Item → α × Item} {items : Cache Bytes Item} {key : Bytes}
    {left : Option Item}
    (same : left = (visibleItem now oldestLive items key).map fun item => (live item).2) :
    Leaves items (items.entry key (liveOnly now oldestLive live)).2 key left := by
  constructor
  · rw [live_lookup, if_pos rfl, same]
  · intro other different
    rw [live_lookup, if_neg different]

theorem storeEntry_effect (op : StoreOp) (args : StoreArgs) :
    let found := visibleItem now oldestLive store.items args.key
    let effect := (Update.store op args).effect now cas found
    ∃ items stats, store.storeEntry op args now oldestLive cas =
        (effect.1, { store with items, stats }) ∧
      (Leaves store.items items args.key effect.2 ∨
        (Update.store op args).tokenless ∧ items = store.items ∧ effect.2 = found) := by
  cases op with
  | set =>
      obtain ⟨stats, result⟩ := Store.setEntry_eq args now oldestLive cas store
      refine ⟨_, stats, result, Or.inl ⟨?_, ?_⟩⟩
      · rw [Cache.insert_lookup, if_pos rfl]
        rfl
      · intro other different
        rw [Cache.insert_lookup, if_neg different]
  | add =>
      obtain ⟨items, stats, result, looked⟩ := Store.addEntry_eq args now oldestLive cas store
      refine ⟨items, stats, ?_, Or.inl ⟨?_, ?_⟩⟩
      · rw [result]
        cases visibleItem now oldestLive store.items args.key <;> rfl
      · rw [looked, if_pos rfl]
        cases visibleItem now oldestLive store.items args.key <;> rfl
      · intro other different
        rw [looked, if_neg different]
  | replace =>
      obtain ⟨stats, result⟩ := Store.replaceEntry_eq args now oldestLive cas store
      rw [result]
      refine ⟨_, stats, Prod.ext ?_ rfl, Or.inl ?_⟩
      · cases visibleItem now oldestLive store.items args.key <;> rfl
      · apply entry_leaves
        cases visibleItem now oldestLive store.items args.key <;> rfl
  | append =>
      obtain ⟨stats, result⟩ := Store.concatEntry_eq args now oldestLive cas store (Or.inl rfl)
      rw [result]
      refine ⟨_, stats, Prod.ext ?_ rfl, Or.inl ?_⟩
      · cases visibleItem now oldestLive store.items args.key <;> rfl
      · apply entry_leaves
        cases visibleItem now oldestLive store.items args.key <;> rfl
  | prepend =>
      obtain ⟨stats, result⟩ := Store.concatEntry_eq args now oldestLive cas store (Or.inr rfl)
      rw [result]
      refine ⟨_, stats, Prod.ext ?_ rfl, Or.inl ?_⟩
      · cases visibleItem now oldestLive store.items args.key <;> rfl
      · apply entry_leaves
        cases visibleItem now oldestLive store.items args.key <;> rfl
  | cas =>
      cases token : args.cas with
      | none =>
          refine ⟨store.items, store.stats, ?_, Or.inr ⟨?_, rfl, ?_⟩⟩
          · rw [Store.casMissingEntry_eq args now oldestLive cas store token]
            simp only [Update.effect, token]
          · simp [Update.tokenless, token]
          · simp only [Update.effect, token]
      | some expected =>
          obtain ⟨stats, result⟩ := Store.casEntry_eq args now oldestLive cas store token
          rw [result]
          refine ⟨_, stats, Prod.ext ?_ rfl, Or.inl ?_⟩
          · cases visibleItem now oldestLive store.items args.key with
            | none => simp only [Update.effect, token, Option.elim]
            | some item =>
                by_cases other : item.cas = expected <;>
                  simp [Update.effect, token, other]
          · apply entry_leaves
            cases visibleItem now oldestLive store.items args.key with
            | none => simp only [Update.effect, token, Option.map]
            | some item =>
                by_cases other : item.cas = expected <;>
                  simp [Update.effect, token, other]

theorem arithmeticEntry_effect (op : ArithmeticOp) (key : Bytes) (delta : UInt64) :
    let found := visibleItem now oldestLive store.items key
    let effect := (Update.arithmetic op key delta).effect now cas found
    ∃ items stats, store.arithmeticEntry op key delta now oldestLive cas =
        (effect.1, { store with items, stats }) ∧ Leaves store.items items key effect.2 := by
  obtain ⟨stats, result⟩ := Store.arithmeticEntry_eq now oldestLive cas store op key delta
  rw [result]
  refine ⟨_, stats, Prod.ext ?_ rfl, ?_⟩
  · cases visibleItem now oldestLive store.items key with
    | none => rfl
    | some item => cases number : numericValue item.data <;> simp [Update.effect, number]
  · apply entry_leaves
    cases visibleItem now oldestLive store.items key with
    | none => rfl
    | some item => cases number : numericValue item.data <;> simp [Update.effect, number]

theorem touchEntry_effect (key : Bytes) (exptime : Int64) :
    let found := visibleItem now oldestLive store.items key
    let effect := (Update.touch key exptime).effect now cas found
    ∃ items stats, store.touchEntry key exptime now oldestLive cas =
        (effect.1, { store with items, stats }) ∧ Leaves store.items items key effect.2 := by
  obtain ⟨stats, result⟩ := Store.touchEntry_eq now oldestLive cas store key exptime
  rw [result]
  refine ⟨_, stats, Prod.ext ?_ rfl, ?_⟩
  · cases visibleItem now oldestLive store.items key <;> rfl
  · apply entry_leaves
    cases visibleItem now oldestLive store.items key <;> rfl

theorem Update.perform_effect (update : Update) :
    let found := visibleItem now oldestLive store.items update.key
    let effect := update.effect now cas found
    ∃ items stats, update.perform now oldestLive cas store =
        (effect.1, { store with items, stats }) ∧
      (Leaves store.items items update.key effect.2 ∨
        update.tokenless ∧ items = store.items ∧ effect.2 = found) := by
  cases update with
  | store op args => exact storeEntry_effect now oldestLive cas store op args
  | arithmetic op key delta =>
      obtain ⟨items, stats, result, leaves⟩ :=
        arithmeticEntry_effect now oldestLive cas store op key delta
      exact ⟨items, stats, result, Or.inl leaves⟩
  | touch key exptime =>
      obtain ⟨items, stats, result, leaves⟩ :=
        touchEntry_effect now oldestLive cas store key exptime
      exact ⟨items, stats, result, Or.inl leaves⟩

theorem Retrieval.visit_effect (retrieval : Retrieval) (key : Bytes) :
    let found := visibleItem now oldestLive store.items key
    let effect := retrieval.effect now store.nextCasCell key found
    ∃ items stats, retrieval.visit now oldestLive key store =
        (effect.1, { store with
          items
          nextCasCell := if retrieval.touches && found.isSome then store.nextCasCell + 1
            else store.nextCasCell
          stats }) ∧
      Leaves store.items items key effect.2 := by
  cases retrieval with
  | get withCas =>
      obtain ⟨stats, result⟩ := Store.getKey_eq now oldestLive withCas key store
      refine ⟨_, stats, result, ?_⟩
      apply entry_leaves
      cases visibleItem now oldestLive store.items key <;> rfl
  | getAndTouch exptime withCas =>
      obtain ⟨stats, result⟩ := Store.getAndTouchKey_eq exptime now oldestLive withCas key store
      rw [visit, result]
      refine ⟨(store.items.entry key
        (getAndTouchClosure now oldestLive exptime store.nextCasCell)).2, stats, ?_, ?_⟩
      · cases visibleItem now oldestLive store.items key <;> rfl
      · apply entry_leaves
        cases visibleItem now oldestLive store.items key <;> rfl

end Effects

def Response.failed : Response → Bool
  | .notStored | .notFound | .exists | .clientError _ | .serverError _ => true
  | _ => false

theorem Update.effect_cases (now cas : UInt64) (update : Update) (found : Option Item) :
    ¬(update.effect now cas found).1.succeeded ∧ (update.effect now cas found).2 = found ∨
      ¬(update.effect now cas found).1.failed ∧
        ∃ item, (update.effect now cas found).2 = some item ∧ item.cas = cas := by
  cases update with
  | store op args =>
      cases op with
      | set => exact Or.inr ⟨nofun, _, rfl, rfl⟩
      | add =>
          cases found with
          | none => exact Or.inr ⟨nofun, _, rfl, rfl⟩
          | some item => exact Or.inl ⟨nofun, rfl⟩
      | replace | append | prepend =>
          cases found with
          | none => exact Or.inl ⟨nofun, rfl⟩
          | some item => exact Or.inr ⟨nofun, _, rfl, rfl⟩
      | cas =>
          cases token : args.cas with
          | none => simp [effect, token, Response.succeeded]
          | some expected =>
              cases found with
              | none => simp [effect, token, Response.succeeded]
              | some item =>
                  by_cases other : item.cas = expected
                  · exact Or.inr (by simp [effect, token, other, Response.failed, Item.new])
                  · exact Or.inl (by simp [effect, token, other, Response.succeeded])
  | arithmetic op key delta =>
      cases found with
      | none => exact Or.inl ⟨nofun, rfl⟩
      | some item =>
          cases number : numericValue item.data with
          | none => exact Or.inl (by simp [effect, number, Response.succeeded])
          | some value => exact Or.inr (by simp [effect, number, Response.failed])
  | touch key exptime =>
      cases found with
      | none => exact Or.inl ⟨nofun, rfl⟩
      | some item => exact Or.inr ⟨nofun, _, rfl, rfl⟩

theorem Update.effect_failed {now cas : UInt64} {update : Update} {found : Option Item}
    (failed : (update.effect now cas found).1.failed) :
    (update.effect now cas found).2 = found := by
  rcases update.effect_cases now cas found with ⟨_, same⟩ | ⟨succeeds, _⟩
  · exact same
  · exact absurd failed succeeds

theorem Update.perform_outcome (now : UInt64) (oldestLive : Option UInt64) (cas : UInt64)
    (store : Store) (update : Update) :
    ∃ items stats, (update.perform now oldestLive cas store).2 = { store with items, stats } ∧
      Outcome store.items items update.key cas (update.perform now oldestLive cas store).1 := by
  obtain ⟨items, stats, result, change⟩ :=
    update.perform_effect now oldestLive cas store
  rw [result]
  refine ⟨items, stats, rfl, ?_⟩
  rcases update.effect_cases now cas (visibleItem now oldestLive store.items update.key) with
    ⟨failure, same⟩ | ⟨_, item, left, token⟩
  · refine .failed ?_ failure
    rcases change with leaves | ⟨_, rest, _⟩
    · exact leaves.kept same
    · subst rest
      exact fun key => Or.inl rfl
  · refine .wrote item token ?_
    rw [left] at change
    rcases change with leaves | ⟨_, rest, found⟩
    · exact ⟨leaves.here, leaves.others⟩
    · subst rest
      exact ⟨visible_lookup found.symm, fun _ _ => rfl⟩

theorem Retrieval.visit_visited (retrieval : Retrieval) (now : UInt64)
    (oldestLive : Option UInt64) (key : Bytes) (store : Store) :
    ∃ items stats, (retrieval.visit now oldestLive key store).2 =
        { store with
          items
          nextCasCell :=
            if retrieval.touches && (retrieval.visit now oldestLive key store).1.isSome
            then store.nextCasCell + 1 else store.nextCasCell
          stats } ∧
      Visited store key items retrieval.touches
        (retrieval.visit now oldestLive key store).1 := by
  obtain ⟨items, stats, result, leaves⟩ := retrieval.visit_effect now oldestLive store key
  rw [result]
  refine ⟨items, stats, ?_, ?_⟩
  · cases retrieval <;> simp only [effect, Option.isSome_map]
  · cases retrieval with
    | get withCas =>
        have kept : Kept store.items items := leaves.kept rfl
        cases found : visibleItem now oldestLive store.items key with
        | none => exact .missed _ kept
        | some item =>
            refine .read item _ (visible_lookup found) ?_ kept
            cases withCas with
            | false => exact Or.inl rfl
            | true => exact Or.inr rfl
    | getAndTouch exptime withCas =>
        cases found : visibleItem now oldestLive store.items key with
        | none =>
            rw [found] at leaves
            exact .missed _ (leaves.kept found.symm)
        | some item =>
            rw [found] at leaves
            refine .touched { item with
              expiresAt := Item.resolveExpiry exptime now, cas := store.nextCasCell } _ rfl ?_
              ⟨leaves.here, leaves.others⟩
            cases withCas with
            | false => exact Or.inl rfl
            | true => exact Or.inr rfl

end Ousagi
