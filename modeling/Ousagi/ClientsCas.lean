import Ousagi.ClientsTokens

/-!
A compare-and-swap that stores replaces the version that its client has read,
whatever the other clients do in between.
-/

namespace Ousagi

open Library

variable {Client : Type}

namespace World

def RepliesWith (reader : Client) (values : List Value) (world : World Client) : Prop :=
  ∃ retrieval now oldestLive, world.phase reader = .visiting retrieval now oldestLive [] values

def CasStores (writer : Client) (key : Bytes) (token : UInt64) (world : World Client) : Prop :=
  ∃ args now oldestLive cas,
    world.phase writer = .updating (.store .cas args) now oldestLive cas ∧ args.key = key ∧
      args.cas = some token ∧ (world.store.storeEntry .cas args now oldestLive cas).1 = .stored

/-- The event is the step of a successful change of the key, or of a flush that clears it. -/
def Mutates (event : ClientEvent Client) (key : Bytes) (world : World Client) : Prop :=
  match event with
  | .act client =>
      match world.phase client with
      | .visiting retrieval now oldestLive (visited :: _) _ =>
          visited = key ∧ retrieval.touches ∧
            (retrieval.visit now oldestLive visited world.store).1.isSome
      | .updating update now oldestLive cas =>
          update.key = key ∧ (update.perform now oldestLive cas world.store).1.succeeded
      | .deleting deleted now oldestLive =>
          deleted = key ∧ (world.store.deleteEntry deleted now oldestLive).1 = .deleted
      | _ => False
  | .clear _ cleared => cleared = key
  | _ => False

section Storing

variable {world : World Client} {key : Bytes} {cas : UInt64} {writer : Client}

theorem casStores_found (stores : world.CasStores writer key cas) :
    ∃ item, world.store.items.lookup key = some item ∧ item.cas = cas := by
  obtain ⟨args, now, oldestLive, token, _, here, expected, stored⟩ := stores
  rw [← here]
  exact casEntry_stored now oldestLive token world.store expected stored

theorem casStores_mutates (stores : world.CasStores writer key cas) :
    world.Mutates (.act writer) key := by
  obtain ⟨args, now, oldestLive, token, during, here, _, stored⟩ := stores
  simp only [Mutates, during, Update.key, Update.perform]
  exact ⟨here, by rw [stored]; rfl⟩

theorem tokens_new : Tokens (new : World Client) where
  cell := rfl
  drawn := by simp [Holds, new, Phase.held]
  apart := by simp [Holds, new, Phase.held]
  spent := by simp [new, Store.new]
  read := by simp [HasRead, new, Phase.values]

theorem visit_replaces (tokens : Tokens world) (room : world.draws + 1 < 2 ^ 64)
    (drawn : cas.toNat ≤ world.draws) {retrieval : Retrieval} (touches : retrieval.touches = true)
    {now : UInt64} {oldestLive : Option UInt64}
    (seen : (retrieval.visit now oldestLive key world.store).1.isSome) {item : Item}
    (found : (retrieval.visit now oldestLive key world.store).2.items.lookup key = some item) :
    item.cas ≠ cas := by
  obtain ⟨items, stats, result, change⟩ := retrieval.visit_visited now oldestLive key world.store
  rw [result] at found
  rw [touches] at change
  generalize (retrieval.visit now oldestLive key world.store).1 = value at seen change
  cases change with
  | missed _ kept => cases seen
  | touched current token fresh shown rewritten =>
      rw [rewritten.here] at found
      cases found
      rw [fresh]
      exact (tokens.next_unused room drawn).symm

theorem perform_replaces {client : Client} {update : Update} {now : UInt64}
    {oldestLive : Option UInt64} {held : UInt64}
    (during : world.phase client = .updating update now oldestLive held)
    (free : ¬world.Holds client cas)
    (succeeds : (update.perform now oldestLive held world.store).1.succeeded) {item : Item}
    (found : (update.perform now oldestLive held world.store).2.items.lookup update.key =
      some item) : item.cas ≠ cas := by
  intro same
  obtain ⟨items, stats, result, outcome⟩ := update.perform_outcome now oldestLive held world.store
  rw [result] at found
  cases outcome with
  | failed kept failure => exact failure succeeds
  | wrote current token rewritten =>
      rw [rewritten.here] at found
      cases found
      apply free
      rw [Holds, during, ← same, token]
      rfl

end Storing

section Steps

variable [DecidableEq Client] {world after : World Client} {key : Bytes} {cas : UInt64}

theorem mutates_replaces {event : ClientEvent Client} (tokens : Tokens world) (bound : after.InBounds)
    (taken : world.step event = some after) (mutates : world.Mutates event key)
    (spent : world.Spent cas) (item : Item)
    (found : after.store.items.lookup key = some item) : item.cas ≠ cas := by
  simp only [InBounds] at bound
  cases step_stepped taken with
  | visited client retrieval now oldestLive visited rest values during =>
      simp only [Mutates, during] at mutates
      obtain ⟨here, touches, seen⟩ := mutates
      subst here
      simp only [enter, touches, seen, Bool.and_self, if_true] at bound found
      exact visit_replaces tokens bound spent.1 touches seen found
  | updated client update now oldestLive held during =>
      simp only [Mutates, during] at mutates
      obtain ⟨here, succeeds⟩ := mutates
      subst here
      exact perform_replaces during (spent.2 client) succeeds found
  | deleted client deleted now oldestLive during =>
      simp only [Mutates, during] at mutates
      obtain ⟨here, _⟩ := mutates
      subst here
      exact absurd found (by simp [enter, Store.deleteEntry_lookup])
  | flushed client secs now during => simp [Mutates, during] at mutates
  | gathered client during => simp [Mutates, during] at mutates
  | erased client cleared keys during =>
      rw [enter_store, Cache.erase_lookup, if_pos mutates.symm] at found
      cases found
  | _ => exact False.elim mutates

end Steps

section Runs

variable [DecidableEq Client] {first last : World Client} {events : List (ClientEvent Client)}

theorem run_tokens (reached : run step events first = some last) (bound : last.InBounds)
    (start : Tokens first) : Tokens last :=
  run_keeps (fun taken => (step_move taken).inBounds)
    (fun taken within tokens => (step_move taken).tokens tokens within) reached bound start

theorem run_sealed (reached : run step events first = some last) (bound : last.InBounds)
    (tokens : Tokens first) {key : Bytes} {cas : UInt64} {property : Item → Prop}
    (closed : first.Sealed key cas property) : last.Sealed key cas property := by
  let known : World Client → Prop := fun world => Tokens world ∧ world.Sealed key cas property
  have both : known last := run_keeps (fun taken => (step_move taken).inBounds)
    (fun taken within before =>
      ⟨(step_move taken).tokens before.1 within, (step_move taken).sealed before.1 within before.2⟩)
    reached bound ⟨tokens, closed⟩
  exact both.2

theorem mutates_excludes {event : ClientEvent Client} {world after : World Client}
    (tokens : Tokens world) (taken : world.step event = some after)
    (onward : run step events after = some last) (bound : last.InBounds) {key : Bytes}
    {cas : UInt64} (spent : world.Spent cas) (mutates : world.Mutates event key)
    {writer : Client} : ¬last.CasStores writer key cas := by
  intro stores
  have within : after.InBounds := run_back (fun taken => (step_move taken).inBounds) onward bound
  have replaced : after.Sealed key cas fun _ => False :=
    ⟨(step_move taken).spent tokens within spent,
      mutates_replaces tokens within taken mutates spent⟩
  obtain ⟨item, found, same⟩ := casStores_found stores
  exact (run_sealed onward bound ((step_move taken).tokens tokens within) replaced).2 item found same

end Runs

/-- A retrieval replies with a token for the key, and later a compare-and-swap with this token
stores.  It replaces the version of the reply, no change of the key has succeeded in between,
and no other compare-and-swap with the same token has stored before. -/
theorem cas_loses_no_update [DecidableEq Client] {earlier between : List (ClientEvent Client)}
    {first second : World Client}
    (reached : run step earlier new = some first) (onward : run step between first = some second)
    (fewDraws : second.draws < 2 ^ 64) {writer : Client} {key : Bytes} {token : UInt64}
    (stores : second.CasStores writer key token) :
    (∀ reader values flags data, first.RepliesWith reader values →
      (key, flags, data, some token) ∈ values →
        (∃ item, second.store.items.lookup key = some item ∧ item.data = data ∧
          item.flags = flags ∧ item.cas = token) ∧
        ∀ before event after world, between = before ++ event :: after →
          run step before first = some world → ¬world.Mutates event key) ∧
    ∀ other rest, between = .act other :: rest → ¬first.CasStores other key token := by
  have back := fun {event : ClientEvent Client} {world after : World Client}
    (taken : world.step event = some after) => (step_move taken).inBounds
  have tokens : Tokens first := run_tokens reached (run_back back onward fewDraws) tokens_new
  constructor
  · intro reader values flags data replies shown
    obtain ⟨retrieval, now, oldestLive, during⟩ := replies
    have known : first.Sealed key token (Version (key, flags, data, some token)) := by
      refine tokens.read reader (key, flags, data, some token) token ?_ rfl
      rw [HasRead, during]
      exact shown
    constructor
    · obtain ⟨item, found, same⟩ := casStores_found stores
      obtain ⟨sameFlags, sameData⟩ := (run_sealed onward fewDraws tokens known).2 item found same
      exact ⟨item, found, sameData, sameFlags, same⟩
    · intro before event after world split there mutates
      subst split
      obtain ⟨world', next, there', taken, rest⟩ := run_split onward
      rw [there] at there'
      cases there'
      have within := run_back back rest fewDraws
      have tokensThere : Tokens world :=
        run_tokens there ((step_move taken).inBounds within) tokens
      have spent := (run_sealed there ((step_move taken).inBounds within) tokens known).1
      exact mutates_excludes tokensThere taken rest fewDraws spent mutates stores
  · intro other rest split storesFirst
    subst split
    obtain ⟨next, taken, later⟩ := run_cons onward
    obtain ⟨item, found, same⟩ := casStores_found storesFirst
    have spent := tokens.spent key item found
    rw [same] at spent
    exact mutates_excludes tokens taken later fewDraws spent (casStores_mutates storesFirst) stores

section Race

def raceArgs (data : String) (cas : Option UInt64) : StoreArgs :=
  { key := ascii "k", flags := 7, exptime := 0, data := ascii data, noreply := false, cas }

def raceStart : List (ClientEvent Nat) :=
  [.call 0 (.store .set (raceArgs "a" none)), .readClock 0 1000, .readCutoff 0, .draw 0, .act 0,
    .reply 0, .call 1 (.get [ascii "k"] true), .readClock 1 1001, .readCutoff 1, .act 1]

def raceOn : List (ClientEvent Nat) :=
  [.reply 1, .call 0 (.store .set (raceArgs "b" none)), .readClock 0 1002, .readCutoff 0, .draw 0,
    .call 1 (.store .cas (raceArgs "c" (some 1))), .readClock 1 1002, .readCutoff 1, .draw 1]

def raceFirst : World Nat := (run step raceStart new).getD new

def raceSecond : World Nat := (run step raceOn raceFirst).getD new

theorem race_loses_no_update :
    ∃ item, raceSecond.store.items.lookup (ascii "k") = some item ∧ item.data = ascii "a" ∧
      item.flags = 7 ∧ item.cas = 1 :=
  ((cas_loses_no_update (show run step raceStart new = some raceFirst from rfl)
    (show run step raceOn raceFirst = some raceSecond from rfl) (by decide)
    (show raceSecond.CasStores 1 (ascii "k") 1 from
      ⟨raceArgs "c" (some 1), 1002, none, 3, rfl, rfl, rfl, by decide⟩)).1 1
    [(ascii "k", 7, ascii "a", some 1)] 7 (ascii "a") ⟨.get true, 1001, none, rfl⟩
    (by decide)).1

end Race

end World

end Ousagi
