import Ousagi.ClientsCas

/-!
A token is the name of a version: whoever is shown it, and whenever, is shown the same
flags and data under the same key.
-/

namespace Ousagi

open Library

variable {Client : Type}

namespace World

def TokensApart (world : World Client) : Prop :=
  ∀ key other item found, world.store.items.lookup key = some item →
    world.store.items.lookup other = some found → item.cas = found.cas → key = other

/-- The token of the value is the name of its version, in the items and in the replies. -/
structure Pinned (cas : UInt64) (value : Value) (world : World Client) : Prop where
  token : value.2.2.2 = some cas
  here : world.Sealed value.1 cas (Version value)
  elsewhere : ∀ key, key ≠ value.1 → world.Sealed key cas fun _ => False
  read : ∀ client shown, world.HasRead client shown → shown.2.2.2 = some cas → shown = value

structure Versions (world : World Client) : Prop where
  apart : world.TokensApart
  pinned : ∀ client value cas, world.HasRead client value → value.2.2.2 = some cas →
    world.Pinned cas value

section Invariant

variable {world after : World Client} {cas : UInt64} {value shown : Value}

theorem shown_same (token : value.2.2.2 = some cas)
    (here : world.Sealed value.1 cas (Version value))
    (elsewhere : ∀ key, key ≠ value.1 → world.Sealed key cas fun _ => False)
    (shows : Shows world.store.items shown) (same : shown.2.2.2 = some cas) : shown = value := by
  obtain ⟨item, found, flags, data, hidden | named⟩ := shows
  · rw [hidden] at same
    cases same
  · have known : item.cas = cas := by
      rw [named] at same
      exact Option.some.inj same
    by_cases there : shown.1 = value.1
    · obtain ⟨sameFlags, sameData⟩ := here.2 item (there ▸ found) known
      refine Prod.ext there (Prod.ext ?_ (Prod.ext ?_ ?_))
      · rw [flags, sameFlags]
      · rw [data, sameData]
      · rw [same, token]
    · exact ((elsewhere shown.1 there).2 item found known).elim

theorem sealed_elsewhere (spent : ∀ key item, world.store.items.lookup key = some item →
    world.Spent item.cas) (apart : world.TokensApart) (shows : Shows world.store.items value)
    (token : value.2.2.2 = some cas) (key : Bytes) (different : key ≠ value.1) :
    world.Sealed key cas fun _ => False := by
  obtain ⟨item, found, _, _, hidden | named⟩ := shows
  · rw [hidden] at token
    cases token
  · rw [named] at token
    cases token
    refine ⟨spent value.1 item found, ?_⟩
    intro other present same
    exact different (apart key value.1 other item present found same)

theorem Move.apart (move : Move world after) (tokens : Tokens world) (bound : after.InBounds)
    (apart : world.TokensApart) : after.TokensApart := by
  simp only [InBounds] at bound
  -- The token of the item that is written is new to all the other items.
  have written : ∀ {key : Bytes} {item : Item},
      Rewritten world.store.items after.store.items key item →
      (∀ other found, world.store.items.lookup other = some found → found.cas ≠ item.cas) →
      after.TokensApart := by
    intro key item rewritten new first second one two foundOne foundTwo same
    by_cases left : first = key
    · by_cases right : second = key
      · rw [left, right]
      · rw [left, rewritten.here] at foundOne
        rw [rewritten.others second right] at foundTwo
        cases foundOne
        exact absurd same.symm (new second two foundTwo)
    · rw [rewritten.others first left] at foundOne
      by_cases right : second = key
      · rw [right, rewritten.here] at foundTwo
        cases foundTwo
        exact absurd same (new first one foundOne)
      · rw [rewritten.others second right] at foundTwo
        exact apart first second one two foundOne foundTwo same
  cases move with
  | keep kept cell draws held read =>
      have old : ∀ {key : Bytes} {item : Item}, after.store.items.lookup key = some item →
          world.store.items.lookup key = some item := by
        intro key item found
        rcases kept key with unchanged | gone
        · exact unchanged ▸ found
        · rw [gone] at found
          cases found
      intro first second one two foundOne foundTwo same
      exact apart first second one two (old foundOne) (old foundTwo) same
  | draw client items cell draws held read =>
      intro first second one two foundOne foundTwo same
      rw [items] at foundOne foundTwo
      exact apart first second one two foundOne foundTwo same
  | write client key item holds rewritten cell draws held read =>
      refine written rewritten ?_
      intro other found there same
      exact (tokens.spent other found there).2 client (same ▸ holds)
  | touch key item fresh rewritten cell draws held read =>
      refine written rewritten ?_
      intro other found there same
      exact tokens.next_unused (by omega) (tokens.spent other found there).1 (same.trans fresh)

theorem Move.reads (move : Move world after) :
    (∀ client value, after.HasRead client value →
      world.HasRead client value ∨ Shows world.store.items value) ∨
    ∀ client value, after.HasRead client value →
      world.HasRead client value ∨ Shows after.store.items value := by
  cases move with
  | keep kept cell draws held read => exact Or.inl read
  | draw client items cell draws held read =>
      exact Or.inl fun other value seen => Or.inl (read other value seen)
  | write client key item holds rewritten cell draws held read =>
      exact Or.inl fun other value seen => Or.inl (read other value seen)
  | touch key item fresh rewritten cell draws held read => exact Or.inr read

theorem Move.pinned (move : Move world after) (tokens : Tokens world) (bound : after.InBounds)
    (pinned : world.Pinned cas value) : after.Pinned cas value := by
  have here := move.sealed tokens bound pinned.here
  have elsewhere := fun key different => move.sealed tokens bound (pinned.elsewhere key different)
  refine ⟨pinned.token, here, elsewhere, ?_⟩
  intro client shown seen same
  rcases move.reads with read | read
  · rcases read client shown seen with before | shows
    · exact pinned.read client shown before same
    · exact shown_same pinned.token pinned.here pinned.elsewhere shows same
  · rcases read client shown seen with before | shows
    · exact pinned.read client shown before same
    · exact shown_same pinned.token here elsewhere shows same

theorem pinned_of_shows (spent : ∀ key item, world.store.items.lookup key = some item →
    world.Spent item.cas) (apart : world.TokensApart) (shows : Shows world.store.items value)
    (token : value.2.2.2 = some cas)
    (known : ∀ client shown, world.HasRead client shown → shown.2.2.2 = some cas →
      world.Pinned cas shown ∨ Shows world.store.items shown) : world.Pinned cas value := by
  have here := sealed_of_shows spent shows token
  have elsewhere := sealed_elsewhere spent apart shows token
  refine ⟨token, here, elsewhere, ?_⟩
  intro client shown seen same
  rcases known client shown seen same with pinned | present
  · exact (shown_same pinned.token pinned.here pinned.elsewhere shows token).symm
  · exact shown_same token here elsewhere present same

theorem Move.versions (move : Move world after) (tokens : Tokens world) (bound : after.InBounds)
    (versions : Versions world) : Versions after := by
  have apart := move.apart tokens bound versions.apart
  have old : ∀ {client : Client} {shown : Value} {cas : UInt64}, world.HasRead client shown →
      shown.2.2.2 = some cas → after.Pinned cas shown :=
    fun seen token => move.pinned tokens bound (versions.pinned _ _ _ seen token)
  refine ⟨apart, ?_⟩
  intro client value cas seen token
  rcases move.reads with read | read
  · rcases read client value seen with before | shows
    · exact old before token
    · refine move.pinned tokens bound (pinned_of_shows tokens.spent versions.apart shows token ?_)
      intro other shown earlier same
      exact Or.inl (versions.pinned other shown cas earlier same)
  · rcases read client value seen with before | shows
    · exact old before token
    · refine pinned_of_shows (move.items_spent tokens bound) apart shows token ?_
      intro other shown later same
      rcases read other shown later with earlier | present
      · exact Or.inl (old earlier same)
      · exact Or.inr present

theorem versions_new : Versions (new : World Client) where
  apart := by simp [TokensApart, new, Store.new]
  pinned := by simp [HasRead, new, Phase.values]

end Invariant

section Runs

variable [DecidableEq Client] {first last : World Client} {events : List (ClientEvent Client)}

theorem run_versions (reached : run step events first = some last) (bound : last.InBounds)
    (tokens : Tokens first) (versions : Versions first) : Versions last := by
  let known : World Client → Prop := fun world => Tokens world ∧ Versions world
  have both : known last := run_keeps (fun taken => (step_move taken).inBounds)
    (fun taken within before => ⟨(step_move taken).tokens before.1 within,
      (step_move taken).versions before.1 within before.2⟩) reached bound ⟨tokens, versions⟩
  exact both.2

theorem run_pinned (reached : run step events first = some last) (bound : last.InBounds)
    (tokens : Tokens first) {cas : UInt64} {value : Value} (pinned : first.Pinned cas value) :
    last.Pinned cas value := by
  let known : World Client → Prop := fun world => Tokens world ∧ world.Pinned cas value
  have both : known last := run_keeps (fun taken => (step_move taken).inBounds)
    (fun taken within before => ⟨(step_move taken).tokens before.1 within,
      (step_move taken).pinned before.1 within before.2⟩) reached bound ⟨tokens, pinned⟩
  exact both.2

end Runs

/-- Once a retrieval has replied with a token, every later reply with this token is of the same
key, flags and data, and so is every item that has it. -/
theorem tokens_name_versions [DecidableEq Client] {earlier between : List (ClientEvent Client)}
    {first second : World Client}
    (reached : run step earlier new = some first) (onward : run step between first = some second)
    (fewDraws : second.draws < 2 ^ 64) {reader : Client} {values : List Value} {value : Value}
    {token : UInt64} (replies : first.RepliesWith reader values) (among : value ∈ values)
    (named : value.2.2.2 = some token) :
    (∀ other more shown, second.RepliesWith other more → shown ∈ more →
      shown.2.2.2 = some token → shown = value) ∧
    ∀ key item, second.store.items.lookup key = some item → item.cas = token →
      key = value.1 ∧ item.flags = value.2.1 ∧ item.data = value.2.2.1 := by
  have read : ∀ {world : World Client} {client : Client} {list : List Value} {found : Value},
      world.RepliesWith client list → found ∈ list → world.HasRead client found := by
    intro world client list found ⟨retrieval, now, oldestLive, during⟩ member
    rw [HasRead, during]
    exact member
  have within : first.InBounds :=
    run_back (fun taken => (step_move taken).inBounds) onward fewDraws
  have tokens : Tokens first := run_tokens reached within tokens_new
  have versions : Versions first := run_versions reached within tokens_new versions_new
  have pinned : second.Pinned token value := run_pinned onward fewDraws tokens
    (versions.pinned reader value token (read replies among) named)
  constructor
  · intro other more shown later member same
    exact pinned.read other shown (read later member) same
  · intro key item found same
    by_cases there : key = value.1
    · exact ⟨there, pinned.here.2 item (there ▸ found) same⟩
    · exact ((pinned.elsewhere key there).2 item found same).elim

section Race

def raceAgain : List (ClientEvent Nat) :=
  [.reply 1, .call 2 (.get [ascii "k"] true), .readClock 2 1002, .readCutoff 2, .act 2]

def raceThird : World Nat := (run step raceAgain raceFirst).getD new

theorem race_names_version :
    ∃ shown, raceThird.RepliesWith 2 [shown] ∧ shown = (ascii "k", 7, ascii "a", some 1) := by
  have replies : raceThird.RepliesWith 2 [(ascii "k", 7, ascii "a", some 1)] :=
    ⟨.get true, 1002, none, rfl⟩
  have named := tokens_name_versions (show run step raceStart new = some raceFirst from rfl)
    (show run step raceAgain raceFirst = some raceThird from rfl) (by decide)
    (show raceFirst.RepliesWith 1 [(ascii "k", 7, ascii "a", some 1)] from
      ⟨.get true, 1001, none, rfl⟩) List.mem_cons_self rfl
  exact ⟨_, replies, named.1 2 _ _ replies List.mem_cons_self rfl⟩

end Race

end World

end Ousagi
