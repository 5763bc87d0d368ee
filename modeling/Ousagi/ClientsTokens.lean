import Ousagi.ClientsEffects

/-!
Where the tokens are: in the items, or held by the clients that have drawn one
and not written it yet.  A token that is in neither place never comes back.
-/

namespace Ousagi

open Library

def Phase.held : Phase → Option UInt64
  | .updating _ _ _ cas => some cas
  | _ => none

def Phase.values : Phase → List Value
  | .visiting _ _ _ _ values => values
  | _ => []

def Shows (items : Cache Bytes Item) (value : Value) : Prop :=
  ∃ item, items.lookup value.1 = some item ∧ value.2.1 = item.flags ∧ value.2.2.1 = item.data ∧
    (value.2.2.2 = none ∨ value.2.2.2 = some item.cas)

variable {Client : Type}

namespace World

def Holds (client : Client) (cas : UInt64) (world : World Client) : Prop :=
  (world.phase client).held = some cas

def HasRead (client : Client) (value : Value) (world : World Client) : Prop :=
  value ∈ (world.phase client).values

section Enter

variable [DecidableEq Client] {client other : Client} {phase : Phase} {world : World Client}

theorem enter_phase :
    (world.enter client phase).phase other = if other = client then phase else world.phase other := by
  simp [enter, Function.update_apply]

theorem enter_holds {cas : UInt64} (free : phase.held = none)
    (holds : (world.enter client phase).Holds other cas) : other ≠ client ∧ world.Holds other cas := by
  rw [Holds, enter_phase] at holds
  by_cases same : other = client
  · rw [if_pos same, free] at holds
    exact absurd holds (by simp)
  · rw [if_neg same] at holds
    exact ⟨same, holds⟩

theorem enter_read {value : Value} (read : (world.enter client phase).HasRead other value) :
    value ∈ phase.values ∨ world.HasRead other value := by
  rw [HasRead, enter_phase] at read
  by_cases same : other = client
  · rw [if_pos same] at read
    exact Or.inl read
  · rw [if_neg same] at read
    exact Or.inr read

end Enter

/-- All that a step can do to the items, the counter of tokens, the tokens in flight and the
values on their way to a reply. -/
inductive Move (world after : World Client) : Prop
  | keep (kept : Kept world.store.items after.store.items)
      (cell : after.store.nextCasCell = world.store.nextCasCell)
      (draws : after.draws = world.draws)
      (held : ∀ client cas, after.Holds client cas → world.Holds client cas)
      (read : ∀ client value, after.HasRead client value →
        world.HasRead client value ∨ Shows world.store.items value)
  | draw (client : Client) (items : after.store.items = world.store.items)
      (cell : after.store.nextCasCell = world.store.nextCasCell + 1)
      (draws : after.draws = world.draws + 1)
      (held : ∀ other cas, after.Holds other cas →
        other = client ∧ cas = world.store.nextCasCell ∨ world.Holds other cas)
      (read : ∀ other value, after.HasRead other value → world.HasRead other value)
  | write (client : Client) (key : Bytes) (item : Item) (holds : world.Holds client item.cas)
      (rewritten : Rewritten world.store.items after.store.items key item)
      (cell : after.store.nextCasCell = world.store.nextCasCell)
      (draws : after.draws = world.draws)
      (held : ∀ other cas, after.Holds other cas → other ≠ client ∧ world.Holds other cas)
      (read : ∀ other value, after.HasRead other value → world.HasRead other value)
  | touch (key : Bytes) (item : Item) (fresh : item.cas = world.store.nextCasCell)
      (rewritten : Rewritten world.store.items after.store.items key item)
      (cell : after.store.nextCasCell = world.store.nextCasCell + 1)
      (draws : after.draws = world.draws + 1)
      (held : ∀ client cas, after.Holds client cas → world.Holds client cas)
      (read : ∀ client value, after.HasRead client value →
        world.HasRead client value ∨ Shows after.store.items value)

theorem store_move {world : World Client} {store : Store}
    (kept : Kept world.store.items store.items)
    (cell : store.nextCasCell = world.store.nextCasCell) : Move world { world with store } :=
  .keep kept cell rfl (fun _ _ holds => holds) fun _ _ read => Or.inl read

section Steps

variable [DecidableEq Client] {client : Client} {world after : World Client}

theorem move_kept {phase : Phase} {store : Store} (kept : Kept world.store.items store.items)
    (cell : store.nextCasCell = world.store.nextCasCell) (free : phase.held = none)
    (empty : phase.values = []) :
    Move world ({ world with store }.enter client phase) := by
  refine .keep kept cell rfl (fun _ _ holds => (enter_holds free holds).2) ?_
  intro other value read
  have split := enter_read read
  rw [empty] at split
  exact Or.inl (split.resolve_left (by simp))

theorem visit_read {retrieval : Retrieval} {now : UInt64} {oldestLive : Option UInt64}
    {key : Bytes} {rest : List Bytes} {values : List Value} {store : Store} {draws : Nat}
    {seen : Option Value} {items : Cache Bytes Item}
    (during : world.phase client = .visiting retrieval now oldestLive (key :: rest) values)
    (shows : ∀ value, seen = some value → Shows items value) {other : Client} {value : Value}
    (read : ({ world with store, draws }.enter client
      (.visiting retrieval now oldestLive rest (values ++ seen.toList))).HasRead other value) :
    world.HasRead other value ∨ Shows items value := by
  rw [HasRead, enter_phase] at read
  by_cases same : other = client
  · rw [if_pos same] at read
    rcases List.mem_append.mp read with earlier | new
    · left
      rw [HasRead, same, during]
      exact earlier
    · exact Or.inr (shows value (Option.mem_toList.mp new))
  · rw [if_neg same] at read
    exact Or.inl read

theorem move_visited {retrieval : Retrieval} {now : UInt64} {oldestLive : Option UInt64}
    {key : Bytes} {rest : List Bytes} {values : List Value} {seen : Option Value}
    {items : Cache Bytes Item} {stats : Stats}
    (during : world.phase client = .visiting retrieval now oldestLive (key :: rest) values)
    (visited : Visited world.store key items retrieval.touches seen) :
    Move world ({ world with
      store := { world.store with
        items
        nextCasCell := if retrieval.touches && seen.isSome then world.store.nextCasCell + 1
          else world.store.nextCasCell
        stats }
      draws := if retrieval.touches && seen.isSome then world.draws + 1 else world.draws }.enter
        client (.visiting retrieval now oldestLive rest (values ++ seen.toList))) := by
  have free : ∀ {next : List Value} {other : Client} {cas : UInt64} {store : Store} {draws : Nat},
      ({ world with store, draws }.enter client
        (.visiting retrieval now oldestLive rest next)).Holds other cas → world.Holds other cas :=
    fun holds => (enter_holds rfl holds).2
  generalize kind : retrieval.touches = touches at visited ⊢
  cases visited with
  | missed _ kept =>
      simp only [Option.isSome_none, Bool.and_false, Bool.false_eq_true, if_false]
      refine .keep kept rfl rfl (fun _ _ holds => free holds) ?_
      intro other value read
      exact visit_read during (by simp) read
  | read item token found shown kept =>
      simp only [Bool.false_and, Bool.false_eq_true, if_false]
      refine .keep kept rfl rfl (fun _ _ holds => free holds) ?_
      intro other value read
      refine visit_read during ?_ read
      intro value same
      cases same
      exact ⟨item, found, rfl, rfl, shown⟩
  | touched item token fresh shown rewritten =>
      simp only [Option.isSome_some, Bool.and_true, if_true]
      refine .touch key item fresh rewritten rfl rfl (fun _ _ holds => free holds) ?_
      intro other value read
      refine visit_read during ?_ read
      intro value same
      cases same
      exact ⟨item, rewritten.here, rfl, rfl, shown⟩

theorem perform_move {update : Update} {now : UInt64} {oldestLive : Option UInt64} {cas : UInt64}
    (during : world.phase client = .updating update now oldestLive cas) :
    Move world ({ world with store := (update.perform now oldestLive cas world.store).2 }.enter
      client (.finished (update.perform now oldestLive cas world.store).1)) := by
  obtain ⟨items, stats, result, outcome⟩ := update.perform_outcome now oldestLive cas world.store
  cases outcome with
  | failed kept failure =>
      refine move_kept ?_ ?_ rfl rfl
      · rw [result]
        exact kept
      · rw [result]
  | wrote item token rewritten =>
      refine .write client update.key item ?_ ?_ ?_ rfl ?_ ?_
      · rw [Holds, during, token]
        rfl
      · simp only [enter, result]
        exact rewritten
      · simp only [enter, result]
      · intro other held holds
        exact enter_holds rfl holds
      · intro other value read
        exact (enter_read read).resolve_left (by simp [Phase.values])

theorem begin_free {command : Command} {phase : Phase} (begins : command.begin = some phase) :
    phase.held = none ∧ phase.values = [] := by
  cases command with
  | flushAll delay noreply =>
      simp only [Command.begin, Option.some.injEq] at begins
      subst begins
      by_cases immediate : delay.getD 0 = 0
      · rw [if_pos immediate]
        exact ⟨rfl, rfl⟩
      · rw [if_neg immediate]
        exact ⟨rfl, rfl⟩
  | version | verbosity level noreply | stats => simp [Command.begin] at begins
  | get | getAndTouch | store | delete | arithmetic | touch =>
      simp only [Command.begin, Option.some.injEq] at begins
      subst begins
      exact ⟨rfl, rfl⟩

theorem resume_free (operation : Operation) (now : UInt64) (oldestLive : Option UInt64) :
    (operation.resume now oldestLive).held = none ∧
      (operation.resume now oldestLive).values = [] := by
  cases operation <;> exact ⟨rfl, rfl⟩

theorem command_count (command : Command) (store : Store) :
    (command.count store).items = store.items ∧
      (command.count store).nextCasCell = store.nextCasCell := by
  cases command <;> exact ⟨rfl, rfl⟩

theorem operation_count (operation : Operation) (store : Store) :
    (operation.count store).items = store.items ∧
      (operation.count store).nextCasCell = store.nextCasCell := by
  cases operation with
  | update change => cases change <;> exact ⟨rfl, rfl⟩
  | retrieve | delete => exact ⟨rfl, rfl⟩

theorem update_count (update : Update) (store : Store) :
    (update.count store).items = store.items ∧
      (update.count store).nextCasCell = store.nextCasCell := by
  cases update <;> exact ⟨rfl, rfl⟩

theorem enter_move {phase : Phase} (free : phase.held = none) (empty : phase.values = []) :
    Move world (world.enter client phase) :=
  move_kept (fun _ => Or.inl rfl) rfl free empty

theorem draw_move (update : Update) (now : UInt64) (oldestLive : Option UInt64) :
    Move world ({ world with
      store := update.count world.store.nextCas.2
      draws := world.draws + 1 }.enter client
        (.updating update now oldestLive world.store.nextCas.1)) := by
  obtain ⟨items, cell⟩ := update_count update world.store.nextCas.2
  refine .draw client items cell rfl ?_ ?_
  · intro other cas holds
    rw [Holds, enter_phase] at holds
    by_cases same : other = client
    · rw [if_pos same] at holds
      exact Or.inl ⟨same, (Option.some.inj holds).symm⟩
    · rw [if_neg same] at holds
      exact Or.inr holds
  · intro other value read
    exact (enter_read read).resolve_left (by simp [Phase.values])

theorem step_move {event : ClientEvent Client} (taken : world.step event = some after) :
    Move world after := by
  cases step_stepped taken with
  | called client command phase idle begins =>
      obtain ⟨items, cell⟩ := command_count command world.store
      exact move_kept (fun _ => Or.inl (by rw [items])) cell (begin_free begins).1
        (begin_free begins).2
  | timed client now operation during =>
      obtain ⟨items, cell⟩ := operation_count operation world.store
      exact move_kept (fun _ => Or.inl (by rw [items])) cell rfl rfl
  | resumed client operation now during =>
      exact enter_move (resume_free operation now _).1 (resume_free operation now _).2
  | drawn client update now oldestLive during => exact draw_move update now oldestLive
  | visited client retrieval now oldestLive key rest values during =>
      obtain ⟨items, stats, result, visited⟩ :=
        retrieval.visit_visited now oldestLive key world.store
      rw [result]
      exact move_visited during visited
  | updated client update now oldestLive cas during => exact perform_move during
  | deleted client key now oldestLive during =>
      obtain ⟨stats, result⟩ := Store.deleteEntry_eq now oldestLive world.store key
      refine move_kept ?_ ?_ rfl rfl
      · rw [result]
        exact kept_erase world.store.items key
      · rw [result]
  | flushed client secs now during => exact move_kept (fun _ => Or.inl rfl) rfl rfl rfl
  | scheduled | gathered | refused | cleared | replied => exact enter_move rfl rfl
  | erased client key keys during => exact move_kept (kept_erase world.store.items key) rfl rfl rfl
  | evicted key =>
      simp only [Store.evict]
      split
      · exact store_move (kept_erase world.store.items key) rfl
      · exact store_move (fun _ => Or.inl rfl) rfl

end Steps

def Spent (cas : UInt64) (world : World Client) : Prop :=
  cas.toNat ≤ world.draws ∧ ∀ client, ¬world.Holds client cas

/-- The only items that can have this token under this key are those with the property. -/
def Sealed (key : Bytes) (cas : UInt64) (property : Item → Prop) (world : World Client) : Prop :=
  world.Spent cas ∧
    ∀ item, world.store.items.lookup key = some item → item.cas = cas → property item

def Version (value : Value) (item : Item) : Prop :=
  item.flags = value.2.1 ∧ item.data = value.2.2.1

/-- A token is in the items or in flight, but not in both, and no two clients hold the same. -/
structure Tokens (world : World Client) : Prop where
  cell : world.store.nextCasCell = UInt64.ofNat (world.draws + 1)
  drawn : ∀ client cas, world.Holds client cas → cas.toNat ≤ world.draws
  apart : ∀ client other cas, world.Holds client cas → world.Holds other cas → client = other
  spent : ∀ key item, world.store.items.lookup key = some item → world.Spent item.cas
  read : ∀ client value cas, world.HasRead client value → value.2.2.2 = some cas →
    world.Sealed value.1 cas (Version value)

def InBounds (world : World Client) : Prop := world.draws < 2 ^ 64

section Invariant

variable {world after : World Client}

theorem Move.inBounds (move : Move world after) (bound : after.InBounds) : world.InBounds := by
  simp only [InBounds] at bound ⊢
  cases move with
  | keep kept cell draws held read => omega
  | draw client items cell draws held read => omega
  | write client key item holds rewritten cell draws held read => omega
  | touch key item fresh rewritten cell draws held read => omega

theorem Tokens.next_new (tokens : Tokens world) (room : world.draws + 1 < 2 ^ 64) :
    world.store.nextCasCell.toNat = world.draws + 1 := by
  rw [tokens.cell, UInt64.toNat_ofNat_of_lt' room]

theorem Tokens.next_unused (tokens : Tokens world) (room : world.draws + 1 < 2 ^ 64) {cas : UInt64}
    (drawn : cas.toNat ≤ world.draws) : cas ≠ world.store.nextCasCell := by
  intro same
  have next := tokens.next_new room
  rw [← same] at next
  omega

theorem Move.spent (move : Move world after) (tokens : Tokens world) (bound : after.InBounds)
    {cas : UInt64} (spent : world.Spent cas) : after.Spent cas := by
  simp only [InBounds] at bound
  obtain ⟨drawn, free⟩ := spent
  cases move with
  | keep kept cell draws held read =>
      exact ⟨by omega, fun client holds => free client (held client cas holds)⟩
  | draw client items cell draws held read =>
      refine ⟨by omega, ?_⟩
      intro other holds
      rcases held other cas holds with ⟨_, fresh⟩ | before
      · exact tokens.next_unused (by omega) drawn fresh
      · exact free other before
  | write client key item holds rewritten cell draws held read =>
      exact ⟨by omega, fun other later => free other (held other cas later).2⟩
  | touch key item fresh rewritten cell draws held read =>
      exact ⟨by omega, fun client holds => free client (held client cas holds)⟩

theorem Move.sealed (move : Move world after) (tokens : Tokens world) (bound : after.InBounds)
    {key : Bytes} {cas : UInt64} {property : Item → Prop}
    (closed : world.Sealed key cas property) : after.Sealed key cas property := by
  refine ⟨move.spent tokens bound closed.1, ?_⟩
  obtain ⟨⟨drawn, free⟩, only⟩ := closed
  simp only [InBounds] at bound
  intro item found same
  cases move with
  | keep kept cell draws held read =>
      rcases kept key with unchanged | gone
      · exact only item (unchanged ▸ found) same
      · rw [gone] at found
        cases found
  | draw client items cell draws held read =>
      rw [items] at found
      exact only item found same
  | write client written current holds rewritten cell draws held read =>
      by_cases here : key = written
      · subst here
        rw [rewritten.here] at found
        cases found
        rw [same] at holds
        exact absurd holds (free client)
      · rw [rewritten.others key here] at found
        exact only item found same
  | touch written current fresh rewritten cell draws held read =>
      by_cases here : key = written
      · subst here
        rw [rewritten.here] at found
        cases found
        exact absurd fresh (tokens.next_unused (by omega) (same ▸ drawn))
      · rw [rewritten.others key here] at found
        exact only item found same

theorem sealed_of_shows {value : Value} {cas : UInt64}
    (spent : ∀ key item, world.store.items.lookup key = some item → world.Spent item.cas)
    (shows : Shows world.store.items value) (token : value.2.2.2 = some cas) :
    world.Sealed value.1 cas (Version value) := by
  obtain ⟨item, found, flags, data, hidden | shown⟩ := shows
  · rw [hidden] at token
    cases token
  · rw [shown] at token
    cases token
    refine ⟨spent value.1 item found, ?_⟩
    intro other present _
    rw [found] at present
    cases present
    exact ⟨flags.symm, data.symm⟩

theorem Move.items_spent (move : Move world after) (tokens : Tokens world)
    (bound : after.InBounds) (key : Bytes) (item : Item)
    (found : after.store.items.lookup key = some item) : after.Spent item.cas := by
  have old : world.store.items.lookup key = some item → after.Spent item.cas :=
    fun before => move.spent tokens bound (tokens.spent key item before)
  simp only [InBounds] at bound
  cases move with
  | keep kept cell draws held read =>
      rcases kept key with unchanged | gone
      · exact old (unchanged ▸ found)
      · rw [gone] at found
        cases found
  | draw client items cell draws held read =>
      rw [items] at found
      exact old found
  | write client written current holds rewritten cell draws held read =>
      by_cases here : key = written
      · subst here
        rw [rewritten.here] at found
        cases found
        have drawn := tokens.drawn client item.cas holds
        refine ⟨by omega, ?_⟩
        intro other later
        obtain ⟨different, before⟩ := held other item.cas later
        exact different (tokens.apart other client item.cas before holds)
      · rw [rewritten.others key here] at found
        exact old found
  | touch written current fresh rewritten cell draws held read =>
      by_cases here : key = written
      · subst here
        rw [rewritten.here] at found
        cases found
        have next := tokens.next_new (by omega)
        rw [← fresh] at next
        refine ⟨by omega, ?_⟩
        intro client later
        exact tokens.next_unused (by omega)
          (tokens.drawn client item.cas (held client item.cas later)) fresh
      · rw [rewritten.others key here] at found
        exact old found

theorem Move.tokens (move : Move world after) (tokens : Tokens world) (bound : after.InBounds) :
    Tokens after := by
  have spent := move.items_spent tokens bound
  have later : ∀ {key : Bytes} {cas : UInt64} {property : Item → Prop},
      world.Sealed key cas property → after.Sealed key cas property := move.sealed tokens bound
  simp only [InBounds] at bound
  cases move with
  | keep kept cell draws held read =>
      refine ⟨by rw [cell, draws, tokens.cell], ?_, ?_, spent, ?_⟩
      · intro client cas holds
        rw [draws]
        exact tokens.drawn client cas (held client cas holds)
      · intro client other cas first second
        exact tokens.apart client other cas (held client cas first) (held other cas second)
      · intro client value cas seen token
        rcases read client value seen with before | shows
        · exact later (tokens.read client value cas before token)
        · exact later (sealed_of_shows tokens.spent shows token)
  | draw client items cell draws held read =>
      have next := tokens.next_new (by omega)
      have old : ∀ other cas, world.Holds other cas → cas ≠ world.store.nextCasCell := by
        intro other cas holds
        exact tokens.next_unused (by omega) (tokens.drawn other cas holds)
      refine ⟨by rw [cell, draws, tokens.cell, ← UInt64.ofNat_one, ← UInt64.ofNat_add], ?_, ?_,
        spent, fun other value cas seen token => later (tokens.read other value cas
          (read other value seen) token)⟩
      · intro other cas holds
        rcases held other cas holds with ⟨_, fresh⟩ | before
        · rw [fresh]
          omega
        · have drawn := tokens.drawn other cas before
          omega
      · intro first second cas one two
        rcases held first cas one with ⟨same, fresh⟩ | before
        · rcases held second cas two with ⟨also, _⟩ | earlier
          · rw [same, also]
          · exact absurd fresh (old second cas earlier)
        · rcases held second cas two with ⟨_, fresh⟩ | earlier
          · exact absurd fresh (old first cas before)
          · exact tokens.apart first second cas before earlier
  | write client key item holds rewritten cell draws held read =>
      refine ⟨by rw [cell, draws, tokens.cell], ?_, ?_, spent, fun other value cas seen token =>
        later (tokens.read other value cas (read other value seen) token)⟩
      · intro other cas holding
        rw [draws]
        exact tokens.drawn other cas (held other cas holding).2
      · intro first second cas one two
        exact tokens.apart first second cas (held first cas one).2 (held second cas two).2
  | touch key item fresh rewritten cell draws held read =>
      refine ⟨by rw [cell, draws, tokens.cell, ← UInt64.ofNat_one, ← UInt64.ofNat_add], ?_, ?_,
        spent, ?_⟩
      · intro client cas holds
        have drawn := tokens.drawn client cas (held client cas holds)
        omega
      · intro client other cas first second
        exact tokens.apart client other cas (held client cas first) (held other cas second)
      · intro client value cas seen token
        rcases read client value seen with before | shows
        · exact later (tokens.read client value cas before token)
        · exact sealed_of_shows spent shows token

end Invariant

end World

section Actors

variable {Client : Type}

def ClientEvent.actor : ClientEvent Client → Option Client
  | .call client _ | .readClock client _ | .readCutoff client | .draw client | .act client
  | .refuse client | .clear client _ | .cleared client | .reply client => some client
  | .evict _ => none

variable [DecidableEq Client]

theorem World.enter_other {client other : Client} (different : other ≠ client) (phase : Phase)
    (world : World Client) : (world.enter client phase).phase other = world.phase other := by
  rw [enter_phase, if_neg different]

theorem World.step_other {event : ClientEvent Client} {world after : World Client} {other : Client}
    (taken : world.step event = some after) (different : event.actor ≠ some other) :
    after.phase other = world.phase other := by
  cases step_stepped taken with
  | evicted => rfl
  | called client | timed client | scheduled client | resumed client | drawn client
    | visited client | updated client | deleted client | gathered client | flushed client
    | refused client | erased client | cleared client | replied client =>
      exact enter_other (fun same => different (congrArg some same.symm)) _ _

end Actors

end Ousagi
