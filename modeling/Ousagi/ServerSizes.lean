import Ousagi.ServerChecks
import Ousagi.ServerRuns

/-!
The limit on the data of an item, over whole runs of the server: every step but
a join keeps it, and a join keeps it as long as the result stays within it.
-/

namespace Ousagi

open Library

theorem decimal_uint64 (value : UInt64) : (decimal value.toNat).length ≤ 20 := by
  have bound := value.toNat_lt
  exact decimal_length (by omega) (by omega)

/-- The update joins data to the item and makes it larger than the limit. -/
def Update.overgrows (item : Item) : Update → Bool
  | .store .append args | .store .prepend args =>
      maxItemSize < item.data.length + args.data.length
  | _ => false

theorem Update.store_bounded {op : StoreOp} {args : StoreArgs} {now cas : UInt64}
    {found : Option Item} {item : Item} (small : args.data.length ≤ maxItemSize)
    (bounded : ∀ old, found = some old → old.data.length ≤ maxItemSize)
    (left : ((Update.store op args).effect now cas found).2 = some item) :
    item.data.length ≤ maxItemSize ↔ ¬found.any (Update.store op args).overgrows := by
  cases op with
  | set =>
      cases left
      cases found <;> simp [overgrows, Item.new, small]
  | add =>
      cases found with
      | none =>
          cases left
          simp [Item.new, small]
      | some old =>
          cases left
          simp [overgrows, bounded]
  | replace =>
      cases found with
      | none => cases left
      | some old =>
          cases left
          simp [overgrows, Item.new, small]
  | append =>
      cases found with
      | none => cases left
      | some old =>
          cases left
          simp [overgrows]
  | prepend =>
      cases found with
      | none => cases left
      | some old =>
          cases left
          simp [overgrows, Nat.add_comm]
  | cas =>
      cases found with
      | none => cases token : args.cas <;> simp [effect, token] at left
      | some old =>
          have fits := bounded old rfl
          cases token : args.cas with
          | none =>
              simp only [effect, token, Option.some.injEq] at left
              simp [overgrows, ← left, fits]
          | some expected =>
              by_cases other : old.cas = expected
              · simp only [effect, token, other, ne_eq, not_true, if_false,
                  Option.some.injEq] at left
                simp [overgrows, ← left, Item.new, small]
              · simp only [effect, token, other, ne_eq, not_false_eq_true, if_true,
                  Option.some.injEq] at left
                simp [overgrows, ← left, fits]

theorem Update.effect_bounded {update : Update} {now cas : UInt64} {found : Option Item}
    {item : Item} (wellFormed : update.WellFormed)
    (bounded : ∀ old, found = some old → old.data.length ≤ maxItemSize)
    (left : (update.effect now cas found).2 = some item) :
    item.data.length ≤ maxItemSize ↔ ¬found.any update.overgrows := by
  cases update with
  | store op args => exact store_bounded wellFormed.2.1 bounded left
  | arithmetic op key delta =>
      cases found with
      | none => cases left
      | some old =>
          have fits := bounded old rfl
          cases number : numericValue old.data with
          | none =>
              simp only [effect, number, Option.some.injEq] at left
              simp [overgrows, ← left, fits]
          | some value =>
              have short := decimal_uint64 (op.apply value delta)
              simp only [effect, number, Option.some.injEq] at left
              simp only [overgrows, ← left, Option.any_some, Bool.false_eq_true,
                not_false_eq_true, iff_true, maxItemSize]
              omega
  | touch key exptime =>
      cases found with
      | none => cases left
      | some old =>
          cases left
          simp [overgrows, bounded]

theorem Update.overgrows_leaves {update : Update} {old : Item} (now cas : UInt64)
    (large : update.overgrows old) :
    ∃ item, (update.effect now cas (some old)).2 = some item := by
  cases update with
  | store op args => cases op <;> first | cases large | exact ⟨_, rfl⟩
  | arithmetic | touch => cases large

theorem Update.overgrows_token {update : Update} {old : Item} (large : update.overgrows old) :
    ¬update.tokenless := by
  cases update with
  | store op args => cases op <;> simp [tokenless, overgrows] at large ⊢
  | arithmetic | touch => cases large

variable {Client : Type} [DecidableEq Client]

namespace World

def Bounded (world : World Client) : Prop :=
  ∀ key item, world.store.items.lookup key = some item → item.data.length ≤ maxItemSize

def overgrows (event : ClientEvent Client) (world : World Client) : Bool :=
  match event with
  | .act client =>
      match world.phase client with
      | .updating update now oldestLive _ =>
          (visibleItem now oldestLive world.store.items update.key).any update.overgrows
      | _ => false
  | _ => false

variable {world after : World Client}

omit [DecidableEq Client] in
theorem Leaving.bounded {event : ClientEvent Client} {key : Bytes} {item : Item}
    (leaving : world.Leaving key item event) (wellFormed : world.WellFormed)
    (bounded : world.Bounded) (spared : ¬world.overgrows event) :
    item.data.length ≤ maxItemSize := by
  have visible : ∀ {now : UInt64} {oldestLive : Option UInt64} {old : Item},
      visibleItem now oldestLive world.store.items key = some old →
        old.data.length ≤ maxItemSize :=
    fun found => bounded key _ (visible_lookup found)
  cases leaving with
  | visited client retrieval now oldestLive rest values during left =>
      cases found : visibleItem now oldestLive world.store.items key with
      | none => cases retrieval <;> simp [found, Retrieval.effect] at left
      | some old =>
          have fits := visible found
          rw [found] at left
          cases retrieval <;> cases left <;> exact fits
  | updated client update now oldestLive cas during here left =>
      have given : update.WellFormed := wellFormed.during during
      simp only [overgrows, during, here] at spared
      exact (Update.effect_bounded given (fun old found => visible found) left).mpr spared

theorem overgrows_unbounded {event : ClientEvent Client} (wellFormed : world.WellFormed)
    (bounded : world.Bounded) (taken : world.step event = some after)
    (overgrown : world.overgrows event) : ¬after.Bounded := by
  intro fits
  cases step_stepped taken with
  | updated client update now oldestLive cas during =>
      have given : update.WellFormed := wellFormed.during during
      simp only [overgrows, during] at overgrown
      obtain ⟨items, stats, result, outcome⟩ :=
        Update.perform_effect now oldestLive cas world.store update
      cases found : visibleItem now oldestLive world.store.items update.key with
      | none => simp [found] at overgrown
      | some old =>
          simp only [found, Option.any_some] at overgrown result outcome
          have small : ∀ other, some old = some other → other.data.length ≤ maxItemSize := by
            intro other same
            cases same
            exact bounded update.key old (visible_lookup found)
          rcases outcome with leaves | ⟨tokenless, _, _⟩
          · obtain ⟨item, left⟩ := Update.overgrows_leaves now cas overgrown
            have there := fits update.key item (by simpa [result] using leaves.here.trans left)
            exact (Update.effect_bounded given small left).mp there overgrown
          · exact Update.overgrows_token overgrown tokenless
  | visited client retrieval now oldestLive key rest values during =>
      simp [overgrows, during] at overgrown
  | deleted client key now oldestLive during => simp [overgrows, during] at overgrown
  | gathered client during | flushed client secs now during =>
      simp [overgrows, during] at overgrown
  | _ => cases overgrown

theorem step_bounded {event : ClientEvent Client} (wellFormed : world.WellFormed)
    (bounded : world.Bounded) (taken : world.step event = some after) :
    after.Bounded ↔ ¬world.overgrows event := by
  constructor
  · exact fun fits overgrown => overgrows_unbounded wellFormed bounded taken overgrown fits
  · intro spared key item there
    rcases step_items taken there with before | leaving
    · exact bounded key item before
    · exact leaving.bounded wellFormed bounded spared

end World

section Numbers

variable [FromRadix10SignedChecked UInt32] [FromRadix10SignedChecked UInt64]
  [FromRadix10SignedChecked Int64]

namespace Server

def overgrows (event : ServerEvent Client) (server : Server Client) : Bool :=
  match event with
  | .work event => server.world.overgrows event
  | _ => false

theorem step_bounded {event : ServerEvent Client} {before after : Server Client}
    (taken : before.step event = some after) (wellFormed : before.world.WellFormed)
    (bounded : before.world.Bounded) :
    after.world.Bounded ↔ ¬before.overgrows event := by
  have quiet : ∀ {inner : ClientEvent Client}, ¬inner.internal →
      ¬before.world.overgrows inner := by
    intro inner outside
    cases inner <;> simp [World.overgrows, ClientEvent.internal] at outside ⊢
  cases event with
  | work inner =>
      simp only [step] at taken
      split at taken
      · obtain ⟨world, worked, same⟩ := Option.map_eq_some_iff.mp taken
        subst same
        exact World.step_bounded wellFormed bounded worked
      · cases taken
  | _ =>
      simp only [overgrows, Bool.false_eq_true, not_false_eq_true, iff_true]
      rcases step_world taken with undisturbed | ⟨inner, worked, _, outside⟩
      · intro key item there
        rw [undisturbed.items] at there
        exact bounded key item there
      · have reserved : ¬inner.internal := fun inside => by cases outside inside
        exact (World.step_bounded wellFormed bounded worked).mpr (quiet reserved)

def Refused (event : ServerEvent Client) (server : Server Client) : Prop :=
  ∀ after, server.step event = some after → ∀ key,
    after.world.store.items.lookup key = server.world.store.items.lookup key

/-- Every item of a run stays within the limit, and what would exceed it is refused, exactly if
no step of the run joins data to an item that the result makes too large. -/
theorem bounded_iff_not_overgrown {events : List (ServerEvent Client)} {last : Server Client}
    (reached : run step events new = some last) :
    (Always step (fun server => server.world.Bounded) events new ∧
      Throughout step (fun event server => server.overgrows event → server.Refused event)
        events new) ↔
      Throughout step (fun event server => ¬server.overgrows event) events new := by
  have same : Always step (fun server => server.world.Bounded) events new ↔
      Throughout step (fun event server => ¬server.overgrows event) events new := by
    have empty : (new : Server Client).world.Bounded := by
      intro key item there
      simp [new, World.new, Store.new] at there
    exact @always_iff_throughout _ _ step (fun server => server.world.WellFormed) _ _
      (fun taken => step_wellFormed taken) step_bounded _ _ _ reached World.new_wellFormed empty
  rw [same, and_iff_left_iff_imp]
  exact Throughout.weaken fun _ _ spared overgrown => absurd overgrown spared

section Alone

variable {client : Client} {server : Server Client} {session : Session Store}

def storeEvents (client : Client) (now : UInt64) : List (ServerEvent Client) :=
  [.read client, .work (.readClock client now), .work (.readCutoff client), .work (.draw client),
    .work (.act client), .reply client]

theorem Hosts.stores (hosts : server.Hosts client session) (now : UInt64)
    (canonical : CanonicalDecimals) {op : StoreOp} {args : StoreArgs} {rest : Bytes}
    (wellFormed : (Command.store op args).WellFormed)
    (fits : (Command.store op args).wireLine.length + 2 ≤ maxLineLen)
    (input : session.conn.stream = (Command.store op args).wire ++ rest)
    (loud : args.noreply = false) :
    ∃ last conn, run step (storeEvents client now) server = some last ∧
      last.Hosts client { conn, store := (handle now (.store op args) session.store).2 } ∧
      conn.stream = rest ∧
      responses conn.history =
        responses session.conn.history ++ [(handle now (.store op args) session.store).1] := by
  have cut := cutTurn_wire canonical wellFormed rest
  rw [← input] at cut
  have short : lineShort session.conn.stream := by
    rw [input]
    exact lineShort_wire wellFormed fits rest
  obtain ⟨count, middle, waited, left, turned⟩ := Connection.readCommandTurn_short short
  rw [cut] at left turned
  let response := (handle now (.store op args) session.store).1
  let conn := ((middle.record (.received (.store op args))).writeResponse response).record
    (.replied response)
  have next : session.next (handle now) =
      some { conn, store := (handle now (.store op args) session.store).2 } := by
    simp [Session.next, turned, answer, Command.noreply, loud, conn, response]
  obtain ⟨last, reached, hosted⟩ := hosts.next next
  refine ⟨last, conn, ?_, hosted, left, ?_⟩
  · simpa [turnEvents, turned, Command.begin, workEvents, World.script, storeEvents] using reached
  · simp [conn, Connection.record, waited.history, responses, Event.response, response]

end Alone

end Server

end Numbers

section Joins

def sizeArgs (data : Bytes) : StoreArgs :=
  { key := ascii "k", flags := 0, exptime := 0, data, noreply := false, cas := none }

def joinSocket (data : Bytes) : Socket :=
  ⟨[(Command.store .set (sizeArgs data)).wire ++ (Command.store .append (sizeArgs (ascii "b"))).wire], by
    intro read only
    rw [List.mem_singleton.mp only]
    simp [Command.wire, ascii]⟩

def joinEvents (data : Bytes) : List (ServerEvent Nat) :=
  .accept 0 (joinSocket data) .tokio :: (Server.storeEvents 0 1000 ++ Server.storeEvents 0 1001)

theorem sizeArgs_wellFormed {op : StoreOp} {data : Bytes} (ordinary : op ≠ .cas)
    (fits : data.length ≤ maxItemSize) : (Command.store op (sizeArgs data)).WellFormed :=
  ⟨show ValidKey (ascii "k") by decide, fits, by simp [sizeArgs, ordinary]⟩

theorem sizeArgs_fits {op : StoreOp} (data : Bytes) (fits : data.length ≤ maxItemSize) :
    (Command.store op (sizeArgs data)).wireLine.length + 2 ≤ maxLineLen := by
  have exact : (UInt64.ofNat data.length).toNat = data.length := by
    simp only [maxItemSize] at fits
    rw [UInt64.toNat_ofNat']
    omega
  have short := decimal_uint64 (UInt64.ofNat data.length)
  rw [exact] at short
  have zero : decimal 0 = [48] ∧ signedDecimal 0 = [48] := by decide
  have verb : (storeVerb op).length ≤ 7 := by cases op <;> decide
  have key : (ascii "k").length = 1 := by decide
  simp [Command.wireLine, Command.wireTokens, sizeArgs, List.intercalate, zero, maxLineLen,
    noreplySuffix, key]
  omega

theorem joins_stored {data : Bytes} (fits : data.length ≤ maxItemSize) :
    ∃ server item conn, run Server.step (joinEvents data) .new = some server ∧
      server.world.store.items.lookup (ascii "k") = some item ∧
      item.data = data ++ ascii "b" ∧
      server.conn 0 = some conn ∧ responses conn.history = [.stored, .stored] := by
  let accepted : Server Nat := Server.new.opened 0 (.new (joinSocket data) .tokio)
  let session : Session Store :=
    { conn := .new (joinSocket data) .tokio, store := accepted.world.store }
  have hosts : accepted.Hosts 0 session := Server.attach_hosts rfl rfl
  obtain ⟨middle, conn, first, hosted, rest, replied⟩ := hosts.stores 1000 canonicalDecimals
    (sizeArgs_wellFormed (by decide) fits) (sizeArgs_fits data fits)
    (show session.conn.stream = (Command.store .set (sizeArgs data)).wire ++
      (Command.store .append (sizeArgs (ascii "b"))).wire by
        simp [session, Connection.stream, Connection.new, joinSocket, Socket.stream]) rfl
  obtain ⟨last, conn', second, hosted', rest', replied'⟩ := hosted.stores 1001 canonicalDecimals
    (sizeArgs_wellFormed (by decide) (by decide)) (sizeArgs_fits _ (by decide))
    (show conn.stream = (Command.store .append (sizeArgs (ascii "b"))).wire ++ [] by
      rw [rest, List.append_nil]) rfl
  refine ⟨last, Item.new (data ++ ascii "b") 0 0 2 1000, conn', ?_, ?_, rfl, hosted'.conn, ?_⟩
  · have start : Server.new.step (.accept 0 (joinSocket data) .tokio) = some accepted := rfl
    rw [joinEvents, run, start, Option.bind_some, run_append, first]
    exact second
  · rw [hosted'.store]
    rfl
  · rw [replied', replied]
    rfl

theorem join_bounded :
    Always Server.step (fun server => server.world.Bounded) (joinEvents (ascii "a")) .new := by
  obtain ⟨server, _, _, reached, _⟩ := @joins_stored (ascii "a") (by decide)
  have spared : Throughout Server.step (fun event server => ¬server.overgrows event)
      (joinEvents (ascii "a")) .new := by
    decide +kernel
  exact ((Server.bounded_iff_not_overgrown reached).mpr spared).1

/-- An item of the largest size takes another byte. -/
theorem join_overgrows :
    ∃ server conn, run Server.step (joinEvents (List.replicate maxItemSize 97)) .new = some server ∧
      server.conn 0 = some conn ∧ responses conn.history = [.stored, .stored] ∧
      ¬server.world.Bounded := by
  have full : (List.replicate maxItemSize (97 : UInt8)).length ≤ maxItemSize := by
    rw [List.length_replicate]
  obtain ⟨server, item, conn, reached, there, joined, connected, replied⟩ := joins_stored full
  refine ⟨server, conn, reached, connected, replied, ?_⟩
  intro bounded
  have fits := bounded (ascii "k") item there
  have one : (ascii "b").length = 1 := by decide
  rw [joined, List.length_append, List.length_replicate, one] at fits
  omega

end Joins

end Ousagi
