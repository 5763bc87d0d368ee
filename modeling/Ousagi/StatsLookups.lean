import Ousagi.Library.Traces
import Ousagi.StatsBalance
import Ousagi.StoreRefinement

/-!
The reported counters of lookups against what an observer counts: the keys that
are asked for and returned, and the dead items that are found on the way.
-/

namespace Ousagi

open Library

def Stats.Reports (stats : Stats) (name : String) (count : Nat) : Prop :=
  ∀ currItems, (stats.report currItems).lookup name =
    some (toString (UInt64.ofNat count).toNat)

theorem Stats.reports_iff {stats : Stats} {name : String} {counter : Counter} {count : Nat}
    (entry : ∀ currItems,
      (stats.report currItems).lookup name = some (toString (stats counter).toNat)) :
    stats.Reports name count ↔ stats counter = UInt64.ofNat count := by
  constructor
  · intro reports
    have same := (entry 0).symm.trans (reports 0)
    exact UInt64.toNat_inj.mp (toString_injective (Option.some.inj same))
  · intro same currItems
    rw [entry currItems, same]

structure Tally where
  requested : Nat
  returned : Nat
  deriving DecidableEq, Repr

namespace Tally

def missed (tally : Tally) : Nat := tally.requested - tally.returned

def note (served : Served) (tally : Tally) : Tally :=
  { requested := tally.requested + served.requested.length
    returned := tally.returned + served.returned.length }

end Tally

/-- What an observer of the commands and of their replies counts. -/
structure Traffic where
  get : Tally
  gat : Tally
  deadLookups : Nat
  deadDeletes : Nat
  deriving DecidableEq, Repr

namespace Traffic

def zero : Traffic := { get := ⟨0, 0⟩, gat := ⟨0, 0⟩, deadLookups := 0, deadDeletes := 0 }

def missed (traffic : Traffic) : Nat := traffic.get.missed + traffic.gat.missed

def serve (now : UInt64) (before : Store) (traffic : Traffic) (served : Served) : Traffic :=
  let traffic :=
    { traffic with
      deadLookups := traffic.deadLookups + (served.1.deadLookups now before).length
      deadDeletes := traffic.deadDeletes + (served.1.deadDeletes now before).length }
  match served with
  | (.get _ _, _) => { traffic with get := traffic.get.note served }
  | (.getAndTouch _ _ _, _) => { traffic with gat := traffic.gat.note served }
  | _ => traffic

end Traffic

structure Observed where
  clocked : Clocked Store
  traffic : Traffic

namespace Observed

/-- The length of the slice of keys is a `usize`. -/
def Sized : StoreStep → Bool
  | .command (.get keys _) | .command (.getAndTouch keys _ _) => keys.length < 2 ^ 64
  | _ => true

def step (event : StoreStep) (observed : Observed) : Option Observed :=
  if Sized event then
    let (served, after) := Clocked.logged event observed.clocked
    some
      { clocked := after
        traffic := served.elim observed.traffic
          (observed.traffic.serve observed.clocked.now observed.clocked.state) }
  else none

def start (now : UInt64) (items : Cache Bytes Item) (nextCasCell oldestLiveCell : UInt64) :
    Observed :=
  { clocked := { now, state := { items, nextCasCell, oldestLiveCell, stats := .zero } }
    traffic := .zero }

end Observed

theorem Traffic.serve_totals (now : UInt64) (before : Store) (traffic : Traffic) (served : Served) :
    let after := traffic.serve now before served
    after.get.requested + after.gat.requested =
        traffic.get.requested + traffic.gat.requested + served.requested.length ∧
      after.get.returned + after.gat.returned =
        traffic.get.returned + traffic.gat.returned + served.returned.length ∧
      after.deadLookups = traffic.deadLookups + (served.1.deadLookups now before).length ∧
      after.deadDeletes = traffic.deadDeletes + (served.1.deadDeletes now before).length := by
  obtain ⟨command, reply⟩ := served
  cases command with
  | get => exact ⟨Nat.add_right_comm _ _ _, Nat.add_right_comm _ _ _, rfl, rfl⟩
  | getAndTouch => exact ⟨(Nat.add_assoc _ _ _).symm, (Nat.add_assoc _ _ _).symm, rfl, rfl⟩
  | _ => exact ⟨rfl, rfl, rfl, rfl⟩

structure Exact (stats : Stats) (traffic : Traffic) : Prop where
  gats : stats .cmdGat = 0 ∧ stats .gatHits = 0 ∧ stats .gatMisses = 0
  requested : stats .cmdGet = UInt64.ofNat (traffic.get.requested + traffic.gat.requested)
  returned : stats .getHits = UInt64.ofNat (traffic.get.returned + traffic.gat.returned)
  missed : stats .getMisses = UInt64.ofNat traffic.missed
  expired : stats .getExpired = UInt64.ofNat (traffic.deadLookups + traffic.deadDeletes)
  within : traffic.get.returned ≤ traffic.get.requested ∧
    traffic.gat.returned ≤ traffic.gat.requested
  dead : traffic.deadLookups ≤ traffic.missed

theorem Exact.serve {now : UInt64} {before : Store} {traffic : Traffic} {served : Served} {bill : Bill}
    (exact : Exact before.stats traffic) (settles : Settles bill [served])
    (tallies : Tallies now before served bill) :
    Exact (before.stats.pay bill) (traffic.serve now before served) := by
  have hits := settles.retrievals
  rw [tallies.requested, tallies.returned] at hits
  obtain ⟨asked, found, lookups, deletes⟩ := traffic.serve_totals now before served
  have within : (traffic.serve now before served).get.returned ≤
        (traffic.serve now before served).get.requested ∧
      (traffic.serve now before served).gat.returned ≤
        (traffic.serve now before served).gat.requested := by
    obtain ⟨getWithin, gatWithin⟩ := exact.within
    obtain ⟨command, reply⟩ := served
    cases command with
    | get => exact ⟨by simp only [Traffic.serve, Tally.note]; omega, gatWithin⟩
    | getAndTouch => exact ⟨getWithin, by simp only [Traffic.serve, Tally.note]; omega⟩
    | _ => exact ⟨getWithin, gatWithin⟩
  have missed : (traffic.serve now before served).missed = traffic.missed + due .getMisses bill := by
    have := exact.within
    simp only [Traffic.missed, Tally.missed]
    omega
  constructor
  · obtain ⟨cmdGat, gatHits, gatMisses⟩ := exact.gats
    obtain ⟨noCommands, noHits, noMisses⟩ := tallies.gats
    simp [pay_due, cmdGat, gatHits, gatMisses, noCommands, noHits, noMisses]
  · rw [pay_due, exact.requested, tallies.requested, asked, UInt64.ofNat_add _ (_ : List _).length]
  · rw [pay_due, exact.returned, tallies.returned, found, UInt64.ofNat_add _ (_ : List _).length]
  · rw [pay_due, exact.missed, missed, UInt64.ofNat_add]
  · rw [pay_due, exact.expired, tallies.expired, lookups, deletes, ← UInt64.ofNat_add]
    congr 1
    omega
  · exact within
  · rw [lookups, missed]
    exact Nat.add_le_add exact.dead tallies.missed

theorem Exact.unlooked {stats : Stats} {traffic : Traffic} {bill : Bill} (exact : Exact stats traffic)
    (unlooked : Unlooked bill) : Exact (stats.pay bill) traffic := by
  have same : ∀ counter, counter.looks → stats.pay bill counter = stats counter := by
    intro counter looks
    rw [pay_due, unlooked.due looks]
    exact UInt64.add_zero _
  obtain ⟨cmdGat, gatHits, gatMisses⟩ := exact.gats
  constructor
  · rw [same _ rfl, same _ rfl, same _ rfl]
    exact ⟨cmdGat, gatHits, gatMisses⟩
  · rw [same _ rfl, exact.requested]
  · rw [same _ rfl, exact.returned]
  · rw [same _ rfl, exact.missed]
  · rw [same _ rfl, exact.expired]
  · exact exact.within
  · exact exact.dead

namespace Observed

def Known (observed : Observed) : Prop := Exact observed.clocked.state.stats observed.traffic

theorem start_known (now : UInt64) (items : Cache Bytes Item) (nextCasCell oldestLiveCell : UInt64) :
    (start now items nextCasCell oldestLiveCell).Known :=
  ⟨⟨rfl, rfl, rfl⟩, rfl, rfl, rfl, rfl, ⟨Nat.le_refl 0, Nat.le_refl 0⟩, Nat.le_refl 0⟩

theorem step_cases {event : StoreStep} {before after : Observed}
    (taken : step event before = some after) :
    Sized event ∧ (Clocked.logged event before.clocked).2 = after.clocked ∧
      (Clocked.logged event before.clocked).1.elim before.traffic
        (before.traffic.serve before.clocked.now before.clocked.state) = after.traffic := by
  obtain ⟨sized, rfl⟩ := Option.ite_some_none_eq_some.mp taken
  exact ⟨sized, rfl, rfl⟩

theorem step_known {event : StoreStep} {before after : Observed}
    (taken : step event before = some after) (known : before.Known) : after.Known := by
  obtain ⟨_, clocked, traffic⟩ := step_cases taken
  rw [Known, ← clocked, ← traffic]
  cases event with
  | tick now => exact known
  | command command =>
      obtain ⟨bill, paid, settles, tallies⟩ :=
        handle_charges before.clocked.now before.clocked.state command
      have served := known.serve settles tallies
      rw [← paid] at served
      exact served
  | evict key =>
      simp only [Clocked.logged, Clocked.lazyStep, Store.evict]
      by_cases present : (before.clocked.state.items.lookup key).isSome = true
      · have unlooked : Unlooked [(.evictions, 1)] := by decide
        rw [if_pos present]
        exact Exact.unlooked known unlooked
      · rw [if_neg present]
        exact known

end Observed

theorem ofNat_add_eq_zero {count more : Nat} (zero : UInt64.ofNat count = 0) (small : more < 2 ^ 64) :
    UInt64.ofNat (count + more) = 0 ↔ more = 0 := by
  rw [UInt64.ofNat_add, zero, UInt64.zero_add, UInt64.ofNat_eq_iff_mod_eq_toNat,
    Nat.mod_eq_of_lt small]
  rfl

section Gat

def StoreStep.gatKeys : StoreStep → List Bytes
  | .command (.getAndTouch keys _ _) => keys
  | _ => []

namespace Observed

/-- The counters of `gat` and of `get` each hold their own traffic. -/
structure GatAccounted (observed : Observed) : Prop where
  cmdGat : observed.clocked.state.stats.Reports "cmd_gat" observed.traffic.gat.requested
  gatHits : observed.clocked.state.stats.Reports "gat_hits" observed.traffic.gat.returned
  gatMisses : observed.clocked.state.stats.Reports "gat_misses" observed.traffic.gat.missed
  balanced : observed.clocked.state.stats .cmdGat =
    observed.clocked.state.stats .gatHits + observed.clocked.state.stats .gatMisses
  cmdGet : observed.clocked.state.stats.Reports "cmd_get" observed.traffic.get.requested
  getHits : observed.clocked.state.stats.Reports "get_hits" observed.traffic.get.returned
  getMisses : observed.clocked.state.stats.Reports "get_misses" observed.traffic.get.missed

theorem gatAccounted_iff {observed : Observed} (known : observed.Known) :
    observed.GatAccounted ↔ UInt64.ofNat observed.traffic.gat.requested = 0 ∧
      UInt64.ofNat observed.traffic.gat.returned = 0 ∧
      UInt64.ofNat observed.traffic.gat.missed = 0 := by
  obtain ⟨cmdGat, gatHits, gatMisses⟩ := known.gats
  constructor
  · intro accounted
    have requested := (Stats.reports_iff fun _ => rfl).mp accounted.cmdGat
    have returned := (Stats.reports_iff fun _ => rfl).mp accounted.gatHits
    have missed := (Stats.reports_iff fun _ => rfl).mp accounted.gatMisses
    rw [cmdGat] at requested
    rw [gatHits] at returned
    rw [gatMisses] at missed
    exact ⟨requested.symm, returned.symm, missed.symm⟩
  · rintro ⟨requested, returned, missed⟩
    constructor
    · exact (Stats.reports_iff fun _ => rfl).mpr (by rw [cmdGat, requested])
    · exact (Stats.reports_iff fun _ => rfl).mpr (by rw [gatHits, returned])
    · exact (Stats.reports_iff fun _ => rfl).mpr (by rw [gatMisses, missed])
    · rw [cmdGat, gatHits, gatMisses]
      rfl
    · exact (Stats.reports_iff fun _ => rfl).mpr
        (by rw [known.requested, UInt64.ofNat_add, requested, UInt64.add_zero])
    · exact (Stats.reports_iff fun _ => rfl).mpr
        (by rw [known.returned, UInt64.ofNat_add, returned, UInt64.add_zero])
    · exact (Stats.reports_iff fun _ => rfl).mpr
        (by rw [known.missed, Traffic.missed, UInt64.ofNat_add, missed, UInt64.add_zero])

theorem step_gat {event : StoreStep} {before after : Observed}
    (taken : step event before = some after) :
    event.gatKeys.length < 2 ^ 64 ∧
      after.traffic.gat.requested = before.traffic.gat.requested + event.gatKeys.length ∧
      (event.gatKeys = [] → after.traffic.gat = before.traffic.gat) := by
  obtain ⟨sized, _, traffic⟩ := step_cases taken
  rw [← traffic]
  cases event with
  | tick now => exact ⟨Nat.two_pow_pos 64, rfl, fun _ => rfl⟩
  | evict key => exact ⟨Nat.two_pow_pos 64, rfl, fun _ => rfl⟩
  | command command =>
      cases command with
      | getAndTouch keys exptime withCas =>
          refine ⟨of_decide_eq_true sized, rfl, ?_⟩
          rintro (rfl : keys = [])
          rfl
      | _ => exact ⟨Nat.two_pow_pos 64, rfl, fun _ => rfl⟩

end Observed

/-- In every state of a run from zero counters the traffic of `gat` is in its counters, exactly if
the run asks for no key by a `gat`. -/
theorem gat_accounting (now : UInt64) (items : Cache Bytes Item) (nextCasCell oldestLiveCell : UInt64)
    (events : List StoreStep) :
    let start := Observed.start now items nextCasCell oldestLiveCell
    (run Observed.step events start).isSome →
      (Always Observed.step Observed.GatAccounted events start ↔
        ∀ event ∈ events, event.gatKeys = []) := by
  intro start runs
  obtain ⟨last, reached⟩ := Option.isSome_iff_exists.mp runs
  have known : start.Known := Observed.start_known now items nextCasCell oldestLiveCell
  rw [← throughout_iff_forall reached]
  refine always_iff_throughout Observed.step_known ?_ reached known
    ((Observed.gatAccounted_iff known).mpr ⟨rfl, rfl, rfl⟩)
  intro event before after taken knows holds
  obtain ⟨small, requested, untouched⟩ := Observed.step_gat taken
  rw [Observed.gatAccounted_iff knows] at holds
  rw [Observed.gatAccounted_iff (Observed.step_known taken knows)]
  constructor
  · rintro ⟨zero, _⟩
    rw [requested, ofNat_add_eq_zero holds.1 small] at zero
    exact List.eq_nil_of_length_eq_zero zero
  · intro none
    rw [untouched none]
    exact holds

theorem gets_accounted :
    let start := Observed.start 1000 ∅ 1 0
    Always Observed.step Observed.GatAccounted
      [.command (.store .set flushArgs), .command (.get [ascii "k", ascii "x"] false), .tick 1001,
        .command (.getAndTouch [] 60 true), .command (.get [ascii "k"] true)] start :=
  (gat_accounting 1000 ∅ 1 0 _ (by decide)).mpr (by decide)

/-- One `gat` of an absent key is reported as a `get`. -/
theorem gat_unaccounted :
    ∃ after, run Observed.step [.command (.getAndTouch [ascii "k"] 0 false)]
        (Observed.start 1000 ∅ 1 0) = some after ∧
      after.traffic = { Traffic.zero with gat := { requested := 1, returned := 0 } } ∧
      (after.clocked.state.stats.report 0).lookup "cmd_gat" = some "0" ∧
      (after.clocked.state.stats.report 0).lookup "gat_misses" = some "0" ∧
      (after.clocked.state.stats.report 0).lookup "cmd_get" = some "1" ∧
      ¬after.GatAccounted := by
  refine ⟨_, rfl, by decide, by decide, by decide, by decide, ?_⟩
  intro accounted
  exact absurd (accounted.cmdGat 0) (by decide)

end Gat

section Expired

def StoreStep.deadDeletes (event : StoreStep) (clocked : Clocked Store) : List Item :=
  match event with
  | .command taken => taken.deadDeletes clocked.now clocked.state
  | _ => []

namespace Observed

structure ExpiryAccounted (observed : Observed) : Prop where
  reported : observed.clocked.state.stats.Reports "get_expired" observed.traffic.deadLookups
  among : observed.traffic.missed < 2 ^ 64 →
    observed.clocked.state.stats .getExpired ≤ observed.clocked.state.stats .getMisses

theorem expiryAccounted_iff {observed : Observed} (known : observed.Known) :
    observed.ExpiryAccounted ↔ UInt64.ofNat observed.traffic.deadDeletes = 0 := by
  have split := UInt64.ofNat_add observed.traffic.deadLookups observed.traffic.deadDeletes
  constructor
  · intro accounted
    have reported := (Stats.reports_iff fun _ => rfl).mp accounted.reported
    rw [known.expired, split] at reported
    exact UInt64.add_eq_left.mp reported
  · intro zero
    rw [zero, UInt64.add_zero] at split
    refine ⟨(Stats.reports_iff fun _ => rfl).mpr (known.expired.trans split), ?_⟩
    intro small
    have dead := known.dead
    rw [known.expired, split, known.missed, UInt64.le_iff_toNat_le, UInt64.toNat_ofNat_of_lt' small,
      UInt64.toNat_ofNat_of_lt' (Nat.lt_of_le_of_lt dead small)]
    exact dead

theorem step_deadDeletes {event : StoreStep} {before after : Observed}
    (taken : step event before = some after) :
    after.traffic.deadDeletes =
        before.traffic.deadDeletes + (event.deadDeletes before.clocked).length ∧
      (event.deadDeletes before.clocked).length < 2 ^ 64 := by
  obtain ⟨_, _, traffic⟩ := step_cases taken
  rw [← traffic]
  cases event with
  | tick now => exact ⟨rfl, Nat.two_pow_pos 64⟩
  | evict key => exact ⟨rfl, Nat.two_pow_pos 64⟩
  | command command =>
      refine ⟨(Traffic.serve_totals _ _ _ _).2.2.2, ?_⟩
      cases command with
      | delete key noreply =>
          simp only [StoreStep.deadDeletes, Command.deadDeletes, Option.length_toList]
          split <;> decide
      | _ => exact Nat.two_pow_pos 64

end Observed

/-- In every state of a run from zero counters the expired are the lookups of dead items, exactly
if no deletion of the run finds a dead item. -/
theorem expiry_accounting (now : UInt64) (items : Cache Bytes Item)
    (nextCasCell oldestLiveCell : UInt64) (events : List StoreStep) :
    let start := Observed.start now items nextCasCell oldestLiveCell
    (run Observed.step events start).isSome →
      (Always Observed.step Observed.ExpiryAccounted events start ↔
        Throughout Observed.step (fun event observed => event.deadDeletes observed.clocked = [])
          events start) := by
  intro start runs
  obtain ⟨last, reached⟩ := Option.isSome_iff_exists.mp runs
  have known : start.Known := Observed.start_known now items nextCasCell oldestLiveCell
  refine always_iff_throughout Observed.step_known ?_ reached known
    ((Observed.expiryAccounted_iff known).mpr rfl)
  intro event before after taken knows holds
  obtain ⟨deletes, small⟩ := Observed.step_deadDeletes taken
  rw [Observed.expiryAccounted_iff knows] at holds
  rw [Observed.expiryAccounted_iff (Observed.step_known taken knows), deletes,
    ofNat_add_eq_zero holds small]
  exact List.length_eq_zero_iff

theorem lookups_expire :
    let start := Observed.start 1000 ∅ 1 0
    Always Observed.step Observed.ExpiryAccounted
      [.command (.store .set { flushArgs with exptime := 10 }), .command (.flushAll (some 5) false),
        .tick 1010, .command (.get [ascii "k", ascii "k"] false),
        .command (.delete (ascii "k") false)] start :=
  (expiry_accounting 1000 ∅ 1 0 _ (by decide)).mpr (by decide)

/-- A deletion of a dead item is reported as an expired lookup that is no miss. -/
theorem delete_expires :
    ∃ after, run Observed.step [.command (.store .set { flushArgs with exptime := -1 }),
        .command (.delete (ascii "k") false)] (Observed.start 1000 ∅ 1 0) = some after ∧
      after.traffic = { Traffic.zero with deadDeletes := 1 } ∧
      (after.clocked.state.stats.report 0).lookup "get_expired" = some "1" ∧
      (after.clocked.state.stats.report 0).lookup "get_misses" = some "0" ∧
      ¬after.ExpiryAccounted := by
  refine ⟨_, rfl, by decide, by decide, by decide, ?_⟩
  intro accounted
  exact absurd (accounted.reported 0) (by decide)

end Expired

end Ousagi
