import Ousagi.StoreChecks

/-!
The eager reference of the store: dead records are deleted before each command,
so that what is in the map is what a client sees.  The clock counts seconds
without a bound, and no command looks at an expiry on its own.
-/

namespace Ousagi

open Library

structure Record where
  data : Bytes
  flags : UInt32
  deadline : Option Nat
  storedAt : Nat
  token : UInt64
  deriving DecidableEq, Repr

def resolveDeadline (exptime : Int64) (now : Nat) : Option Nat :=
  if exptime.toInt = 0 then none
  else if exptime.toInt < 0 then some 0
  else if exptime.toInt ≤ 60 * 60 * 24 * 30 then some (now + exptime.toInt.toNat)
  else some exptime.toInt.toNat

namespace Record

def ofArgs (args : StoreArgs) (token : UInt64) (now : Nat) : Record :=
  { data := args.data, flags := args.flags, deadline := resolveDeadline args.exptime now
    storedAt := now, token }

/-- A record is deleted at its deadline and, from the cutoff on, when it is older than that. -/
def dead (now : Nat) (cutoff : Option Nat) (record : Record) : Bool :=
  record.deadline.any (fun time => time ≤ now) ||
    cutoff.any fun time => time ≤ now && record.storedAt < time

def value (withCas : Bool) (key : Bytes) (record : Record) :
    Bytes × UInt32 × Bytes × Option UInt64 :=
  (key, record.flags, record.data, if withCas then some record.token else none)

end Record

structure Eager where
  records : Bytes → Option Record
  cutoff : Option Nat
  counter : UInt64

namespace Eager

def new : Eager := { records := fun _ => none, cutoff := none, counter := 1 }

def put (key : Bytes) (record : Option Record) (eager : Eager) : Eager :=
  { eager with records := Function.update eager.records key record }

def draw (eager : Eager) : UInt64 × Eager :=
  (eager.counter, { eager with counter := eager.counter + 1 })

def find (now : Nat) (key : Bytes) (eager : Eager) : Option Record :=
  (eager.records key).filter fun record => !record.dead now eager.cutoff

def purge (now : Nat) (eager : Eager) : Eager :=
  { eager with records := fun key => eager.find now key }

/-- One key of a retrieval that touches.  The record may be dead again by an earlier key of the
same command, with an expiry time in the past. -/
def touchKey (exptime : Int64) (now : Nat) (withCas : Bool) (key : Bytes) (eager : Eager) :
    Option (Bytes × UInt32 × Bytes × Option UInt64) × Eager :=
  let eager := eager.purge now
  match eager.records key with
  | none => (none, eager)
  | some record =>
      let (token, eager) := eager.draw
      let record := { record with deadline := resolveDeadline exptime now, token }
      (some (record.value withCas key), eager.put key (some record))

def store (op : StoreOp) (args : StoreArgs) (now : Nat) (eager : Eager) : Response × Eager :=
  let (token, eager) := eager.draw
  let written := eager.put args.key (some (Record.ofArgs args token now))
  match op, eager.records args.key with
  | .set, _ => (.stored, written)
  | .add, none => (.stored, written)
  | .add, some _ => (.notStored, eager)
  | .replace, some _ => (.stored, written)
  | .append, some record =>
      (.stored, eager.put args.key (some { record with data := record.data ++ args.data, token }))
  | .prepend, some record =>
      (.stored, eager.put args.key (some { record with data := args.data ++ record.data, token }))
  | .replace, none | .append, none | .prepend, none => (.notStored, eager)
  | .cas, found =>
      match args.cas, found with
      | none, _ => (.serverError "missing cas value", eager)
      | some _, none => (.notFound, eager)
      | some expected, some record =>
          if record.token = expected then (.stored, written) else (.exists, eager)

def arithmetic (op : ArithmeticOp) (key : Bytes) (delta : UInt64) (eager : Eager) :
    Response × Eager :=
  let (token, eager) := eager.draw
  match eager.records key with
  | none => (.notFound, eager)
  | some record =>
      match numericValue record.data with
      | none => (.clientError op.error, eager)
      | some value =>
          let value := op.apply value delta
          let record := { record with data := decimal value.toNat, token }
          (.number value, eager.put key (some record))

def touch (key : Bytes) (exptime : Int64) (now : Nat) (eager : Eager) : Response × Eager :=
  let (token, eager) := eager.draw
  match eager.records key with
  | none => (.notFound, eager)
  | some record =>
      (.touched, eager.put key (some { record with deadline := resolveDeadline exptime now, token }))

def flush (delay : Nat) (now : Nat) (eager : Eager) : Response × Eager :=
  if delay = 0 then (.ok, { eager with records := fun _ => none })
  else (.ok, { eager with cutoff := some (now + delay) })

def execute (now : Nat) (command : Command) (eager : Eager) : Response × Eager :=
  let eager := eager.purge now
  match command with
  | .get keys withCas =>
      (.values (keys.filterMap fun key => (eager.records key).map (Record.value withCas key)),
        eager)
  | .getAndTouch keys exptime withCas =>
      let (values, eager) := collect (touchKey exptime now withCas) keys eager
      (.values values, eager)
  | .store op args => eager.store op args now
  | .delete key _ =>
      match eager.records key with
      | none => (.notFound, eager)
      | some _ => (.deleted, eager.put key none)
  | .arithmetic op key delta _ => eager.arithmetic op key delta
  | .touch key exptime _ => eager.touch key exptime now
  | .flushAll delay _ => eager.flush (delay.getD 0).toNat now
  | .version => (.version "0.2.0", eager)
  | .verbosity _ _ => (.ok, eager)
  | .stats => (.stats [], eager)

end Eager

structure Clocked (σ : Type) where
  now : UInt64
  state : σ

inductive StoreStep
  | tick (now : UInt64)
  | command (command : Command)
  | evict (key : Bytes)
  deriving DecidableEq, Repr

namespace Clocked

def lazyStep (step : StoreStep) (clocked : Clocked Store) : Option Response × Clocked Store :=
  match step with
  | .tick now => (none, { clocked with now })
  | .command command =>
      let (response, state) := handle clocked.now command clocked.state
      (some response, { clocked with state })
  | .evict key => (none, { clocked with state := clocked.state.evict key })

def eagerStep (step : StoreStep) (clocked : Clocked Eager) : Option Response × Clocked Eager :=
  match step with
  | .tick now => (none, { clocked with now })
  | .command command =>
      let (response, state) := clocked.state.execute clocked.now.toNat command
      (some response, { clocked with state })
  | .evict key => (none, { clocked with state := clocked.state.put key none })

end Clocked

/-- The clock has room for the longest delay and expiry time before its integers wrap. -/
def inRange (now : UInt64) : Prop := now.toNat + 2 ^ 32 ≤ 2 ^ 64

def StoreStep.Admissible (step : StoreStep) (clocked : Clocked Store) : Prop :=
  match step with
  | .tick now => clocked.now ≤ now ∧ inRange now
  | .command request => request ≠ .stats
  | .evict _ => True

def StoreStep.schedules : StoreStep → Bool
  | .command (.flushAll delay _) => delay.getD 0 ≠ 0
  | _ => false

/-- A delayed flush finds no item in the cache that only the cutoff before it has expired. -/
def StoreStep.KeepsDead (step : StoreStep) (clocked : Clocked Store) : Prop :=
  step.schedules → ∀ entry ∈ clocked.state.items.entries,
    entry.2.isExpired clocked.now clocked.state.oldestLive → entry.2.isExpired clocked.now none

instance (now : UInt64) : Decidable (inRange now) :=
  inferInstanceAs (Decidable (_ ≤ _))

instance (step : StoreStep) (clocked : Clocked Store) : Decidable (step.Admissible clocked) :=
  match step with
  | .tick _ => inferInstanceAs (Decidable (_ ∧ _))
  | .command request => inferInstanceAs (Decidable (request ≠ .stats))
  | .evict _ => isTrue trivial

instance (step : StoreStep) (clocked : Clocked Store) : Decidable (step.KeepsDead clocked) :=
  inferInstanceAs (Decidable (_ → ∀ entry ∈ clocked.state.items.entries, _ → _))

end Ousagi
