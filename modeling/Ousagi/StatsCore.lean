import Mathlib.Logic.Function.Basic
import Ousagi.CommandsCore

/-!
The counters of `stats.rs`, each a static of the process.
-/

namespace Ousagi

inductive Counter
  | currConnections
  | totalConnections
  | cmdGet
  | cmdGat
  | cmdSet
  | cmdIncr
  | cmdDecr
  | cmdTouch
  | cmdFlush
  | getHits
  | getMisses
  | getExpired
  | gatHits
  | gatMisses
  | casHits
  | casMisses
  | casBadval
  | incrHits
  | incrMisses
  | decrHits
  | decrMisses
  | touchHits
  | touchMisses
  | deleteHits
  | deleteMisses
  | totalItems
  | evictions
  | bytesRead
  | bytesWritten
  deriving DecidableEq, Repr

abbrev Stats := Counter → UInt64

def Stats.zero : Stats := fun _ => 0

def Stats.add (counter : Counter) (count : Nat) (stats : Stats) : Stats :=
  Function.update stats counter (stats counter + UInt64.ofNat count)

def Stats.sub (counter : Counter) (count : Nat) (stats : Stats) : Stats :=
  Function.update stats counter (stats counter - UInt64.ofNat count)

def Stats.report (stats : Stats) (currItems : Nat) : List (String × String) :=
  let entry := fun (name : String) (counter : Counter) => (name, toString (stats counter).toNat)
  [entry "curr_connections" .currConnections,
    entry "total_connections" .totalConnections,
    entry "cmd_get" .cmdGet,
    entry "cmd_gat" .cmdGat,
    entry "cmd_set" .cmdSet,
    entry "cmd_incr" .cmdIncr,
    entry "cmd_decr" .cmdDecr,
    entry "cmd_touch" .cmdTouch,
    entry "cmd_flush" .cmdFlush,
    entry "get_hits" .getHits,
    entry "get_misses" .getMisses,
    entry "get_expired" .getExpired,
    entry "gat_hits" .gatHits,
    entry "gat_misses" .gatMisses,
    entry "cas_hits" .casHits,
    entry "cas_misses" .casMisses,
    entry "cas_badval" .casBadval,
    entry "incr_hits" .incrHits,
    entry "incr_misses" .incrMisses,
    entry "decr_hits" .decrHits,
    entry "decr_misses" .decrMisses,
    entry "touch_hits" .touchHits,
    entry "touch_misses" .touchMisses,
    entry "delete_hits" .deleteHits,
    entry "delete_misses" .deleteMisses,
    ("curr_items", toString currItems),
    entry "total_items" .totalItems,
    entry "evictions" .evictions,
    entry "bytes_read" .bytesRead,
    entry "bytes_written" .bytesWritten]

end Ousagi
