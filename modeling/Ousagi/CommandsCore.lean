import Mathlib.Data.List.Basic

/-!
Commands and responses of `commands.rs`.  Byte strings are lists of bytes; the
integer fields keep the widths of the source, with `usize` at 64 bits.
-/

namespace Ousagi

abbrev Bytes := List UInt8

/-- A byte-string literal of the source, `b"..."`. -/
def ascii (text : String) : Bytes := text.toList.map Char.toUInt8

def asBytes (text : String) : Bytes := text.toUTF8.data.toList

def cr : UInt8 := 13

def lf : UInt8 := 10

def space : UInt8 := 32

inductive StoreOp
  | set
  | add
  | replace
  | append
  | prepend
  | cas
  deriving DecidableEq, Repr

structure StoreArgs where
  key : Bytes
  flags : UInt32
  exptime : Int64
  data : Bytes
  noreply : Bool
  cas : Option UInt64
  deriving DecidableEq, Repr

inductive ArithmeticOp
  | incr
  | decr
  deriving DecidableEq, Repr

inductive Command
  | get (keys : List Bytes) (withCas : Bool)
  | store (op : StoreOp) (args : StoreArgs)
  | delete (key : Bytes) (noreply : Bool)
  | arithmetic (op : ArithmeticOp) (key : Bytes) (delta : UInt64) (noreply : Bool)
  | getAndTouch (keys : List Bytes) (exptime : Int64) (withCas : Bool)
  | touch (key : Bytes) (exptime : Int64) (noreply : Bool)
  | flushAll (delay : Option UInt32) (noreply : Bool)
  | version
  | verbosity (level : UInt32) (noreply : Bool)
  | stats
  deriving DecidableEq, Repr

def Command.noreply : Command → Bool
  | .get _ _ => false
  | .getAndTouch _ _ _ => false
  | .stats => false
  | .version => false
  | .store _ args => args.noreply
  | .delete _ noreply => noreply
  | .arithmetic _ _ _ noreply => noreply
  | .touch _ _ noreply => noreply
  | .flushAll _ noreply => noreply
  | .verbosity _ noreply => noreply

inductive Response
  | stored
  | notStored
  | deleted
  | notFound
  | exists
  | touched
  | values (values : List (Bytes × UInt32 × Bytes × Option UInt64))
  | number (value : UInt64)
  | ok
  | version (version : String)
  | error
  | clientError (message : String)
  | serverError (message : String)
  | stats (entries : List (String × String))
  deriving DecidableEq, Repr

end Ousagi
