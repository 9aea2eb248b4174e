import Promises.Value
import Promises.Promise.Record

namespace Promises.Shell

/-- What a handler does with its argument. -/
inductive Op
  | add (n : Int32)
  | mul (n : Int32)
  | id
  | throw
deriving DecidableEq

/-- A value as it is written in a command. -/
inductive Operand
  | int (n : Int32)
  | bool (b : Bool)
  | null
  | undefined
  | text (s : String)
  | slot (slot : Nat)
deriving DecidableEq

inductive Command
  | new
  /-- To resolve or reject the promise of a slot. -/
  | settle (kind : ReactionKind) (slot : Nat) (operand : Operand)
  | state (slot : Nat)
  | result (slot : Nat)
  | promise (slot : Nat)
  /-- To attach a reaction to the promise of a slot. -/
  | attach (kind : ReactionKind) (slot : Nat) (op : Op)
  | run
  | gc
  | stats
  | terminate
  | resume
  | help
deriving DecidableEq

/-- Why a line fails. -/
inductive Failure
  | malformed (text : String)
  | unknownSlot (slot : Nat)
  | notAPromise (slot : Nat)
  | intRange (n : Int)
  | refused (command : String)
deriving DecidableEq

def Failure.message : Failure → String
  | malformed text => "cannot parse \x60" ++ text ++ "\x60, type \x60help\x60 for commands"
  | unknownSlot slot => s!"no value in slot ${slot}"
  | notAPromise slot => s!"slot ${slot} does not hold a promise"
  | intRange n => s!"integer {n} does not fit in a small int"
  | refused command => s!"{command} refused by the runtime"

def help : String :=
  "commands:
  new                        create a resolver
  resolve $N <value>         fulfill the promise in slot N
  reject $N <value>          reject the promise in slot N
  state $N                   print the promise state
  result $N                  print the fulfillment value or rejection reason
  promise $N                 store the resolver's promise in a new slot
  then $N <op>               attach a fulfillment reaction
  catch $N <op>              attach a rejection reaction
  run                        perform a microtask checkpoint
  gc                         collect garbage
  stats                      print heap statistics
  terminate | resume         toggle execution termination
values: integers, true, false, null, undefined, \"text\", $N
ops: add <int>, mul <int>, id, throw"

end Promises.Shell
