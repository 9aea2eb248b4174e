import Promises.Engine.Paired
import Promises.Program.Run

/-! Scripts: what a client does with resolvers, in terms that do not depend on the engine. A script names what
it was given by its place in a list, and sees of an object which one it is, by the order in which the objects
were made. It has a thing in hand until the handle scope closes in which it was given it. -/

namespace Promises

namespace Script

/-- What a client was given a handle for. -/
inductive Thing
  | resolver (r : Resolver)
  | promise (p : Promise)
  | object (h : HandleId)

namespace Thing

def handle : Thing → HandleId
  | resolver r => r.handle
  | promise p => p.handle
  | object h => h

/-- The value that a thing is passed as. A resolver is not passed. -/
def value? : Thing → Option Value
  | resolver _ => none
  | promise p => some p.toValue
  | object h => some (.handle h)

def resolver? : Thing → Option Resolver
  | resolver r => some r
  | _ => none

def promise? : Thing → Option Promise
  | promise p => some p
  | _ => none

/-- The thing by another handle. -/
def moved (h : HandleId) : Thing → Thing
  | resolver _ => .resolver ⟨h⟩
  | promise _ => .promise ⟨h⟩
  | object _ => .object h

end Thing

/-- What a promise is settled with. -/
inductive Operand
  /-- A value that is no handle: an immediate or a string. -/
  | word (v : Value) (plain : v.handle? = none)
  /-- An object or a promise that is in hand. -/
  | thing (number : Nat)

/-- A move of a client, other than a checkpoint. -/
inductive Move
  | newResolver
  | newObject
  | string (text : String)
  | settle (kind : ReactionKind) (resolver : Nat) (operand : Operand)
  | promiseOf (resolver : Nat)
  | state (promise : Nat)
  | result (promise : Nat)
  | openScope
  | closeScope
  /-- Closes a scope and keeps an object or a promise in the scope around it. -/
  | escape (number : Nat)
  | collect
  | terminate
  | cancelTermination

/-- What a client sees of a move. -/
inductive Answer
  /-- There is no such thing in hand, or no open scope. -/
  | absent
  | done
  /-- Nothing was made as the engine is terminating. -/
  | refused
  /-- Nothing was made as there is no room. -/
  | exhausted
  | settled (outcome : Option Bool)
  | state (state : PromiseState)
  | word (v : Value)
  /-- An object, by its place among those that were made, from the first one on. -/
  | object (name : Option Nat)
  /-- A checkpoint, with the number of handlers that it ran. -/
  | ran (count : Nat)
deriving DecidableEq

/-- The place of an object among those that were made. Where a reference was used again, the newest object
counts. -/
def nameOf? (ref : ObjectRef) : List ObjectRef → Option Nat
  | [] => none
  | other :: made => if other = ref then some made.length else nameOf? ref made

/-- What a client keeps. -/
structure Notebook where
  /-- What is in hand, in the order in which it was given. -/
  things : List Thing
  /-- The open scopes, the innermost first, each with the number of things in hand when it was opened. -/
  scopes : List (ScopeMark × Nat)
  /-- The plain objects and the promises of the resolvers that were made, the newest first. -/
  made : List ObjectRef

namespace Notebook

def empty : Notebook := ⟨[], [], []⟩

def gain (n : Notebook) (thing : Thing) : Notebook := { n with things := n.things ++ [thing] }

/-- A thing for a new object. -/
def bear (n : Notebook) (thing : Thing) (ref : ObjectRef) : Notebook :=
  { n.gain thing with made := ref :: n.made }

def resolver? (n : Notebook) (number : Nat) : Option Resolver := n.things[number]?.bind (·.resolver?)

def promise? (n : Notebook) (number : Nat) : Option Promise := n.things[number]?.bind (·.promise?)

/-- The value of an operand, if it is in hand. -/
def value? (n : Notebook) : Operand → Option Value
  | .word v _ => some v
  | .thing number => n.things[number]?.bind (·.value?)

end Notebook

namespace Move

variable {ε : Type} [Engine ε]

/-- The isolates that scripts work on. No handlers are registered there. -/
abbrev Place (ε : Type) := Isolate ε (Handler Notebook Empty)

/-- The object behind a handle. -/
def behind (h : HandleId) : Action (Place ε) ObjectRef := do
  return (← Isolate.binding h).object

/-- The promise that a resolver settles, as the engine has it. -/
def settledBy (r : Resolver) : Action (Place ε) ObjectRef := do
  Isolate.demand .promise (Engine.promiseOf (← behind r.handle))

/-- Why nothing was made. -/
def shortage : Action (Place ε) Answer := do
  return if ← Isolate.onEngine Engine.isTerminating then .refused else .exhausted

/-- Makes a move. Gives what is seen of it and what is in hand after it. -/
def act (n : Notebook) : Move → Action (Place ε) (Answer × Notebook)
  | newResolver => do
    match ← Isolate.newResolver with
    | some r => return (.done, n.bear (.resolver r) (← settledBy r))
    | none => return (← shortage, n)
  | newObject => do
    match (← Isolate.newObject).bind (·.handle?) with
    | some h => return (.done, n.bear (.object h) (← behind h))
    | none => return (← shortage, n)
  | string text => return (.word (← Isolate.string text), n)
  | settle kind resolver operand => do
    match n.resolver? resolver, n.value? operand with
    | some r, some v =>
      match kind with
      | .fulfill => return (.settled (← Isolate.resolve r v), n)
      | .reject => return (.settled (← Isolate.reject r v), n)
    | _, _ => return (.absent, n)
  | promiseOf resolver => do
    match n.resolver? resolver with
    | some r =>
      let p ← Isolate.promiseOf r
      return (.object (nameOf? (← behind p.handle) n.made), n.gain (.promise p))
    | none => return (.absent, n)
  | state promise => do
    match n.promise? promise with
    | some p => return (.state (← Isolate.state p), n)
    | none => return (.absent, n)
  | result promise => do
    match n.promise? promise with
    | some p =>
      let v ← Isolate.result p
      match v.handle? with
      | some h => return (.object (nameOf? (← behind h) n.made), n.gain (.object h))
      | none => return (.word v, n)
    | none => return (.absent, n)
  | openScope => do
    let mark ← Isolate.openScope
    return (.done, { n with scopes := (mark, n.things.length) :: n.scopes })
  | closeScope => do
    match n.scopes with
    | (mark, count) :: scopes =>
      Isolate.closeScope mark
      return (.done, { n with things := n.things.take count, scopes })
    | [] => return (.absent, n)
  | escape number => do
    match n.scopes, n.things[number]? with
    | (mark, count) :: scopes, some thing =>
      match ← thing.value?.elim (pure none) Run.escaping with
      | some b =>
        Isolate.closeScope mark
        let h ← Isolate.register b
        return (.done, { n with things := n.things.take count ++ [thing.moved h], scopes })
      | none => return (.absent, n)
    | _, _ => return (.absent, n)
  | collect => do
    discard (Isolate.onEngine Engine.collectGarbage)
    return (.done, n)
  | terminate => do
    Isolate.onEngine Engine.terminate
    return (.done, n)
  | cancelTermination => do
    Isolate.onEngine Engine.cancelTermination
    return (.done, n)

end Move

end Script

/-- A client without handlers. What it does next may depend on all that it has seen. -/
inductive Script
  | stop
  | move (move : Script.Move) (next : Script.Answer → Script)
  | checkpoint (next : Script.Answer → Script)

namespace Script

variable {ε : Type} [Engine ε]

/-- A move on a machine that has the notebook of the script for its memory. -/
def Move.perform (move : Move) : Run ε Notebook Empty Answer := do
  let (answer, n) ← Run.onIsolate (move.act (← get).memory)
  Run.onMemory fun _ => n
  return answer

/-- What a script sees, up to a fault. -/
def play (fuel : Nat) : Script → Machine ε Notebook Empty → List (Except Halt Answer)
  | stop, _ => []
  | move c next, m =>
    match c.perform m with
    | .ok answer m => .ok answer :: (next answer).play fuel m
    | .error halt _ => [.error halt]
  | checkpoint next, m =>
    match Program.drain fuel 0 m with
    | .ok count m => .ok (.ran count) :: (next (.ran count)).play fuel m
    | .error halt _ => [.error halt]

/-- What a script sees of a heap or a handle table without room. -/
def Exhausts : Except Halt Answer → Prop
  | .ok answer => answer = .exhausted
  | .error halt => halt = .fault .tableFull

end Script

end Promises
