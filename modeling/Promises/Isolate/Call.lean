import Promises.Isolate.Promise

namespace Promises

inductive Call
  | newResolver
  | newObject
  | string (text : String)
  | contents (v : Value)
  | kindOf (v : Value)
  | display (v : Value)
  | castPromise (v : Value)
  | castResolver (v : Value)
  | newLocal (v : Value)
  | resolve (r : Resolver) (v : Value)
  | reject (r : Resolver) (v : Value)
  | promiseOf (r : Resolver)
  | state (p : Promise)
  | result (p : Promise)
  | hasHandler (p : Promise)
  | markHandled (p : Promise)
  | addReactions (p : Promise) (onFulfilled onRejected : Option FunctionId)
  | collectGarbage
  | stats
  | handleCount
  | terminate
  | cancelTermination
  | isTerminating

namespace Call

/-- What a call answers. -/
@[reducible] def Answer : Call → Type
  | newResolver => Option Resolver
  | newObject => Option Value
  | string _ => Value
  | contents _ => Option String
  | kindOf _ => Option ObjectKind
  | display _ => String
  | castPromise _ => Option Promise
  | castResolver _ => Option Resolver
  | newLocal _ => Value
  | resolve .. => Option Bool
  | reject .. => Option Bool
  | promiseOf _ => Promise
  | state _ => PromiseState
  | result _ => Value
  | hasHandler _ => Bool
  | markHandled _ => Unit
  | addReactions .. => Option Promise
  | collectGarbage => Collection
  | stats => HeapStats
  | handleCount => Nat
  | terminate => Unit
  | cancelTermination => Unit
  | isTerminating => Bool

/-- Makes a call. -/
def run {ε φ : Type} [Engine ε] : (call : Call) → Action (Isolate ε φ) call.Answer
  | newResolver => Isolate.newResolver
  | newObject => Isolate.newObject
  | string text => Isolate.string text
  | contents v => Isolate.contents v
  | kindOf v => Isolate.kindOf v
  | display v => Isolate.display v
  | castPromise v => Isolate.castPromise v
  | castResolver v => Isolate.castResolver v
  | newLocal v => Isolate.newLocal v
  | resolve r v => Isolate.resolve r v
  | reject r v => Isolate.reject r v
  | promiseOf r => Isolate.promiseOf r
  | state p => Isolate.state p
  | result p => Isolate.result p
  | hasHandler p => Isolate.hasHandler p
  | markHandled p => Isolate.markHandled p
  | addReactions p onFulfilled onRejected => Isolate.addReactions p onFulfilled onRejected
  | collectGarbage => Isolate.onEngine Engine.collectGarbage
  | stats => Isolate.onEngine Engine.stats
  | handleCount => return (← get).handles.size
  | terminate => Isolate.onEngine Engine.terminate
  | cancelTermination => Isolate.onEngine Engine.cancelTermination
  | isTerminating => Isolate.onEngine Engine.isTerminating

end Call

end Promises
