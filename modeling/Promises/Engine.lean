import Promises.Error

/-!
What the native side needs of an engine. An engine keeps objects and promises, registers roots for
them, and hands out the reactions that are due.
-/

namespace Promises

/-- An engine with states of type `ε`. Every call is an action on the state. -/
class Engine (ε : Type) where
  /-- Whether an object is a promise. -/
  isPromise : ObjectRef → Action ε Bool
  /-- A new plain object. -/
  newObject : Request ε ObjectRef
  state : ObjectRef → Request ε PromiseState
  /-- The value or the reason of a settled promise, and undefined for a pending one. -/
  result : ObjectRef → Request ε ManagedValue
  /-- A new pending promise, by the object that settles it. -/
  newResolver : Request ε ObjectRef
  /-- Resolves the promise of a resolver. Says whether it was not resolved before. -/
  resolve : ObjectRef → ManagedValue → Request ε Bool
  /-- Rejects the promise of a resolver. Says whether it was not resolved before. -/
  reject : ObjectRef → ManagedValue → Request ε Bool
  /-- The promise of a resolver. -/
  promiseOf : ObjectRef → Request ε ObjectRef
  /-- Registers handlers with a promise. Gives the promise that they settle. -/
  addReactions : ObjectRef → Option FunctionId → Option FunctionId → Request ε ObjectRef
  hasHandler : ObjectRef → Request ε Bool
  markHandled : ObjectRef → Request ε Unit
  /-- The next reaction that needs the native side, after what the engine can do without. -/
  nextJob : Action ε (Option NativeJob)
  /-- Registers a root. -/
  retain : ObjectRef → Action ε Unit
  /-- Takes back a root. -/
  release : ObjectRef → Action ε Unit
  collectGarbage : Action ε Collection
  stats : Action ε HeapStats
  terminate : Action ε Unit
  cancelTermination : Action ε Unit
  isTerminating : Action ε Bool

end Promises
