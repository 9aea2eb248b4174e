import Promises.Agent.Engine

/-!
Engines whose resolvers are objects of their own. A resolver is a plain object that goes with a
promise of the agent beneath. A derived promise has no resolver, so that nothing settles it from
outside.
-/

namespace Promises

structure Paired where
  agent : Agent
  /-- The promises by resolver, the newest first. -/
  promises : List (ObjectRef × ObjectRef)

namespace Paired

def new (limit : Nat) : Paired := ⟨.new limit, []⟩

/-- The agent beneath. -/
def beneath : Paired → Agent × (Agent → Paired)
  | ⟨agent, promises⟩ => (agent, (⟨·, promises⟩))

/-- The promise that goes with a resolver. -/
def promiseOf (resolver : ObjectRef) : Request Paired ObjectRef := do
  match (← get).promises.lookup resolver with
  | some promise => return promise
  | none => throw (.notAPromise resolver)

/-- A promise, which is rooted for good, and then the resolver for it. -/
def newResolver : Request Paired ObjectRef := do
  let promise ← Request.zoom beneath Agent.newResolver
  ExceptT.lift (Action.zoom beneath (Agent.retain promise))
  let resolver ← Request.zoom beneath Agent.newObject
  modify fun p => { p with promises := (resolver, promise) :: p.promises }
  return resolver

def resolve (resolver : ObjectRef) (value : ManagedValue) : Request Paired Bool := do
  Request.zoom beneath (Agent.resolve (← promiseOf resolver) value)

def reject (resolver : ObjectRef) (reason : ManagedValue) : Request Paired Bool := do
  Request.zoom beneath (Agent.reject (← promiseOf resolver) reason)

end Paired

instance : Engine Paired where
  isPromise ref := Action.zoom Paired.beneath (Engine.isPromise ref)
  newObject := Request.zoom Paired.beneath Engine.newObject
  state ref := Request.zoom Paired.beneath (Engine.state ref)
  result ref := Request.zoom Paired.beneath (Engine.result ref)
  newResolver := Paired.newResolver
  resolve := Paired.resolve
  reject := Paired.reject
  promiseOf := Paired.promiseOf
  addReactions ref onFulfilled onRejected :=
    Request.zoom Paired.beneath (Engine.addReactions ref onFulfilled onRejected)
  hasHandler ref := Request.zoom Paired.beneath (Engine.hasHandler ref)
  markHandled ref := Request.zoom Paired.beneath (Engine.markHandled ref)
  nextJob := Action.zoom Paired.beneath Engine.nextJob
  retain ref := Action.zoom Paired.beneath (Engine.retain ref)
  release ref := Action.zoom Paired.beneath (Engine.release ref)
  collectGarbage := Action.zoom Paired.beneath Engine.collectGarbage
  stats := Action.zoom Paired.beneath Engine.stats
  terminate := Action.zoom Paired.beneath Engine.terminate
  cancelTermination := Action.zoom Paired.beneath Engine.cancelTermination
  isTerminating := Action.zoom Paired.beneath Engine.isTerminating

end Promises
