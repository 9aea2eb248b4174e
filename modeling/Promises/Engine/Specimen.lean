import Promises.Engine.Paired

namespace Promises

inductive Specimen
  /-- A resolver is the promise that it settles. -/
  | plain (agent : Agent)
  /-- A resolver is an object of its own. -/
  | paired (engine : Paired)
  /-- A resolver is an object of its own, which is taken for the promise when asked for that. -/
  | mistaken (engine : Paired)
  /-- A resolver is a plain object without a promise. -/
  | hollow (agent : Agent)

namespace Specimen

variable {α : Type}

/-- An action of the engine beneath. -/
def onEngine (act : (ε : Type) → [Engine ε] → Action ε α) : Action Specimen α
  | .plain a => Action.zoom (fun _ => (a, .plain)) (act Agent) (.plain a)
  | .paired p => Action.zoom (fun _ => (p, .paired)) (act Paired) (.paired p)
  | .mistaken p => Action.zoom (fun _ => (p, .mistaken)) (act Paired) (.mistaken p)
  | .hollow a => Action.zoom (fun _ => (a, .hollow)) (act Agent) (.hollow a)

/-- A request to the engine beneath. -/
def ask (request : (ε : Type) → [Engine ε] → Request ε α) : Request Specimen α :=
  ExceptT.mk (onEngine fun ε => (request ε).run)

/-- The agent beneath. -/
def beneath : Specimen → Agent × (Agent → Specimen)
  | .plain a => (a, .plain)
  | .paired ⟨a, promises⟩ => (a, fun a => .paired ⟨a, promises⟩)
  | .mistaken ⟨a, promises⟩ => (a, fun a => .mistaken ⟨a, promises⟩)
  | .hollow a => (a, .hollow)

def newResolver : Request Specimen ObjectRef := do
  match ← get with
  | .hollow _ => ask fun _ => Engine.newObject
  | _ => ask fun _ => Engine.newResolver

def promiseOf (resolver : ObjectRef) : Request Specimen ObjectRef := do
  match ← get with
  | .mistaken _ => return resolver
  | _ => ask fun _ => Engine.promiseOf resolver

end Specimen

open Specimen in
instance : Engine Specimen where
  isPromise ref := onEngine fun _ => Engine.isPromise ref
  newObject := ask fun _ => Engine.newObject
  state ref := ask fun _ => Engine.state ref
  result ref := ask fun _ => Engine.result ref
  newResolver := newResolver
  resolve ref value := ask fun _ => Engine.resolve ref value
  reject ref reason := ask fun _ => Engine.reject ref reason
  promiseOf := promiseOf
  addReactions ref onFulfilled onRejected :=
    ask fun _ => Engine.addReactions ref onFulfilled onRejected
  hasHandler ref := ask fun _ => Engine.hasHandler ref
  markHandled ref := ask fun _ => Engine.markHandled ref
  nextJob := onEngine fun _ => Engine.nextJob
  retain ref := onEngine fun _ => Engine.retain ref
  release ref := onEngine fun _ => Engine.release ref
  collectGarbage := onEngine fun _ => Engine.collectGarbage
  stats := onEngine fun _ => Engine.stats
  terminate := onEngine fun _ => Engine.terminate
  cancelTermination := onEngine fun _ => Engine.cancelTermination
  isTerminating := onEngine fun _ => Engine.isTerminating

end Promises
