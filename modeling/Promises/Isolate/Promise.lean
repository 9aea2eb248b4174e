import Promises.Isolate.Translate
import Promises.Text.Quoted

namespace Promises

/-- A handle of a promise. -/
structure Promise where
  handle : HandleId
deriving DecidableEq

/-- A handle of what settles a promise. -/
structure Resolver where
  handle : HandleId
deriving DecidableEq

def Promise.toValue (p : Promise) : Value := .handle p.handle

def Resolver.toValue (r : Resolver) : Value := .handle r.handle

namespace Isolate

variable {ε φ : Type}

/-- The value of a string. -/
def string (s : String) : Action (Isolate ε φ) Value := return .string (← intern s)

/-- The content of the string that a value names. -/
def contents (v : Value) : Action (Isolate ε φ) (Option String) :=
  return v.stringId?.bind (← get).strings.get?

/-- The kind of the object that a value is a handle of. -/
def kindOf (v : Value) : Action (Isolate ε φ) (Option ObjectKind) := do
  match v.handle? with
  | some h => return some (← binding h).kind
  | none => return none

/-- The text of a value, with the content of a string and the kind of an object. -/
def display (v : Value) : Action (Isolate ε φ) String := do
  match ← contents v with
  | some s => return Text.quote s
  | none =>
    match ← kindOf v with
    | some kind => return s!"[object {kind}]"
    | none => return v.text

/-- The promise that a value is a handle of. -/
def castPromise (v : Value) : Action (Isolate ε φ) (Option Promise) := do
  match v.handle? with
  | some h => return if (← binding h).isPromise then some ⟨h⟩ else none
  | none => return none

/-- The resolver of the promise that a value is a handle of. -/
def castResolver (v : Value) : Action (Isolate ε φ) (Option Resolver) :=
  return (← castPromise v).map fun p => ⟨p.handle⟩

/-- A native value that the caller holds, as the engine stores it. -/
def manage (v : Value) : Action (Isolate ε φ) ManagedValue := do
  Action.ofMisuse ((← get).toManaged v)

section

variable [Engine ε]

/-- The value of a new plain object, unless the engine refuses it. -/
def newObject : Action (Isolate ε φ) (Option Value) := do
  match ← ask Engine.newObject with
  | .ok ref => return some (.handle (← wrap ref))
  | .error _ => return none

/-- A value that lasts as long as the current scope. -/
def newLocal (v : Value) : Action (Isolate ε φ) Value := do
  match v.handle? with
  | some h => return .handle (← duplicate h)
  | none => return v

/-- The resolver of a new pending promise, unless the engine refuses it. -/
def newResolver : Action (Isolate ε φ) (Option Resolver) := do
  match ← ask Engine.newResolver with
  | .ok ref => return some ⟨← wrap ref⟩
  | .error _ => return none

/-- Resolves a promise with a value. Says whether it was not resolved before, unless the engine
refuses. -/
def resolve (r : Resolver) (v : Value) : Action (Isolate ε φ) (Option Bool) := do
  let value ← manage v
  let b ← binding r.handle
  return (← ask (Engine.resolve b.object value)).toOption

/-- Rejects a promise with a reason. Says whether it was not resolved before, unless the engine
refuses. -/
def reject (r : Resolver) (v : Value) : Action (Isolate ε φ) (Option Bool) := do
  let reason ← manage v
  let b ← binding r.handle
  return (← ask (Engine.reject b.object reason)).toOption

/-- The promise that a resolver settles. -/
def promiseOf (r : Resolver) : Action (Isolate ε φ) Promise := do
  let b ← binding r.handle
  if b.isPromise then
    return ⟨r.handle⟩
  else
    let ref ← demand .promise (Engine.promiseOf b.object)
    return ⟨← wrap ref⟩

/-- The object behind the handle of a promise. -/
def promiseRef (p : Promise) : Action (Isolate ε φ) ObjectRef := do
  let b ← binding p.handle
  if b.isPromise then
    return b.object
  else
    throw (.notPromiseHandle p.handle b.kind)

def state (p : Promise) : Action (Isolate ε φ) PromiseState := do
  demand .state (Engine.state (← promiseRef p))

/-- The value or the reason of a settled promise, and undefined for a pending one. -/
def result (p : Promise) : Action (Isolate ε φ) Value := do
  toNative (← demand .result (Engine.result (← promiseRef p)))

def hasHandler (p : Promise) : Action (Isolate ε φ) Bool := do
  demand .hasHandler (Engine.hasHandler (← promiseRef p))

def markHandled (p : Promise) : Action (Isolate ε φ) Unit := do
  demand .markHandled (Engine.markHandled (← promiseRef p))

/-- Registers handlers with a promise. Gives the promise that they settle, unless the engine
refuses it. -/
def addReactions (p : Promise) (onFulfilled onRejected : Option FunctionId) :
    Action (Isolate ε φ) (Option Promise) := do
  let ref ← promiseRef p
  match ← ask (Engine.addReactions ref onFulfilled onRejected) with
  | .ok derived => return some ⟨← wrap derived⟩
  | .error _ => return none

end

end Isolate

end Promises
