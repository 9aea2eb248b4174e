import Promises.Heap.Collect
import Promises.Microtask.Queue

/-!
Agents. An agent is the built-in engine: a heap of plain objects and promises, and a queue of
microtasks. Settling a promise queues its reactions. A promise that is resolved with another one
follows it by way of the queue, and one that is resolved with itself is rejected. Plain objects
fulfill a promise like any other value.
-/

namespace Promises

structure Agent where
  heap : Heap
  queue : JobQueue
  /-- Whether execution is to stop. -/
  terminating : Bool

/-- The reason that rejects a promise which was resolved with itself. -/
def chainingCycle : ManagedValue :=
  .string "TypeError: Chaining cycle detected for promise #<Promise>"

namespace Agent

/-- An agent whose heap has room for `limit` objects. -/
def new (limit : Nat) : Agent := ⟨.empty limit, .empty, false⟩

def retain (ref : ObjectRef) : Action Agent Unit :=
  modify fun a => { a with heap := (a.heap.retain ref).2 }

def release (ref : ObjectRef) : Action Agent Unit :=
  modify fun a => { a with heap := (a.heap.release ref).2 }

/-- Frees what neither a root nor a queued job leads to. -/
def collectGarbage : Action Agent Collection :=
  modifyGet fun a =>
    let (collection, heap) := a.heap.collect a.queue.references
    (collection, { a with heap })

def checkRunning : Request Agent Unit := do
  if (← get).terminating then throw .terminated

/-- A new object. A full heap is collected first. -/
def allocate (object : HeapObject) : Request Agent ObjectRef := do
  checkRunning
  if (← get).heap.isFull then
    discard collectGarbage
  if (← get).heap.isFull then
    throw (.outOfMemory (← get).heap.limit)
  modifyGet fun a =>
    let (ref, heap) := a.heap.place object
    (ref, { a with heap })

def record (ref : ObjectRef) : Request Agent PromiseRecord := do
  Request.ofExcept ((← get).heap.record? ref)

def setRecord (ref : ObjectRef) (record : PromiseRecord) : Request Agent Unit :=
  modify fun a => { a with heap := a.heap.setRecord ref record }

def enqueue (job : Job) : Request Agent Unit :=
  modify fun a => { a with queue := a.queue.push job }

/-- Settles a pending promise and queues the reactions that are due. -/
def settle (ref : ObjectRef) (kind : ReactionKind) (value : ManagedValue) :
    Request Agent Unit := do
  match (← record ref).settle kind value with
  | .ok (due, settled) =>
    setRecord ref settled
    modify fun a => { a with queue := a.queue.pushAll (due.map (.react kind · value)) }
  | .error fault => throwThe Fault fault

/-- Sets the latch of a promise and goes on, unless the latch was set before. Says which. -/
def latch (ref : ObjectRef) (next : Request Agent Unit) : Request Agent Bool := do
  let record ← record ref
  if record.alreadyResolved then
    return false
  setRecord ref record.lock
  next
  return true

/-- What comes of a resolve that was accepted: a promise rejects itself, follows another one, and is
fulfilled with anything else. -/
def resolveLatched (ref : ObjectRef) (value : ManagedValue) : Request Agent Unit := do
  match value with
  | .object other =>
    if other = ref then
      settle ref .reject chainingCycle
    else if (← get).heap.isPromise other then
      enqueue (.follow ref other)
    else
      settle ref .fulfill value
  | _ => settle ref .fulfill value

/-- Resolves a promise with a value. Says whether it was not resolved before. -/
def resolvePromise (ref : ObjectRef) (value : ManagedValue) : Request Agent Bool :=
  latch ref (resolveLatched ref value)

/-- Rejects a promise with a reason. Says whether it was not resolved before. -/
def rejectPromise (ref : ObjectRef) (reason : ManagedValue) : Request Agent Bool :=
  latch ref (settle ref .reject reason)

/-- Passes an outcome on to a derived promise, where there is no handler for it. -/
def passOn (kind : ReactionKind) (derived : ObjectRef) (argument : ManagedValue) :
    Request Agent Bool :=
  match kind with
  | .fulfill => resolvePromise derived argument
  | .reject => rejectPromise derived argument

/-- Registers reactions with a pending promise, or queues the one that is due. -/
def attach (ref : ObjectRef) (pair : ReactionPair) : Request Agent Unit := do
  let record := (← record ref).markHandled
  match record.status with
  | .pending => setRecord ref (record.addReactions pair)
  | .fulfilled value =>
    setRecord ref record
    enqueue (.react .fulfill pair.onFulfilled value)
  | .rejected reason =>
    setRecord ref record
    enqueue (.react .reject pair.onRejected reason)

/-- Runs a job, up to the native reaction that it needs. The promise that such a reaction settles is
kept rooted. -/
def runJob : Job → Request Agent (Option NativeJob)
  | .follow promise thenable => do
    attach thenable ⟨.adopt promise, .adopt promise⟩
    return none
  | .react kind (.derive (some handler) derived) argument => do
    retain derived
    return some ⟨kind, handler, argument, derived⟩
  | .react kind (.derive none derived) argument => do
    discard (passOn kind derived argument)
    return none
  | .react kind (.adopt follower) argument => do
    if (← record follower).state = .pending then
      settle follower kind argument
    return none

def newResolver : Request Agent ObjectRef := allocate (.promise .new)

def newObject : Request Agent ObjectRef := allocate .plain

def resolve (ref : ObjectRef) (value : ManagedValue) : Request Agent Bool := do
  checkRunning
  resolvePromise ref value

def reject (ref : ObjectRef) (reason : ManagedValue) : Request Agent Bool := do
  checkRunning
  rejectPromise ref reason

/-- A resolver is the promise that it settles. -/
def promiseOf (resolver : ObjectRef) : Request Agent ObjectRef := do
  discard (record resolver)
  return resolver

/-- Registers handlers with a promise. Gives the promise that they settle. The source is kept from
the collection that the allocation may need. -/
def addReactions (ref : ObjectRef) (onFulfilled onRejected : Option FunctionId) :
    Request Agent ObjectRef := do
  discard (record ref)
  retain ref
  let outcome ← (allocate (.promise .new)).outcome
  release ref
  let derived ← Request.ofExcept outcome
  attach ref ⟨.derive onFulfilled derived, .derive onRejected derived⟩
  return derived

def markHandled (ref : ObjectRef) : Request Agent Unit := do
  let record ← record ref
  setRecord ref record.markHandled

def stats (a : Agent) : HeapStats where
  limit := a.heap.limit
  live := a.heap.live
  rooted := a.heap.rooted
  pendingJobs := a.queue.length

end Agent

end Promises
