import Promises.Object
import Promises.Handle.Id

/-!
What can go wrong: an engine refuses a call, a caller misuses a handle or a string, or a programming
error stops the program. `Action` computes over a state that outlives a programming error, and
`Request` is an action that the engine may refuse.
-/

namespace Promises

/-- Why an engine refuses a call. -/
inductive EngineError
  | terminated
  | outOfMemory (limit : Nat)
  | deadObject (ref : ObjectRef)
  | notAPromise (ref : ObjectRef)
deriving DecidableEq

def EngineError.message : EngineError → String
  | terminated => "execution is terminating"
  | outOfMemory limit => s!"managed heap exhausted ({limit} objects)"
  | deadObject ref => s!"{ref} is not a live object"
  | notAPromise ref => s!"{ref} is not a promise"

instance : ToString EngineError := ⟨EngineError.message⟩

/-- Misuse of a handle, a scope or a string by its holder. -/
inductive Misuse
  | invalidHandle (handle : HandleId)
  | wrongIsolate (expected found : IsolateId)
  | scopeMismatch
  | invalidString (number : Nat)
deriving DecidableEq

def Misuse.message : Misuse → String
  | invalidHandle handle => s!"handle {handle} is not live"
  | wrongIsolate expected found => s!"handle belongs to isolate {found}, not {expected}"
  | scopeMismatch => "handle scope closed out of order"
  | invalidString number => s!"string #{number} is not interned in this isolate"

instance : ToString Misuse := ⟨Misuse.message⟩

/-- The queries that cannot fail on the handle of a live promise. -/
inductive PromiseQuery
  | state
  | result
  | hasHandler
  | markHandled
  | promise
deriving DecidableEq

def PromiseQuery.name : PromiseQuery → String
  | state => "state"
  | result => "result"
  | hasHandler => "has_handler"
  | markHandled => "mark_as_handled"
  | promise => "get_promise"

/-- A programming error. It ends the call that hits it. -/
inductive Fault
  /-- An integer outside the 31 bits of a native value. -/
  | intOutOfRange
  /-- A handle for a slot that no table can have. -/
  | indexOutOfRange
  /-- A handle table that holds all the handles it can. -/
  | tableFull
  /-- A handle table asked to reserve more than there can be. -/
  | capacityOverflow
  /-- An engine without room for any object. -/
  | noHeap
  | misuse (error : Misuse)
  /-- A handle of another kind where a promise is needed. -/
  | notPromiseHandle (handle : HandleId) (kind : ObjectKind)
  /-- An engine that refuses a query about a promise with a live handle. -/
  | refused (query : PromiseQuery) (error : EngineError)
  /-- A settlement of a promise that is not pending. -/
  | settledTwice (state : PromiseState)
  /-- A text cut within a character. -/
  | cutCharacter
deriving DecidableEq

/-- The name of a state within the text of a failed comparison. -/
def PromiseState.name : PromiseState → String
  | pending => "Pending"
  | fulfilled => "Fulfilled"
  | rejected => "Rejected"

def Fault.message : Fault → String
  | intOutOfRange => "Integer out of 31-bit range"
  | indexOutOfRange => "handle table index out of range"
  | tableFull => "handle table is full"
  | capacityOverflow => "capacity overflow"
  | noHeap => "heap_limit must be at least 1"
  | misuse error => error.message
  | notPromiseHandle handle kind => s!"handle {handle} is a {kind}, not a Promise"
  | refused query error => query.name ++ s!" on a live promise handle failed: {error}"
  | settledTwice state =>
    "assertion \x60left == right\x60 failed: promise settled twice\n  left: " ++ state.name ++
      "\n right: Pending"
  | cutCharacter => "assertion failed: self.is_char_boundary(new_len)"

/-- A computation over a state. After a programming error the state is what it was just then. -/
abbrev Action (σ α : Type) := EStateM Fault σ α

/-- An action that the engine may refuse. -/
abbrev Request (σ α : Type) := ExceptT EngineError (Action σ) α

/-- Carries on after a misuse as after any other programming error. -/
def Action.ofMisuse {σ α : Type} : Except Misuse α → Action σ α
  | .ok a => pure a
  | .error error => throw (.misuse error)

/-- The outcome of a look-up, as the outcome of a request. -/
def Request.ofExcept {σ α : Type} (outcome : Except EngineError α) : Request σ α :=
  ExceptT.mk (pure outcome)

/-- What the engine answers, be it a refusal. -/
def Request.outcome {σ α : Type} (request : Request σ α) : Request σ (Except EngineError α) :=
  ExceptT.lift request.run

/-- Runs an action on a part of the state. `split` gives the part and puts it back. -/
def Action.zoom {σ τ α : Type} (split : σ → τ × (τ → σ)) (act : Action τ α) : Action σ α :=
  fun s =>
    match split s with
    | (t, join) =>
      match act t with
      | .ok a t => .ok a (join t)
      | .error fault t => .error fault (join t)

/-- Makes a request on a part of the state. -/
def Request.zoom {σ τ α : Type} (split : σ → τ × (τ → σ)) (request : Request τ α) : Request σ α :=
  ExceptT.mk (Action.zoom split request.run)

end Promises
