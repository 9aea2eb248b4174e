import Promises.Error

/-!
What an engine stores for a promise: its status, the latch that says whether resolve or reject was
accepted, whether it has a handler, and the reactions that wait for its settlement. Reactions come
in pairs, one for each way to settle.
-/

namespace Promises

/-- What happens when a promise settles. -/
inductive Reaction
  /-- The outcome resolves or rejects `derived`, by way of the handler if there is one. -/
  | derive (handler : Option FunctionId) (derived : ObjectRef)
  /-- The outcome becomes that of `follower`, which was resolved with the promise. -/
  | adopt (follower : ObjectRef)
deriving DecidableEq

/-- The promise that the reaction settles. -/
def Reaction.target : Reaction → ObjectRef
  | derive _ derived => derived
  | adopt follower => follower

/-- The reactions of one registration. -/
structure ReactionPair where
  onFulfilled : Reaction
  onRejected : Reaction
deriving DecidableEq

/-- The reaction that is due for one way to settle. -/
def ReactionPair.due (pair : ReactionPair) : ReactionKind → Reaction
  | .fulfill => pair.onFulfilled
  | .reject => pair.onRejected

inductive PromiseStatus
  | pending
  | fulfilled (value : ManagedValue)
  | rejected (reason : ManagedValue)
deriving DecidableEq

namespace PromiseStatus

def state : PromiseStatus → PromiseState
  | pending => .pending
  | fulfilled _ => .fulfilled
  | rejected _ => .rejected

/-- The value or the reason, and undefined while there is none. -/
def result : PromiseStatus → ManagedValue
  | pending => .undefined
  | fulfilled value => value
  | rejected reason => reason

/-- The status of a promise settled one way. -/
def settled : ReactionKind → ManagedValue → PromiseStatus
  | .fulfill => fulfilled
  | .reject => rejected

@[simp] theorem result_settled (kind : ReactionKind) (value : ManagedValue) :
    (settled kind value).result = value := by
  cases kind <;> rfl

end PromiseStatus

structure PromiseRecord where
  status : PromiseStatus
  /-- Set once a resolve or a reject was accepted, also while the promise still follows another. -/
  alreadyResolved : Bool
  handled : Bool
  reactions : Array ReactionPair

namespace PromiseRecord

def new : PromiseRecord := ⟨.pending, false, false, #[]⟩

def state (r : PromiseRecord) : PromiseState := r.status.state

def result (r : PromiseRecord) : ManagedValue := r.status.result

def markHandled (r : PromiseRecord) : PromiseRecord := { r with handled := true }

/-- Sets the latch. -/
def lock (r : PromiseRecord) : PromiseRecord := { r with alreadyResolved := true }

/-- Settles a pending promise. Gives the reactions that are due, in the order of registration. -/
def settle (r : PromiseRecord) (kind : ReactionKind) (value : ManagedValue) :
    Except Fault (List Reaction × PromiseRecord) :=
  match r.status with
  | .pending =>
    .ok (r.reactions.toList.map (·.due kind),
      { r with status := .settled kind value, alreadyResolved := true, reactions := #[] })
  | status => .error (.settledTwice status.state)

def addReactions (r : PromiseRecord) (pair : ReactionPair) : PromiseRecord :=
  { r with reactions := r.reactions.push pair }

/-- The objects that the record refers to: its result, then the targets of its reactions. -/
def references (r : PromiseRecord) : List ObjectRef :=
  r.result.objectRef?.toList ++ r.reactions.toList.map (·.onFulfilled.target) ++
    r.reactions.toList.map (·.onRejected.target)

end PromiseRecord

end Promises
