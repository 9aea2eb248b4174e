import Promises.Proofs.Agent.Linked

namespace Promises

def ManagedValue.rename (f : ObjectRef → ObjectRef) : ManagedValue → ManagedValue
  | object ref => object (f ref)
  | value => value

def NativeJob.rename (f : ObjectRef → ObjectRef) (job : NativeJob) : NativeJob :=
  { job with argument := job.argument.rename f, derived := f job.derived }

def EngineError.rename (f : ObjectRef → ObjectRef) : EngineError → EngineError
  | deadObject ref => deadObject (f ref)
  | notAPromise ref => notAPromise (f ref)
  | error => error

section

variable {R : ObjectRef → ObjectRef → Prop} {f g : ObjectRef → ObjectRef}

theorem ManagedValue.Alike.rename_eq {v w : ManagedValue} (h : v.Alike R w)
    (hfg : ∀ p q, R p q → f p = g q) : v.rename f = w.rename g := by
  cases h with
  | object h => exact congrArg ManagedValue.object (hfg _ _ h)
  | plain hn =>
    cases v with
    | object => cases hn
    | _ => rfl

theorem NativeJob.Alike.rename_eq {x y : NativeJob} (h : x.Alike R y)
    (hfg : ∀ p q, R p q → f p = g q) : x.rename f = y.rename g := by
  cases h with
  | mk kind handler hv hd =>
    simp only [NativeJob.rename]
    rw [hv.rename_eq hfg, hfg _ _ hd]

end

namespace Agent

/-- The objects that the client names in a call. -/
def Call.references : Call → List ObjectRef
  | isPromise ref | state ref | result ref | promiseOf ref | hasHandler ref | markHandled ref
  | addReactions ref _ _ | retain ref | release ref | rootCount ref => [ref]
  | resolve ref value | reject ref value => ref :: value.objectRef?.toList
  | newObject | newResolver | nextJob | collectGarbage | stats | terminate | cancelTermination
  | isTerminating => []

def Call.rename (f : ObjectRef → ObjectRef) : Call → Call
  | isPromise ref => isPromise (f ref)
  | newObject => newObject
  | state ref => state (f ref)
  | result ref => result (f ref)
  | newResolver => newResolver
  | resolve ref value => resolve (f ref) (value.rename f)
  | reject ref reason => reject (f ref) (reason.rename f)
  | promiseOf ref => promiseOf (f ref)
  | addReactions ref onFulfilled onRejected => addReactions (f ref) onFulfilled onRejected
  | hasHandler ref => hasHandler (f ref)
  | markHandled ref => markHandled (f ref)
  | nextJob => nextJob
  | retain ref => retain (f ref)
  | release ref => release (f ref)
  | rootCount ref => rootCount (f ref)
  | collectGarbage => collectGarbage
  | stats => stats
  | terminate => terminate
  | cancelTermination => cancelTermination
  | isTerminating => isTerminating

/-- An answer or a refusal, with `rename` for what is answered. -/
def renameAnswer {α : Type} (f : ObjectRef → ObjectRef) (rename : α → α) :
    Except EngineError α → Except EngineError α
  | .ok v => .ok (rename v)
  | .error e => .error (e.rename f)

def Answer.rename (f : ObjectRef → ObjectRef) : Answer → Answer
  | none => none
  | flag b => flag b
  | count n => count n
  | object answer => object (renameAnswer f f answer)
  | state answer => state (renameAnswer f id answer)
  | value answer => value (renameAnswer f (.rename f) answer)
  | settled answer => settled (renameAnswer f id answer)
  | has answer => has (renameAnswer f id answer)
  | marked answer => marked (renameAnswer f id answer)
  | job answer => job (answer.map (.rename f))
  | collection answer => collection answer
  | stats answer => stats answer

/-- What an answer says apart from the count of live objects and the numbers of a collection. -/
def Answer.shown : Answer → Answer
  | collection _ => none
  | stats answer => stats { answer with live := 0 }
  | answer => answer

end Agent

end Promises
