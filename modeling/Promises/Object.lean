import Promises.Text.Numeral

namespace Promises

/-- A reference to an object of an engine. The generation tells the object apart from the earlier
objects of the same slot. -/
structure ObjectRef where
  index : Nat
  generation : UInt32
deriving DecidableEq, Hashable

instance : ToString ObjectRef where
  toString r := s!"@{r.index}.{r.generation}"

/-- The reference that a text denotes. -/
def ObjectRef.ofText? (text : String) : Option ObjectRef :=
  match text.toList with
  | '@' :: cs => do
    let index ← Text.word32? (cs.takeWhile (· ≠ '.'))
    let generation ← Text.word32? ((cs.dropWhile (· ≠ '.')).drop 1)
    return ⟨index.toNat, generation⟩
  | _ => none

/-- The two kinds of object. -/
inductive ObjectKind
  | object
  | promise
deriving DecidableEq

instance : ToString ObjectKind where
  toString
    | .object => "Object"
    | .promise => "Promise"

/-- The name of a native function within its isolate. -/
structure FunctionId where
  index : Nat
deriving DecidableEq

/-- A value as an engine stores it. -/
inductive ManagedValue
  | undefined
  | null
  | bool (value : Bool)
  | int (value : Int32)
  | string (text : String)
  | object (ref : ObjectRef)
deriving DecidableEq

namespace ManagedValue

/-- The object that the value refers to. -/
def objectRef? : ManagedValue → Option ObjectRef
  | object ref => some ref
  | _ => none

@[simp] theorem objectRef?_object (ref : ObjectRef) : (object ref).objectRef? = some ref := rfl

theorem objectRef?_eq_some_iff {value : ManagedValue} {ref : ObjectRef} :
    value.objectRef? = some ref ↔ value = object ref := by
  cases value <;> simp [objectRef?]

end ManagedValue

/-- Where a promise stands. -/
inductive PromiseState
  | pending
  | fulfilled
  | rejected
deriving DecidableEq

instance : ToString PromiseState where
  toString
    | .pending => "pending"
    | .fulfilled => "fulfilled"
    | .rejected => "rejected"

/-- Which of its two handlers a reaction is due for. -/
inductive ReactionKind
  | fulfill
  | reject
deriving DecidableEq

/-- A reaction for the embedder to run: it calls `handler` with `argument` and settles `derived`
with what the handler returns. The engine keeps `derived` rooted until it is released. -/
structure NativeJob where
  kind : ReactionKind
  handler : FunctionId
  argument : ManagedValue
  derived : ObjectRef
deriving DecidableEq

/-- A heap in numbers: how many objects may live and do live, how many of them are rooted, and how
many jobs wait. -/
structure HeapStats where
  limit : Nat
  live : Nat
  rooted : Nat
  pendingJobs : Nat
deriving DecidableEq

/-- A collection in numbers. -/
structure Collection where
  before : Nat
  after : Nat
  freed : Nat
deriving DecidableEq

end Promises
