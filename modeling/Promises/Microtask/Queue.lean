import Promises.Promise.Record

namespace Promises

/-- What an engine does between two calls of its embedder. -/
inductive Job
  /-- To run a reaction that is due, on the value or the reason. -/
  | react (kind : ReactionKind) (reaction : Reaction) (argument : ManagedValue)
  /-- To make `promise` follow `thenable`, which it was resolved with. -/
  | follow (promise thenable : ObjectRef)
deriving DecidableEq

/-- The objects that a job refers to. -/
def Job.references : Job → List ObjectRef
  | react _ reaction argument => reaction.target :: argument.objectRef?.toList
  | follow promise thenable => [promise, thenable]

structure JobQueue where
  /-- The next jobs. -/
  front : List Job
  /-- The jobs after them, the last one first. -/
  back : List Job

namespace JobQueue

def empty : JobQueue := ⟨[], []⟩

def toList (q : JobQueue) : List Job := q.front ++ q.back.reverse

def push (q : JobQueue) (job : Job) : JobQueue := { q with back := job :: q.back }

def pushAll (q : JobQueue) (jobs : List Job) : JobQueue := jobs.foldl push q

def pop? (q : JobQueue) : Option (Job × JobQueue) :=
  match q.front with
  | job :: front => some (job, { q with front })
  | [] =>
    match q.back.reverse with
    | job :: front => some (job, ⟨front, []⟩)
    | [] => none

def length (q : JobQueue) : Nat := q.front.length + q.back.length

/-- The objects that the queued jobs refer to. They are roots of a collection. -/
def references (q : JobQueue) : List ObjectRef := q.toList.flatMap Job.references

@[simp] theorem toList_empty : empty.toList = [] := rfl

@[simp] theorem toList_push (q : JobQueue) (job : Job) :
    (q.push job).toList = q.toList ++ [job] := by
  simp [toList, push]

@[simp] theorem toList_pushAll (q : JobQueue) (jobs : List Job) :
    (q.pushAll jobs).toList = q.toList ++ jobs := by
  induction jobs generalizing q with
  | nil => simp [pushAll]
  | cons job jobs ih => simpa [pushAll] using ih (q.push job)

@[simp] theorem length_toList (q : JobQueue) : q.toList.length = q.length := by
  simp [toList, length]

theorem toList_of_pop?_eq_some {q rest : JobQueue} {job : Job} (h : q.pop? = some (job, rest)) :
    q.toList = job :: rest.toList := by
  obtain ⟨front, back⟩ := q
  grind [pop?, toList]

theorem pop?_eq_none_iff {q : JobQueue} : q.pop? = none ↔ q.toList = [] := by
  obtain ⟨front, back⟩ := q
  grind [pop?, toList]

end JobQueue

end Promises
