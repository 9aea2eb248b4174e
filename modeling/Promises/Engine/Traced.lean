import Promises.Engine
import Promises.Text.Json

namespace Promises

/-- A value in JSON. -/
def ManagedValue.json : ManagedValue → String
  | undefined => "\"undefined\""
  | null => "\"null\""
  | bool b => "\x7b\"bool\":" ++ toString b ++ "\x7d"
  | int n => "\x7b\"int\":" ++ toString n ++ "\x7d"
  | string text => "\x7b\"str\":" ++ Text.jsonString text ++ "\x7d"
  | object ref => "\x7b\"obj\":\"" ++ toString ref ++ "\"\x7d"

/-- The name of a kind within a job. -/
def ReactionKind.name : ReactionKind → String
  | fulfill => "Fulfill"
  | reject => "Reject"

/-- A job in JSON. -/
def NativeJob.json (job : NativeJob) : String :=
  "\x7b\"argument\":" ++ job.argument.json ++ ",\"derived\":\"" ++ toString job.derived ++
    "\",\"handler\":" ++ toString job.handler.index ++ ",\"kind\":\"" ++ job.kind.name ++ "\"\x7d"

/-- A call of an engine and its answer. -/
inductive EngineCall
  | isPromise (ref : ObjectRef) (answer : Bool)
  | newObject (answer : Except EngineError ObjectRef)
  | state (ref : ObjectRef) (answer : Except EngineError PromiseState)
  | result (ref : ObjectRef) (answer : Except EngineError ManagedValue)
  | newResolver (answer : Except EngineError ObjectRef)
  | resolve (ref : ObjectRef) (value : ManagedValue) (answer : Except EngineError Bool)
  | reject (ref : ObjectRef) (reason : ManagedValue) (answer : Except EngineError Bool)
  | promiseOf (ref : ObjectRef) (answer : Except EngineError ObjectRef)
  | addReactions (ref : ObjectRef) (onFulfilled onRejected : Option FunctionId)
    (answer : Except EngineError ObjectRef)
  | hasHandler (ref : ObjectRef) (answer : Except EngineError Bool)
  | markHandled (ref : ObjectRef) (answer : Except EngineError Unit)
  | nextJob (answer : Option NativeJob)
  | retain (ref : ObjectRef)
  | release (ref : ObjectRef)
  | collectGarbage (answer : Collection)
  | terminate
  | cancelTermination
  | isTerminating (answer : Bool)

namespace EngineCall

/-- The text of an answer, be it a refusal. -/
def answerText {α : Type} (text : α → String) : Except EngineError α → String
  | .ok a => text a
  | .error error => "error: " ++ error.message

/-- The line of a call. -/
def text : EngineCall → String
  | isPromise ref answer => s!"is_promise {ref} -> {answer}"
  | newObject answer => s!"create_object -> {answerText toString answer}"
  | state ref answer => s!"promise_state {ref} -> {answerText toString answer}"
  | result ref answer => s!"promise_result {ref} -> {answerText ManagedValue.json answer}"
  | newResolver answer => s!"resolver_new -> {answerText toString answer}"
  | resolve ref v answer => s!"resolver_resolve {ref} {v.json} -> {answerText toString answer}"
  | reject ref v answer => s!"resolver_reject {ref} {v.json} -> {answerText toString answer}"
  | promiseOf ref answer => s!"resolver_get_promise {ref} -> {answerText toString answer}"
  | addReactions ref f g answer =>
    s!"promise_then {ref} {handler f} {handler g} -> {answerText toString answer}"
  | hasHandler ref answer => s!"promise_has_handler {ref} -> {answerText toString answer}"
  | markHandled ref answer =>
    s!"promise_mark_as_handled {ref} -> " ++ answerText (fun _ => "ok") answer
  | nextJob none => "next_job -> null"
  | nextJob (some native) => s!"next_job -> {native.json}"
  | retain ref => s!"retain {ref}"
  | release ref => s!"release {ref}"
  | collectGarbage answer => s!"collect_garbage -> {answer.freed}"
  | terminate => "terminate_execution"
  | cancelTermination => "cancel_terminate_execution"
  | isTerminating answer => s!"is_execution_terminating -> {answer}"
where
  handler : Option FunctionId → String
    | some f => toString f.index
    | none => "-"

end EngineCall

/-- An engine with the calls made to it so far. -/
structure Traced (ε : Type) where
  engine : ε
  calls : Array EngineCall

namespace Traced

variable {ε α : Type}

/-- The engine beneath. -/
def beneath : Traced ε → ε × (ε → Traced ε)
  | ⟨engine, calls⟩ => (engine, (⟨·, calls⟩))

/-- Makes a call and notes it with its answer. -/
def noting (note : α → EngineCall) (act : Action ε α) : Action (Traced ε) α := do
  let answer ← Action.zoom beneath act
  modify fun t => { t with calls := t.calls.push (note answer) }
  return answer

/-- Makes a request and notes it with its answer. -/
def notingRequest (note : Except EngineError α → EngineCall) (request : Request ε α) :
    Request (Traced ε) α :=
  ExceptT.mk (noting note request.run)

/-- The calls since they were last taken. -/
def takeCalls : Action (Traced ε) (Array EngineCall) :=
  modifyGet fun t => (t.calls, { t with calls := #[] })

end Traced

open Traced in
instance {ε : Type} [Engine ε] : Engine (Traced ε) where
  isPromise ref := noting (.isPromise ref) (Engine.isPromise ref)
  newObject := notingRequest .newObject Engine.newObject
  state ref := notingRequest (.state ref) (Engine.state ref)
  result ref := notingRequest (.result ref) (Engine.result ref)
  newResolver := notingRequest .newResolver Engine.newResolver
  resolve ref value := notingRequest (.resolve ref value) (Engine.resolve ref value)
  reject ref reason := notingRequest (.reject ref reason) (Engine.reject ref reason)
  promiseOf ref := notingRequest (.promiseOf ref) (Engine.promiseOf ref)
  addReactions ref onFulfilled onRejected :=
    notingRequest (.addReactions ref onFulfilled onRejected)
      (Engine.addReactions ref onFulfilled onRejected)
  hasHandler ref := notingRequest (.hasHandler ref) (Engine.hasHandler ref)
  markHandled ref := notingRequest (.markHandled ref) (Engine.markHandled ref)
  nextJob := noting .nextJob Engine.nextJob
  retain ref := noting (fun _ => .retain ref) (Engine.retain ref)
  release ref := noting (fun _ => .release ref) (Engine.release ref)
  collectGarbage := noting .collectGarbage Engine.collectGarbage
  stats := Action.zoom beneath Engine.stats
  terminate := noting (fun _ => .terminate) Engine.terminate
  cancelTermination := noting (fun _ => .cancelTermination) Engine.cancelTermination
  isTerminating := noting .isTerminating Engine.isTerminating

end Promises
