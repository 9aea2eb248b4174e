import Promises.Agent.Engine
import Promises.Config.Basic
import Promises.Handle.Table
import Promises.StringTable

/-!
Isolates. An isolate joins an engine with what the native side keeps: the handles, the strings and
the registered functions. Every handle in the table is a root of the engine, from its making until
its scope closes.
-/

namespace Promises

/-- An isolate over an engine `ε` with native functions of type `φ`. -/
structure Isolate (ε φ : Type) where
  id : IsolateId
  config : Config
  engine : ε
  handles : HandleTable
  strings : StringTable
  functions : Array φ

/-- How an object of an engine is bound. -/
def Engine.bindingOf {ε : Type} [Engine ε] (isolate : IsolateId) (ref : ObjectRef) :
    Action ε Binding := do
  let kind := if ← isPromise ref then .promise else .object
  return ⟨isolate, ref, kind⟩

namespace Isolate

variable {ε φ α : Type}

/-- An isolate without handles over an engine. -/
def create (id : IsolateId) (config : Config) (engine : ε) : Except Fault (Isolate ε φ) := do
  let handles ← HandleTable.reserve id config.handleCapacity
  return ⟨id, config, engine, handles, .empty, #[]⟩

/-- An isolate over an agent of its own. -/
def new (id : IsolateId) (config : Config) : Except Fault (Isolate Agent φ) :=
  if config.isValid then create id config (.new config.heapLimit) else .error .noHeap

section

variable {id : IsolateId} {config : Config} {engine : ε} {iso : Isolate ε φ}

theorem create_eq_ok_iff : create id config engine = .ok iso ↔
    config.handleCapacity ≤ HandleTable.maxReserve ∧ iso = ⟨id, config, engine, .empty id, .empty, #[]⟩ := by
  by_cases hcapacity : config.handleCapacity ≤ HandleTable.maxReserve
  · have hrun : create id config engine =
        .ok (⟨id, config, engine, .empty id, .empty, #[]⟩ : Isolate ε φ) := by
      rw [create, HandleTable.reserve, if_pos hcapacity]
      rfl
    rw [hrun]
    exact ⟨fun h => ⟨hcapacity, (Except.ok.inj h).symm⟩, fun h => congrArg _ h.2.symm⟩
  · have hrun : (create id config engine : Except Fault (Isolate ε φ)) = .error .capacityOverflow := by
      rw [create, HandleTable.reserve, if_neg hcapacity]
      rfl
    rw [hrun]
    exact ⟨nofun, fun h => absurd h.1 hcapacity⟩

/-- What an isolate is made of at first. -/
theorem create_ok (h : create id config engine = .ok iso) :
    iso = ⟨id, config, engine, .empty id, .empty, #[]⟩ := (create_eq_ok_iff.1 h).2

theorem create_of_new {iso : Isolate Agent φ} (h : new id config = .ok iso) :
    create id config (.new config.heapLimit) = .ok iso := by
  unfold new at h
  split at h
  · exact h
  · cases h

theorem new_ok {iso : Isolate Agent φ} (h : new id config = .ok iso) :
    iso = ⟨id, config, .new config.heapLimit, .empty id, .empty, #[]⟩ := create_ok (create_of_new h)

end

def engineOf : Isolate ε φ → ε × (ε → Isolate ε φ)
  | ⟨id, config, engine, handles, strings, functions⟩ =>
    (engine, (⟨id, config, ·, handles, strings, functions⟩))

def handlesOf : Isolate ε φ → HandleTable × (HandleTable → Isolate ε φ)
  | ⟨id, config, engine, handles, strings, functions⟩ =>
    (handles, (⟨id, config, engine, ·, strings, functions⟩))

def stringsOf : Isolate ε φ → StringTable × (StringTable → Isolate ε φ)
  | ⟨id, config, engine, handles, strings, functions⟩ =>
    (strings, (⟨id, config, engine, handles, ·, functions⟩))

/-- An action of the engine. -/
def onEngine (act : Action ε α) : Action (Isolate ε φ) α := Action.zoom engineOf act

/-- A request to the engine, with its answer. -/
def ask (request : Request ε α) : Action (Isolate ε φ) (Except EngineError α) :=
  onEngine request.run

/-- A request that only a fault of the engine refuses. -/
def demand (query : PromiseQuery) (request : Request ε α) : Action (Isolate ε φ) α := do
  match ← ask request with
  | .ok answer => return answer
  | .error error => throw (.refused query error)

def onHandles (act : Action HandleTable α) : Action (Isolate ε φ) α := Action.zoom handlesOf act

/-- The number of a string. -/
def intern (s : String) : Action (Isolate ε φ) StringId :=
  Action.zoom stringsOf (modifyGet (·.intern s))

/-- The number of a string of the engine. -/
def internShared (s : String) : Action (Isolate ε φ) StringId :=
  Action.zoom stringsOf (modifyGet (·.internShared s))

/-- What a handle stands for, which has to be a live one. -/
def binding (h : HandleId) : Action (Isolate ε φ) Binding := do
  Action.ofMisuse ((← get).handles.get h)

section

variable [Engine ε]

/-- A handle for a binding, in the current scope. -/
def register (b : Binding) : Action (Isolate ε φ) HandleId := do
  onEngine (Engine.retain b.object)
  onHandles (HandleTable.push b)

/-- A handle for an object of the engine, in the current scope. -/
def wrap (ref : ObjectRef) : Action (Isolate ε φ) HandleId := do
  register (← onEngine (Engine.bindingOf (← get).id ref))

/-- Another handle for the same object, in the current scope. -/
def duplicate (h : HandleId) : Action (Isolate ε φ) HandleId := do
  let b ← binding h
  register (b.rebind b.object)

/-- Takes the roots of popped entries back. -/
def releaseAll (popped : List Binding) : Action (Isolate ε φ) Unit :=
  popped.forM fun b => onEngine (Engine.release b.object)

def openScope : Action (Isolate ε φ) ScopeMark :=
  onHandles (modifyGet (·.openScope))

def closeScope (mark : ScopeMark) : Action (Isolate ε φ) Unit := do
  let popped ← Action.ofMisuse (← onHandles (modifyGet (·.closeScope mark)))
  releaseAll popped.toList

/-- Ends an isolate: takes back the roots of all handles, the newest first. -/
def dispose : Action (Isolate ε φ) Unit := do
  releaseAll (← onHandles (modifyGet (·.drain))).toList

end

/-- The name of a new native function. -/
def registerFunction (f : φ) : Action (Isolate ε φ) FunctionId :=
  modifyGet fun iso => (⟨iso.functions.size⟩, { iso with functions := iso.functions.push f })

end Isolate

end Promises
