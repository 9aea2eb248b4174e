import Promises.Program.Basic

/-!
Running programs. A checkpoint runs reactions until none is due, and a handler may come to a
checkpoint of its own, so that a run is given fuel: each reaction of a checkpoint takes one unit, and
the reactions within it have what is left.
-/

namespace Promises

/-- Why a run stops early. -/
inductive Halt
  | fault (fault : Fault)
  | outOfFuel

/-- An isolate with the memory of the program that runs on it. -/
structure Machine (ε κ ρ : Type) where
  isolate : Isolate ε (Handler κ ρ)
  memory : κ

/-- A step of a run. -/
abbrev Run (ε κ ρ α : Type) := EStateM Halt (Machine ε κ ρ) α

/-- What the moves of `ρ` do. -/
class Moves (ε κ ρ : Type) where
  perform : ρ → Run ε κ ρ Unit

instance {ε κ : Type} : Moves ε κ Empty where
  perform move := nomatch move

namespace Run

variable {ε κ ρ α : Type}

/-- An action of the isolate. -/
def onIsolate (act : Action (Isolate ε (Handler κ ρ)) α) : Run ε κ ρ α := fun m =>
  match m with
  | ⟨isolate, memory⟩ =>
    match act isolate with
    | .ok a isolate => .ok a ⟨isolate, memory⟩
    | .error fault isolate => .error (.fault fault) ⟨isolate, memory⟩

/-- A change of the memory. -/
def onMemory (change : κ → κ) : Run ε κ ρ Unit :=
  modify fun m => { m with memory := change m.memory }

variable [Engine ε]

/-- Makes a call whose fault does not end the run. -/
def attempt (call : Call) : Run ε κ ρ (Except Fault call.Answer) := fun m =>
  match m with
  | ⟨isolate, memory⟩ =>
    match call.run isolate with
    | .ok answer isolate => .ok (.ok answer) ⟨isolate, memory⟩
    | .error fault isolate => .ok (.error fault) ⟨isolate, memory⟩

/-- Runs a body in a handle scope. -/
def inScope (body : Run ε κ ρ α) : Run ε κ ρ α := do
  let mark ← onIsolate Isolate.openScope
  let a ← body
  onIsolate (Isolate.closeScope mark)
  return a

/-- What lasts of a value beyond the scope that it is from. -/
def escaping (v : Value) : Action (Isolate ε (Handler κ ρ)) (Option Binding) := do
  match v.handle? with
  | some h =>
    let b ← Isolate.binding h
    return some (b.rebind b.object)
  | none => return none

/-- Runs a body in a handle scope and gives the value that it ends with a handle outside. -/
def inEscapableScope (body : Run ε κ ρ Completion) : Run ε κ ρ Completion := do
  let mark ← onIsolate Isolate.openScope
  let completion ← body
  let kept ← onIsolate (escaping completion.value)
  onIsolate (Isolate.closeScope mark)
  match kept with
  | some b => return completion.replace (.handle (← onIsolate (Isolate.register b)))
  | none => return completion

/-- Settles the promise of a job with what its handler came to. An engine that refuses leaves the
promise pending. -/
def conclude (derived : ObjectRef) (completion : Completion) :
    Action (Isolate ε (Handler κ ρ)) Unit := do
  let value ← Isolate.manage completion.value
  match completion with
  | .ok _ => discard (Isolate.ask (Engine.resolve derived value))
  | .error _ => discard (Isolate.ask (Engine.reject derived value))

/-- Runs a job in a handle scope. A handler that was not registered throws undefined. -/
def react (run : Program κ ρ → Run ε κ ρ Completion) (job : NativeJob) : Run ε κ ρ Unit :=
  inScope do
    let argument ← onIsolate (Isolate.toNative job.argument)
    let completion ←
      match (← get).isolate.functions[job.handler.index]? with
      | some handler => run (handler argument)
      | none => pure (.error .undefined)
    onIsolate (conclude job.derived completion)

end Run

namespace Program

variable {ε κ ρ : Type} [Engine ε] [Moves ε κ ρ]

/-- Runs a program, given how to run a checkpoint. -/
def runWith (checkpoint : Run ε κ ρ Nat) : Program κ ρ → Run ε κ ρ Completion
  | done completion => pure completion
  | read next => do runWith checkpoint (next (← get).memory)
  | update change next => do
    Run.onMemory change
    runWith checkpoint next
  | call c next => do runWith checkpoint (next (← Run.onIsolate c.run))
  | scope body next => do
    runWith checkpoint (next (← Run.inScope (runWith checkpoint body)))
  | escape body next => do
    runWith checkpoint (next (← Run.inEscapableScope (runWith checkpoint body)))
  | .checkpoint next => do runWith checkpoint (next (← checkpoint))
  | register handler next => do
    runWith checkpoint (next (← Run.onIsolate (Isolate.registerFunction handler)))
  | fail fault => throw (.fault fault)
  | outside move next => do
    Moves.perform move
    runWith checkpoint next

/-- Runs reactions until none is due. Counts them on from `ran`. -/
def drain : (fuel ran : Nat) → Run ε κ ρ Nat
  | 0, _ => throw .outOfFuel
  | fuel + 1, ran => do
    match ← Run.onIsolate (Isolate.onEngine Engine.nextJob) with
    | none => return ran
    | some job =>
      Run.react (runWith (drain fuel 0)) job
      Run.onIsolate (Isolate.onEngine (Engine.release job.derived))
      drain fuel (ran + 1)

/-- Runs a program. -/
def run (fuel : Nat) (program : Program κ ρ) : Run ε κ ρ Completion :=
  runWith (drain fuel 0) program

end Program

end Promises
