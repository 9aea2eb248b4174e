import Promises.Isolate.Call

/-!
Programs of the native side, as data. A program makes calls, opens handle scopes, registers
handlers, which are programs themselves, and lets reactions run. It has a memory of its own of type
`κ`, which outlives scopes and handlers. `ρ` are the moves that go past the calls; a program that
makes calls only has `Empty` there.
-/

namespace Promises

/-- How a body ends: with a value, or by throwing one. -/
abbrev Completion := Except Value Value

/-- The value that a body ends with. -/
def Completion.value : Completion → Value
  | .ok v => v
  | .error v => v

/-- The completion with another value. -/
def Completion.replace : Completion → Value → Completion
  | .ok _, v => .ok v
  | .error _, v => .error v

inductive Program (κ ρ : Type) where
  | done (completion : Completion)
  /-- Looks into the memory. -/
  | read (next : κ → Program κ ρ)
  /-- Changes the memory. -/
  | update (change : κ → κ) (next : Program κ ρ)
  | call (call : Call) (next : call.Answer → Program κ ρ)
  /-- Runs a body in a handle scope. -/
  | scope (body : Program κ ρ) (next : Completion → Program κ ρ)
  /-- Runs a body in a handle scope and keeps the value that it ends with. -/
  | escape (body : Program κ ρ) (next : Completion → Program κ ρ)
  /-- Lets all reactions run that are due. Gives their number. -/
  | checkpoint (next : Nat → Program κ ρ)
  /-- Registers a handler. -/
  | register (handler : Value → Program κ ρ) (next : FunctionId → Program κ ρ)
  /-- Ends in a programming error. -/
  | fail (fault : Fault)
  /-- Makes a move that is not a call. -/
  | outside (move : ρ) (next : Program κ ρ)

/-- The program of a native function, by its argument. -/
abbrev Handler (κ ρ : Type) := Value → Program κ ρ

/-- A program whose only moves are calls. -/
abbrev Handler.Pure (κ : Type) := Handler κ Empty

end Promises
