import Promises.Program.Run
import Promises.Shell.Grammar

/-!
The shell: an isolate over an agent, whose promises are kept in numbered slots. Every command is a
program that runs in a handle scope of its own; only what a new slot holds outlasts it.
-/

namespace Promises

namespace Shell

/-- What the shell keeps between commands. -/
structure Memory where
  /-- The values of the slots. -/
  slots : Array Value
  /-- The handler of each operation that was used. -/
  handlers : List (Op × FunctionId)
  /-- What the last command came to. -/
  report : Except Failure String

/-- A program of the shell. -/
abbrev Script := Program Memory Empty

/-- The 32-bit word of an integer, if it has one. -/
def int32? (n : Int) : Option Int32 :=
  if Int32.minValue.toInt ≤ n ∧ n ≤ Int32.maxValue.toInt then some (Int32.ofInt n) else none

def checkedAdd (i n : Int32) : Option Int32 := int32? (i.toInt + n.toInt)

def checkedMul (i n : Int32) : Option Int32 := int32? (i.toInt * n.toInt)

/-- What did not overflow and has 31 bits is given. Otherwise the value that it was made from is thrown. -/
def checked (result : Option Int32) (original : Value) : Completion :=
  match result with
  | some n => if Value.fits n then .ok (.ofInt32 n) else .error original
  | none => .error original

/-- What an operation makes of a value. Whatever is not an integer, or leaves the range of integers,
is thrown as it is. -/
def Op.apply (op : Op) (v : Value) : Completion :=
  match op, v.int? with
  | .id, _ => .ok v
  | .throw, _ => .error v
  | .add n, some i => checked (checkedAdd i n) v
  | .mul n, some i => checked (checkedMul i n) v
  | _, none => .error v

def Op.handler (op : Op) : Handler Memory Empty := fun v => .done (op.apply v)

/-- Ends with a text to print. -/
def say (text : String) : Script :=
  .update (fun m => { m with report := .ok text }) (.done (.ok .undefined))

/-- Ends with a failure. -/
def refuse (failure : Failure) : Script :=
  .update (fun m => { m with report := .error failure }) (.done (.error .undefined))

/-- Ends as a body did. -/
def finish (completion : Completion) : Script := .done completion

/-- Ends with the value of a new slot, unless the body before it failed. -/
def store : Completion → Script
  | .ok v =>
    .update (fun m => { m with slots := m.slots.push v }) <|
      .call (.display v) fun text =>
        .read fun m => say s!"${m.slots.size - 1} = {text}"
  | .error v => .done (.error v)

/-- Goes on with the value of a slot. -/
def withSlot (slot : Nat) (next : Value → Script) : Script :=
  .read fun m =>
    match m.slots[slot]? with
    | some v => next v
    | none => refuse (.unknownSlot slot)

/-- Goes on with the promise of a slot. -/
def withPromise (slot : Nat) (next : Promise → Script) : Script :=
  withSlot slot fun v =>
    .call (.castPromise v) fun
      | some p => next p
      | none => refuse (.notAPromise slot)

/-- Goes on with the resolver of the promise of a slot. -/
def withResolver (slot : Nat) (next : Resolver → Script) : Script :=
  withSlot slot fun v =>
    .call (.castResolver v) fun
      | some r => next r
      | none => refuse (.notAPromise slot)

/-- Goes on with the value of an operand. -/
def withOperand (operand : Operand) (next : Value → Script) : Script :=
  match operand with
  | .int n =>
    match Value.int n with
    | .ok v => next v
    | .error fault => .fail fault
  | .bool b => next (.bool b)
  | .null => next .null
  | .undefined => next .undefined
  | .text s => .call (.string s) next
  | .slot slot => withSlot slot next

/-- Goes on with the handler of an operation, which is registered once. -/
def withHandler (op : Op) (next : FunctionId → Script) : Script :=
  .read fun m =>
    match m.handlers.lookup op with
    | some f => next f
    | none =>
      .register op.handler fun f =>
        .update (fun m => { m with handlers := (op, f) :: m.handlers }) (next f)

/-- The words for the two ways to settle a promise. -/
def settleName : ReactionKind → String
  | .fulfill => "resolve"
  | .reject => "reject"

/-- The words for the two ways to attach a reaction. -/
def attachName : ReactionKind → String
  | .fulfill => "then"
  | .reject => "catch"

def settleCall (kind : ReactionKind) (r : Resolver) (v : Value) (next : Option Bool → Script) :
    Script :=
  match kind with
  | .fulfill => .call (.resolve r v) next
  | .reject => .call (.reject r v) next

def attachCall (kind : ReactionKind) (p : Promise) (f : FunctionId)
    (next : Option Promise → Script) : Script :=
  match kind with
  | .fulfill => .call (.addReactions p (some f) none) next
  | .reject => .call (.addReactions p none (some f)) next

def Command.script : Command → Script
  | .new =>
    .escape
      (.call .newResolver fun
        | some r => .done (.ok r.toValue)
        | none => refuse (.refused "new"))
      store
  | .settle kind slot operand =>
    .scope
      (withResolver slot fun r =>
        withOperand operand fun v =>
          settleCall kind r v fun
            | some settled => say (toString settled)
            | none => refuse (.refused (settleName kind)))
      finish
  | .state slot => withPromise slot fun p => .call (.state p) fun state => say (toString state)
  | .result slot =>
    .scope
      (withPromise slot fun p =>
        .call (.result p) fun v => .call (.display v) say)
      finish
  | .promise slot =>
    .escape
      (withResolver slot fun r => .call (.promiseOf r) fun p => .done (.ok p.toValue))
      store
  | .attach kind slot op =>
    withHandler op fun f =>
      .escape
        (withPromise slot fun p =>
          attachCall kind p f fun
            | some derived => .done (.ok derived.toValue)
            | none => refuse (.refused (attachName kind)))
        store
  | .run => .checkpoint fun ran => say s!"ran {ran} reaction(s)"
  | .gc =>
    .call .collectGarbage fun c =>
      say s!"collected {c.freed} of {c.before} object(s), {c.after} live"
  | .stats =>
    .call .stats fun s =>
      say s!"live {s.live}/{s.limit} rooted {s.rooted} pending jobs {s.pendingJobs}"
  | .terminate => .call .terminate fun _ => say "terminating"
  | .resume => .call .cancelTermination fun _ => say "running"
  | .help => say Shell.help

end Shell

/-- A shell. -/
abbrev Shell := Machine Agent Shell.Memory Empty

namespace Shell

def new (config : Config) : Except Fault Shell := do
  return ⟨← Isolate.new ⟨0⟩ config, ⟨#[], [], .ok ""⟩⟩

/-- How many reactions can be due at most. -/
def fuel (shell : Shell) : Nat := shell.isolate.engine.workload + 1

/-- Executes a command. Gives what it prints. -/
def execute (command : Command) : Run Agent Memory Empty (Except Failure String) := do
  discard (Program.run (fuel (← get)) command.script)
  return (← get).memory.report

/-- Executes a line. Gives what it prints, which is nothing for an empty line or a comment. -/
def exec (line : String) : Run Agent Memory Empty (Except Failure (Option String)) := do
  match Text.trim line.toList with
  | [] => return .ok none
  | '#' :: _ => return .ok none
  | line =>
    match parse line with
    | .ok command => return (← execute command).map some
    | .error failure => return .error failure

end Shell

end Promises
