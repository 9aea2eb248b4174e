import Promises.Config.Text
import Promises.Shell.Basic
import Promises.Text.Cluster

namespace Promises.Shell

/-- What a process leaves behind. -/
structure Outcome where
  exitCode : Nat
  stdout : String
  stderr : String
deriving DecidableEq

/-- What was printed so far. -/
abbrev Printed := List String

/-- All printed lines, each with its line feed. -/
def Printed.text (printed : Printed) : String :=
  String.join (printed.reverse.map (· ++ "\n"))

def Outcome.success (printed : Printed) : Outcome := ⟨0, printed.text, ""⟩

def Outcome.failure (printed : Printed) (exitCode : Nat) (message : String) : Outcome :=
  ⟨exitCode, printed.text, message ++ "\n"⟩

/-- The exit of a process that meets a programming error. -/
def Outcome.halted (printed : Printed) : Halt → Outcome
  | .fault fault => .failure printed 101 fault.message
  | .outOfFuel => .failure printed 101 "out of fuel"

/-- Executes the lines of a script up to the first failure. -/
def runLines (shell : Shell) (printed : Printed) : List (List Char) → Outcome
  | [] => .success printed
  | line :: lines =>
    match (exec (String.ofList line)).run shell with
    | .ok (.ok output) shell => runLines shell (output.toList ++ printed) lines
    | .ok (.error failure) _ => .failure printed 1 ("Error: " ++ failure.message)
    | .error halt _ => .halted printed halt

/-- The lines of an input, each with its line feed. -/
def splitLines (input : ByteArray) : List ByteArray :=
  let (lines, last) := input.toList.foldl
    (fun (lines, line) byte =>
      if byte = 10 then (ByteArray.mk (line.push byte) :: lines, #[]) else (lines, line.push byte))
    (([] : List ByteArray), (#[] : Array UInt8))
  (if last.isEmpty then lines else ByteArray.mk last :: lines).reverse

/-- A line without its line feed and the carriage return before it. -/
def chomp (line : List Char) : List Char :=
  match line.reverse with
  | '\n' :: '\r' :: rest => rest.reverse
  | '\n' :: rest => rest.reverse
  | _ => line

/-- What was entered with a line. -/
def entered? (line : List Char) : Option (List Char) := Text.eraseBack? (chomp line)

/-- Executes the lines of an input. -/
def runInput (shell : Shell) (printed : Printed) : List ByteArray → Outcome
  | [] => .success ("" :: printed)
  | bytes :: lines =>
    match String.fromUTF8? bytes with
    | none => .failure printed 1 ("Error: " ++ ReadError.notText.message)
    | some line =>
      match entered? line.toList with
      | none => .halted printed (.fault .cutCharacter)
      | some line =>
        match (exec (String.ofList line)).run shell with
        | .ok (.ok output) shell => runInput shell (output.toList ++ printed) lines
        | .ok (.error failure) shell =>
          runInput shell (("Error: " ++ failure.message) :: printed) lines
        | .error halt _ => .halted printed halt

/-- The lines that greet, the last one first. -/
def greeting : Printed := ["", "Type \x60help\x60 for commands, Ctrl+D to exit.", "promise-bridge shell"]

/-- What the command line asks for. -/
structure Options where
  config : Option String
  script : Option String

/-- The options of the arguments, read from the left, or why they are refused. -/
def Options.ofArgs (options : Options) : List String → Except String Options
  | [] => .ok options
  | "--config" :: path :: args => ofArgs { options with config := some path } args
  | ["--config"] => .error "--config needs a path"
  | arg :: args =>
    if arg = "-h" ∨ arg = "--help" then .error "usage: pbsh [--config <path>] [script]"
    else if options.script.isNone then ofArgs { options with script := some arg } args
    else .error ("unexpected argument \x60" ++ arg ++ "\x60")

/-- What the files hold that the command line names. -/
abbrev Files := String → Except ReadError ByteArray

/-- Runs a shell as the options ask for. -/
def start (options : Options) (files : Files) (stdin : ByteArray) (config : Config) : Outcome :=
  match new config with
  | .error fault => .halted [] (.fault fault)
  | .ok shell =>
    match options.script with
    | none => runInput shell greeting (splitLines stdin)
    | some path =>
      match textOf (files path) with
      | .ok text => runLines shell [] (Text.lines text.toList)
      | .error cause => .failure [] 1 ("Error reading " ++ path ++ ": " ++ cause.message)

/-- What the program does with its arguments. -/
def invoke (args : List String) (files : Files) (stdin : ByteArray) : Outcome :=
  match Options.ofArgs ⟨none, none⟩ args with
  | .error message => .failure [] 2 message
  | .ok options =>
    match options.config with
    | none => start options files stdin default
    | some path =>
      match Config.ofFile path (files path) with
      | .ok config => start options files stdin config
      | .error error => .failure [] 1 ("Error: " ++ error.message)

end Promises.Shell
