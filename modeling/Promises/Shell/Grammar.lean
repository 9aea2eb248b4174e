import Promises.Shell.Command
import Promises.Text.Blank
import Promises.Text.Digit
import Promises.Text.Numeral

/-!
The grammar of commands. A line has one of four forms:

* a word: `new`, `run`, `gc`, `stats`, `terminate`, `resume`, `help`
* `resolve` or `reject`, a slot, an operand
* `state`, `result` or `promise`, a slot
* `then` or `catch`, a slot, an operation, an integer if the operation takes one

Any number of blank characters separates the parts, and decimal digits of all scripts belong to a
numeral. What is read of the numerals is up to the second step, which knows ASCII digits alone.
-/

namespace Promises.Shell

inductive Query
  | state
  | result
  | promise

inductive OpName
  | add
  | mul
  | id
  | throw

/-- A line in its parts, with the numerals as they were written. -/
inductive Form
  | word (command : Command)
  | settle (kind : ReactionKind) (slot operand : List Char)
  | query (query : Query) (slot : List Char)
  | attach (kind : ReactionKind) (slot : List Char) (op : OpName) (argument : Option (List Char))

/-- What follows a word at the start of a text. -/
def afterWord? (word cs : List Char) : Option (List Char) :=
  if word.isPrefixOf cs then some (cs.drop word.length) else none

/-- The first of the words that the text starts with, and what follows it. -/
def keyword? {α : Type} (words : List (String × α)) (cs : List Char) : Option (α × List Char) :=
  words.findSome? fun (word, a) => (afterWord? word.toList cs).map (a, ·)

/-- What follows the blank characters at the start of a text, of which there is one at least. -/
def afterBlanks? : List Char → Option (List Char)
  | [] => none
  | c :: cs => if Text.isBlank c then some (cs.dropWhile Text.isBlank) else none

/-- The digits at the start of a text, of which there is one at least, and what follows them. -/
def digits? (cs : List Char) : Option (List Char × List Char) :=
  match cs.takeWhile Text.isDigit with
  | [] => none
  | digits => some (digits, cs.dropWhile Text.isDigit)

/-- The digits of a slot, and what follows them. -/
def slotDigits? : List Char → Option (List Char × List Char)
  | '$' :: cs => digits? cs
  | _ => none

/-- Whether a text is digits, perhaps after a minus sign. -/
def isInteger (cs : List Char) : Bool :=
  let digits := match cs with
    | '-' :: digits => digits
    | digits => digits
  !digits.isEmpty && digits.all Text.isDigit

def bareWords : List (String × Command) :=
  [("new", .new), ("run", .run), ("gc", .gc), ("stats", .stats), ("terminate", .terminate),
    ("resume", .resume), ("help", .help)]

def settleWords : List (String × ReactionKind) := [("resolve", .fulfill), ("reject", .reject)]

def queryWords : List (String × Query) :=
  [("state", .state), ("result", .result), ("promise", .promise)]

def attachWords : List (String × ReactionKind) := [("then", .fulfill), ("catch", .reject)]

def opWords : List (String × OpName) :=
  [("add", .add), ("mul", .mul), ("id", .id), ("throw", .throw)]

def word? (line : List Char) : Option Form :=
  (bareWords.lookup (String.ofList line)).map .word

/-- A keyword and a slot, and what follows them. -/
def atSlot? {α : Type} (words : List (String × α)) (line : List Char) :
    Option (α × List Char × List Char) := do
  let (a, cs) ← keyword? words line
  let (slot, cs) ← slotDigits? (← afterBlanks? cs)
  return (a, slot, cs)

def settle? (line : List Char) : Option Form := do
  let (kind, slot, cs) ← atSlot? settleWords line
  let operand ← afterBlanks? cs
  if operand.isEmpty || operand.contains '\n' then none else some (.settle kind slot operand)

def query? (line : List Char) : Option Form := do
  let (query, slot, cs) ← atSlot? queryWords line
  if cs.isEmpty then some (.query query slot) else none

def attach? (line : List Char) : Option Form := do
  let (kind, slot, cs) ← atSlot? attachWords line
  let (op, cs) ← keyword? opWords (← afterBlanks? cs)
  if cs.isEmpty then
    some (.attach kind slot op none)
  else
    let argument ← afterBlanks? cs
    if isInteger argument then some (.attach kind slot op (some argument)) else none

/-- The form of a line without blanks at its ends. -/
def form? (line : List Char) : Option Form :=
  word? line <|> settle? line <|> query? line <|> attach? line

/-- The number of a slot. -/
def slotNumber? (digits : List Char) : Option Nat :=
  (Text.numeral? 10 digits).filter (· < UInt64.size)

/-- An integer of 64 bits. -/
def wideInt? (cs : List Char) : Option Int :=
  let n := match cs with
    | '-' :: digits => (Text.numeral? 10 digits).map fun n => -(n : Int)
    | digits => (Text.numeral? 10 digits).map fun n => (n : Int)
  n.filter fun n => Int64.minValue.toInt ≤ n && n ≤ Int64.maxValue.toInt

/-- An integer that fits a value. -/
def smallInt (cs : List Char) : Except Failure Int32 :=
  match wideInt? cs with
  | some n =>
    if Value.minInt.toInt ≤ n ∧ n ≤ Value.maxInt.toInt then .ok (Int32.ofInt n)
    else .error (.intRange n)
  | none => .error (.malformed (String.ofList cs))

/-- What stands between two double quotes. -/
def quotedText? : List Char → Option (List Char)
  | '"' :: cs =>
    match cs.getLast? with
    | some '"' => if cs.contains '\n' then none else some cs.dropLast
    | _ => none
  | _ => none

def operand (cs : List Char) : Except Failure Operand :=
  let constants : List (String × Operand) :=
    [("true", .bool true), ("false", .bool false), ("null", .null), ("undefined", .undefined)]
  match constants.lookup (String.ofList cs) with
  | some operand => .ok operand
  | none =>
    if isInteger cs then
      (smallInt cs).map .int
    else
      match quotedText? cs with
      | some text => .ok (.text (String.ofList text))
      | none =>
        match slotDigits? cs with
        | some (digits, []) =>
          match slotNumber? digits with
          | some slot => .ok (.slot slot)
          | none => .error (.malformed (String.ofList cs))
        | _ => .error (.malformed (String.ofList cs))

def Query.command : Query → Nat → Command
  | state => .state
  | result => .result
  | promise => .promise

/-- The operation of a name and its argument, if they go together. -/
def OpName.op? : OpName → Option Int32 → Option Op
  | add, some n => some (.add n)
  | mul, some n => some (.mul n)
  | id, none => some .id
  | throw, none => some .throw
  | _, _ => none

/-- The command of a line without blanks at its ends. -/
def parse (line : List Char) : Except Failure Command :=
  let orMalformed {α : Type} (a : Option α) : Except Failure α :=
    match a with
    | some a => .ok a
    | none => .error (.malformed (String.ofList line))
  match form? line with
  | some (.word command) => .ok command
  | some (.settle kind digits text) => do
    let slot ← orMalformed (slotNumber? digits)
    return .settle kind slot (← operand text)
  | some (.query query digits) => return query.command (← orMalformed (slotNumber? digits))
  | some (.attach kind digits name argument) => do
    let slot ← orMalformed (slotNumber? digits)
    let n ← argument.mapM smallInt
    return .attach kind slot (← orMalformed (name.op? n))
  | none => .error (.malformed (String.ofList line))

end Promises.Shell
