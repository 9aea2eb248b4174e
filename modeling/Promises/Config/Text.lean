import Promises.Config.Basic
import Promises.Text.Lines
import Promises.Text.Numeral

/-!
Configurations as text. A line is empty or has a setting, `heap_limit = 64` or
`handle_capacity = 8`, and may end in a comment after `#`. Each key occurs once at most and may be
quoted. A value is an integer, in base 10 with an optional sign or in base 16, 8 or 2 after `0x`,
`0o` or `0b`, with single underscores between digits.
-/

namespace Promises

namespace Config

/-- The names of settings. -/
inductive Key
  | heapLimit
  | handleCapacity
deriving DecidableEq

def Key.name : Key → List Char
  | heapLimit => "heap_limit".toList
  | handleCapacity => "handle_capacity".toList

def Key.ofName? (cs : List Char) : Option Key :=
  if cs = heapLimit.name then some .heapLimit
  else if cs = handleCapacity.name then some .handleCapacity
  else none

def isSpace (c : Char) : Bool := c = ' ' || c = '\t'

def skipSpace (cs : List Char) : List Char := cs.dropWhile isSpace

/-- Whether a comment may hold a character. -/
def isCommentChar (c : Char) : Bool := c = '\t' || (0x20 ≤ c.toNat && c.toNat ≠ 0x7F)

/-- Whether nothing but blanks and a comment is left of a line. -/
def isEnd (cs : List Char) : Bool :=
  match skipSpace cs with
  | [] => true
  | '#' :: comment => comment.all isCommentChar
  | _ => false

def isBareKeyChar (c : Char) : Bool := c.isAlphanum || c = '_' || c = '-'

/-- The character of a code point, written with so many digits. -/
def codePoint? (width : Nat) (cs : List Char) : Option Char := do
  let n ← if (cs.take width).length = width then Text.numeral? 16 (cs.take width) else none
  if n.isValidChar then some (Char.ofNat n) else none

/-- What double quotes hold, and the rest of the line after them. Of the escapes only those for code
points can be part of a key. -/
def quotedKey? : List Char → Option (List Char × List Char)
  | [] => none
  | '"' :: rest => some ([], rest)
  | '\\' :: 'u' :: a :: b :: c :: d :: rest => do
    let char ← codePoint? 4 [a, b, c, d]
    let (key, rest) ← quotedKey? rest
    return (char :: key, rest)
  | '\\' :: 'U' :: a :: b :: c :: d :: e :: f :: g :: h :: rest => do
    let char ← codePoint? 8 [a, b, c, d, e, f, g, h]
    let (key, rest) ← quotedKey? rest
    return (char :: key, rest)
  | '\\' :: _ => none
  | c :: rest => do
    let (key, rest) ← quotedKey? rest
    return (c :: key, rest)

/-- A key and the rest of the line. -/
def key? : List Char → Option (List Char × List Char)
  | '"' :: rest => quotedKey? rest
  | '\'' :: rest =>
    match rest.dropWhile (· ≠ '\'') with
    | _ :: after => some (rest.takeWhile (· ≠ '\''), after)
    | [] => none
  | cs => some (cs.takeWhile isBareKeyChar, cs.dropWhile isBareKeyChar)

/-- The digits of a numeral without the underscores, each of which has to stand between two
digits. -/
def joinDigits? : List Char → Option (List Char)
  | [] => some []
  | ['_'] => none
  | '_' :: _ => none
  | c :: '_' :: d :: rest => if d = '_' then none else (joinDigits? (d :: rest)).map (c :: ·)
  | c :: rest => (joinDigits? rest).map (c :: ·)

/-- A numeral of a base. -/
def radix? (base : Nat) (cs : List Char) : Option Nat := do
  Text.numeral? base (← joinDigits? cs)

/-- A numeral of base ten, which has no leading zero. -/
def decimal? (cs : List Char) : Option Nat :=
  match cs with
  | '0' :: _ :: _ => none
  | cs => radix? 10 cs

/-- An integer of 64 bits that is not negative. -/
def number? (cs : List Char) : Option Nat := do
  let n ← match cs with
    | '0' :: 'x' :: digits => radix? 16 digits
    | '0' :: 'o' :: digits => radix? 8 digits
    | '0' :: 'b' :: digits => radix? 2 digits
    | '+' :: digits => decimal? digits
    | '-' :: digits => (decimal? digits).filter (· = 0)
    | digits => decimal? digits
  if n < 1 <<< 63 then some n else none

def isNumberChar (c : Char) : Bool := c.isAlphanum || c = '_' || c = '+' || c = '-'

/-- A line: nothing, or a setting. -/
def setting? (line : List Char) : Option (Option (Key × Nat)) :=
  if isEnd line then
    some none
  else do
    let (name, rest) ← key? (skipSpace line)
    let key ← Key.ofName? name
    match skipSpace rest with
    | '=' :: rest =>
      let rest := skipSpace rest
      let n ← number? (rest.takeWhile isNumberChar)
      if isEnd (rest.dropWhile isNumberChar) then some (some (key, n)) else none
    | _ => none

/-- The settings of a text, in order. -/
def settings? (text : List Char) : Option (List (Key × Nat)) := do
  let text := match text with
    | '\uFEFF' :: text => text
    | text => text
  return (← (Text.lines text).mapM setting?).filterMap id

/-- The configuration of settings. What is not set has its default. -/
def ofSettings (settings : List (Key × Nat)) : Config where
  heapLimit := (settings.lookup .heapLimit).getD default.heapLimit
  handleCapacity := (settings.lookup .handleCapacity).getD default.handleCapacity

/-- The configuration that a text describes. -/
def ofText (text : String) : Except ConfigError Config :=
  match settings? text.toList with
  | some settings =>
    if (settings.map (·.1)).Nodup then (ofSettings settings).validate else .error .malformed
  | none => .error .malformed

/-- The configuration in a file. -/
def ofFile (path : String) (content : Except ReadError ByteArray) : Except ConfigError Config :=
  match textOf content with
  | .ok text => ofText text
  | .error cause => .error (.unreadable path cause)

end Config

end Promises
