import Promises.Text.Extend
import Promises.Text.Unprintable

namespace Promises.Text

/-- Whether a character is written by its code point. The two halfwidth sound marks extend the character
before them and have a width of their own nevertheless. -/
def needsCodePoint (c : Char) : Bool :=
  (inRanges extendRanges c && !inRanges [(0xFF9E, 0xFF9F)] c) || inRanges unprintableRanges c

/-- A character by its code point. -/
def codePoint (c : Char) : List Char :=
  ['\\', 'u', '\x7b'] ++ Nat.toDigits 16 c.toNat ++ ['\x7d']

/-- A character within double quotes. -/
def quoteChar (c : Char) : List Char :=
  match c with
  | '\x00' => ['\\', '0']
  | '\t' => ['\\', 't']
  | '\r' => ['\\', 'r']
  | '\n' => ['\\', 'n']
  | '\\' => ['\\', '\\']
  | '"' => ['\\', '"']
  | c => if needsCodePoint c then codePoint c else [c]

/-- A text in quotes. -/
def quote (s : String) : String :=
  String.ofList (['"'] ++ s.toList.flatMap quoteChar ++ ['"'])

end Promises.Text
