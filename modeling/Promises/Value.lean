import Promises.Error

/-!
Native values. A value is one 64-bit word: an even word is an integer, shifted left by one; a word
that ends in 11 has a five-bit tag and a 59-bit payload. The checked constructors are `null`,
`undefined`, `bool`, `int`, `string` and `handle`; `ofInt32` and `special` build words unchecked.
-/

namespace Promises

/-- The name of a string within its isolate. -/
structure StringId where
  number : UInt32
deriving DecidableEq

/-- A value on the native side. Strings and handles mean something in their isolate only. -/
structure Value where
  word : BitVec 64
deriving DecidableEq

namespace Value

/-- What the five low bits of a special word say it is. -/
inductive Tag
  | bool
  | null
  | undefined
  | string
  | handle
deriving DecidableEq

def Tag.bits : Tag → BitVec 5
  | bool => 3
  | null => 7
  | undefined => 11
  | string => 15
  | handle => 19

/-- The word of an integer, whatever its size. -/
def ofInt32 (n : Int32) : Value where
  word := n.toBitVec.signExtend 64 <<< 1

/-- The word of a tag and a payload. A payload of more than 59 bits loses its high end, and a tag
of more than five bits runs into the payload. -/
def special (tag : BitVec 8) (payload : BitVec 64) : Value where
  word := tag.setWidth 64 ||| payload <<< 5

def isInt (v : Value) : Bool := !v.word.getLsbD 0

def isSpecial (v : Value) : Bool := v.word.setWidth 2 == 3

/-- The number that the word holds as an integer, whether or not it is one. -/
def intPart (v : Value) : Int32 :=
  ⟨⟨(v.word.sshiftRight 1).setWidth 32⟩⟩

/-- The five-bit tag of a special word, and zero for any other. -/
def tagBits (v : Value) : BitVec 5 :=
  if v.isSpecial then v.word.setWidth 5 else 0

/-- All but the five low bits. -/
def payload (v : Value) : BitVec 59 := v.word.extractLsb' 5 59

/-- The word of a tag and a payload that fits. -/
def tagged (tag : Tag) (payload : BitVec 59) : Value where
  word := payload ++ tag.bits

def null : Value := tagged .null 0

def undefined : Value := tagged .undefined 0

instance : Inhabited Value := ⟨undefined⟩

def bool (b : Bool) : Value := tagged .bool (if b then 1 else 0)

/-- The least integer of a native value. -/
def minInt : Int32 := -1073741824

/-- The greatest integer of a native value. -/
def maxInt : Int32 := 1073741823

/-- Whether an integer has 31 bits at most. -/
def fits (n : Int32) : Bool := minInt ≤ n && n ≤ maxInt

def int (n : Int32) : Except Fault Value :=
  if fits n then .ok (ofInt32 n) else .error .intOutOfRange

def string (id : StringId) : Value := tagged .string (id.number.toBitVec.setWidth 59)

def handle (h : HandleId) : Value := tagged .handle h.toBits

def isNull (v : Value) : Bool := v == null

def isUndefined (v : Value) : Bool := v == undefined

def isNullish (v : Value) : Bool := v.isNull || v.isUndefined

def isBool (v : Value) : Bool := v.tagBits == Tag.bool.bits

def isString (v : Value) : Bool := v.tagBits == Tag.string.bits

def isHandle (v : Value) : Bool := v.tagBits == Tag.handle.bits

/-- Any payload but zero is true. -/
def bool? (v : Value) : Option Bool :=
  if v.isBool then some (v.payload != 0) else none

def int? (v : Value) : Option Int32 :=
  if v.isInt then some v.intPart else none

/-- The low 32 bits of the payload. -/
def stringId? (v : Value) : Option StringId :=
  if v.isString then some ⟨⟨v.payload.setWidth 32⟩⟩ else none

def handle? (v : Value) : Option HandleId :=
  if v.isHandle then some (.ofBits v.payload) else none

/-- The text of a value without the tables of its isolate. -/
def text (v : Value) : String :=
  if v.isNull then "null"
  else if v.isUndefined then "undefined"
  else if let some b := v.bool? then toString b
  else if let some n := v.int? then toString n
  else if let some id := v.stringId? then s!"[string #{id.number}]"
  else if let some h := v.handle? then s!"[object #{h.index.toNat}]"
  else "[unknown]"

instance : ToString Value := ⟨text⟩

/-- The text of the word's make-up. -/
def wordText (v : Value) : String :=
  if v.isInt then s!"Int({v.intPart})"
  else if v.tagBits == Tag.null.bits then "Null"
  else if v.tagBits == Tag.undefined.bits then "Undefined"
  else if v.isBool then s!"Bool({v.payload != 0})"
  else if v.isString then s!"String(#{v.payload.toNat})"
  else if v.isHandle then s!"Handle(HandleId({v.payload.toNat}))"
  else "RawValue(0x" ++ String.ofList (Nat.toDigits 16 v.word.toNat) ++ ")"

end Value

/-- The name of a slot, which has to be one that a table can have. -/
def HandleId.ofIndex (isolate : IsolateId) (index : Nat) (serial : BitVec 16) :
    Except Fault HandleId :=
  if index < HandleId.capacity then .ok ⟨isolate.tag, serial, BitVec.ofNat 24 index⟩
  else .error .indexOutOfRange

end Promises
