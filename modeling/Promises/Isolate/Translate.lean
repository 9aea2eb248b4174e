import Promises.Isolate.Basic

namespace Promises

namespace Isolate

variable {ε φ : Type}

/-- A native value as the engine stores it. A word that is no value stands for undefined. -/
def toManaged (iso : Isolate ε φ) (v : Value) : Except Misuse ManagedValue :=
  if let some n := v.int? then .ok (.int n)
  else if let some b := v.bool? then .ok (.bool b)
  else if v.isNull then .ok .null
  else if let some id := v.stringId? then
    match iso.strings.get? id with
    | some text => .ok (.string text)
    | none => .error (.invalidString id.number.toNat)
  else if let some h := v.handle? then
    (iso.handles.get h).map fun b => .object b.object
  else .ok .undefined

/-- A value of the engine on the native side. An object gets a handle in the current scope. -/
def toNative [Engine ε] : ManagedValue → Action (Isolate ε φ) Value
  | .undefined => return .undefined
  | .null => return .null
  | .bool b => return .bool b
  | .int n =>
    match Value.int n with
    | .ok v => return v
    | .error fault => throw fault
  | .string text => return .string (← internShared text)
  | .object ref => return .handle (← wrap ref)

end Isolate

end Promises
