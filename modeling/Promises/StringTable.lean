import Std.Data.HashMap
import Promises.Value

/-!
Interned strings. A table numbers the strings it has seen, each once, in the order of their first
appearance.
-/

namespace Promises

structure StringTable where
  /-- The strings by number. -/
  strings : Array String
  /-- The numbers by string. -/
  ids : Std.HashMap String StringId

namespace StringTable

def empty : StringTable := ⟨#[], ∅⟩

def size (t : StringTable) : Nat := t.strings.size

def nextId (t : StringTable) : StringId := ⟨t.strings.size.toUInt32⟩

/-- A place for a new string. -/
def insert (t : StringTable) (s : String) : StringId × StringTable :=
  (t.nextId, ⟨t.strings.push s, t.ids.insert s t.nextId⟩)

/-- The number of a string, which is a new one for a new string. -/
def intern (t : StringTable) (s : String) : StringId × StringTable :=
  match t.ids[s]? with
  | some id => (id, t)
  | none => t.insert s

/-- The number of a string that the engine holds already, and shares. -/
def internShared (t : StringTable) (s : String) : StringId × StringTable :=
  match t.ids[s]? with
  | some id => (id, t)
  | none => t.insert s

def get? (t : StringTable) (id : StringId) : Option String :=
  t.strings[id.number.toNat]?

end StringTable

end Promises
