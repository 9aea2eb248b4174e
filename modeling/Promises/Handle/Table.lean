import Promises.Value

/-!
Handle tables. A table is a stack of bindings that nested scopes cut into parts; closing a scope
pops what it opened on. Each slot has a serial that moves on whenever its entry is popped, so that a
handle to a popped entry does not name what comes to lie in its slot later.
-/

namespace Promises

/-- What a handle stands for: an object of the engine, bound for good, and its kind. -/
structure Binding where
  isolate : IsolateId
  object : ObjectRef
  kind : ObjectKind
deriving DecidableEq

namespace Binding

def isPromise (b : Binding) : Bool := b.kind == .promise

/-- Another binding of the same kind and isolate. -/
def rebind (b : Binding) (object : ObjectRef) : Binding := { b with object }

end Binding

/-- What an opened scope is known by: how deep it lies and the height of the stack under it. -/
structure ScopeMark where
  depth : Nat
  start : Nat
deriving DecidableEq

structure HandleTable where
  isolate : IsolateId
  entries : Array Binding
  /-- One serial for every slot that was ever used. -/
  serials : Array (BitVec 16)
  /-- The heights at which the open scopes start, the innermost first. -/
  scopes : List Nat

namespace HandleTable

def empty (isolate : IsolateId) : HandleTable := ⟨isolate, #[], #[], []⟩

/-- The most entries that a table can be asked to make room for, at 16 bytes an entry. -/
def maxReserve : Nat := (1 <<< 63 - 1) / 16

/-- A table with room for `capacity` entries. The room does not show. -/
def reserve (isolate : IsolateId) (capacity : Nat) : Except Fault HandleTable :=
  if capacity ≤ maxReserve then .ok (empty isolate) else .error .capacityOverflow

/-- How many handles are live. -/
def size (t : HandleTable) : Nat := t.entries.size

def isEmpty (t : HandleTable) : Bool := t.entries.isEmpty

/-- The handle that the next entry gets. -/
def nextId (t : HandleTable) : HandleId :=
  ⟨t.isolate.tag, t.serials[t.entries.size]?.getD 0, BitVec.ofNat 24 t.entries.size⟩

/-- Puts a binding on top of the stack. -/
def push (b : Binding) : Action HandleTable HandleId := fun t =>
  if t.entries.size < HandleId.capacity then
    .ok t.nextId
      { t with
        entries := t.entries.push b
        serials := if t.entries.size < t.serials.size then t.serials else t.serials.push 0 }
  else
    .error .tableFull t

/-- The binding of a live handle. -/
def get (t : HandleTable) (h : HandleId) : Except Misuse Binding :=
  if h.isolate = t.isolate.tag then
    match t.entries[h.index.toNat]? with
    | some b =>
      if t.serials[h.index.toNat]? = some h.serial then .ok b else .error (.invalidHandle h)
    | none => .error (.invalidHandle h)
  else
    .error (.wrongIsolate t.isolate ⟨h.isolate.toNat⟩)

def openScope (t : HandleTable) : ScopeMark × HandleTable :=
  let scopes := t.entries.size :: t.scopes
  (⟨scopes.length, t.entries.size⟩, { t with scopes })

/-- The serials after the entries of `count` slots from `start` on were popped. -/
def retire (serials : Array (BitVec 16)) (start : Nat) : Nat → Array (BitVec 16)
  | 0 => serials
  | count + 1 => retire (serials.modify start (· + 1)) (start + 1) count

theorem getElem?_retire (serials : Array (BitVec 16)) (start count i : Nat) :
    (retire serials start count)[i]? =
      if start ≤ i ∧ i < start + count then serials[i]?.map (· + 1) else serials[i]? := by
  induction count generalizing serials start with
  | zero => simp only [retire]; split <;> first | omega | rfl
  | succ count ih =>
    rw [retire, ih, Array.getElem?_modify]
    grind

/-- Pops what lies above `start`. -/
def shrink (t : HandleTable) (start : Nat) : HandleTable :=
  { t with
    entries := t.entries.shrink start
    serials := retire t.serials start (t.entries.size - start) }

/-- Closes the innermost scope, which has to be the one that `mark` names. Gives the entries that
it pops, the oldest first. -/
def closeScope (t : HandleTable) (mark : ScopeMark) : Except Misuse (Array Binding) × HandleTable :=
  match t.scopes with
  | start :: scopes =>
    if mark = ⟨scopes.length + 1, start⟩ then
      (.ok (t.entries.extract start), { t.shrink start with scopes })
    else
      (.error .scopeMismatch, t)
  | [] => (.error .scopeMismatch, t)

/-- Closes all scopes and pops all entries. Gives them, the newest first. -/
def drain (t : HandleTable) : Array Binding × HandleTable :=
  (t.entries.reverse, { t.shrink 0 with scopes := [] })

end HandleTable

end Promises
