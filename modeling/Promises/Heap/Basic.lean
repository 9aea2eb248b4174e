import Promises.Promise.Record

/-!
Heaps of objects. A heap is an array of slots with a limit on how many of them hold an object. A
slot that loses its object moves on to its next generation and waits in the free list; references to
earlier generations do not resolve. `cell?` is the view of a heap by reference.
-/

namespace Promises

/-- An object of the heap. A plain object holds nothing. -/
inductive HeapObject
  | plain
  | promise (record : PromiseRecord)

namespace HeapObject

def kind : HeapObject → ObjectKind
  | plain => .object
  | promise _ => .promise

/-- The objects that this one refers to. -/
def references : HeapObject → List ObjectRef
  | plain => []
  | promise record => record.references

end HeapObject

/-- An object in its slot, with the number of times that it was rooted from outside. The number is a
machine word, which goes from its largest value back to zero. -/
structure Cell where
  object : HeapObject
  roots : UInt32

namespace Cell

def retained (cell : Cell) : Cell := { cell with roots := cell.roots + 1 }

/-- No root is taken where there is none. -/
def released (cell : Cell) : Cell :=
  if cell.roots = 0 then cell else { cell with roots := cell.roots - 1 }

@[simp] theorem object_retained (cell : Cell) : cell.retained.object = cell.object := rfl

@[simp] theorem object_released (cell : Cell) : cell.released.object = cell.object := by
  unfold released
  split <;> rfl

theorem toNat_roots_retained {cell : Cell} (hr : cell.roots.toNat + 1 < UInt32.size) :
    cell.retained.roots.toNat = cell.roots.toNat + 1 := by
  rw [retained, UInt32.toNat_add]
  exact Nat.mod_eq_of_lt hr

theorem released_of_roots_eq_zero {cell : Cell} (hr : cell.roots.toNat = 0) : cell.released = cell :=
  if_pos (UInt32.toNat_inj.1 hr)

theorem toNat_roots_released (cell : Cell) : cell.released.roots.toNat = cell.roots.toNat - 1 := by
  unfold released
  split
  · rename_i hr
    rw [hr]
    rfl
  · rename_i hr
    have hone : (1 : UInt32) ≤ cell.roots := by
      rw [UInt32.le_iff_toNat_le]
      exact Nat.pos_of_ne_zero fun h => hr (UInt32.toNat_inj.1 h)
    exact UInt32.toNat_sub_of_le _ _ hone

/-- To take back a root that was just given changes nothing, as long as the count could hold it. -/
theorem released_retained {cell : Cell} (hr : cell.roots.toNat + 1 < UInt32.size) :
    cell.retained.released = cell := by
  have hroots : cell.retained.released.roots = cell.roots := by
    rw [← UInt32.toNat_inj, toNat_roots_released, toNat_roots_retained hr, Nat.add_sub_cancel]
  obtain ⟨object, roots⟩ := cell
  exact congr (congrArg Cell.mk (object_released _)) hroots

end Cell

structure Slot where
  generation : UInt32
  cell : Option Cell

/-- The slot after its object has gone. -/
def Slot.vacate (s : Slot) : Slot := ⟨s.generation + 1, none⟩

/-- Whether a slot holds a rooted object. -/
def Slot.isRooted (slot : Slot) : Bool :=
  match slot.cell with
  | some cell => cell.roots != 0
  | none => false

structure Heap where
  slots : Array Slot
  /-- The slots without an object. The first is the next to be used. -/
  free : List Nat
  /-- The most objects that may live at a time. -/
  limit : Nat
  /-- How many objects live. -/
  live : Nat

namespace Heap

def empty (limit : Nat) : Heap := ⟨#[], [], limit, 0⟩

def isFull (h : Heap) : Bool := h.limit ≤ h.live

/-- What lies at a live reference. -/
def cell? (h : Heap) (ref : ObjectRef) : Option Cell :=
  match h.slots[ref.index]? with
  | some slot => if slot.generation = ref.generation then slot.cell else none
  | none => none

def object? (h : Heap) (ref : ObjectRef) : Option HeapObject :=
  (h.cell? ref).map (·.object)

def isLive (h : Heap) (ref : ObjectRef) : Bool := (h.cell? ref).isSome

/-- The kind of a live object. -/
def kind? (h : Heap) (ref : ObjectRef) : Option ObjectKind :=
  (h.object? ref).map (·.kind)

def isPromise (h : Heap) (ref : ObjectRef) : Bool := h.kind? ref == some .promise

/-- The record of a live promise, or why there is none. -/
def record? (h : Heap) (ref : ObjectRef) : Except EngineError PromiseRecord :=
  match h.object? ref with
  | some (.promise record) => .ok record
  | some .plain => .error (.notAPromise ref)
  | none => .error (.deadObject ref)

/-- How often a live object was rooted, and zero for others. -/
def rootCount (h : Heap) (ref : ObjectRef) : Nat :=
  match h.cell? ref with
  | some cell => cell.roots.toNat
  | none => 0

/-- The live objects that are rooted, by slot. -/
def roots (h : Heap) : List ObjectRef :=
  h.slots.toList.zipIdx.filterMap fun (slot, index) =>
    if slot.isRooted then some ⟨index, slot.generation⟩ else none

/-- How many live objects are rooted. -/
def rooted (h : Heap) : Nat := h.slots.countP Slot.isRooted

/-- Changes what lies at a live reference. -/
def update (h : Heap) (ref : ObjectRef) (f : Cell → Cell) : Heap :=
  { h with
    slots := h.slots.modify ref.index fun slot =>
      if slot.generation = ref.generation then { slot with cell := slot.cell.map f } else slot }

@[simp] theorem free_update (h : Heap) (ref : ObjectRef) (f : Cell → Cell) :
    (h.update ref f).free = h.free := rfl

@[simp] theorem limit_update (h : Heap) (ref : ObjectRef) (f : Cell → Cell) :
    (h.update ref f).limit = h.limit := rfl

@[simp] theorem live_update (h : Heap) (ref : ObjectRef) (f : Cell → Cell) :
    (h.update ref f).live = h.live := rfl

theorem cell?_update (h : Heap) (ref : ObjectRef) (f : Cell → Cell) (q : ObjectRef) :
    (h.update ref f).cell? q = if q = ref then (h.cell? ref).map f else h.cell? q := by
  obtain ⟨i, g⟩ := ref
  obtain ⟨j, k⟩ := q
  simp only [cell?, update, Array.getElem?_modify]
  grind

/-- Replaces the record of a live promise. -/
def setRecord (h : Heap) (ref : ObjectRef) (record : PromiseRecord) : Heap :=
  h.update ref fun cell => { cell with object := .promise record }

/-- Puts an object into a slot, the last one that was freed before a new one. -/
def place (h : Heap) (object : HeapObject) : ObjectRef × Heap :=
  match h.free with
  | index :: free =>
    (⟨index, (h.slots[index]?.map (·.generation)).getD 0⟩,
      { h with
        slots := h.slots.modify index fun slot => { slot with cell := some ⟨object, 0⟩ }
        free
        live := h.live + 1 })
  | [] =>
    (⟨h.slots.size, 0⟩,
      { h with slots := h.slots.push ⟨0, some ⟨object, 0⟩⟩, live := h.live + 1 })

/-- Puts an object into a heap that is not full. -/
def alloc (h : Heap) (object : HeapObject) : Option (ObjectRef × Heap) :=
  if h.isFull then none else some (h.place object)

/-- Roots a live object once more. Says whether it lives. One root more than the count can hold leaves
the object without any. -/
def retain (h : Heap) (ref : ObjectRef) : Bool × Heap :=
  (h.isLive ref, h.update ref Cell.retained)

/-- Takes one root from an object. Says whether there was one. -/
def release (h : Heap) (ref : ObjectRef) : Bool × Heap :=
  (h.rootCount ref != 0, h.update ref Cell.released)

end Heap

end Promises
