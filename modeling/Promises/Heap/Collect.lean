import Promises.Heap.Basic

namespace Promises

namespace Heap

/-- Marks what the pending references lead to, by slot. Each slot is entered once. -/
def mark (h : Heap) : Array Bool → List ObjectRef → Array Bool
  | marks, [] => marks
  | marks, ref :: pending =>
    match h.cell? ref with
    | none => mark h marks pending
    | some cell =>
      if marks[ref.index]? = some false then
        mark h (marks.setIfInBounds ref.index true) (cell.object.references ++ pending)
      else
        mark h marks pending
termination_by marks pending => (marks.count false, pending.length)
decreasing_by
  · exact Prod.Lex.right _ (by simp)
  · -- the slot that is entered loses its place among those without a mark
    rename_i fresh
    obtain ⟨bound, fresh⟩ := Array.getElem?_eq_some_iff.1 fresh
    have one : 0 < marks.count false := Array.count_pos_iff.2 (fresh ▸ Array.getElem_mem bound)
    have less : (marks.setIfInBounds ref.index true).count false = marks.count false - 1 := by
      simp [Array.setIfInBounds, bound, Array.count_set, fresh]
    exact Prod.Lex.left _ _ (by omega)
  · exact Prod.Lex.right _ (by simp)

/-- Whether the slot at an index holds an object without a mark. -/
def isGarbage (h : Heap) (marks : Array Bool) (index : Nat) : Bool :=
  match h.slots[index]? with
  | some slot => slot.cell.isSome && !marks.getD index false
  | none => false

/-- The slots whose objects are not marked, in order. -/
def garbage (h : Heap) (marks : Array Bool) : List Nat :=
  (List.range h.slots.size).filter (h.isGarbage marks)

/-- Frees what is not marked. The last slot freed is the first to be used again. -/
def sweep (h : Heap) (marks : Array Bool) : Heap :=
  { h with
    slots := h.slots.mapIdx fun index slot =>
      if slot.cell.isSome && !marks.getD index false then slot.vacate else slot
    free := (h.garbage marks).reverse ++ h.free
    live := h.live - (h.garbage marks).length }

/-- The marks of what is reachable from the rooted objects and the extra roots. -/
def reachableMarks (h : Heap) (extraRoots : List ObjectRef) : Array Bool :=
  h.mark (Array.replicate h.slots.size false) (h.roots ++ extraRoots)

/-- Frees what is not reachable from the rooted objects and the extra roots. -/
def collect (h : Heap) (extraRoots : List ObjectRef) : Collection × Heap :=
  let marks := h.reachableMarks extraRoots
  let swept := h.sweep marks
  (⟨h.live, swept.live, (h.garbage marks).length⟩, swept)

end Heap

end Promises
