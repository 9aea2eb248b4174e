import Mathlib.Algebra.BigOperators.Group.Finset.Basic
import Mathlib.Algebra.Order.BigOperators.Group.Finset
import Mathlib.Data.Set.Card
import Mathlib.Logic.Relation
import Promises.Proofs.Heap.Record

namespace Promises

namespace Heap

/-- Marking takes so many rounds from the pending references to the last marks. A round takes one
reference off, and enters its object if that lives and was not entered before. -/
inductive Marks (h : Heap) : Array Bool → List ObjectRef → Nat → Array Bool → Prop
  | done (marks : Array Bool) : Marks h marks [] 0 marks
  | skip {marks result : Array Bool} {ref : ObjectRef} {pending : List ObjectRef} {rounds : Nat}
    (hs : h.cell? ref = none ∨ marks[ref.index]? ≠ some false)
    (hr : Marks h marks pending rounds result) : Marks h marks (ref :: pending) (rounds + 1) result
  | enter {marks result : Array Bool} {ref : ObjectRef} {cell : Cell} {pending : List ObjectRef}
    {rounds : Nat} (hc : h.cell? ref = some cell) (hf : marks[ref.index]? = some false)
    (hr : Marks h (marks.setIfInBounds ref.index true) (cell.object.references ++ pending)
      rounds result) : Marks h marks (ref :: pending) (rounds + 1) result

/-- How many references the object of a slot holds. -/
def outdegree (h : Heap) (index : Nat) : Nat :=
  match h.slots[index]? with
  | some ⟨_, some cell⟩ => cell.object.references.length
  | _ => 0

/-- How many references the objects of the heap hold. -/
def referenceCount (h : Heap) : Nat := ∑ i ∈ Finset.range h.slots.size, h.outdegree i

/-- How many references the objects hold that are not marked. -/
def unmarkedReferences (h : Heap) (marks : Array Bool) : Nat :=
  ∑ i ∈ Finset.range h.slots.size, if marks[i]? = some false then h.outdegree i else 0

theorem unmarkedReferences_le (h : Heap) (marks : Array Bool) :
    h.unmarkedReferences marks ≤ h.referenceCount := by
  apply Finset.sum_le_sum
  intro i _
  split
  · exact le_rfl
  · exact Nat.zero_le _

/-- The references of an object that is entered are no longer those of an unmarked one. -/
theorem unmarkedReferences_set {h : Heap} {marks : Array Bool} {ref : ObjectRef} {cell : Cell}
    (hc : h.cell? ref = some cell) (hf : marks[ref.index]? = some false) :
    h.unmarkedReferences (marks.setIfInBounds ref.index true) + cell.object.references.length =
      h.unmarkedReferences marks := by
  have hslot := cell?_eq_some_iff.1 hc
  obtain ⟨hsize, -⟩ := Array.getElem?_eq_some_iff.1 hslot
  have hmem : ref.index ∈ Finset.range h.slots.size := Finset.mem_range.2 hsize
  have hout : h.outdegree ref.index = cell.object.references.length := by
    rw [outdegree, hslot]
  have hset : (marks.setIfInBounds ref.index true)[ref.index]? ≠ some false := by
    rw [Array.getElem?_setIfInBounds, if_pos rfl]
    split <;> simp
  -- the two sums differ at the slot of the object only
  rw [unmarkedReferences, unmarkedReferences, ← Finset.sum_erase_add _ _ hmem,
    ← Finset.sum_erase_add (Finset.range h.slots.size) _ hmem, if_neg hset, if_pos hf, hout,
    Nat.add_zero]
  congr 1
  apply Finset.sum_congr rfl
  intro i hi
  rw [Array.getElem?_setIfInBounds, if_neg (Finset.ne_of_mem_erase hi).symm]

/-- Marking ends after as many rounds as there are references to look at, at most. -/
theorem marks_mark (h : Heap) (marks : Array Bool) (pending : List ObjectRef) :
    ∃ rounds, h.Marks marks pending rounds (h.mark marks pending) ∧
      rounds ≤ pending.length + h.unmarkedReferences marks := by
  fun_induction mark h marks pending with
  | case1 marks => exact ⟨0, .done marks, Nat.zero_le _⟩
  | case2 marks ref pending hc ih =>
    obtain ⟨rounds, hr, hle⟩ := ih
    refine ⟨rounds + 1, .skip (Or.inl hc) hr, ?_⟩
    rw [List.length_cons]
    omega
  | case3 marks ref pending cell hc hf ih =>
    -- the references of the object move from the unmarked ones to those to look at
    obtain ⟨rounds, hr, hle⟩ := ih
    have hset := unmarkedReferences_set hc hf
    refine ⟨rounds + 1, .enter hc hf hr, ?_⟩
    rw [List.length_append] at hle
    rw [List.length_cons]
    omega
  | case4 marks ref pending cell hc hf ih =>
    obtain ⟨rounds, hr, hle⟩ := ih
    refine ⟨rounds + 1, .skip (Or.inr hf) hr, ?_⟩
    rw [List.length_cons]
    omega

/-- A live object holds a reference. -/
def Refers (h : Heap) (p q : ObjectRef) : Prop :=
  ∃ cell, h.cell? p = some cell ∧ q ∈ cell.object.references

/-- Where reachability starts: at the rooted objects and the extra roots that live. -/
def IsRoot (h : Heap) (extra : List ObjectRef) (q : ObjectRef) : Prop :=
  h.rootCount q ≠ 0 ∨ q ∈ extra ∧ h.isLive q = true

/-- References lead from a root to the object, through live objects. -/
def Reachable (h : Heap) (extra : List ObjectRef) (q : ObjectRef) : Prop :=
  ∃ root, h.IsRoot extra root ∧ Relation.ReflTransGen h.Refers root q

variable {h : Heap} {extra : List ObjectRef}

theorem IsRoot.reaches {q : ObjectRef} (hr : h.IsRoot extra q) : h.Reaches (h.roots ++ extra) q := by
  rcases hr with hr | ⟨he, hl⟩
  · exact .start (List.mem_append_left _ (mem_roots.2 hr)) (isLive_of_rootCount hr)
  · exact .start (List.mem_append_right _ he) hl

/-- Marking follows references between live objects, which is what reachability does. -/
theorem reaches_iff {q : ObjectRef} :
    h.Reaches (h.roots ++ extra) q ↔ h.isLive q = true ∧ h.Reachable extra q := by
  constructor
  · intro hr
    refine ⟨hr.isLive, ?_⟩
    induction hr with
    | start hm hl =>
      refine ⟨_, ?_, .refl⟩
      rcases List.mem_append.1 hm with hm | hm
      · exact Or.inl (mem_roots.1 hm)
      · exact Or.inr ⟨hm, hl⟩
    | step _ hc hn _ ih =>
      obtain ⟨root, hroot, hpath⟩ := ih
      exact ⟨root, hroot, hpath.tail ⟨_, hc, hn⟩⟩
  · rintro ⟨hl, root, hroot, hpath⟩
    induction hpath with
    | refl => exact hroot.reaches
    | tail _ hr ih =>
      -- what holds a reference lives, and so it is marked before
      obtain ⟨cell, hc, hn⟩ := hr
      exact .step (ih (isLive_of_cell? hc)) hc hn hl

/-- The slot of an object that a collection frees waits in the free list, once. -/
theorem WellFormed.count_free_collect (hw : h.WellFormed) {q : ObjectRef} (hl : h.isLive q = true)
    (hd : (h.collect extra).2.isLive q = false) :
    (h.collect extra).2.free.count q.index = 1 := by
  obtain ⟨cell, hc⟩ := isLive_iff.1 hl
  have hslot := cell?_eq_some_iff.1 hc
  have hmark : (h.reachableMarks extra).getD q.index false = false := by
    have hnone : (h.sweep (h.reachableMarks extra)).cell? q = none := not_isLive_iff.1 hd
    rw [cell?_sweep, hc] at hnone
    cases hm : (h.reachableMarks extra).getD q.index false with
    | false => rfl
    | true => rw [hm] at hnone; cases hnone
  have hmem : q.index ∈ (h.collect extra).2.free := by
    apply List.mem_append_left
    rw [List.mem_reverse, mem_garbage]
    exact ⟨q.generation, cell, hslot, hmark⟩
  exact List.count_eq_one_of_mem (hw.collect extra).free_nodup hmem

/-- The count of live objects counts the references that resolve. -/
theorem WellFormed.ncard_isLive (hw : h.WellFormed) :
    {q | h.isLive q = true}.ncard = h.live := by
  have hset : {q | h.isLive q = true} = ((h.refs Slot.isOccupied).toFinset : Set ObjectRef) := by
    ext q
    rw [List.coe_toFinset]
    exact mem_refs_isOccupied.symm
  rw [hset, Set.ncard_coe_finset, List.toFinset_card_of_nodup (h.nodup_refs _), length_refs,
    hw.live_eq]

theorem WellFormed.live_collect (hw : h.WellFormed) (extra : List ObjectRef) :
    h.live = (h.collect extra).2.live + (h.collect extra).1.freed := by
  have hsplit := countP_sweep h (h.reachableMarks extra)
  rw [← (hw.sweep _).live_eq, ← hw.live_eq] at hsplit
  exact hsplit.symm

/-- A collection ends, and frees exactly what is not reachable. -/
theorem frees_unreachable_exactly (hw : h.WellFormed) {stats : Collection} {k : Heap}
    (hk : h.collect extra = (stats, k)) :
    (∃ rounds, h.Marks (Array.replicate h.slots.size false) (h.roots ++ extra) rounds
        (h.reachableMarks extra) ∧ rounds ≤ (h.roots ++ extra).length + h.referenceCount) ∧
      (∀ q, k.isLive q = true ↔ h.isLive q = true ∧ h.Reachable extra q) ∧
      (∀ q, k.isLive q = true → k.cell? q = h.cell? q) ∧
      (∀ q, h.isLive q = true → ¬ h.Reachable extra q →
        k.cell? q = none ∧ k.free.count q.index = 1) ∧
      stats.before = {q | h.isLive q = true}.ncard ∧ stats.after = {q | k.isLive q = true}.ncard ∧
      stats.before = stats.after + stats.freed ∧ k.live = stats.after ∧ k.WellFormed := by
  obtain ⟨rfl, rfl⟩ : (h.collect extra).1 = stats ∧ (h.collect extra).2 = k := by rw [hk]; simp
  have hlive (q : ObjectRef) :
      (h.collect extra).2.isLive q = true ↔ h.isLive q = true ∧ h.Reachable extra q :=
    isLive_collect_iff.trans reaches_iff
  refine ⟨?_, hlive, ?_, ?_, ?_, ?_, ?_, rfl, hw.collect extra⟩
  · obtain ⟨rounds, hr, hle⟩ := h.marks_mark (Array.replicate h.slots.size false) (h.roots ++ extra)
    have hall := h.unmarkedReferences_le (Array.replicate h.slots.size false)
    exact ⟨rounds, hr, by omega⟩
  · intro q hq
    exact cell?_collect_of_reaches (isLive_collect_iff.1 hq)
  · intro q hq hn
    have hdead : (h.collect extra).2.isLive q = false := by
      rw [← Bool.not_eq_true, hlive]
      exact fun hr => hn hr.2
    exact ⟨not_isLive_iff.1 hdead, hw.count_free_collect hq hdead⟩
  · exact hw.ncard_isLive.symm
  · exact (hw.collect extra).ncard_isLive.symm
  · exact hw.live_collect extra

/-- Two promises that hold each other, next to a rooted one that waits for another, and a vacant
slot. -/
def knotted : Heap where
  slots :=
    let slot (record : PromiseRecord) (roots : UInt32) : Slot := ⟨0, some ⟨.promise record, roots⟩⟩
    #[slot ⟨.fulfilled (.object ⟨1, 0⟩), true, false, #[]⟩ 0,
      slot ⟨.fulfilled (.object ⟨0, 0⟩), true, false, #[]⟩ 0,
      slot ⟨.pending, false, true, #[⟨.adopt ⟨3, 0⟩, .adopt ⟨3, 0⟩⟩]⟩ 1,
      slot ⟨.pending, true, false, #[]⟩ 0,
      ⟨4, none⟩]
  free := [4]
  limit := 8
  live := 4

theorem wellFormed_knotted : knotted.WellFormed where
  free_nodup := List.nodup_singleton 4
  mem_free i := by
    rcases i with _ | _ | _ | _ | _ | i <;> simp [knotted]
  live_eq := rfl
  live_le := by decide
  size_le := by decide

/-- The promises that hold each other go, whatever the extra roots repeat or have outlived. -/
theorem frees_unreachable_exactly_knotted :
    ∃ k, knotted.collect [⟨3, 0⟩, ⟨4, 3⟩, ⟨3, 0⟩] = (⟨4, 2, 2⟩, k) ∧
      ¬ knotted.Reachable [⟨3, 0⟩, ⟨4, 3⟩, ⟨3, 0⟩] ⟨0, 0⟩ ∧
      k.cell? ⟨0, 0⟩ = none ∧ k.free.count 0 = 1 := by
  have hk : knotted.collect [⟨3, 0⟩, ⟨4, 3⟩, ⟨3, 0⟩] =
      (⟨4, 2, 2⟩, knotted.sweep #[false, false, true, true, false]) := by
    have hmarks : knotted.reachableMarks [⟨3, 0⟩, ⟨4, 3⟩, ⟨3, 0⟩] =
        #[false, false, true, true, false] := by
      cbv
    rw [collect, hmarks]
    rfl
  obtain ⟨-, hlive, -, hfreed, -⟩ := frees_unreachable_exactly wellFormed_knotted hk
  have hn : ¬ knotted.Reachable [⟨3, 0⟩, ⟨4, 3⟩, ⟨3, 0⟩] ⟨0, 0⟩ := by
    intro hr
    have hl := (hlive ⟨0, 0⟩).2 ⟨rfl, hr⟩
    cases hl
  exact ⟨_, hk, hn, hfreed ⟨0, 0⟩ rfl hn⟩

end Heap

end Promises
