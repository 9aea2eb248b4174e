import Promises.Proofs.Heap.Record

namespace Promises

def PromiseRecord.tally (p : ReactionPair → Bool) (r : PromiseRecord) : Nat :=
  r.reactions.toList.countP p

def HeapObject.tally (p : ReactionPair → Bool) : HeapObject → Nat
  | plain => 0
  | promise record => record.tally p

def Slot.tally (p : ReactionPair → Bool) (slot : Slot) : Nat :=
  match slot.cell with
  | some cell => cell.object.tally p
  | none => 0

theorem PromiseRecord.tally_addReactions (p : ReactionPair → Bool) (r : PromiseRecord)
    (pair : ReactionPair) :
    (r.addReactions pair).tally p = r.tally p + if p pair then 1 else 0 := by
  rw [tally, addReactions, Array.toList_push, List.countP_append, List.countP_singleton]
  rfl

theorem total_mapIdx_le {α : Type} (weight : α → Nat) (f : Nat → α → α)
    (hf : ∀ i x, weight (f i x) ≤ weight x) (xs : List α) :
    total weight (xs.mapIdx f) ≤ total weight xs := by
  induction xs generalizing f with
  | nil => exact Nat.le_refl _
  | cons x xs ih =>
    have hx := hf 0 x
    have hxs := ih (fun i => f (i + 1)) fun i => hf (i + 1)
    simp only [List.mapIdx_cons, total]
    omega

theorem total_congr {α : Type} {v w : α → Nat} {xs : List α} (h : ∀ x ∈ xs, v x = w x) :
    total v xs = total w xs := by
  induction xs with
  | nil => rfl
  | cons x xs ih =>
    rw [total, total, h x List.mem_cons_self, ih fun y hy => h y (List.mem_cons_of_mem x hy)]

namespace Heap

/-- How many stored pairs of reactions `p` holds of. -/
def tally (p : ReactionPair → Bool) (h : Heap) : Nat := total (Slot.tally p) h.slots.toList

variable {h : Heap} (p : ReactionPair → Bool)

@[simp] theorem tally_empty (limit : Nat) : (empty limit).tally p = 0 := rfl

theorem tally_update {ref : ObjectRef} {cell : Cell} (f : Cell → Cell)
    (hc : h.cell? ref = some cell) :
    (h.update ref f).tally p + cell.object.tally p = h.tally p + (f cell).object.tally p := by
  have hi := cell?_eq_some_iff.1 hc
  have hsum := total_modify (Slot.tally p)
    (fun slot : Slot => if slot.generation = ref.generation then
      { slot with cell := slot.cell.map f } else slot)
    h.slots.toList ref.index _ (by simpa using hi)
  simpa [tally, update, Slot.tally] using hsum

theorem tally_setRecord {ref : ObjectRef} {old : PromiseRecord} (hr : h.record? ref = .ok old)
    (new : PromiseRecord) :
    (h.setRecord ref new).tally p + old.tally p = h.tally p + new.tally p := by
  obtain ⟨roots, hc⟩ := record?_eq_ok_iff.1 hr
  exact tally_update p _ hc

/-- A record may be replaced by one with the same reactions. -/
theorem tally_setRecord_of_reactions {ref : ObjectRef} {old new : PromiseRecord}
    (hr : h.record? ref = .ok old) (he : new.reactions = old.reactions) :
    (h.setRecord ref new).tally p = h.tally p := by
  have hsum := tally_setRecord p hr new
  rw [show new.tally p = old.tally p by rw [PromiseRecord.tally, he]; rfl] at hsum
  omega

theorem tally_update_of_object {f : Cell → Cell} (hf : ∀ cell, (f cell).object = cell.object)
    (ref : ObjectRef) : (h.update ref f).tally p = h.tally p := by
  cases hc : h.cell? ref with
  | none => rw [update_of_cell?_eq_none hc]
  | some cell =>
    have hsum := tally_update p f hc
    rw [hf] at hsum
    omega

theorem tally_retain (ref : ObjectRef) : (h.retain ref).2.tally p = h.tally p :=
  tally_update_of_object p Cell.object_retained ref

theorem tally_release (ref : ObjectRef) : (h.release ref).2.tally p = h.tally p :=
  tally_update_of_object p Cell.object_released ref

theorem tally_collect_le (extra : List ObjectRef) :
    (h.collect extra).2.tally p ≤ h.tally p := by
  simp only [tally, collect, sweep, Array.toList_mapIdx]
  apply total_mapIdx_le
  intro i slot
  split
  · exact Nat.zero_le _
  · exact Nat.le_refl _

/-- A new object stores no reactions. -/
theorem tally_place (hw : h.WellFormed) {object : HeapObject}
    (ho : ∀ record, object = .promise record → record = .new) :
    (h.place object).2.tally p = h.tally p := by
  have hnew : object.tally p = 0 := by
    cases object with
    | plain => rfl
    | promise record =>
      rw [ho record rfl]
      rfl
  unfold place
  split
  · rename_i index free hf
    obtain ⟨g, hs⟩ := (hw.mem_free index).1 (hf ▸ List.mem_cons_self)
    have hsum := total_modify (Slot.tally p)
      (fun slot : Slot => { slot with cell := some ⟨object, 0⟩ }) h.slots.toList index _
      (by simpa using hs)
    simp only [Slot.tally, hnew, Nat.add_zero] at hsum
    simpa [tally] using hsum
  · simp only [tally, Array.toList_push, total_append, total, Slot.tally, hnew, Nat.add_zero]

theorem tally_congr {q : ReactionPair → Bool}
    (hpq : ∀ ref record, h.record? ref = .ok record → ∀ pair ∈ record.reactions.toList,
      p pair = q pair) : h.tally p = h.tally q := by
  apply total_congr
  intro slot hs
  obtain ⟨i, hi⟩ := List.mem_iff_getElem?.1 hs
  obtain ⟨g, _ | ⟨_ | record, roots⟩⟩ := slot
  · rfl
  · rfl
  · have hc : h.cell? ⟨i, g⟩ = some ⟨.promise record, roots⟩ :=
      cell?_eq_some_iff.2 (by simpa using hi)
    exact List.countP_congr fun pair hp => by rw [hpq _ record (record?_of_cell? hc) pair hp]

theorem tally_eq_zero
    (hp : ∀ ref record, h.record? ref = .ok record → ∀ pair ∈ record.reactions.toList,
      p pair = false) : h.tally p = 0 := by
  rw [tally_congr p (q := fun _ => false) hp]
  have hslot (slot : Slot) : slot.tally (fun _ => false) = 0 := by
    obtain ⟨g, _ | ⟨_ | record, roots⟩⟩ := slot
    · rfl
    · rfl
    · exact List.countP_eq_zero.2 fun _ _ => Bool.false_ne_true
  unfold tally
  induction h.slots.toList with
  | nil => rfl
  | cons slot slots ih => rw [total, hslot, ih]

/-- A stored pair of reactions counts. -/
theorem tally_pos {ref : ObjectRef} {record : PromiseRecord} {pair : ReactionPair}
    (hr : h.record? ref = .ok record) (hm : pair ∈ record.reactions.toList)
    (hp : p pair = true) : 0 < h.tally p := by
  have hsum := tally_setRecord p hr .new
  have hpos : 0 < record.tally p := List.countP_pos_iff.2 ⟨pair, hm, hp⟩
  have hnone : PromiseRecord.new.tally p = 0 := rfl
  omega

/-- Where at most one pair counts, two that do are the same. -/
theorem eq_of_tally_le_one (hle : h.tally p ≤ 1) {ref ref' : ObjectRef}
    {record record' : PromiseRecord} {pair pair' : ReactionPair} (hr : h.record? ref = .ok record)
    (hm : pair ∈ record.reactions.toList) (hp : p pair = true) (hr' : h.record? ref' = .ok record')
    (hm' : pair' ∈ record'.reactions.toList) (hp' : p pair' = true) : ref = ref' ∧ pair = pair' := by
  have hsum := tally_setRecord p hr .new
  have hnone : PromiseRecord.new.tally p = 0 := rfl
  have hpos : 0 < record.tally p := List.countP_pos_iff.2 ⟨pair, hm, hp⟩
  by_cases hsame : ref' = ref
  · subst hsame
    obtain rfl : record = record' := Except.ok.inj (hr.symm.trans hr')
    have hone : record.reactions.toList.countP p = 1 := by
      change record.tally p = 1
      omega
    rw [List.countP_eq_length_filter] at hone
    obtain ⟨only, honly⟩ := List.length_eq_one_iff.1 hone
    have hfound := List.mem_filter.2 ⟨hm, hp⟩
    have hfound' := List.mem_filter.2 ⟨hm', hp'⟩
    rw [honly] at hfound hfound'
    exact ⟨rfl, (List.mem_singleton.1 hfound).trans (List.mem_singleton.1 hfound').symm⟩
  · -- without the first record the second one would still count
    rw [← record?_setRecord_of_ne hsame .new] at hr'
    have hother := tally_pos p hr' hm' hp'
    omega

end Heap

end Promises
