import Mathlib.Data.List.Nodup
import Promises.Agent.Workload

namespace Promises

/-- Whether a slot holds an object. -/
def Slot.isOccupied (slot : Slot) : Bool := slot.cell.isSome

theorem countP_modify {α : Type} (p : α → Bool) (f : α → α) (xs : List α) (i : Nat) (x : α)
    (hx : xs[i]? = some x) :
    (xs.modify i f).countP p + (if p x then 1 else 0) =
      xs.countP p + (if p (f x) then 1 else 0) := by
  induction xs generalizing i with
  | nil => simp at hx
  | cons y ys ih =>
    cases i with
    | zero =>
      obtain rfl : y = x := by simpa using hx
      simp only [List.modify_zero_cons, List.countP_cons]
      omega
    | succ i =>
      have := ih i (by simpa using hx)
      simp only [List.modify_succ_cons, List.countP_cons]
      omega

namespace Heap

structure WellFormed (h : Heap) : Prop where
  free_nodup : h.free.Nodup
  mem_free : ∀ i, i ∈ h.free ↔ ∃ g, h.slots[i]? = some ⟨g, none⟩
  live_eq : h.live = h.slots.countP Slot.isOccupied
  live_le : h.live ≤ h.limit
  size_le : h.slots.size ≤ h.limit

theorem wellFormed_empty (limit : Nat) : (empty limit).WellFormed where
  free_nodup := List.nodup_nil
  mem_free i := by simp [empty]
  live_eq := rfl
  live_le := Nat.zero_le _
  size_le := Nat.zero_le _

theorem isLive_iff {h : Heap} {ref : ObjectRef} :
    h.isLive ref = true ↔ ∃ cell, h.cell? ref = some cell := Option.isSome_iff_exists

theorem isLive_of_cell? {h : Heap} {ref : ObjectRef} {cell : Cell} (hc : h.cell? ref = some cell) :
    h.isLive ref = true := isLive_iff.2 ⟨cell, hc⟩

theorem not_isLive_iff {h : Heap} {ref : ObjectRef} :
    h.isLive ref = false ↔ h.cell? ref = none := Option.isSome_eq_false_iff.trans Option.isNone_iff_eq_none

/-- A slot holds one object at a time. -/
theorem eq_of_isLive {h : Heap} {p q : ObjectRef} (hp : h.isLive p = true) (hq : h.isLive q = true)
    (hi : p.index = q.index) : p = q := by
  obtain ⟨c, hc⟩ := isLive_iff.1 hp
  obtain ⟨d, hd⟩ := isLive_iff.1 hq
  have hc' := cell?_eq_some_iff.1 hc
  have hd' := cell?_eq_some_iff.1 hd
  rw [hi, hd'] at hc'
  obtain ⟨i, g⟩ := p
  obtain ⟨j, k⟩ := q
  simp_all

/-- The references to the objects of the slots that `p` holds of. -/
def refs (h : Heap) (p : Slot → Bool) : List ObjectRef :=
  h.slots.toList.zipIdx.filterMap fun (slot, index) =>
    if p slot then some ⟨index, slot.generation⟩ else none

theorem roots_eq_refs (h : Heap) : h.roots = h.refs Slot.isRooted := rfl

theorem mem_refs {h : Heap} {p : Slot → Bool} {ref : ObjectRef} :
    ref ∈ h.refs p ↔
      ∃ slot, h.slots[ref.index]? = some slot ∧ slot.generation = ref.generation ∧ p slot = true := by
  obtain ⟨i, g⟩ := ref
  simp only [refs, List.mem_filterMap, Prod.exists, List.mem_zipIdx_iff_getElem?,
    Array.getElem?_toList, Option.ite_none_right_eq_some, Option.some.injEq, ObjectRef.mk.injEq]
  constructor
  · rintro ⟨slot, j, hs, hp, rfl, hg⟩
    exact ⟨slot, hs, hg, hp⟩
  · rintro ⟨slot, hs, hg, hp⟩
    exact ⟨slot, i, hs, hp, rfl, hg⟩

theorem nodup_refs (h : Heap) (p : Slot → Bool) : (h.refs p).Nodup := by
  have hn : h.slots.toList.zipIdx.Pairwise (fun a b => a.2 ≠ b.2) := by
    apply List.pairwise_map.1
    change (h.slots.toList.zipIdx.map Prod.snd).Nodup
    rw [List.zipIdx_map_snd]
    exact List.nodup_range'
  rw [refs, List.Nodup, List.pairwise_filterMap]
  refine hn.imp ?_
  rintro ⟨s, i⟩ ⟨t, j⟩ hij q hq r hr rfl
  simp only [Option.ite_none_right_eq_some, Option.some.injEq] at hq hr
  rw [← hr.2] at hq
  exact hij (congrArg ObjectRef.index hq.2)

theorem length_refs (h : Heap) (p : Slot → Bool) : (h.refs p).length = h.slots.countP p := by
  have hc : ∀ (slots : List Slot) (start : Nat),
      ((slots.zipIdx start).filterMap fun (slot, index) =>
        if p slot then some (⟨index, slot.generation⟩ : ObjectRef) else none).length =
      slots.countP p := by
    -- for slots from any index on, so that the induction can shift it
    intro slots
    induction slots with
    | nil => intro start; rfl
    | cons slot slots ih =>
      intro start
      simp only [List.zipIdx_cons, List.filterMap_cons, List.countP_cons]
      split <;> simp_all
  rw [refs, hc, Array.countP_toList]

theorem length_roots (h : Heap) : h.roots.length = h.rooted := h.length_refs Slot.isRooted

theorem mem_roots {h : Heap} {ref : ObjectRef} : ref ∈ h.roots ↔ h.rootCount ref ≠ 0 := by
  rw [roots_eq_refs, mem_refs]
  unfold rootCount
  constructor
  · rintro ⟨⟨g, _ | cell⟩, hs, rfl, hr⟩
    · simp [Slot.isRooted] at hr
    · have hc : h.cell? ref = some cell := cell?_eq_some_iff.2 hs
      simpa [hc, Slot.isRooted, ← UInt32.toNat_inj] using hr
  · intro hr
    cases hc : h.cell? ref with
    | none => simp [hc] at hr
    | some cell =>
      have hrooted : Slot.isRooted ⟨ref.generation, some cell⟩ = true := by
        simpa [hc, Slot.isRooted, ← UInt32.toNat_inj] using hr
      exact ⟨_, cell?_eq_some_iff.1 hc, rfl, hrooted⟩

theorem mem_refs_isOccupied {h : Heap} {ref : ObjectRef} :
    ref ∈ h.refs Slot.isOccupied ↔ h.isLive ref = true := by
  rw [mem_refs, isLive_iff]
  constructor
  · rintro ⟨⟨g, _ | cell⟩, hs, rfl, ho⟩
    · cases ho
    · exact ⟨cell, cell?_eq_some_iff.2 hs⟩
  · rintro ⟨cell, hc⟩
    exact ⟨_, cell?_eq_some_iff.1 hc, rfl, rfl⟩

namespace WellFormed

theorem update {h : Heap} (hw : h.WellFormed) (ref : ObjectRef) (f : Cell → Cell) :
    (h.update ref f).WellFormed where
  free_nodup := hw.free_nodup
  mem_free i := by
    rw [free_update, hw.mem_free]
    simp only [Heap.update, Array.getElem?_modify]
    split
    · cases h.slots[i]? with
      | none => simp
      | some slot =>
        obtain ⟨g, _ | cell⟩ := slot <;> by_cases hg : g = ref.generation <;> simp [hg]
    · rfl
  live_eq := by
    rw [live_update, hw.live_eq]
    simp only [Heap.update, ← Array.countP_toList, Array.toList_modify]
    -- an update leaves each slot as occupied as it was
    let change (slot : Slot) : Slot :=
      if slot.generation = ref.generation then { slot with cell := slot.cell.map f } else slot
    have ho (slot : Slot) : (change slot).isOccupied = slot.isOccupied := by
      dsimp only [change]
      split <;> simp [Slot.isOccupied]
    cases hx : h.slots.toList[ref.index]? with
    | none => rw [List.modify_eq_self (by simpa using hx)]
    | some slot =>
      have hm := countP_modify Slot.isOccupied change _ _ _ hx
      rw [ho] at hm
      exact (Nat.add_right_cancel hm).symm
  live_le := hw.live_le
  size_le := by simpa [Heap.update] using hw.size_le

theorem setRecord {h : Heap} (hw : h.WellFormed) (ref : ObjectRef) (record : PromiseRecord) :
    (h.setRecord ref record).WellFormed := hw.update ref _

theorem retain {h : Heap} (hw : h.WellFormed) (ref : ObjectRef) : (h.retain ref).2.WellFormed :=
  hw.update ref _

theorem release {h : Heap} (hw : h.WellFormed) (ref : ObjectRef) : (h.release ref).2.WellFormed :=
  hw.update ref _

/-- Without vacant slots, all are occupied. -/
theorem live_eq_size {h : Heap} (hw : h.WellFormed) (hf : h.free = []) : h.live = h.slots.size := by
  rw [hw.live_eq, Array.countP_eq_size]
  intro slot hs
  obtain ⟨i, hi, rfl⟩ := Array.mem_iff_getElem.1 hs
  have hn := hw.mem_free i
  cases hc : h.slots[i] with
  | mk g cell =>
    cases cell with
    | some cell => rfl
    | none => simp [hf, hc, hi] at hn

theorem place {h : Heap} (hw : h.WellFormed) (hr : h.isFull = false) (object : HeapObject) :
    (h.place object).2.WellFormed := by
  have hlt : h.live < h.limit := by simpa [isFull] using hr
  unfold Heap.place
  split
  · -- the first vacant slot is taken, which is vacant nowhere else
    rename_i index free hf
    obtain ⟨g, hs⟩ := (hw.mem_free index).1 (hf ▸ List.mem_cons_self)
    have hnd := hf ▸ hw.free_nodup
    rw [List.nodup_cons] at hnd
    constructor
    case free_nodup => exact hnd.2
    case mem_free =>
      intro i
      have hi := hw.mem_free i
      rw [hf, List.mem_cons] at hi
      simp only [Array.getElem?_modify]
      grind
    case live_eq =>
      have hm := countP_modify Slot.isOccupied
        (fun slot : Slot => { slot with cell := some ⟨object, 0⟩ }) h.slots.toList index _
        (by simpa using hs)
      have hl := hw.live_eq
      simp only [← Array.countP_toList, Array.toList_modify] at hl ⊢
      simp only [Slot.isOccupied, Option.isSome_none, Option.isSome_some] at hm
      simp_all
    case live_le => exact hlt
    case size_le => simpa using hw.size_le
  · -- a slot is added, as all of them are occupied
    rename_i hf
    have hsize : h.live = h.slots.size := hw.live_eq_size hf
    constructor
    case free_nodup => exact hw.free_nodup
    case mem_free =>
      intro i
      rw [hw.mem_free, Array.getElem?_push]
      grind
    case live_eq => simp [Array.countP_push, Slot.isOccupied, hw.live_eq]
    case live_le => exact hlt
    case size_le =>
      simp only [Array.size_push]
      omega

/-- The reference of a placed object did not resolve before. -/
theorem cell?_place_fst {h : Heap} (hw : h.WellFormed) (object : HeapObject) :
    h.cell? (h.place object).1 = none := by
  unfold Heap.place
  split
  · rename_i index free hf
    obtain ⟨g, hs⟩ := (hw.mem_free index).1 (hf ▸ List.mem_cons_self)
    simp [cell?, hs]
  · simp [cell?]

theorem cell?_place {h : Heap} (hw : h.WellFormed) (object : HeapObject) (q : ObjectRef) :
    (h.place object).2.cell? q =
      if q = (h.place object).1 then some ⟨object, 0⟩ else h.cell? q := by
  obtain ⟨i, k⟩ := q
  unfold Heap.place
  split
  · rename_i index free hf
    obtain ⟨g, hs⟩ := (hw.mem_free index).1 (hf ▸ List.mem_cons_self)
    simp only [cell?, Array.getElem?_modify, hs, Option.map_some, Option.getD_some,
      ObjectRef.mk.injEq]
    -- the slot was vacant, so that its earlier references do not resolve either way
    by_cases hi : index = i
    · subst hi
      by_cases hk : k = g
      · simp [hs, hk]
      · simp [hs, hk, Ne.symm hk]
    · simp [hi, Ne.symm hi]
  · simp only [cell?, Array.getElem?_push, ObjectRef.mk.injEq]
    by_cases hi : i = h.slots.size
    · subst hi
      by_cases hk : k = 0
      · simp [hk]
      · simp [hk, Ne.symm hk]
    · simp [hi]

end WellFormed

/-- A placed object takes the generation that its slot has come to. -/
theorem generation_place_fst {h : Heap} (object : HeapObject) {slot : Slot}
    (hs : h.slots[(h.place object).1.index]? = some slot) :
    (h.place object).1.generation = slot.generation := by
  unfold place at hs ⊢
  split at hs
  · simp only at hs ⊢
    rw [hs, Option.map_some, Option.getD_some]
  · simp at hs

@[simp] theorem limit_place (h : Heap) (object : HeapObject) :
    (h.place object).2.limit = h.limit := by
  unfold place
  split <;> rfl

@[simp] theorem live_place (h : Heap) (object : HeapObject) :
    (h.place object).2.live = h.live + 1 := by
  unfold place
  split <;> rfl

theorem getElem?_sweep (h : Heap) (marks : Array Bool) (i : Nat) :
    (h.sweep marks).slots[i]? = h.slots[i]?.map fun slot =>
      if slot.cell.isSome && !marks.getD i false then slot.vacate else slot := by
  simp [sweep]

theorem cell?_sweep (h : Heap) (marks : Array Bool) (q : ObjectRef) :
    (h.sweep marks).cell? q = if marks.getD q.index false then h.cell? q else none := by
  simp only [cell?, getElem?_sweep]
  cases h.slots[q.index]? with
  | none => simp
  | some slot =>
    obtain ⟨g, _ | cell⟩ := slot <;> cases marks.getD q.index false <;> simp [Slot.vacate]

theorem mem_garbage {h : Heap} {marks : Array Bool} {i : Nat} :
    i ∈ h.garbage marks ↔
      ∃ g cell, h.slots[i]? = some ⟨g, some cell⟩ ∧ marks.getD i false = false := by
  rw [garbage, List.mem_filter, List.mem_range, isGarbage]
  cases hs : h.slots[i]? with
  | none => simp
  | some slot =>
    obtain ⟨hi, -⟩ := Array.getElem?_eq_some_iff.1 hs
    obtain ⟨g, _ | cell⟩ := slot <;> simp [hi]

/-- The occupied slots are those that stay occupied and those that are freed. -/
theorem countP_sweep (h : Heap) (marks : Array Bool) :
    (h.sweep marks).slots.countP Slot.isOccupied + (h.garbage marks).length =
      h.slots.countP Slot.isOccupied := by
  -- the occupied slots are those that are kept and those that are freed
  let kept (x : Slot × Nat) : Bool := marks.getD x.2 false
  have hall : h.slots.countP Slot.isOccupied =
      h.slots.toList.zipIdx.countP (fun x => x.1.isOccupied) := by
    conv_lhs => rw [← Array.countP_toList, ← List.zipIdx_map_fst 0 h.slots.toList, List.countP_map]
    rfl
  have hkept : (h.sweep marks).slots.countP Slot.isOccupied =
      h.slots.toList.zipIdx.countP (fun x => x.1.isOccupied && kept x) := by
    rw [← Array.countP_toList, sweep, Array.toList_mapIdx, List.mapIdx_eq_zipIdx_map, List.countP_map]
    apply List.countP_congr
    rintro ⟨⟨g, cell⟩, i⟩ _
    cases cell with
    | none => simp [Slot.isOccupied]
    | some cell =>
      cases hm : marks[i]?.getD false <;> simp [kept, hm, Slot.isOccupied, Slot.vacate]
  have hfreed : (h.garbage marks).length =
      h.slots.toList.zipIdx.countP (fun x => x.1.isOccupied && !kept x) := by
    rw [garbage, ← List.countP_eq_length_filter, List.range_eq_range',
      ← Array.length_toList, ← List.zipIdx_map_snd 0 h.slots.toList, List.countP_map]
    apply List.countP_congr
    rintro ⟨slot, i⟩ hx
    have hs : h.slots[i]? = some slot := by
      simpa [List.mem_zipIdx_iff_getElem?] using hx
    simp [isGarbage, hs, kept, Slot.isOccupied]
  have hsplit := List.length_eq_countP_add_countP kept
    (l := h.slots.toList.zipIdx.filter (fun x => x.1.isOccupied))
  rw [List.countP_filter, List.countP_filter, ← List.countP_eq_length_filter] at hsplit
  rw [hall, hkept, hfreed, hsplit]
  congr 1 <;> apply List.countP_congr <;> intro x _ <;> simp [and_comm]

namespace WellFormed

theorem sweep {h : Heap} (hw : h.WellFormed) (marks : Array Bool) : (h.sweep marks).WellFormed where
  free_nodup := by
    refine List.Nodup.append ?_ hw.free_nodup ?_
    · exact List.nodup_reverse.2 (List.nodup_range.filter _)
    · intro i hi hf
      obtain ⟨g, cell, hs, -⟩ := mem_garbage.1 (List.mem_reverse.1 hi)
      obtain ⟨k, hv⟩ := (hw.mem_free i).1 hf
      simp [hs] at hv
  mem_free i := by
    change i ∈ (h.garbage marks).reverse ++ h.free ↔ _
    rw [List.mem_append, List.mem_reverse, mem_garbage, hw.mem_free, getElem?_sweep]
    cases h.slots[i]? with
    | none => simp
    | some slot =>
      obtain ⟨g, _ | cell⟩ := slot <;> cases marks.getD i false <;> simp [Slot.vacate]
  live_eq := by
    have hc := countP_sweep h marks
    change h.live - (h.garbage marks).length = _
    rw [hw.live_eq]
    omega
  live_le := Nat.le_trans (Nat.sub_le _ _) hw.live_le
  size_le := by simpa [Heap.sweep] using hw.size_le

end WellFormed

end Heap

end Promises
