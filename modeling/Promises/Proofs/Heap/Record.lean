import Promises.Proofs.Heap.Reach

namespace Promises

namespace Heap

theorem update_update (h : Heap) (ref : ObjectRef) (f g : Cell → Cell) :
    (h.update ref f).update ref g = h.update ref (g ∘ f) := by
  simp only [update, mk.injEq, and_true]
  apply Array.ext_getElem?
  intro i
  simp only [Array.getElem?_modify]
  split
  · cases h.slots[i]? with
    | none => rfl
    | some slot =>
      obtain ⟨k, cell⟩ := slot
      by_cases hk : k = ref.generation <;> simp [hk]
  · rfl

/-- A change that leaves what lies at a live reference as it is changes nothing. -/
theorem update_eq_self {h : Heap} {ref : ObjectRef} {f : Cell → Cell}
    (hf : ∀ cell, h.cell? ref = some cell → f cell = cell) : h.update ref f = h := by
  obtain ⟨slots, free, limit, live⟩ := h
  simp only [update, mk.injEq, and_true]
  apply Array.ext_getElem?
  intro i
  simp only [Array.getElem?_modify]
  split
  · subst i
    cases hs : slots[ref.index]? with
    | none => rfl
    | some slot =>
      obtain ⟨k, _ | cell⟩ := slot
      · simp
      · by_cases hk : k = ref.generation
        · have hcell : f cell = cell := hf cell (by simp [cell?, hs, hk])
          simp [hcell]
        · simp [hk]
  · rfl

/-- What does not resolve is not changed. -/
theorem update_of_cell?_eq_none {h : Heap} {ref : ObjectRef} (hc : h.cell? ref = none)
    (f : Cell → Cell) : h.update ref f = h := by
  apply update_eq_self
  intro cell hcell
  rw [hc] at hcell
  cases hcell

/-- To take back a root that was just given changes nothing, as long as the count could hold it. -/
theorem release_retain {h : Heap} {ref : ObjectRef} (hr : h.rootCount ref + 1 < UInt32.size) :
    ((h.retain ref).2.release ref).2 = h := by
  change (h.update ref Cell.retained).update ref Cell.released = h
  rw [update_update]
  apply update_eq_self
  intro cell hc
  rw [rootCount, hc] at hr
  exact Cell.released_retained hr

theorem setRecord_setRecord (h : Heap) (ref : ObjectRef) (r s : PromiseRecord) :
    (h.setRecord ref r).setRecord ref s = h.setRecord ref s := update_update h ref _ _

theorem record?_of_cell? {h : Heap} {ref : ObjectRef} {record : PromiseRecord} {roots : UInt32}
    (hc : h.cell? ref = some ⟨.promise record, roots⟩) : h.record? ref = .ok record :=
  record?_eq_ok_iff.2 ⟨roots, hc⟩

theorem isPromise_iff {h : Heap} {ref : ObjectRef} :
    h.isPromise ref = true ↔ ∃ record, h.record? ref = .ok record := by
  unfold isPromise kind? record?
  cases h.object? ref with
  | none => simp
  | some object => cases object <;> simp [HeapObject.kind]

theorem isPromise_of_record? {h : Heap} {ref : ObjectRef} {record : PromiseRecord}
    (hr : h.record? ref = .ok record) : h.isPromise ref = true := isPromise_iff.2 ⟨record, hr⟩

theorem isLive_of_record? {h : Heap} {ref : ObjectRef} {record : PromiseRecord}
    (hr : h.record? ref = .ok record) : h.isLive ref = true := by
  obtain ⟨roots, hc⟩ := record?_eq_ok_iff.1 hr
  exact isLive_of_cell? hc

theorem isLive_of_isPromise {h : Heap} {ref : ObjectRef} (hp : h.isPromise ref = true) :
    h.isLive ref = true := by
  obtain ⟨record, hr⟩ := isPromise_iff.1 hp
  exact isLive_of_record? hr

theorem record?_of_dead {h : Heap} {ref : ObjectRef} (hl : h.isLive ref = false) :
    h.record? ref = .error (.deadObject ref) := by
  rw [isLive, Option.isSome_eq_false_iff, Option.isNone_iff_eq_none] at hl
  rw [record?, object?, hl]
  rfl

/-- References with the same object have the same record. -/
theorem record?_congr {h k : Heap} {q : ObjectRef} (hq : h.object? q = k.object? q) :
    h.record? q = k.record? q := by
  rw [record?, record?, hq]

theorem isPromise_congr {h k : Heap} {q : ObjectRef} (hq : h.object? q = k.object? q) :
    h.isPromise q = k.isPromise q := by
  rw [isPromise, isPromise, kind?, kind?, hq]

theorem object?_congr {h k : Heap} {q : ObjectRef} (hq : h.cell? q = k.cell? q) :
    h.object? q = k.object? q := by
  rw [object?, object?, hq]

theorem isLive_update (h : Heap) (ref : ObjectRef) (f : Cell → Cell) (q : ObjectRef) :
    (h.update ref f).isLive q = h.isLive q := by
  rw [isLive, isLive, cell?_update]
  split
  · subst q
    simp
  · rfl

variable {h : Heap} {ref : ObjectRef} {old : PromiseRecord}

theorem record?_setRecord_of_ne {q : ObjectRef} (hq : q ≠ ref) (new : PromiseRecord) :
    (h.setRecord ref new).record? q = h.record? q := by
  apply record?_congr
  apply object?_congr
  rw [setRecord, cell?_update, if_neg hq]

/-- A record after one was set is that one, or is the same as before. -/
theorem record?_setRecord_inv (hr : h.record? ref = .ok old) {new record : PromiseRecord}
    {q : ObjectRef} (hq : (h.setRecord ref new).record? q = .ok record) :
    (q = ref ∧ record = new) ∨ (q ≠ ref ∧ h.record? q = .ok record) := by
  by_cases hn : q = ref
  · subst q
    exact Or.inl ⟨rfl, Except.ok.inj (hq.symm.trans (record?_setRecord hr new))⟩
  · exact Or.inr ⟨hn, (record?_setRecord_of_ne hn new).symm.trans hq⟩

/-- What a record that is set has in common with the one before, all records keep. -/
theorem eq_of_setRecord {α : Type} (f : PromiseRecord → α) (hr : h.record? ref = .ok old)
    {new r s : PromiseRecord} {q : ObjectRef} (ho : h.record? q = .ok r)
    (hq : (h.setRecord ref new).record? q = .ok s) (hf : f new = f old) : f s = f r := by
  rcases record?_setRecord_inv hr hq with ⟨rfl, rfl⟩ | ⟨-, hq⟩
  · rw [hf, Except.ok.inj (ho.symm.trans hr)]
  · rw [Except.ok.inj (ho.symm.trans hq)]

theorem cell?_setRecord {roots : UInt32} (hc : h.cell? ref = some ⟨.promise old, roots⟩)
    (new : PromiseRecord) (q : ObjectRef) :
    (h.setRecord ref new).cell? q =
      if q = ref then some ⟨.promise new, roots⟩ else h.cell? q := by
  rw [setRecord, cell?_update, hc]
  rfl

theorem isPromise_setRecord (hr : h.record? ref = .ok old) (new : PromiseRecord) (q : ObjectRef) :
    (h.setRecord ref new).isPromise q = h.isPromise q := by
  by_cases hq : q = ref
  · subst q
    rw [isPromise_of_record? hr, isPromise_of_record? (record?_setRecord hr new)]
  · apply isPromise_congr
    apply object?_congr
    rw [setRecord, cell?_update, if_neg hq]

theorem isLive_setRecord (new : PromiseRecord) (q : ObjectRef) :
    (h.setRecord ref new).isLive q = h.isLive q := isLive_update h ref _ q

/-- A change of the roots alone changes no object. -/
theorem object?_update_of_object {f : Cell → Cell} (hf : ∀ cell, (f cell).object = cell.object)
    (h : Heap) (ref q : ObjectRef) : (h.update ref f).object? q = h.object? q := by
  simp only [object?, cell?_update]
  split
  · subst q
    rw [Option.map_map]
    exact congrArg (Option.map · (h.cell? ref)) (funext hf)
  · rfl

theorem object?_retain (h : Heap) (ref q : ObjectRef) :
    (h.retain ref).2.object? q = h.object? q :=
  object?_update_of_object Cell.object_retained h ref q

theorem object?_release (h : Heap) (ref q : ObjectRef) :
    (h.release ref).2.object? q = h.object? q :=
  object?_update_of_object Cell.object_released h ref q

theorem object?_collect_of_reaches {extra : List ObjectRef} {q : ObjectRef}
    (hq : h.Reaches (h.roots ++ extra) q) : (h.collect extra).2.object? q = h.object? q :=
  object?_congr (cell?_collect_of_reaches hq)

theorem record?_of_collect {extra : List ObjectRef} {q : ObjectRef} {record : PromiseRecord}
    (hr : (h.collect extra).2.record? q = .ok record) : h.record? q = .ok record := by
  obtain ⟨roots, hc⟩ := record?_eq_ok_iff.1 hr
  exact record?_of_cell? (cell?_of_collect hc)

/-- A collection keeps the promises that are reachable. -/
theorem isPromise_collect {extra : List ObjectRef} {q : ObjectRef}
    (hq : h.Reaches (h.roots ++ extra) q) (hp : h.isPromise q = true) :
    (h.collect extra).2.isPromise q = true := by
  rw [isPromise_congr (object?_collect_of_reaches hq), hp]

theorem record?_place_fst (hw : h.WellFormed) (record : PromiseRecord) :
    (h.place (.promise record)).2.record? (h.place (.promise record)).1 = .ok record := by
  refine record?_eq_ok_iff.2 ⟨0, ?_⟩
  rw [hw.cell?_place, if_pos rfl]

theorem object?_place_of_ne (hw : h.WellFormed) (object : HeapObject) {q : ObjectRef}
    (hq : q ≠ (h.place object).1) : (h.place object).2.object? q = h.object? q := by
  apply object?_congr
  rw [hw.cell?_place, if_neg hq]

theorem object?_place_self (hw : h.WellFormed) (object : HeapObject) :
    (h.place object).2.object? (h.place object).1 = some object := by
  rw [object?, hw.cell?_place, if_pos rfl]
  rfl

theorem kind?_place_self (hw : h.WellFormed) (object : HeapObject) :
    (h.place object).2.kind? (h.place object).1 = some object.kind := by
  rw [kind?, object?_place_self hw]
  rfl

/-- What lives is not what is placed. -/
theorem ne_place_of_isLive (hw : h.WellFormed) (object : HeapObject) {q : ObjectRef}
    (hq : h.isLive q = true) : q ≠ (h.place object).1 := by
  rintro rfl
  obtain ⟨cell, hc⟩ := isLive_iff.1 hq
  rw [hw.cell?_place_fst] at hc
  cases hc

/-- A collection does not give a reference out again: what lives before it is not what is placed after
it, as the slot of an object that went has moved on to its next generation. -/
theorem not_isLive_place_collect (hw : h.WellFormed) (extra : List ObjectRef)
    (object : HeapObject) : h.isLive ((h.collect extra).2.place object).1 = false := by
  let swept := (h.collect extra).2
  let marks := h.reachableMarks extra
  let ref := (swept.place object).1
  by_contra hn
  rw [Bool.not_eq_false] at hn
  obtain ⟨cell, hc⟩ := isLive_iff.1 hn
  have hdead : (h.sweep marks).cell? ref = none := (hw.collect extra).cell?_place_fst object
  rw [cell?_sweep, hc] at hdead
  have hslot : (h.sweep marks).slots[ref.index]? = _ := getElem?_sweep h marks ref.index
  rw [cell?_eq_some_iff.1 hc, Option.map_some] at hslot
  have hgeneration : ref.generation = _ := generation_place_fst (h := swept) object hslot
  cases hm : marks.getD ref.index false with
  | true =>
    rw [hm] at hdead
    cases hdead
  | false =>
    rw [hm] at hgeneration
    have hnext : ref.generation = ref.generation + 1 := hgeneration
    simp at hnext

theorem isLive_place (hw : h.WellFormed) (object : HeapObject) {q : ObjectRef}
    (hq : h.isLive q = true) : (h.place object).2.isLive q = true := by
  obtain ⟨cell, hc⟩ := isLive_iff.1 hq
  have hne := ne_place_of_isLive hw object hq
  have hplaced : (h.place object).2.cell? q = some cell := by
    rw [hw.cell?_place, if_neg hne, hc]
  exact isLive_of_cell? hplaced

theorem record?_place (hw : h.WellFormed) (object : HeapObject) {q : ObjectRef}
    {record : PromiseRecord} (hr : h.record? q = .ok record) :
    (h.place object).2.record? q = .ok record := by
  have hne := ne_place_of_isLive hw object (isLive_of_record? hr)
  rw [record?_congr (object?_place_of_ne hw object hne), hr]

theorem isPromise_place (hw : h.WellFormed) (object : HeapObject) {q : ObjectRef}
    (hq : h.isPromise q = true) : (h.place object).2.isPromise q = true := by
  obtain ⟨record, hr⟩ := isPromise_iff.1 hq
  exact isPromise_of_record? (record?_place hw object hr)

/-- What lives beside a new object lived before. -/
theorem isLive_of_place (hw : h.WellFormed) {object : HeapObject} {q : ObjectRef}
    (hq : (h.place object).2.isLive q = true) (hne : q ≠ (h.place object).1) :
    h.isLive q = true := by
  obtain ⟨cell, hc⟩ := isLive_iff.1 hq
  rw [hw.cell?_place, if_neg hne] at hc
  exact isLive_of_cell? hc

/-- A promise beside a new object was there, and a new promise is as promises begin. -/
theorem record?_place_inv (hw : h.WellFormed) {object : HeapObject}
    (ho : ∀ record, object = .promise record → record = .new) {q : ObjectRef}
    {record : PromiseRecord} (hr : (h.place object).2.record? q = .ok record) :
    (q = (h.place object).1 ∧ record = .new) ∨
      (q ≠ (h.place object).1 ∧ h.record? q = .ok record) := by
  by_cases hn : q = (h.place object).1
  · left
    obtain ⟨roots, hc⟩ := record?_eq_ok_iff.1 hr
    rw [hw.cell?_place, if_pos hn, Option.some.injEq, Cell.mk.injEq] at hc
    exact ⟨hn, ho record hc.1⟩
  · right
    rw [record?_congr (object?_place_of_ne hw object hn)] at hr
    exact ⟨hn, hr⟩

variable {k : Heap} {q : ObjectRef}

theorem kind?_congr (hq : h.object? q = k.object? q) : h.kind? q = k.kind? q := by
  rw [kind?, kind?, hq]

theorem isLive_iff_kind? : h.isLive q = true ↔ ∃ kind, h.kind? q = some kind := by
  unfold isLive kind? object?
  cases h.cell? q <;> simp

theorem isPromise_iff_kind? : h.isPromise q = true ↔ h.kind? q = some .promise := by
  unfold isPromise
  simp

theorem kind?_setRecord {old : PromiseRecord} (hr : h.record? ref = .ok old)
    (new : PromiseRecord) (q : ObjectRef) : (h.setRecord ref new).kind? q = h.kind? q := by
  obtain ⟨roots, hc⟩ := record?_eq_ok_iff.1 hr
  rw [kind?, kind?, object?, object?, cell?_setRecord hc]
  split
  · subst q
    rw [hc]
    rfl
  · rfl

theorem rootCount_ne_zero_iff :
    h.rootCount ref ≠ 0 ↔ ∃ cell, h.cell? ref = some cell ∧ cell.roots.toNat ≠ 0 := by
  unfold rootCount
  cases h.cell? ref <;> simp

theorem rootCount_of_cell? {cell : Cell} (hc : h.cell? q = some cell) :
    h.rootCount q = cell.roots.toNat := by
  rw [rootCount, hc]

theorem rootCount_of_dead (hc : h.cell? q = none) : h.rootCount q = 0 := by
  rw [rootCount, hc]

theorem rootCount_update_of_ne (hq : q ≠ ref) (f : Cell → Cell) :
    (h.update ref f).rootCount q = h.rootCount q := by
  rw [rootCount, rootCount, cell?_update, if_neg hq]

theorem rootCount_update_self {cell : Cell} (hc : h.cell? ref = some cell) (f : Cell → Cell) :
    (h.update ref f).rootCount ref = (f cell).roots.toNat := by
  apply rootCount_of_cell?
  rw [cell?_update, if_pos rfl, hc]
  rfl

theorem rootCount_setRecord {old : PromiseRecord} (hr : h.record? ref = .ok old)
    (new : PromiseRecord) (q : ObjectRef) : (h.setRecord ref new).rootCount q = h.rootCount q := by
  by_cases hq : q = ref
  · obtain ⟨roots, hc⟩ := record?_eq_ok_iff.1 hr
    rw [hq, setRecord, rootCount_update_self hc, rootCount_of_cell? hc]
  · exact rootCount_update_of_ne hq _

theorem rootCount_retain (hl : h.isLive ref = true) (hr : h.rootCount ref + 1 < UInt32.size)
    (q : ObjectRef) : (h.retain ref).2.rootCount q = h.rootCount q + [ref].count q := by
  obtain ⟨cell, hc⟩ := isLive_iff.1 hl
  rw [retain]
  by_cases hq : q = ref
  · rw [rootCount_of_cell? hc] at hr
    rw [hq, rootCount_update_self hc, rootCount_of_cell? hc, List.count_singleton_self,
      Cell.toNat_roots_retained hr]
  · rw [rootCount_update_of_ne hq, List.count_singleton, beq_false_of_ne (Ne.symm hq)]
    rfl

theorem rootCount_release (hr : h.rootCount ref ≠ 0) (q : ObjectRef) :
    (h.release ref).2.rootCount q + [ref].count q = h.rootCount q := by
  rw [release]
  by_cases hq : q = ref
  · cases hc : h.cell? ref with
    | none => exact absurd (rootCount_of_dead hc) hr
    | some cell =>
      rw [rootCount_of_cell? hc] at hr
      rw [hq, rootCount_update_self hc, rootCount_of_cell? hc, List.count_singleton_self,
        Cell.toNat_roots_released]
      exact Nat.sub_add_cancel (Nat.pos_of_ne_zero hr)
  · rw [rootCount_update_of_ne hq, List.count_singleton, beq_false_of_ne (Ne.symm hq)]
    rfl

theorem isLive_of_rootCount (hr : h.rootCount q ≠ 0) : h.isLive q = true := by
  obtain ⟨cell, hc, -⟩ := rootCount_ne_zero_iff.1 hr
  exact isLive_of_cell? hc

theorem reaches_of_rootCount {extra : List ObjectRef} (hr : h.rootCount q ≠ 0) :
    h.Reaches (h.roots ++ extra) q :=
  .start (List.mem_append_left _ (mem_roots.2 hr)) (isLive_of_rootCount hr)

theorem rootCount_place (hw : h.WellFormed) (object : HeapObject) (q : ObjectRef) :
    (h.place object).2.rootCount q = h.rootCount q := by
  by_cases hq : q = (h.place object).1
  · -- the new object is not rooted, and its reference did not resolve before
    have hnew : (h.place object).2.cell? (h.place object).1 = some ⟨object, 0⟩ := by
      rw [hw.cell?_place, if_pos rfl]
    rw [hq, rootCount_of_cell? hnew, rootCount_of_dead (hw.cell?_place_fst object)]
    rfl
  · rw [rootCount, rootCount, hw.cell?_place, if_neg hq]

theorem rootCount_place_self (hw : h.WellFormed) (object : HeapObject) :
    (h.place object).2.rootCount (h.place object).1 = 0 := by
  rw [rootCount_place hw, rootCount_of_dead (hw.cell?_place_fst object)]

end Heap

end Promises
