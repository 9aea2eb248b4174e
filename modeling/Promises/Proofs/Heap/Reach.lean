import Promises.Heap.Collect
import Promises.Proofs.Heap.WellFormed

namespace Promises

namespace Heap

/-- The live objects that `start` leads to, from object to object. -/
inductive Reaches (h : Heap) (start : List ObjectRef) : ObjectRef → Prop
  | start {ref : ObjectRef} (hm : ref ∈ start) (hl : h.isLive ref = true) : Reaches h start ref
  | step {ref next : ObjectRef} {cell : Cell} (hr : Reaches h start ref)
    (hc : h.cell? ref = some cell) (hn : next ∈ cell.object.references)
    (hl : h.isLive next = true) : Reaches h start next

theorem Reaches.isLive {h : Heap} {start : List ObjectRef} {ref : ObjectRef}
    (hr : h.Reaches start ref) : h.isLive ref = true := by
  cases hr with
  | start _ hl => exact hl
  | step _ _ _ hl => exact hl

/-- Whether the slot of a reference is marked. -/
def Marked (marks : Array Bool) (ref : ObjectRef) : Prop := marks[ref.index]? = some true

theorem getD_eq_true_iff {marks : Array Bool} {ref : ObjectRef} :
    marks.getD ref.index false = true ↔ Marked marks ref := by
  rw [Array.getD_eq_getD_getElem?, Marked]
  cases marks[ref.index]? <;> simp

theorem marked_set {marks : Array Bool} {p q : ObjectRef} (hf : marks[p.index]? = some false) :
    Marked (marks.setIfInBounds p.index true) q ↔ q.index = p.index ∨ Marked marks q := by
  obtain ⟨hp, -⟩ := Array.getElem?_eq_some_iff.1 hf
  unfold Marked
  rw [Array.getElem?_setIfInBounds]
  by_cases hi : p.index = q.index
  · rw [if_pos hi, if_pos (hi ▸ hp)]
    exact ⟨fun _ => Or.inl hi.symm, fun _ => rfl⟩
  · rw [if_neg hi]
    exact ⟨Or.inr, fun h => h.resolve_left (Ne.symm hi)⟩

theorem Marked.mark {h : Heap} {marks : Array Bool} {q : ObjectRef} (hq : Marked marks q)
    (pending : List ObjectRef) : Marked (h.mark marks pending) q := by
  fun_induction Heap.mark h marks pending with
  | case1 => exact hq
  | case2 marks ref pending hc ih => exact ih hq
  | case3 marks ref pending cell hc hf ih => exact ih ((marked_set hf).2 (Or.inr hq))
  | case4 marks ref pending cell hc hf ih => exact ih hq

/-- Marking marks nothing but what a set closed under references holds. -/
theorem mark_sound {h : Heap} {P : ObjectRef → Prop}
    (hstep : ∀ ref next cell, P ref → h.cell? ref = some cell → next ∈ cell.object.references →
      h.isLive next = true → P next)
    (marks : Array Bool) (pending : List ObjectRef)
    (hm : ∀ q, h.isLive q = true → Marked marks q → P q)
    (hp : ∀ q ∈ pending, h.isLive q = true → P q) :
    ∀ q, h.isLive q = true → Marked (h.mark marks pending) q → P q := by
  fun_induction mark h marks pending with
  | case1 => exact hm
  | case2 marks ref pending hc ih => exact ih hm fun q hq => hp q (List.mem_cons_of_mem _ hq)
  | case3 marks ref pending cell hc hf ih =>
    have hlive : h.isLive ref = true := isLive_of_cell? hc
    have hr : P ref := hp ref List.mem_cons_self hlive
    apply ih
    · -- a mark is that of one object, as a slot holds one at a time
      intro q hq hmq
      rcases (marked_set hf).1 hmq with hi | hmq
      · exact eq_of_isLive hq hlive hi ▸ hr
      · exact hm q hq hmq
    · intro q hq hl
      rcases List.mem_append.1 hq with hq | hq
      · exact hstep ref q cell hr hc hq hl
      · exact hp q (List.mem_cons_of_mem _ hq) hl
  | case4 marks ref pending cell hc hf ih =>
    exact ih hm fun q hq => hp q (List.mem_cons_of_mem _ hq)

/-- Marking marks all that is pending, and leads on from all that is marked. -/
theorem mark_complete {h : Heap} (marks : Array Bool) (pending : List ObjectRef)
    (hsize : marks.size = h.slots.size)
    (hm : ∀ ref cell next, Marked marks ref → h.cell? ref = some cell →
      next ∈ cell.object.references → h.isLive next = true → Marked marks next ∨ next ∈ pending) :
    (∀ q ∈ pending, h.isLive q = true → Marked (h.mark marks pending) q) ∧
    ∀ ref cell next, Marked (h.mark marks pending) ref → h.cell? ref = some cell →
      next ∈ cell.object.references → h.isLive next = true →
      Marked (h.mark marks pending) next := by
  fun_induction mark h marks pending with
  | case1 => exact ⟨by simp, by simpa using hm⟩
  | case2 marks ref pending hc ih =>
    -- a dead reference is passed over
    have hdead : h.isLive ref = false := not_isLive_iff.2 hc
    obtain ⟨hp, hn⟩ := ih hsize fun r c n hr hcr hn hl => by
      rcases hm r c n hr hcr hn hl with hmn | hmn
      · exact Or.inl hmn
      · rcases List.mem_cons.1 hmn with rfl | hmn
        · simp [hdead] at hl
        · exact Or.inr hmn
    refine ⟨fun q hq hl => ?_, hn⟩
    rcases List.mem_cons.1 hq with rfl | hq
    · simp [hdead] at hl
    · exact hp q hq hl
  | case3 marks ref pending cell hc hf ih =>
    obtain ⟨hp, hn⟩ := ih (by simpa using hsize) fun r c n hr hcr hn hl => by
      rcases (marked_set hf).1 hr with hi | hr
      · -- the object that is entered, whose references are now pending
        obtain rfl := eq_of_isLive (isLive_of_cell? hcr) (isLive_of_cell? hc) hi
        obtain rfl : c = cell := by simpa [hc] using hcr.symm
        exact Or.inr (List.mem_append_left _ hn)
      · rcases hm r c n hr hcr hn hl with hmn | hmn
        · exact Or.inl ((marked_set hf).2 (Or.inr hmn))
        · rcases List.mem_cons.1 hmn with rfl | hmn
          · exact Or.inl ((marked_set hf).2 (Or.inl rfl))
          · exact Or.inr (List.mem_append_right _ hmn)
    refine ⟨fun q hq hl => ?_, hn⟩
    rcases List.mem_cons.1 hq with rfl | hq
    · exact Marked.mark ((marked_set hf).2 (Or.inl rfl)) _
    · exact hp q (List.mem_append_right _ hq) hl
  | case4 marks ref pending cell hc hf ih =>
    -- so is an object that was entered before
    have hmarked : Marked marks ref := by
      obtain ⟨hi, -⟩ := Array.getElem?_eq_some_iff.1 (cell?_eq_some_iff.1 hc)
      have hi' : ref.index < marks.size := hsize ▸ hi
      unfold Marked
      cases hb : marks[ref.index] <;> simp_all
    obtain ⟨hp, hn⟩ := ih hsize fun r c n hr hcr hn hl => by
      rcases hm r c n hr hcr hn hl with hmn | hmn
      · exact Or.inl hmn
      · rcases List.mem_cons.1 hmn with rfl | hmn
        · exact Or.inl hmarked
        · exact Or.inr hmn
    refine ⟨fun q hq hl => ?_, hn⟩
    rcases List.mem_cons.1 hq with rfl | hq
    · exact Marked.mark hmarked _
    · exact hp q hq hl

theorem marked_reachableMarks_iff {h : Heap} {extra : List ObjectRef} {q : ObjectRef}
    (hl : h.isLive q = true) :
    Marked (h.reachableMarks extra) q ↔ h.Reaches (h.roots ++ extra) q := by
  let clear := Array.replicate h.slots.size false
  have hclear (r : ObjectRef) : ¬ Marked clear r := by
    simp only [Marked, clear, Array.getElem?_replicate]
    split <;> simp
  constructor
  · exact mark_sound (P := h.Reaches (h.roots ++ extra))
      (fun _ _ _ hr hc hn hl => .step hr hc hn hl) clear _
      (fun r _ hr => absurd hr (hclear r)) (fun r hr hl => .start hr hl) q hl
  · intro hr
    obtain ⟨hp, hn⟩ := mark_complete (h := h) clear (h.roots ++ extra) (by simp [clear])
      (fun r _ _ hr => absurd hr (hclear r))
    induction hr with
    | start hm hl => exact hp _ hm hl
    | step _ hc hm hl ih => exact hn _ _ _ (ih (isLive_of_cell? hc)) hc hm hl

variable {h : Heap} {extra : List ObjectRef}

/-- A collection keeps what is reachable, as it is, and nothing else. -/
theorem cell?_collect_eq_some_iff {q : ObjectRef} {cell : Cell} :
    (h.collect extra).2.cell? q = some cell ↔
      h.cell? q = some cell ∧ h.Reaches (h.roots ++ extra) q := by
  change (h.sweep (h.reachableMarks extra)).cell? q = some cell ↔ _
  rw [cell?_sweep]
  cases hc : h.cell? q with
  | none => simp
  | some c =>
    rw [← marked_reachableMarks_iff (isLive_of_cell? hc), ← getD_eq_true_iff]
    split <;> simp_all

theorem cell?_collect_of_reaches {q : ObjectRef} (hr : h.Reaches (h.roots ++ extra) q) :
    (h.collect extra).2.cell? q = h.cell? q := by
  obtain ⟨cell, hc⟩ := isLive_iff.1 hr.isLive
  rw [hc]
  exact cell?_collect_eq_some_iff.2 ⟨hc, hr⟩

theorem cell?_of_collect {q : ObjectRef} {cell : Cell}
    (hc : (h.collect extra).2.cell? q = some cell) : h.cell? q = some cell :=
  (cell?_collect_eq_some_iff.1 hc).1

theorem isLive_collect_iff {q : ObjectRef} :
    (h.collect extra).2.isLive q = true ↔ h.Reaches (h.roots ++ extra) q := by
  rw [isLive_iff]
  constructor
  · rintro ⟨cell, hc⟩
    exact (cell?_collect_eq_some_iff.1 hc).2
  · intro hr
    obtain ⟨cell, hc⟩ := isLive_iff.1 hr.isLive
    exact ⟨cell, cell?_collect_eq_some_iff.2 ⟨hc, hr⟩⟩

theorem rootCount_collect (h : Heap) (extra : List ObjectRef) (q : ObjectRef) :
    (h.collect extra).2.rootCount q = h.rootCount q := by
  by_cases hq : h.Reaches (h.roots ++ extra) q
  · rw [rootCount, rootCount, cell?_collect_of_reaches hq]
  · have hroot : h.rootCount q = 0 := by
      by_contra hn
      refine hq (.start (List.mem_append_left _ (mem_roots.2 hn)) ?_)
      cases hc : h.cell? q with
      | none => simp [rootCount, hc] at hn
      | some cell => exact isLive_of_cell? hc
    have hdead : (h.collect extra).2.cell? q = none := by
      apply not_isLive_iff.1
      rw [← Bool.not_eq_true, isLive_collect_iff]
      exact hq
    rw [hroot, rootCount, hdead]

@[simp] theorem limit_collect (h : Heap) (extra : List ObjectRef) :
    (h.collect extra).2.limit = h.limit := rfl

theorem WellFormed.collect (hw : h.WellFormed) (extra : List ObjectRef) :
    (h.collect extra).2.WellFormed := hw.sweep _

theorem live_collect_le (h : Heap) (extra : List ObjectRef) :
    (h.collect extra).2.live ≤ h.live := Nat.sub_le _ _

end Heap

end Promises
