import Promises.Proofs.Agent.Delivery
import Promises.Proofs.Heap.Collection

namespace Promises

namespace Heap

variable {h : Heap}

/-- Where all objects are marked, a sweep changes nothing. -/
theorem sweep_of_garbage_eq_nil {marks : Array Bool} (hg : h.garbage marks = []) :
    h.sweep marks = h := by
  have hslots : (h.sweep marks).slots = h.slots := by
    apply Array.ext_getElem?
    intro i
    rw [getElem?_sweep]
    cases hs : h.slots[i]? with
    | none => rfl
    | some slot =>
      obtain ⟨g, _ | cell⟩ := slot
      · rfl
      · have hmark : marks.getD i false = true := by
          by_contra hn
          have hi : i ∈ h.garbage marks := mem_garbage.2 ⟨g, cell, hs, Bool.eq_false_iff.2 hn⟩
          rw [hg] at hi
          exact List.not_mem_nil hi
        rw [Option.map_some, hmark]
        rfl
  have hfree : (h.sweep marks).free = h.free := by
    rw [sweep, hg]
    rfl
  have hlive : (h.sweep marks).live = h.live := by
    rw [sweep, hg]
    rfl
  calc h.sweep marks
      = ⟨(h.sweep marks).slots, (h.sweep marks).free, h.limit, (h.sweep marks).live⟩ := rfl
    _ = h := by rw [hslots, hfree, hlive]

/-- A collection after which a heap is full has freed nothing, as there never is more than there may
be. -/
theorem WellFormed.collect_of_isFull (hw : h.WellFormed) {extra : List ObjectRef}
    (hf : (h.collect extra).2.isFull = true) : (h.collect extra).2 = h := by
  have hfull : h.limit ≤ (h.collect extra).2.live := of_decide_eq_true hf
  have hsum := hw.live_collect extra
  have hle := hw.live_le
  have hfreed : (h.collect extra).1.freed = 0 := by omega
  exact sweep_of_garbage_eq_nil (List.eq_nil_of_length_eq_zero hfreed)

end Heap

namespace Agent

variable {limit : Nat} {careful : Prop} {a b : Agent}

/-- Where no room could be made, nothing was changed. -/
theorem makeRoom_of_isFull (hw : a.heap.WellFormed) (hf : a.makeRoom.heap.isFull = true) :
    a.makeRoom = a := by
  unfold makeRoom at hf ⊢
  split
  · rename_i hfull
    rw [if_pos hfull] at hf
    rw [collected, hw.collect_of_isFull hf]
  · rfl

/-- An allocation that is refused changes nothing. -/
theorem allocate_refused (ha : a.Sound) {object : HeapObject} {e : EngineError}
    (hr : allocate object a = .ok (.error e) b) : b = a := by
  rw [allocate_run] at hr
  split at hr
  · exact (EStateM.Result.ok.inj hr).2.symm
  · split at hr
    · rename_i hf
      obtain ⟨-, rfl⟩ := EStateM.Result.ok.inj hr
      exact makeRoom_of_isFull ha.shape hf
    · obtain ⟨he, -⟩ := EStateM.Result.ok.inj hr
      cases he

/-- A registration that is refused takes back the root that its source could be given, and changes
nothing. -/
theorem addReactions_refused (ha : a.Sound) {ref : ObjectRef} {f g : Option FunctionId}
    {e : EngineError} (hroom : a.heap.rootCount ref + 1 < UInt32.size)
    (hr : addReactions ref f g a = .ok (.error e) b) : b = a := by
  rw [addReactions_of_room ha ref f g hroom] at hr
  cases hrecord : a.heap.record? ref with
  | error e =>
    rw [hrecord] at hr
    exact (EStateM.Result.ok.inj hr).2.symm
  | ok record =>
    rw [hrecord] at hr
    dsimp only at hr
    split at hr
    · exact (EStateM.Result.ok.inj hr).2.symm
    · split at hr
      · rename_i hf
        obtain ⟨-, rfl⟩ := EStateM.Result.ok.inj hr
        rw [makeRoom_of_isFull (ha.idle (.retain a ref)).shape hf]
        exact released_retained hroom
      · obtain ⟨he, -⟩ := EStateM.Result.ok.inj hr
        cases he

/-- A settlement that is refused was not begun. -/
theorem settlement_refused (ha : a.Sound) {kind : ReactionKind} {ref : ObjectRef}
    {value : ManagedValue} {x : Request Agent Bool} {e : EngineError}
    (hx : x a = if a.terminating then .ok (.error .terminated) a else passOn kind ref value a)
    (hr : x a = .ok (.error e) b) : b = a := by
  rw [hx] at hr
  split at hr
  · exact (EStateM.Result.ok.inj hr).2.symm
  · rw [passOn_run kind ref value a (ha.unlatched ref)] at hr
    cases hrecord : a.heap.record? ref with
    | error e =>
      rw [hrecord] at hr
      exact (EStateM.Result.ok.inj hr).2.symm
    | ok record =>
      rw [hrecord] at hr
      dsimp only at hr
      -- a promise that is there answers, whether or not it was resolved before
      split at hr
      · obtain ⟨he, -⟩ := EStateM.Result.ok.inj hr
        cases he
      · obtain ⟨he, -⟩ := EStateM.Result.ok.inj hr
        cases he

end Agent

end Promises
