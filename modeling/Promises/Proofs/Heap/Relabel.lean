import Promises.Agent.Workload
import Promises.Proofs.Heap.Record

namespace Promises

variable (f : FunctionId → FunctionId)

def Reaction.relabel : Reaction → Reaction
  | derive handler derived => .derive (handler.map f) derived
  | adopt follower => .adopt follower

def ReactionPair.relabel (pair : ReactionPair) : ReactionPair :=
  ⟨pair.onFulfilled.relabel f, pair.onRejected.relabel f⟩

def PromiseRecord.relabel (r : PromiseRecord) : PromiseRecord :=
  { r with reactions := r.reactions.map (·.relabel f) }

def HeapObject.relabel : HeapObject → HeapObject
  | plain => .plain
  | promise record => .promise (record.relabel f)

def Cell.relabel (cell : Cell) : Cell := { cell with object := cell.object.relabel f }

def Slot.relabel (slot : Slot) : Slot := { slot with cell := slot.cell.map (·.relabel f) }

def Heap.relabel (h : Heap) : Heap := { h with slots := h.slots.map (·.relabel f) }

def Job.relabel : Job → Job
  | react kind reaction argument => .react kind (reaction.relabel f) argument
  | follow promise thenable => .follow promise thenable

def JobQueue.relabel (q : JobQueue) : JobQueue :=
  ⟨q.front.map (·.relabel f), q.back.map (·.relabel f)⟩

def NativeJob.relabel (job : NativeJob) : NativeJob := { job with handler := f job.handler }

@[simp] theorem Reaction.target_relabel (x : Reaction) : (x.relabel f).target = x.target := by
  cases x <;> rfl

@[simp] theorem ReactionPair.due_relabel (pair : ReactionPair) (kind : ReactionKind) :
    (pair.relabel f).due kind = (pair.due kind).relabel f := by
  cases kind <;> rfl

namespace PromiseRecord

@[simp] theorem new_relabel : new.relabel f = new := by
  simp only [relabel, new, Array.map_empty]

@[simp] theorem lock_relabel (r : PromiseRecord) : (r.relabel f).lock = r.lock.relabel f := rfl

@[simp] theorem markHandled_relabel (r : PromiseRecord) :
    (r.relabel f).markHandled = r.markHandled.relabel f := rfl

@[simp] theorem addReactions_relabel (r : PromiseRecord) (pair : ReactionPair) :
    (r.relabel f).addReactions (pair.relabel f) = (r.addReactions pair).relabel f := by
  simp only [addReactions, relabel, Array.map_push]

@[simp] theorem references_relabel (r : PromiseRecord) : (r.relabel f).references = r.references := by
  simp only [references, relabel, result, Array.toList_map, List.map_map, Function.comp_def,
    ReactionPair.relabel, Reaction.target_relabel]

@[simp] theorem workload_relabel (r : PromiseRecord) : (r.relabel f).workload = r.workload := by
  rw [workload, relabel, Array.size_map]
  rfl

end PromiseRecord

@[simp] theorem HeapObject.kind_relabel (x : HeapObject) : (x.relabel f).kind = x.kind := by
  cases x <;> rfl

@[simp] theorem HeapObject.references_relabel (x : HeapObject) :
    (x.relabel f).references = x.references := by
  cases x with
  | plain => rfl
  | promise record => exact record.references_relabel f

namespace Slot

@[simp] theorem isRooted_relabel (slot : Slot) : (slot.relabel f).isRooted = slot.isRooted := by
  obtain ⟨generation, _ | cell⟩ := slot <;> rfl

@[simp] theorem vacate_relabel (slot : Slot) : (slot.relabel f).vacate = slot.vacate.relabel f := rfl

@[simp] theorem workload_relabel (slot : Slot) : (slot.relabel f).workload = slot.workload := by
  obtain ⟨generation, _ | ⟨_ | record, roots⟩⟩ := slot
  · rfl
  · rfl
  · exact record.workload_relabel f

end Slot

namespace Heap

variable (h : Heap)

@[simp] theorem isFull_relabel : (h.relabel f).isFull = h.isFull := rfl

@[simp] theorem limit_relabel : (h.relabel f).limit = h.limit := rfl

@[simp] theorem live_relabel : (h.relabel f).live = h.live := rfl

@[simp] theorem getElem?_relabel (i : Nat) :
    (h.relabel f).slots[i]? = h.slots[i]?.map (·.relabel f) := Array.getElem?_map

@[simp] theorem size_relabel : (h.relabel f).slots.size = h.slots.size := Array.size_map

@[simp] theorem cell?_relabel (ref : ObjectRef) :
    (h.relabel f).cell? ref = (h.cell? ref).map (·.relabel f) := by
  simp only [cell?, getElem?_relabel]
  cases h.slots[ref.index]? with
  | none => rfl
  | some slot =>
    change (if slot.generation = ref.generation then slot.cell.map (·.relabel f) else none) = _
    split <;> simp [*]

@[simp] theorem object?_relabel (ref : ObjectRef) :
    (h.relabel f).object? ref = (h.object? ref).map (·.relabel f) := by
  simp only [object?, cell?_relabel, Option.map_map]
  rfl

@[simp] theorem kind?_relabel (ref : ObjectRef) : (h.relabel f).kind? ref = h.kind? ref := by
  simp only [kind?, object?_relabel, Option.map_map, Function.comp_def, HeapObject.kind_relabel]

@[simp] theorem isPromise_relabel (ref : ObjectRef) : (h.relabel f).isPromise ref = h.isPromise ref := by
  simp only [isPromise, kind?_relabel]

@[simp] theorem isLive_relabel (ref : ObjectRef) : (h.relabel f).isLive ref = h.isLive ref := by
  simp only [isLive, cell?_relabel, Option.isSome_map]

@[simp] theorem record?_relabel (ref : ObjectRef) :
    (h.relabel f).record? ref = (h.record? ref).map (·.relabel f) := by
  simp only [record?, object?_relabel]
  rcases h.object? ref with _ | _ | record <;> rfl

@[simp] theorem rootCount_relabel (ref : ObjectRef) : (h.relabel f).rootCount ref = h.rootCount ref := by
  simp only [rootCount, cell?_relabel]
  cases h.cell? ref <;> rfl

@[simp] theorem roots_relabel : (h.relabel f).roots = h.roots := by
  have hslots : (h.relabel f).slots.toList.zipIdx =
      h.slots.toList.zipIdx.map (Prod.map (·.relabel f) id) := by
    rw [← List.zipIdx_map]
    simp [relabel]
  rw [roots, hslots, List.filterMap_map]
  refine List.filterMap_congr fun entry _ => ?_
  simp only [Function.comp_apply, Prod.map, Slot.isRooted_relabel]
  rfl

@[simp] theorem rooted_relabel : (h.relabel f).rooted = h.rooted := by
  simp only [rooted, relabel, Array.countP_map, Function.comp_def, Slot.isRooted_relabel]

@[simp] theorem workload_relabel : (h.relabel f).workload = h.workload := by
  have hlist (slots : List Slot) :
      total Slot.workload (slots.map (·.relabel f)) = total Slot.workload slots := by
    induction slots with
    | nil => rfl
    | cons slot slots ih => simp only [List.map_cons, total, ih, Slot.workload_relabel]
  simp only [workload, relabel, Array.toList_map, hlist]

theorem map_modify_of_comm {α β : Type} {g : α → β} {change : α → α} {change' : β → β}
    (hc : ∀ x, change' (g x) = g (change x)) (xs : Array α) (i : Nat) :
    (xs.map g).modify i change' = (xs.modify i change).map g := by
  apply Array.ext_getElem?
  intro j
  rw [Array.getElem?_modify, Array.getElem?_map, Array.getElem?_map, Array.getElem?_modify]
  split
  · cases xs[j]? with
    | none => rfl
    | some x => exact congrArg some (hc x)
  · rfl

theorem update_relabel {g g' : Cell → Cell} (hg : ∀ cell, g' (cell.relabel f) = (g cell).relabel f)
    (ref : ObjectRef) : (h.relabel f).update ref g' = (h.update ref g).relabel f := by
  let change (k : Cell → Cell) (slot : Slot) : Slot :=
    if slot.generation = ref.generation then { slot with cell := slot.cell.map k } else slot
  have hslot (slot : Slot) : change g' (slot.relabel f) = (change g slot).relabel f := by
    obtain ⟨generation, cell⟩ := slot
    simp only [change, Slot.relabel]
    split
    · cases cell with
      | none => rfl
      | some cell => simp only [Option.map_some, hg]
    · rfl
  exact congrArg (fun slots => { h with slots }) (map_modify_of_comm hslot h.slots ref.index)

@[simp] theorem setRecord_relabel (ref : ObjectRef) (record : PromiseRecord) :
    (h.relabel f).setRecord ref (record.relabel f) = (h.setRecord ref record).relabel f :=
  update_relabel f h (g := fun cell => { cell with object := .promise record }) (fun _ => rfl) ref

@[simp] theorem retain_relabel (ref : ObjectRef) :
    ((h.relabel f).retain ref).2 = (h.retain ref).2.relabel f :=
  update_relabel f h (g := Cell.retained) (fun _ => rfl) ref

@[simp] theorem release_relabel (ref : ObjectRef) :
    ((h.relabel f).release ref).2 = (h.release ref).2.relabel f := by
  refine update_relabel f h (g := Cell.released) (fun cell => ?_) ref
  by_cases hr : cell.roots = 0 <;> simp [Cell.released, Cell.relabel, hr]

theorem place_relabel (object : HeapObject) :
    (h.relabel f).place (object.relabel f) = ((h.place object).1, (h.place object).2.relabel f) := by
  obtain ⟨slots, free, limit, live⟩ := h
  cases free with
  | nil => simp [place, relabel, Slot.relabel, Cell.relabel]
  | cons index free =>
    have hgeneration : ((slots.map (·.relabel f))[index]?.map (·.generation)) =
        slots[index]?.map (·.generation) := by
      rw [Array.getElem?_map, Option.map_map]
      rfl
    let fill (object : HeapObject) (slot : Slot) : Slot := { slot with cell := some ⟨object, 0⟩ }
    have hslots : (slots.map (·.relabel f)).modify index (fill (object.relabel f)) =
        (slots.modify index (fill object)).map (·.relabel f) := by
      have hfill (slot : Slot) :
          fill (object.relabel f) (slot.relabel f) = (fill object slot).relabel f := rfl
      exact map_modify_of_comm hfill slots index
    simp only [place, relabel, hgeneration]
    exact congrArg (fun slots => (_, (⟨slots, free, limit, live + 1⟩ : Heap))) hslots

@[simp] theorem mark_relabel (marks : Array Bool) (pending : List ObjectRef) :
    (h.relabel f).mark marks pending = h.mark marks pending := by
  fun_induction h.mark marks pending with
  | case1 marks => rw [mark]
  | case2 marks ref pending hc ih =>
    rw [mark, cell?_relabel, hc]
    exact ih
  | case3 marks ref pending cell hc hfresh ih =>
    rw [mark, cell?_relabel, hc]
    simp only [Option.map_some, Cell.relabel, HeapObject.references_relabel, if_pos hfresh]
    exact ih
  | case4 marks ref pending cell hc hfresh ih =>
    rw [mark, cell?_relabel, hc]
    simp only [Option.map_some, if_neg hfresh]
    exact ih

@[simp] theorem garbage_relabel (marks : Array Bool) : (h.relabel f).garbage marks = h.garbage marks := by
  have hgarbage : (h.relabel f).isGarbage marks = h.isGarbage marks := by
    funext i
    simp only [isGarbage, getElem?_relabel]
    cases h.slots[i]? with
    | none => rfl
    | some slot =>
      simp only [Option.map_some, Slot.relabel, Option.isSome_map]
  rw [garbage, size_relabel, hgarbage, garbage]

theorem sweep_relabel (marks : Array Bool) : (h.relabel f).sweep marks = (h.sweep marks).relabel f := by
  have hslots : (h.relabel f).slots.mapIdx (fun index slot =>
        if slot.cell.isSome && !marks.getD index false then slot.vacate else slot) =
      (h.slots.mapIdx fun index slot =>
        if slot.cell.isSome && !marks.getD index false then slot.vacate else slot).map (·.relabel f) := by
    apply Array.ext_getElem?
    intro i
    rw [Array.getElem?_mapIdx, Array.getElem?_map, Array.getElem?_mapIdx, getElem?_relabel]
    cases h.slots[i]? with
    | none => rfl
    | some slot =>
      simp only [Option.map_some, Slot.relabel, Option.isSome_map]
      split <;> rfl
  simp only [sweep, hslots, garbage_relabel, live_relabel]
  rfl

theorem collect_relabel (extraRoots : List ObjectRef) :
    (h.relabel f).collect extraRoots =
      ((h.collect extraRoots).1, (h.collect extraRoots).2.relabel f) := by
  simp only [collect, reachableMarks, size_relabel, roots_relabel, mark_relabel, sweep_relabel,
    garbage_relabel, live_relabel]

end Heap

@[simp] theorem Job.references_relabel (job : Job) : (job.relabel f).references = job.references := by
  cases job with
  | react kind reaction argument => simp only [references, relabel, Reaction.target_relabel]
  | follow promise thenable => rfl

namespace JobQueue

variable (q : JobQueue)

@[simp] theorem toList_relabel : (q.relabel f).toList = q.toList.map (·.relabel f) := by
  simp only [toList, relabel, List.map_append, List.map_reverse]

@[simp] theorem references_relabel : (q.relabel f).references = q.references := by
  simp only [references, toList_relabel, List.flatMap_map, Job.references_relabel]

@[simp] theorem length_relabel : (q.relabel f).length = q.length := by
  simp only [length, relabel, List.length_map]

@[simp] theorem push_relabel (job : Job) : (q.relabel f).push (job.relabel f) = (q.push job).relabel f :=
  rfl

@[simp] theorem pushAll_relabel (jobs : List Job) :
    (q.relabel f).pushAll (jobs.map (·.relabel f)) = (q.pushAll jobs).relabel f := by
  induction jobs generalizing q with
  | nil => rfl
  | cons job jobs ih => exact ih (q.push job)

theorem pop?_relabel :
    (q.relabel f).pop? = q.pop?.map (Prod.map (·.relabel f) (·.relabel f)) := by
  obtain ⟨_ | ⟨job, front⟩, back⟩ := q
  · simp only [pop?, relabel, List.map_nil, ← List.map_reverse]
    cases back.reverse <;> rfl
  · rfl

@[simp] theorem workload_relabel : (q.relabel f).workload = q.workload := by
  have hlist (jobs : List Job) :
      total Job.workload (jobs.map (·.relabel f)) = total Job.workload jobs := by
    induction jobs with
    | nil => rfl
    | cons job jobs ih =>
      have hjob : (job.relabel f).workload = job.workload := by cases job <;> rfl
      simp only [List.map_cons, total, ih, hjob]
  simp only [workload, toList_relabel, hlist]

end JobQueue

end Promises
