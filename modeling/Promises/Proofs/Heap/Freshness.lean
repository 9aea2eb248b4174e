import Mathlib.Data.List.Nodup
import Mathlib.Order.Nat
import Promises.Proofs.Heap.Record

/-! A heap over everything that is done to it. `Log` keeps beside a heap the references that were given out
and counts how often each slot lost its object. The generation of a slot is that count as far as a word can
tell, so that a reference is never given out twice, and resolves for nothing after its object has gone,
before a slot lost as many objects as there are generations. -/

namespace Promises

namespace Heap

/-- A new object lies in a vacant slot, at the generation of the slot, or in a new slot. -/
theorem place_fst_cases {h : Heap} (hw : h.WellFormed) (object : HeapObject) :
    (∃ g, h.slots[(h.place object).1.index]? = some ⟨g, none⟩ ∧ (h.place object).1.generation = g ∧
        (h.place object).2.slots.size = h.slots.size) ∨
      (h.place object).1.index = h.slots.size ∧ (h.place object).1.generation = 0 ∧
        (h.place object).2.slots.size = h.slots.size + 1 := by
  unfold place
  split
  · rename_i index free hfree
    obtain ⟨g, hslot⟩ := (hw.mem_free index).1 (hfree ▸ List.mem_cons_self)
    refine .inl ⟨g, hslot, ?_, Array.size_modify⟩
    show (h.slots[index]?.map (·.generation)).getD 0 = g
    rw [hslot]
    rfl
  · exact .inr ⟨rfl, rfl, Array.size_push _⟩

theorem index_place_lt {h : Heap} (hw : h.WellFormed) (object : HeapObject) :
    (h.place object).1.index < (h.place object).2.slots.size := by
  rcases place_fst_cases hw object with ⟨g, hslot, -, hsize⟩ | ⟨hindex, -, hsize⟩
  · rw [hsize]
    exact (Array.getElem?_eq_some_iff.1 hslot).1
  · omega

theorem size_le_place {h : Heap} (hw : h.WellFormed) (object : HeapObject) :
    h.slots.size ≤ (h.place object).2.slots.size := by
  rcases place_fst_cases hw object with ⟨g, -, -, hsize⟩ | ⟨-, -, hsize⟩ <;> omega

/-- The slots beside that of a new object stay as they are. -/
theorem getElem?_place_of_ne (h : Heap) (object : HeapObject) {i : ℕ} (hi : i ≠ (h.place object).1.index) :
    (h.place object).2.slots[i]? = h.slots[i]? := by
  unfold place at hi ⊢
  split
  · rename_i index free hfree
    rw [hfree] at hi
    rw [Array.getElem?_modify, if_neg (Ne.symm hi)]
  · rename_i hfree
    rw [hfree] at hi
    rw [Array.getElem?_push, if_neg hi]

/-- The slot of a new object is at the generation of its reference. -/
theorem generation_place {h : Heap} (hw : h.WellFormed) (object : HeapObject) {slot : Slot}
    (hslot : (h.place object).2.slots[(h.place object).1.index]? = some slot) :
    slot.generation = (h.place object).1.generation := by
  have hcell : (h.place object).2.cell? (h.place object).1 = some ⟨object, 0⟩ := by
    rw [hw.cell?_place, if_pos rfl]
  rw [cell?_eq_some_iff.1 hcell] at hslot
  rw [← Option.some.inj hslot]

theorem getElem?_update (h : Heap) (ref : ObjectRef) (f : Cell → Cell) (i : ℕ) :
    ((h.update ref f).slots[i]?).map (·.generation) = h.slots[i]?.map (·.generation) := by
  show ((h.slots.modify ref.index _)[i]?).map (·.generation) = _
  rw [Array.getElem?_modify]
  split
  · rw [Option.map_map]
    apply congrArg (h.slots[i]?.map ·)
    funext slot
    dsimp only [Function.comp_apply]
    split <;> rfl
  · rfl

/-- A reference that leads to nothing, and through which nothing can be done. -/
structure Dead (h : Heap) (ref : ObjectRef) : Prop where
  get : h.object? ref = none
  tag : h.kind? ref = none
  isLive : h.isLive ref = false
  rootCount : h.rootCount ref = 0
  retain : h.retain ref = (false, h)
  release : h.release ref = (false, h)
  update : ∀ f : Cell → Cell, h.update ref f = h

theorem dead_of_cell? {h : Heap} {ref : ObjectRef} (hcell : h.cell? ref = none) : h.Dead ref := by
  have hget : h.object? ref = none := by rw [object?, hcell, Option.map_none]
  have hcount : h.rootCount ref = 0 := rootCount_of_dead hcell
  refine
    { get := hget
      tag := by rw [kind?, hget, Option.map_none]
      isLive := not_isLive_iff.2 hcell
      rootCount := hcount
      retain := ?_
      release := ?_
      update := update_of_cell?_eq_none hcell }
  · rw [Heap.retain, not_isLive_iff.2 hcell, update_of_cell?_eq_none hcell]
  · rw [Heap.release, hcount, update_of_cell?_eq_none hcell]
    rfl

/-- What can be done to a heap. A sweep may come after any marking. -/
inductive Operation where
  | alloc (object : HeapObject)
  | retain (ref : ObjectRef)
  | release (ref : ObjectRef)
  | modify (ref : ObjectRef) (change : HeapObject → HeapObject)
  | sweep (marks : Array Bool)
  | collect (extraRoots : List ObjectRef)

/-- A reference that was given out, and how often its slot had lost an object by then. -/
structure Issue where
  ref : ObjectRef
  freed : ℕ

/-- A heap and what happened to it. -/
structure Log where
  heap : Heap
  /-- The references that were given out, the oldest first. The number of an object is its place here. -/
  issued : List Issue
  /-- The objects that no sweep has freed, by number. -/
  present : List ℕ
  /-- How often each slot lost its object. -/
  freed : ℕ → ℕ

namespace Log

def start (limit : ℕ) : Log := ⟨empty limit, [], [], fun _ => 0⟩

/-- Whether marks are on the slot that the object of a number was put into. -/
def spares (l : Log) (marks : Array Bool) (number : ℕ) : Bool :=
  match l.issued[number]? with
  | some e => marks.getD e.ref.index false
  | none => false

/-- A sweep takes the objects whose slots are not marked. -/
def sweep (l : Log) (marks : Array Bool) : Log :=
  { l with
    heap := l.heap.sweep marks
    present := l.present.filter (l.spares marks)
    freed := fun slot => if slot ∈ l.heap.garbage marks then l.freed slot + 1 else l.freed slot }

def perform (l : Log) : Operation → Log
  | .alloc object =>
    match l.heap.alloc object with
    | some (ref, heap) =>
      { l with
        heap
        issued := l.issued ++ [⟨ref, l.freed ref.index⟩]
        present := l.present ++ [l.issued.length] }
    | none => l
  | .retain ref => { l with heap := (l.heap.retain ref).2 }
  | .release ref => { l with heap := (l.heap.release ref).2 }
  | .modify ref change =>
    { l with heap := l.heap.update ref fun cell => { cell with object := change cell.object } }
  | .sweep marks => l.sweep marks
  | .collect extraRoots =>
    { l.sweep (l.heap.reachableMarks extraRoots) with heap := (l.heap.collect extraRoots).2 }

/-- What a run of operations makes of a heap. -/
def performAll (l : Log) (ops : List Operation) : Log := ops.foldl perform l

/-- Whether some generation of each slot was not in use yet. -/
def Unwrapped (l : Log) : Prop := ∀ slot, l.freed slot < UInt32.size

/-- A heap in order. -/
structure Orderly (limit : ℕ) (l : Log) : Prop where
  /-- The count of live objects is that of the occupied slots. -/
  live_eq : l.heap.live = l.heap.slots.countP Slot.isOccupied
  live_le : l.heap.live ≤ limit
  size_le : l.heap.slots.size ≤ limit
  /-- The free list holds the slots without an object, and no others, -/
  mem_free : ∀ slot, slot ∈ l.heap.free ↔ ∃ g, l.heap.slots[slot]? = some ⟨g, none⟩
  /-- each of them once. -/
  free_nodup : l.heap.free.Nodup
  /-- There is no place for an object only when as many live as may. -/
  alloc : ∀ object, l.heap.alloc object = none ↔ l.heap.live = limit
  index_lt : ∀ e ∈ l.issued, e.ref.index < limit
  /-- An object that was not freed is found by its reference. -/
  present : ∀ number ∈ l.present, ∃ e, l.issued[number]? = some e ∧ l.heap.isLive e.ref = true
  /-- All references that were given out are different, -/
  distinct : l.Unwrapped → (l.issued.map (·.ref)).Nodup
  /-- and the next one is another again. -/
  fresh : l.Unwrapped → ∀ (object : HeapObject) (ref : ObjectRef) (heap : Heap),
    l.heap.alloc object = some (ref, heap) → ref ∉ l.issued.map (·.ref)
  /-- The reference of an object that was freed leads to nothing. -/
  gone : l.Unwrapped → ∀ (number : ℕ) (e : Issue), l.issued[number]? = some e → number ∉ l.present →
    l.heap.Dead e.ref
  /-- What a sweep takes from the count was in it. -/
  sweep : ∀ marks : Array Bool, (l.heap.sweep marks).live + (l.heap.garbage marks).length = l.heap.live
  /-- What a release takes from the roots was in them, and where there are none it takes nothing. -/
  release : ∀ ref : ObjectRef,
    if (l.heap.release ref).1 = true then (l.heap.release ref).2.rootCount ref + 1 = l.heap.rootCount ref
    else (l.heap.release ref).2 = l.heap ∧ l.heap.rootCount ref = 0

/-- A heap as its log describes it. -/
structure Matches (limit : ℕ) (l : Log) : Prop where
  wellFormed : l.heap.WellFormed
  limit_eq : l.heap.limit = limit
  /-- A generation counts how often its slot lost an object. -/
  generation : ∀ (i : ℕ) (g : UInt32), l.heap.slots[i]?.map (·.generation) = some g →
    g = UInt32.ofNat (l.freed i)
  unused : ∀ i, l.heap.slots.size ≤ i → l.freed i = 0
  issued : ∀ e ∈ l.issued, e.ref.index < l.heap.slots.size ∧ e.ref.generation = UInt32.ofNat e.freed ∧
    e.freed ≤ l.freed e.ref.index
  /-- Between two references to one slot, this lost an object. -/
  ordered : l.issued.Pairwise fun e e' => e.ref.index = e'.ref.index → e.freed < e'.freed
  present : ∀ number ∈ l.present, ∃ e, l.issued[number]? = some e ∧ l.heap.isLive e.ref = true ∧
    e.freed = l.freed e.ref.index
  /-- The slot of an object that was freed lost an object since. -/
  gone : ∀ (number : ℕ) (e : Issue), l.issued[number]? = some e → number ∉ l.present →
    e.freed < l.freed e.ref.index

variable {limit : ℕ} {l : Log}

theorem matches_start (limit : ℕ) : (start limit).Matches limit where
  wellFormed := wellFormed_empty limit
  limit_eq := rfl
  generation _ _ hslot := by simp [start, empty] at hslot
  unused _ _ := rfl
  issued _ he := nomatch he
  ordered := .nil
  present _ hnumber := nomatch hnumber
  gone _ _ he := nomatch he

namespace Matches

/-- A change of what lies at a reference leaves the log as it is. -/
theorem update (h : l.Matches limit) (ref : ObjectRef) (f : Cell → Cell) :
    Matches limit { l with heap := l.heap.update ref f } := by
  have hsize : (l.heap.update ref f).slots.size = l.heap.slots.size := Array.size_modify
  refine
    { wellFormed := h.wellFormed.update ref f
      limit_eq := h.limit_eq
      generation := ?_
      unused := ?_
      issued := ?_
      ordered := h.ordered
      present := ?_
      gone := h.gone }
  · intro i g hslot
    rw [getElem?_update] at hslot
    exact h.generation i g hslot
  · intro i hi
    exact h.unused i (hsize ▸ hi)
  · intro e he
    show e.ref.index < (l.heap.update ref f).slots.size ∧ _
    rw [hsize]
    exact h.issued e he
  · intro number hnumber
    obtain ⟨e, he, hlive, hcount⟩ := h.present number hnumber
    refine ⟨e, he, ?_, hcount⟩
    rw [isLive_update]
    exact hlive

/-- A vacant slot holds none of the objects that were put into it. -/
theorem lt_freed_of_vacant (h : l.Matches limit) {number : ℕ} {e : Issue} {g : UInt32}
    (he : l.issued[number]? = some e) (hslot : l.heap.slots[e.ref.index]? = some ⟨g, none⟩) :
    e.freed < l.freed e.ref.index := by
  apply h.gone number e he
  intro hnumber
  obtain ⟨e', he', hlive, -⟩ := h.present number hnumber
  cases Option.some.inj (he'.symm.trans he)
  obtain ⟨cell, hcell⟩ := isLive_iff.1 hlive
  rw [cell?_eq_some_iff.1 hcell] at hslot
  cases hslot

/-- The slot of the next object has lost an object since each reference that led to it. -/
theorem lt_freed_place (h : l.Matches limit) (object : HeapObject) {e : Issue} (he : e ∈ l.issued)
    (hindex : e.ref.index = (l.heap.place object).1.index) : e.freed < l.freed e.ref.index := by
  obtain ⟨number, hnumber⟩ := List.getElem?_of_mem he
  rcases place_fst_cases h.wellFormed object with ⟨g, hslot, -, -⟩ | ⟨hnew, -, -⟩
  · rw [← hindex] at hslot
    exact h.lt_freed_of_vacant hnumber hslot
  · -- no reference leads to a slot that is not there
    have hlt := (h.issued e he).1
    omega

/-- The reference to the next object is at the generation that its slot has come to. -/
theorem generation_place_fst (h : l.Matches limit) (object : HeapObject) :
    (l.heap.place object).1.generation = UInt32.ofNat (l.freed (l.heap.place object).1.index) := by
  rcases place_fst_cases h.wellFormed object with ⟨g, hslot, hg, -⟩ | ⟨hnew, hg, -⟩
  · rw [hg]
    apply h.generation
    rw [hslot]
    rfl
  · rw [hg, h.unused _ (by omega)]
    rfl

/-- A new object gets the next number. -/
theorem place (h : l.Matches limit) (hroom : l.heap.isFull = false) (object : HeapObject) :
    Matches limit
      { l with
        heap := (l.heap.place object).2
        issued := l.issued ++ [⟨(l.heap.place object).1, l.freed (l.heap.place object).1.index⟩]
        present := l.present ++ [l.issued.length] } := by
  have hw := h.wellFormed
  generalize hnew : Issue.mk (l.heap.place object).1 (l.freed (l.heap.place object).1.index) = new
  have href : new.ref = (l.heap.place object).1 := congrArg Issue.ref hnew.symm
  have hfreed : new.freed = l.freed new.ref.index := by rw [← hnew]
  have hsize := size_le_place hw object
  refine
    { wellFormed := hw.place hroom object
      limit_eq := (limit_place _ _).trans h.limit_eq
      generation := ?generation
      unused := ?unused
      issued := ?issued
      ordered := ?ordered
      present := ?present
      gone := ?gone }
  case generation =>
    intro i g hslot
    -- only the slot that is taken has changed
    by_cases hi : i = (l.heap.place object).1.index
    · obtain ⟨slot, hplaced, rfl⟩ := Option.map_eq_some_iff.1 hslot
      rw [hi] at hplaced ⊢
      rw [generation_place hw object hplaced]
      exact h.generation_place_fst object
    · rw [getElem?_place_of_ne _ _ hi] at hslot
      exact h.generation i g hslot
  case unused =>
    intro i hi
    exact h.unused i (hsize.trans hi)
  case issued =>
    intro e he
    rcases List.mem_append.1 he with he | he
    · obtain ⟨hlt, hrest⟩ := h.issued e he
      exact ⟨hlt.trans_le hsize, hrest⟩
    · rw [List.mem_singleton.1 he, hfreed, href]
      exact ⟨index_place_lt hw object, h.generation_place_fst object, le_rfl⟩
  case ordered =>
    refine List.pairwise_append.2 ⟨h.ordered, List.pairwise_singleton _ _, ?_⟩
    intro e he e' he' hindex
    rw [List.mem_singleton.1 he'] at hindex ⊢
    -- the objects that had the slot before have gone
    rw [hfreed, ← hindex]
    exact h.lt_freed_place object he (hindex.trans (congrArg ObjectRef.index href))
  case present =>
    intro number hnumber
    rcases List.mem_append.1 hnumber with hold | hlast
    · obtain ⟨e, he, hlive, hcount⟩ := h.present number hold
      refine ⟨e, ?_, isLive_place hw object hlive, hcount⟩
      show (l.issued ++ [new])[number]? = some e
      rw [List.getElem?_append_left (List.getElem?_eq_some_iff.1 he).1]
      exact he
    · rw [List.mem_singleton.1 hlast]
      refine ⟨new, List.getElem?_concat_length, ?_, hfreed⟩
      rw [href]
      apply isLive_of_cell?
      rw [hw.cell?_place, if_pos rfl]
  case gone =>
    intro number e he hgone
    by_cases hold : number < l.issued.length
    · have he : (l.issued ++ [new])[number]? = some e := he
      rw [List.getElem?_append_left hold] at he
      exact h.gone number e he fun hnumber => hgone (List.mem_append_left _ hnumber)
    · -- the last number is that of the new object, which is there
      have hlast : number < (l.issued ++ [new]).length := (List.getElem?_eq_some_iff.1 he).1
      rw [List.length_append, List.length_singleton] at hlast
      have hnumber : number = l.issued.length := by omega
      exact absurd (List.mem_append_right _ (List.mem_singleton.2 hnumber)) hgone

/-- A sweep counts for the slots that it frees. -/
theorem sweep (h : l.Matches limit) (marks : Array Bool) : (l.sweep marks).Matches limit := by
  have hsize : (l.heap.sweep marks).slots.size = l.heap.slots.size := Array.size_mapIdx
  have hle (slot : ℕ) : l.freed slot ≤ (l.sweep marks).freed slot := by
    show l.freed slot ≤ if slot ∈ l.heap.garbage marks then l.freed slot + 1 else l.freed slot
    split <;> omega
  refine
    { wellFormed := h.wellFormed.sweep marks
      limit_eq := h.limit_eq
      generation := ?generation
      unused := ?unused
      issued := ?issued
      ordered := h.ordered
      present := ?present
      gone := ?gone }
  case generation =>
    intro i g hslot
    have hslot : ((l.heap.sweep marks).slots[i]?).map (·.generation) = some g := hslot
    rw [getElem?_sweep, Option.map_map] at hslot
    obtain ⟨⟨k, cell⟩, hi, rfl⟩ := Option.map_eq_some_iff.1 hslot
    have hk : k = UInt32.ofNat (l.freed i) := h.generation i k (by rw [hi]; rfl)
    show _ = UInt32.ofNat (if i ∈ l.heap.garbage marks then l.freed i + 1 else l.freed i)
    -- a slot goes on to its next generation where it held an object without a mark
    have hfreed : i ∈ l.heap.garbage marks ↔ (cell.isSome && !marks.getD i false) = true := by
      rw [mem_garbage, hi]
      cases cell <;> simp
    simp only [hfreed, Function.comp_apply]
    split
    · rw [UInt32.ofNat_add, ← hk]
      rfl
    · exact hk
  case unused =>
    intro i hi
    have hi : l.heap.slots.size ≤ i := hsize ▸ hi
    have hout : i ∉ l.heap.garbage marks := by
      intro hmem
      obtain ⟨g, cell, hslot, -⟩ := mem_garbage.1 hmem
      have hlt := (Array.getElem?_eq_some_iff.1 hslot).1
      omega
    show (if i ∈ l.heap.garbage marks then l.freed i + 1 else l.freed i) = 0
    rw [if_neg hout]
    exact h.unused i hi
  case issued =>
    intro e he
    obtain ⟨hlt, hgeneration, hcount⟩ := h.issued e he
    exact ⟨hsize ▸ hlt, hgeneration, hcount.trans (hle _)⟩
  case present =>
    intro number hnumber
    obtain ⟨hold, hspared⟩ := List.mem_filter.1 hnumber
    obtain ⟨e, he, hlive, hcount⟩ := h.present number hold
    have hmark : marks.getD e.ref.index false = true := by
      rw [spares, he] at hspared
      exact hspared
    refine ⟨e, he, ?_, ?_⟩
    · obtain ⟨cell, hcell⟩ := isLive_iff.1 hlive
      apply isLive_of_cell?
      show (l.heap.sweep marks).cell? e.ref = some cell
      rw [cell?_sweep, if_pos hmark, hcell]
    · have hout : e.ref.index ∉ l.heap.garbage marks := by
        intro hmem
        obtain ⟨_, _, -, hunmarked⟩ := mem_garbage.1 hmem
        rw [hmark] at hunmarked
        cases hunmarked
      show e.freed = if e.ref.index ∈ l.heap.garbage marks then _ else _
      rw [if_neg hout]
      exact hcount
  case gone =>
    intro number e he hgone
    by_cases hold : number ∈ l.present
    · -- the object was there before, so that this sweep took it
      obtain ⟨e', he', hlive, hcount⟩ := h.present number hold
      cases Option.some.inj (he'.symm.trans he)
      have hunmarked : marks.getD e.ref.index false = false := by
        by_contra hmark
        have hspared : l.spares marks number = true := by
          rw [spares, he']
          exact eq_true_of_ne_false hmark
        exact hgone (List.mem_filter.2 ⟨hold, hspared⟩)
      obtain ⟨cell, hcell⟩ := isLive_iff.1 hlive
      have hmem : e.ref.index ∈ l.heap.garbage marks :=
        mem_garbage.2 ⟨_, cell, cell?_eq_some_iff.1 hcell, hunmarked⟩
      show e.freed < if e.ref.index ∈ l.heap.garbage marks then l.freed e.ref.index + 1 else _
      rw [if_pos hmem]
      omega
    · exact (h.gone number e he hold).trans_le (hle _)

/-- What one operation does keeps the heap as its log describes it. -/
theorem perform (h : l.Matches limit) (op : Operation) : (l.perform op).Matches limit := by
  cases op with
  | alloc object =>
    rw [Log.perform, alloc]
    cases hfull : l.heap.isFull with
    | true => exact h
    | false => exact h.place hfull object
  | retain ref => exact h.update ref _
  | release ref => exact h.update ref _
  | modify ref change => exact h.update ref _
  | sweep marks => exact h.sweep marks
  | collect extraRoots => exact h.sweep (l.heap.reachableMarks extraRoots)

theorem performAll (h : l.Matches limit) (ops : List Operation) : (l.performAll ops).Matches limit := by
  induction ops generalizing l with
  | nil => exact h
  | cons op ops ih => exact ih (h.perform op)

/-- Counts below the number of generations are told apart by the generations. -/
theorem eq_of_ofNat_eq {m n : ℕ} (hm : m < UInt32.size) (hn : n < UInt32.size)
    (heq : UInt32.ofNat m = UInt32.ofNat n) : m = n := by
  have htoNat := congrArg UInt32.toNat heq
  rwa [UInt32.toNat_ofNat_of_lt' hm, UInt32.toNat_ofNat_of_lt' hn] at htoNat

theorem distinct (h : l.Matches limit) (hu : l.Unwrapped) : (l.issued.map (·.ref)).Nodup := by
  refine List.pairwise_map.2 (h.ordered.imp_of_mem ?_)
  intro e e' he he' hlt hsame
  obtain ⟨-, hg, hcount⟩ := h.issued e he
  obtain ⟨-, hg', hcount'⟩ := h.issued e' he'
  have hless : e.freed < e'.freed := hlt (congrArg ObjectRef.index hsame)
  have hequal : e.freed = e'.freed := by
    apply eq_of_ofNat_eq (hcount.trans_lt (hu _)) (hcount'.trans_lt (hu _))
    rw [← hg, ← hg', hsame]
  omega

theorem dead (h : l.Matches limit) (hu : l.Unwrapped) {number : ℕ} {e : Issue}
    (he : l.issued[number]? = some e) (hgone : number ∉ l.present) : l.heap.Dead e.ref := by
  apply dead_of_cell?
  obtain ⟨hlt, hg, -⟩ := h.issued e (List.mem_of_getElem? he)
  have hless : e.freed < l.freed e.ref.index := h.gone number e he hgone
  have hslot : l.heap.slots[e.ref.index]? = some l.heap.slots[e.ref.index] := Array.getElem?_eq_getElem hlt
  have hnow : l.heap.slots[e.ref.index].generation = UInt32.ofNat (l.freed e.ref.index) :=
    h.generation e.ref.index _ (congrArg (Option.map (·.generation)) hslot)
  rw [cell?, hslot]
  apply if_neg
  intro hsame
  rw [hnow, hg] at hsame
  have hequal := eq_of_ofNat_eq (hu _) (hless.trans (hu _)) hsame
  omega

theorem alloc_eq_none_iff (h : l.Matches limit) (object : HeapObject) :
    l.heap.alloc object = none ↔ l.heap.live = limit := by
  have hle := h.wellFormed.live_le
  have hlimit := h.limit_eq
  rw [alloc, isFull]
  split
  · rename_i hfull
    have hfull : l.heap.limit ≤ l.heap.live := of_decide_eq_true hfull
    exact iff_of_true rfl (by omega)
  · rename_i hroom
    have hroom : ¬ l.heap.limit ≤ l.heap.live := by simpa using hroom
    exact iff_of_false (Option.some_ne_none _) (by omega)

/-- The heap is in order. -/
theorem orderly (h : l.Matches limit) : l.Orderly limit where
  live_eq := h.wellFormed.live_eq
  live_le := h.limit_eq ▸ h.wellFormed.live_le
  size_le := h.limit_eq ▸ h.wellFormed.size_le
  mem_free := h.wellFormed.mem_free
  free_nodup := h.wellFormed.free_nodup
  alloc := h.alloc_eq_none_iff
  index_lt e he := (h.issued e he).1.trans_le (h.limit_eq ▸ h.wellFormed.size_le)
  present number hnumber := by
    obtain ⟨e, he, hlive, -⟩ := h.present number hnumber
    exact ⟨e, he, hlive⟩
  distinct := h.distinct
  fresh hu object ref heap halloc := by
    -- the references after the allocation are all different, and its own is the last of them
    have hnext := h.perform (.alloc object)
    rw [Log.perform, halloc] at hnext
    have hnodup := hnext.distinct hu
    rw [List.map_append, List.map_singleton, List.nodup_append] at hnodup
    intro hmem
    exact hnodup.2.2 ref hmem ref (List.mem_singleton.2 rfl) rfl
  gone hu number e he := h.dead hu he
  sweep marks := by
    have hsplit := countP_sweep l.heap marks
    rw [← h.wellFormed.live_eq, ← (h.wellFormed.sweep marks).live_eq] at hsplit
    exact hsplit
  release ref := by
    split
    · rename_i hreleased
      have hroots : l.heap.rootCount ref ≠ 0 := by simpa [Heap.release] using hreleased
      have hcount := rootCount_release hroots ref
      rwa [List.count_singleton_self] at hcount
    · rename_i hkept
      have hroots : l.heap.rootCount ref = 0 := by simpa [Heap.release] using hkept
      refine ⟨?_, hroots⟩
      apply update_eq_self
      intro cell hcell
      rw [rootCount_of_cell? hcell] at hroots
      exact Cell.released_of_roots_eq_zero hroots

end Matches

/-- Whatever is done to the empty heap of a limit, it is in order. -/
theorem heap_orderly (limit : ℕ) (ops : List Operation) : ((start limit).performAll ops).Orderly limit :=
  ((matches_start limit).performAll ops).orderly

/-- A slot that is used again is at its next generation. -/
example : ((start 1).performAll [.alloc .plain, .sweep #[], .alloc .plain]).issued.map (·.ref) =
    [⟨0, 0⟩, ⟨0, 1⟩] := by
  decide

end Log

end Heap

end Promises
