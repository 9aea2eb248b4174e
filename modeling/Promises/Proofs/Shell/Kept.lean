import Promises.Proofs.Shell.Checkpoint

namespace Promises

namespace Shell

/-- The functions that were registered and the cache of handlers. A function is registered for an operation
that has none in the cache. -/
inductive Registry : Array (Handler Memory Empty) → List (Op × FunctionId) → Prop
  | empty : Registry #[] []
  | register {functions : Array (Handler Memory Empty)} {handlers : List (Op × FunctionId)} {op : Op}
      (h : Registry functions handlers) (hop : handlers.lookup op = none) :
      Registry (functions.push op.handler) ((op, ⟨functions.size⟩) :: handlers)

/-- The operations of a cache, the oldest first. -/
def operations (handlers : List (Op × FunctionId)) : List Op := (handlers.map Prod.fst).reverse

namespace Registry

variable {functions : Array (Handler Memory Empty)} {handlers : List (Op × FunctionId)} {op : Op}

theorem operations_cons (op : Op) (f : FunctionId) (handlers : List (Op × FunctionId)) :
    operations ((op, f) :: handlers) = operations handlers ++ [op] := by
  simp [operations]

theorem lookup_eq_none_iff (handlers : List (Op × FunctionId)) :
    handlers.lookup op = none ↔ op ∉ operations handlers := by
  rw [List.lookup_eq_none_iff, operations, List.mem_reverse, List.mem_map]
  constructor
  · rintro h ⟨entry, hentry, rfl⟩
    simpa using h entry hentry
  · intro h entry hentry
    refine bne_iff_ne.2 ?_
    rintro rfl
    exact h ⟨entry, hentry, rfl⟩

theorem size_eq (h : Registry functions handlers) : functions.size = (operations handlers).length := by
  induction h with
  | empty => rfl
  | register _ _ ih => rw [Array.size_push, ih, operations_cons, List.length_append, List.length_singleton]

/-- The functions are the handlers of the operations. -/
theorem getElem?_eq (h : Registry functions handlers) (i : ℕ) :
    functions[i]? = (operations handlers)[i]?.map Op.handler := by
  induction h with
  | empty => simp [operations]
  | @register functions handlers op h _ ih =>
    rw [operations_cons, Array.getElem?_push, ih]
    split
    · rename_i hi
      rw [hi, h.size_eq, List.getElem?_concat_length]
      rfl
    · rename_i hi
      rw [h.size_eq] at hi
      rcases Nat.lt_or_gt_of_ne hi with hlt | hgt
      · rw [List.getElem?_append_left hlt]
      · rw [List.getElem?_eq_none (by omega), List.getElem?_eq_none (by simp; omega)]

theorem nodup (h : Registry functions handlers) : (operations handlers).Nodup := by
  induction h with
  | empty => exact List.nodup_nil
  | @register functions handlers op h hop ih =>
    rw [operations_cons]
    refine List.nodup_append.2 ⟨ih, List.nodup_singleton op, ?_⟩
    rintro x hx y hy rfl
    exact (lookup_eq_none_iff handlers).1 hop (List.mem_singleton.1 hy ▸ hx)

/-- An operation has its place among the operations as the name of its handler. -/
theorem lookup_eq (h : Registry functions handlers) (hop : op ∈ operations handlers) :
    handlers.lookup op = some ⟨(operations handlers).idxOf op⟩ := by
  induction h with
  | empty => simp [operations] at hop
  | @register functions handlers other h hother ih =>
    have hnew := (lookup_eq_none_iff handlers).1 hother
    rw [operations_cons] at hop ⊢
    by_cases hsame : op = other
    · subst op
      rw [List.lookup_cons_self, List.idxOf_append_of_notMem hnew, List.idxOf_cons_self, h.size_eq]
      rfl
    · have hold : op ∈ operations handlers := by simpa [hsame] using hop
      rw [List.idxOf_append_of_mem hold, ← ih hold, List.lookup_cons, beq_eq_false_iff_ne.2 hsame]

end Registry

/-- What holds of a shell between its commands. -/
structure Kept (s : Shell) : Prop where
  held : s.isolate.Held True []
  fitted : s.isolate.handles.Fitted
  /-- There are as many handles as slots. -/
  size : s.isolate.handles.size = s.memory.slots.size
  /-- A slot has the handle of its place in the table. -/
  slots : ∀ (i : ℕ) (v : Value), s.memory.slots[i]? = some v → ∃ (h : HandleId) (b : Binding),
    v = .handle h ∧ h.index.toNat = i ∧ s.isolate.handles.get h = .ok b ∧ b.kind = .promise
  strings : s.isolate.strings.Sound
  registry : Registry s.isolate.functions s.memory.handlers
  confined : s.isolate.engine.Confined (·.index < s.isolate.functions.size)

/-- The desk of a shell, for strings that are read and operations that are registered as given. -/
def desk (s : Shell) (ops : List Op) (r : String → String) : Desk where
  promises := s.isolate.handles.entries.map (·.object)
  room := decide (s.isolate.handles.entries.size < HandleId.capacity)
  reading := r
  name op := ⟨ops.idxOf op⟩
  op? id := ops[id.index]?

namespace Kept

variable {s : Shell}

/-- A slot is empty, or the desk has the promise that its handle stands for. -/
theorem slot (hk : Kept s) (ops : List Op) (r : String → String) (i : ℕ) :
    (s.memory.slots[i]? = none ∧ (desk s ops r).promises[i]? = none) ∨
      ∃ (h : HandleId) (b : Binding), s.memory.slots[i]? = some (.handle h) ∧
        s.isolate.handles.get h = .ok b ∧ b.kind = .promise ∧
        (desk s ops r).promises[i]? = some b.object := by
  cases hv : s.memory.slots[i]? with
  | none =>
    have hlarge : s.memory.slots.size ≤ i := Array.getElem?_eq_none_iff.1 hv
    rw [← hk.size] at hlarge
    refine .inl ⟨rfl, ?_⟩
    rw [desk, Array.getElem?_map, Array.getElem?_eq_none hlarge]
    rfl
  | some v =>
    obtain ⟨h, b, rfl, rfl, hg, hb⟩ := hk.slots i v hv
    refine .inr ⟨h, b, rfl, hg, hb, ?_⟩
    rw [desk, Array.getElem?_map, (HandleTable.get_eq_ok_iff.1 hg).2.1]
    rfl

/-- The promises of a desk are live. -/
theorem promises (hk : Kept s) (ops : List Op) (r : String → String) :
    ∀ ref ∈ (desk s ops r).promises, s.isolate.engine.heap.kind? ref = some .promise := by
  intro ref href
  obtain ⟨i, hi⟩ := Array.mem_iff_getElem?.1 href
  rcases hk.slot ops r i with ⟨-, hnone⟩ | ⟨h, b, -, hg, hb, hsome⟩
  · rw [hnone] at hi
    cases hi
  · rw [hsome] at hi
    obtain rfl := Option.some.inj hi
    exact hk.held.kind_of_get hg hb

/-- Reactions can be run on the desk of a shell. -/
theorem ready (hk : Kept s) (r : String → String) :
    Ready (desk s (operations s.memory.handlers) r) s.isolate where
  fit := hk.held.fit
  confined := hk.confined
  roomy := hk.held.roomy
  fitted := hk.fitted
  strings := hk.strings
  room := rfl
  operation id hid := by
    have hlt : id.index < (operations s.memory.handlers).length := hk.registry.size_eq ▸ hid
    refine ⟨_, List.getElem?_eq_getElem hlt, ?_⟩
    rw [hk.registry.getElem?_eq, List.getElem?_eq_getElem hlt]
    rfl

end Kept

/-- A shell on which no line was executed. -/
def fresh (config : Config) : Shell :=
  ⟨⟨⟨0⟩, config, .new config.heapLimit, .empty ⟨0⟩, .empty, #[]⟩, ⟨#[], [], .ok ""⟩⟩

theorem new_eq {config : Config} {first : Shell} (hnew : Shell.new config = .ok first) :
    first = fresh config := by
  simp only [Shell.new, bind, Except.bind] at hnew
  split at hnew
  · cases hnew
  · rename_i iso hiso
    obtain rfl := Except.ok.inj hnew
    rw [Isolate.new_ok hiso]
    rfl

/-- A new shell keeps nothing yet. -/
theorem kept_new {config : Config} {first : Shell} (hnew : Shell.new config = .ok first) : Kept first := by
  simp only [Shell.new, bind, Except.bind] at hnew
  split at hnew
  · cases hnew
  · rename_i iso hiso
    have hheld : iso.Held True [] := Isolate.held_create (Isolate.create_of_new hiso)
    obtain rfl := Except.ok.inj hnew
    rw [Isolate.new_ok hiso] at hheld ⊢
    exact ⟨hheld, Nat.le_refl 0, rfl, by simp, StringTable.sound_empty, .empty, .of_new _⟩

/-- A configuration without fault whose handle table can be had makes a shell. -/
theorem new_total {config : Config} (hvalid : config.isValid = true)
    (hcapacity : config.handleCapacity ≤ HandleTable.maxReserve) : ∃ first, Shell.new config = .ok first := by
  simp only [Shell.new, Isolate.new, Isolate.create, HandleTable.reserve, hvalid, if_true, hcapacity]
  exact ⟨_, rfl⟩

end Shell

end Promises
