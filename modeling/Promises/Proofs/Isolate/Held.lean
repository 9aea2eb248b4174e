import Promises.Isolate.Call
import Promises.Proofs.Agent.Safe

namespace Promises

theorem Action.ofMisuse_ok {σ α : Type} {x : Except Misuse α} {s t : σ} {v : α}
    (h : (Action.ofMisuse x : Action σ α) s = .ok v t) : x = .ok v ∧ t = s := by
  cases x with
  | error e => cases h
  | ok u =>
    obtain ⟨rfl, rfl⟩ := EStateM.Result.ok.inj h
    exact ⟨rfl, rfl⟩

namespace HandleTable

/-- The table with another entry on top. -/
def pushed (t : HandleTable) (b : Binding) : HandleTable :=
  { t with
    entries := t.entries.push b
    serials := if t.entries.size < t.serials.size then t.serials else t.serials.push 0 }

theorem mem_of_get {t : HandleTable} {h : HandleId} {b : Binding} (hg : t.get h = .ok b) :
    b ∈ t.entries.toList := by
  unfold get at hg
  split at hg
  · split at hg
    · rename_i c hc
      split at hg
      · obtain rfl : c = b := Except.ok.inj hg
        exact Array.mem_toList_iff.2 (Array.mem_of_getElem? hc)
      · cases hg
    · cases hg
  · cases hg

/-- Closing a scope splits the stack. -/
theorem entries_of_closeScope {t u : HandleTable} {mark : ScopeMark} {popped : Array Binding}
    (hc : t.closeScope mark = (.ok popped, u)) :
    t.entries.toList = u.entries.toList ++ popped.toList := by
  unfold closeScope at hc
  split at hc
  · rename_i start scopes hs
    split at hc
    · obtain ⟨hp, rfl⟩ := Prod.mk.inj hc
      obtain rfl := Except.ok.inj hp
      have hpopped : (t.entries.extract start).toList = t.entries.toList.drop start := by
        rw [Array.toList_extract, List.extract_eq_take_drop, List.take_of_length_le]
        simp
      have hkept : (t.entries.shrink start).toList = t.entries.toList.take start := by
        simp
      rw [hpopped, shrink, hkept, List.take_append_drop]
    · obtain ⟨hp, -⟩ := Prod.mk.inj hc
      cases hp
  · obtain ⟨hp, -⟩ := Prod.mk.inj hc
    cases hp

end HandleTable

namespace Isolate

variable {φ α : Type} {iso next : Isolate Agent φ} {narrow : Prop} {owed : List ObjectRef}

theorem onEngine_run {ε : Type} (act : Action ε α) (iso : Isolate ε φ) :
    onEngine act iso =
      match act iso.engine with
      | .ok v e => .ok v { iso with engine := e }
      | .error fault e => .error fault { iso with engine := e } := by
  simp only [onEngine, Action.zoom, engineOf]
  cases act iso.engine <;> rfl

theorem onEngine_ok {ε : Type} {iso next : Isolate ε φ} {act : Action ε α} {v : α}
    (h : onEngine act iso = .ok v next) :
    ∃ e, act iso.engine = .ok v e ∧ next = { iso with engine := e } := by
  rw [onEngine_run] at h
  cases hx : act iso.engine with
  | error fault e =>
    rw [hx] at h
    cases h
  | ok u e =>
    rw [hx] at h
    obtain ⟨rfl, rfl⟩ := EStateM.Result.ok.inj h
    exact ⟨e, rfl, rfl⟩

theorem onHandles_run {ε : Type} (act : Action HandleTable α) (iso : Isolate ε φ) :
    onHandles act iso =
      match act iso.handles with
      | .ok v handles => .ok v { iso with handles }
      | .error fault handles => .error fault { iso with handles } := by
  simp only [onHandles, Action.zoom, handlesOf]
  cases act iso.handles <;> rfl

theorem binding_ok {ε : Type} {iso next : Isolate ε φ} {h : HandleId} {b : Binding}
    (hb : binding h iso = .ok b next) :
    iso.handles.get h = .ok b ∧ next = iso := Action.ofMisuse_ok hb

theorem binding_run {ε : Type} {iso : Isolate ε φ} {h : HandleId} {b : Binding}
    (hb : iso.handles.get h = .ok b) : binding h iso = .ok b iso := by
  change (Action.ofMisuse (iso.handles.get h) : Action (Isolate ε φ) Binding) iso = _
  rw [hb]
  rfl

theorem manage_run {ε : Type} {iso : Isolate ε φ} {v : Value} {m : ManagedValue}
    (hm : iso.toManaged v = .ok m) : manage v iso = .ok m iso := by
  change (Action.ofMisuse (iso.toManaged v) : Action (Isolate ε φ) ManagedValue) iso = _
  rw [hm]
  rfl

theorem register_run (b : Binding) (iso : Isolate Agent φ) :
    register b iso =
      if iso.handles.entries.size < HandleId.capacity then
        .ok iso.handles.nextId
          { iso with
            engine := iso.engine.retained b.object
            handles := iso.handles.pushed b }
      else .error .tableFull { iso with engine := iso.engine.retained b.object } := by
  change (onHandles (HandleTable.push b) : Action (Isolate Agent φ) HandleId)
    { iso with engine := iso.engine.retained b.object } = _
  rw [onHandles_run, HandleTable.push]
  by_cases hs : iso.handles.entries.size < HandleId.capacity
  · simp only [hs, if_true]
    rfl
  · simp only [hs, if_false]

theorem openScope_table {ε : Type} {iso next : Isolate ε φ} {mark : ScopeMark}
    (hr : openScope iso = .ok mark next) :
    mark = iso.handles.openScope.1 ∧ next = { iso with handles := iso.handles.openScope.2 } := by
  rw [openScope, onHandles_run] at hr
  obtain ⟨rfl, rfl⟩ := EStateM.Result.ok.inj hr
  exact ⟨rfl, rfl⟩

theorem releaseAll_handles {ε : Type} [Engine ε] {iso next : Isolate ε φ} {popped : List Binding}
    (hr : releaseAll popped iso = .ok () next) : next.handles = iso.handles := by
  induction popped generalizing iso with
  | nil =>
    obtain ⟨-, rfl⟩ := EStateM.Result.ok.inj hr
    rfl
  | cons b popped ih =>
    obtain ⟨⟨⟩, mid, hb, hrest⟩ := bind_ok hr
    obtain ⟨e, he, rfl⟩ := onEngine_ok hb
    exact (ih hrest).trans rfl

/-- The entries of the scope go first, and then their roots. -/
theorem closeScope_popped {ε : Type} [Engine ε] {iso next : Isolate ε φ} {mark : ScopeMark}
    (hr : closeScope mark iso = .ok () next) :
    ∃ popped, iso.handles.closeScope mark = (.ok popped, next.handles) ∧
      releaseAll popped.toList { iso with handles := next.handles } = .ok () next := by
  obtain ⟨outcome, mid, ho, hrest⟩ := bind_ok hr
  obtain ⟨popped, last, hp, hrelease⟩ := bind_ok hrest
  obtain ⟨houtcome, rfl⟩ := Action.ofMisuse_ok hp
  rw [onHandles_run] at ho
  obtain ⟨hclose, rfl⟩ := EStateM.Result.ok.inj ho
  have htable : next.handles = (iso.handles.closeScope mark).2 := releaseAll_handles hrelease
  refine ⟨popped, Prod.ext (hclose.trans houtcome) htable.symm, ?_⟩
  rw [htable]
  exact hrelease

/-- How an object is bound that is wrapped. -/
def bound (iso : Isolate Agent φ) (ref : ObjectRef) : Binding :=
  ⟨iso.id, ref, if iso.engine.heap.isPromise ref then .promise else .object⟩

theorem wrap_run (ref : ObjectRef) (iso : Isolate Agent φ) :
    wrap ref iso = register (iso.bound ref) iso := rfl

/-- What is wrapped is bound by its kind. -/
theorem kind?_bound {ref : ObjectRef} (hl : iso.engine.heap.isLive ref = true) :
    iso.engine.heap.kind? (iso.bound ref).object = some (iso.bound ref).kind := by
  obtain ⟨kind, hk⟩ := Heap.isLive_iff_kind?.1 hl
  have hp : iso.engine.heap.isPromise ref = true ↔ kind = .promise := by
    rw [Heap.isPromise_iff_kind?, hk, Option.some.injEq]
  rw [Isolate.bound, hk]
  cases kind with
  | promise =>
    have hpromise : iso.engine.heap.isPromise ref = true := hp.2 rfl
    rw [if_pos hpromise]
  | object =>
    have hplain : ¬ iso.engine.heap.isPromise ref = true := fun h => by cases hp.1 h
    rw [if_neg hplain]

/-- What holds of an isolate while roots are taken back. `owed` are the roots that have no entry, and
`narrow` says whether the values that come in are checked. -/
structure Owes (iso : Isolate Agent φ) (narrow : Prop) (owed : List ObjectRef) : Prop where
  fit : iso.engine.Fit narrow
  few : iso.handles.entries.size ≤ HandleId.capacity
  bound : ∀ b ∈ iso.handles.entries.toList, iso.engine.heap.kind? b.object = some b.kind
  roots : ∀ q, iso.engine.heap.rootCount q =
    (iso.handles.entries.toList.map (·.object)).count q + owed.count q

/-- What holds of an isolate between any two moves of the native side. No object is owed two roots, so that
the roots of one are never more than their count can hold. -/
structure Held (iso : Isolate Agent φ) (narrow : Prop) (owed : List ObjectRef) : Prop
    extends iso.Owes narrow owed where
  once : owed.Nodup

theorem held_create {id : IsolateId} {config : Config} {limit : Nat}
    (h : create id config (Agent.new limit) = .ok iso) : iso.Held narrow [] := by
  obtain rfl := create_ok h
  refine ⟨⟨Agent.fit_new limit, Nat.zero_le _, by simp [HandleTable.empty], fun q => ?_⟩, .nil⟩
  rw [Heap.rootCount_of_dead rfl]
  rfl

theorem engine_new {id : IsolateId} {config : Config}
    (hnew : Isolate.new id config = .ok iso) : iso.engine = .new config.heapLimit := by
  rw [new_ok hnew]

namespace Owes

variable {gained : List ObjectRef}

/-- What has an entry or is owed a root is rooted. -/
theorem rootCount_ne_zero (h : iso.Owes narrow owed) {q : ObjectRef}
    (hq : q ∈ iso.handles.entries.toList.map (·.object) ∨ q ∈ owed) :
    iso.engine.heap.rootCount q ≠ 0 := by
  rw [h.roots]
  rcases hq with hq | hq
  · have hpos := List.count_pos_iff.2 hq
    omega
  · have hpos := List.count_pos_iff.2 hq
    omega

theorem rooted_of_mem (h : iso.Owes narrow owed) {b : Binding} (hb : b ∈ iso.handles.entries.toList) :
    iso.engine.heap.rootCount b.object ≠ 0 :=
  h.rootCount_ne_zero (Or.inl (List.mem_map_of_mem hb))

theorem isLive (h : iso.Owes narrow owed) {b : Binding} (hb : b ∈ iso.handles.entries.toList) :
    iso.engine.heap.isLive b.object = true := Heap.isLive_iff_kind?.2 ⟨b.kind, h.bound b hb⟩

/-- The engine may go on, as long as it keeps what is rooted. -/
theorem engine (h : iso.Owes narrow owed) {e : Agent} (hf : e.Fit narrow) (hk : Agent.Keeps gained iso.engine e) :
    ({ iso with engine := e } : Isolate Agent φ).Owes narrow (gained ++ owed) where
  fit := hf
  few := h.few
  bound b hb := (hk.kind? b.object (h.rooted_of_mem hb)).trans (h.bound b hb)
  roots q := by
    let held := (iso.handles.entries.toList.map (·.object)).count q
    calc e.heap.rootCount q
        = iso.engine.heap.rootCount q + gained.count q := hk.rootCount q
      _ = held + owed.count q + gained.count q := by rw [h.roots q]
      _ = held + (gained ++ owed).count q := by
        rw [List.count_append]
        omega

/-- The roots of popped entries are owed. -/
theorem pop (h : iso.Owes narrow owed) {handles : HandleTable} {popped : List Binding}
    (hp : iso.handles.entries.toList = handles.entries.toList ++ popped) :
    ({ iso with handles } : Isolate Agent φ).Owes narrow (popped.map (·.object) ++ owed) where
  fit := h.fit
  few := by
    have hsize := congrArg List.length hp
    rw [List.length_append, Array.length_toList, Array.length_toList] at hsize
    have hfew := h.few
    dsimp only
    omega
  bound b hb := by
    refine h.bound b ?_
    rw [hp]
    exact List.mem_append_left _ hb
  roots q := by
    let kept := (handles.entries.toList.map (·.object)).count q
    calc iso.engine.heap.rootCount q
        = (iso.handles.entries.toList.map (·.object)).count q + owed.count q := h.roots q
      _ = kept + (popped.map (·.object)).count q + owed.count q := by
        rw [hp, List.map_append, List.count_append]
      _ = kept + (popped.map (·.object) ++ owed).count q := by
        rw [List.count_append]
        omega

/-- A root that is owed is taken back. It is there to be taken, so that the count goes down by one. -/
theorem release {ref : ObjectRef} (h : iso.Owes narrow (ref :: owed)) :
    ({ iso with engine := iso.engine.released ref } : Isolate Agent φ).Owes narrow owed where
  fit := h.fit.released ref
  few := h.few
  bound b hb := by
    rw [← h.bound b hb]
    exact Heap.kind?_congr (Heap.object?_release iso.engine.heap ref b.object)
  roots q := by
    have hroot := h.rootCount_ne_zero (Or.inr List.mem_cons_self)
    have hroots := h.roots q
    have hback : (iso.engine.released ref).heap.rootCount q + [ref].count q =
        iso.engine.heap.rootCount q := Heap.rootCount_release hroot q
    have hsplit : (ref :: owed).count q = [ref].count q + owed.count q := by
      rw [← List.singleton_append, List.count_append]
    dsimp only
    omega

theorem releaseAll {popped : List Binding} (h : iso.Owes narrow (popped.map (·.object) ++ owed))
    (hr : Isolate.releaseAll popped iso = .ok () next) :
    next.Owes narrow owed ∧ ∀ q, next.engine.heap.kind? q = iso.engine.heap.kind? q := by
  induction popped generalizing iso with
  | nil =>
    obtain ⟨-, rfl⟩ := EStateM.Result.ok.inj hr
    exact ⟨h, fun _ => rfl⟩
  | cons b popped ih =>
    obtain ⟨⟨⟩, mid, hb, hrest⟩ := bind_ok hr
    obtain ⟨-, rfl⟩ := EStateM.Result.ok.inj hb
    obtain ⟨hheld, hkind⟩ := ih h.release hrest
    refine ⟨hheld, fun q => ?_⟩
    rw [hkind]
    exact Heap.kind?_congr (Heap.object?_release iso.engine.heap b.object q)

end Owes

namespace Held

/-- An isolate with the same objects and entries. -/
theorem of_same (h : iso.Held narrow owed) (he : next.engine = iso.engine)
    (hh : next.handles.entries = iso.handles.entries) : next.Held narrow owed := by
  refine ⟨⟨?_, ?_, ?_, ?_⟩, h.once⟩
  · rw [he]
    exact h.fit
  · rw [hh]
    exact h.few
  · rw [he, hh]
    exact h.bound
  · rw [he, hh]
    exact h.roots

/-- There is room for two more roots of any object. -/
theorem roomy (h : iso.Held narrow owed) : iso.engine.Roomy 2 := by
  intro q
  have hentries : (iso.handles.entries.toList.map (·.object)).count q ≤ HandleId.capacity := by
    refine Nat.le_trans List.count_le_length ?_
    rw [List.length_map, Array.length_toList]
    exact h.few
  have howed : owed.count q ≤ 1 := List.nodup_iff_count_le_one.1 h.once q
  have hspare : HandleId.capacity + 1 + 2 < UInt32.size := by decide
  rw [h.roots q]
  omega

theorem room (h : iso.Held narrow owed) : iso.engine.Roomy 1 := h.roomy.mono (by omega)

theorem onEngine (h : iso.Held narrow owed) {act : Action Agent α} {post : α → Agent → Prop} {v : α}
    (hs : iso.engine.Safe narrow act post) (hr : Isolate.onEngine act iso = .ok v next) :
    next.Held narrow owed ∧ post v next.engine := by
  obtain ⟨u, e, hu, hfit, hkeeps, hpost⟩ := hs
  obtain ⟨e', he, rfl⟩ := onEngine_ok hr
  rw [hu] at he
  obtain ⟨rfl, rfl⟩ := EStateM.Result.ok.inj he
  exact ⟨⟨h.toOwes.engine hfit hkeeps, h.once⟩, hpost⟩

theorem ask (h : iso.Held narrow owed) {request : Request Agent α}
    {post : Except EngineError α → Agent → Prop} {answer : Except EngineError α}
    (hs : iso.engine.Safe narrow request.run post) (hr : Isolate.ask request iso = .ok answer next) :
    next.Held narrow owed ∧ post answer next.engine := h.onEngine hs hr

/-- An entry for an object of its kind gets a root of its own. -/
theorem register (h : iso.Held narrow owed) {b : Binding} {id : HandleId}
    (hb : iso.engine.heap.kind? b.object = some b.kind)
    (hr : Isolate.register b iso = .ok id next) : next.Held narrow owed := by
  rw [register_run] at hr
  split at hr
  · obtain ⟨-, rfl⟩ := EStateM.Result.ok.inj hr
    have hl : iso.engine.heap.isLive b.object = true := Heap.isLive_iff_kind?.2 ⟨b.kind, hb⟩
    have hkind (q : ObjectRef) :
        (iso.engine.retained b.object).heap.kind? q = iso.engine.heap.kind? q :=
      Heap.kind?_congr (Heap.object?_retain iso.engine.heap b.object q)
    have hentries : (iso.handles.pushed b).entries.toList = iso.handles.entries.toList ++ [b] :=
      Array.toList_push
    refine ⟨⟨h.fit.retained b.object, ?_, ?_, ?_⟩, h.once⟩
    · rw [HandleTable.pushed, Array.size_push]
      assumption
    · intro c hc
      rw [hkind]
      rw [hentries, List.mem_append, List.mem_singleton] at hc
      rcases hc with hc | rfl
      · exact h.bound c hc
      · exact hb
    · intro q
      let held := (iso.handles.entries.toList.map (·.object)).count q
      -- the new root is that of the new entry
      calc (iso.engine.retained b.object).heap.rootCount q
          = iso.engine.heap.rootCount q + [b.object].count q :=
            (Agent.keeps_retained hl (h.room b.object)).rootCount q
        _ = held + owed.count q + [b.object].count q := by rw [h.roots q]
        _ = ((iso.handles.pushed b).entries.toList.map (·.object)).count q + owed.count q := by
          rw [hentries, List.map_append, List.count_append, List.map_singleton]
          omega
  · -- the root of an entry for which there is no room is lost
    cases hr

theorem wrap (h : iso.Held narrow owed) {ref : ObjectRef} {id : HandleId}
    (hl : iso.engine.heap.isLive ref = true) (hr : Isolate.wrap ref iso = .ok id next) :
    next.Held narrow owed := by
  rw [wrap_run] at hr
  exact h.register (kind?_bound hl) hr

theorem duplicate (h : iso.Held narrow owed) {handle id : HandleId}
    (hr : Isolate.duplicate handle iso = .ok id next) : next.Held narrow owed := by
  obtain ⟨b, mid, hb, hregister⟩ := bind_ok hr
  obtain ⟨hget, rfl⟩ := binding_ok hb
  have hkind := h.bound b (HandleTable.mem_of_get hget)
  exact h.register (b := b.rebind b.object) hkind hregister

theorem openScope (h : iso.Held narrow owed) {mark : ScopeMark}
    (hr : Isolate.openScope iso = .ok mark next) : next.Held narrow owed ∧ next.engine = iso.engine := by
  obtain ⟨-, rfl⟩ := openScope_table hr
  exact ⟨h.of_same rfl rfl, rfl⟩

/-- The entries above the mark go, each with its root, and no object changes. -/
theorem closeScope (h : iso.Held narrow owed) {mark : ScopeMark}
    (hr : Isolate.closeScope mark iso = .ok () next) :
    next.Held narrow owed ∧ ∀ q, next.engine.heap.kind? q = iso.engine.heap.kind? q := by
  obtain ⟨popped, htable, hrelease⟩ := closeScope_popped hr
  have hsplit := HandleTable.entries_of_closeScope htable
  -- between the pop and the releases the roots of the popped entries are owed
  obtain ⟨howes, hkind⟩ := (h.pop hsplit).releaseAll hrelease
  exact ⟨⟨howes, h.once⟩, hkind⟩

end Held

end Isolate

end Promises
