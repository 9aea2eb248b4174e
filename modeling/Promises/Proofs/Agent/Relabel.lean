import Promises.Proofs.Agent.Job
import Promises.Proofs.Heap.Relabel

namespace Promises

/-- The outcome of a computation, with its value and its state in other terms. -/
def mapResult {ε σ τ α β : Type} (value : α → β) (state : σ → τ) :
    EStateM.Result ε σ α → EStateM.Result ε τ β
  | .ok v s => .ok (value v) (state s)
  | .error e s => .error e (state s)

variable (f : FunctionId → FunctionId)

@[simp] theorem PromiseRecord.settled_relabel (r : PromiseRecord) (kind : ReactionKind)
    (value : ManagedValue) : (r.relabel f).settled kind value = (r.settled kind value).relabel f := by
  simp only [settled, relabel, Array.map_empty]

@[simp] theorem PromiseRecord.dueJobs_relabel (r : PromiseRecord) (kind : ReactionKind)
    (value : ManagedValue) :
    (r.relabel f).dueJobs kind value = (r.dueJobs kind value).map (·.relabel f) := by
  simp only [dueJobs, relabel, Array.toList_map, List.map_map]
  refine List.map_congr_left fun pair _ => ?_
  rw [Function.comp_apply, Function.comp_apply, ReactionPair.due_relabel]
  rfl

theorem PromiseRecord.settle_relabel (r : PromiseRecord) (kind : ReactionKind) (value : ManagedValue) :
    (r.relabel f).settle kind value =
      (r.settle kind value).map (Prod.map (·.map (·.relabel f)) (·.relabel f)) := by
  obtain ⟨_ | _ | _, resolved, handled, reactions⟩ := r
  · simp [settle, relabel, Except.map, Function.comp_def]
  · rfl
  · rfl

@[simp] theorem Heap.resolution_relabel (h : Heap) (ref : ObjectRef) (kind : ReactionKind)
    (value : ManagedValue) : (h.relabel f).resolution ref kind value = h.resolution ref kind value := by
  cases kind <;> cases value <;> simp [resolution]

namespace Agent

def relabel (a : Agent) : Agent :=
  { a with heap := a.heap.relabel f, queue := a.queue.relabel f }

/-- Handlers that keep their names. -/
theorem relabel_id (a : Agent) : a.relabel (fun id => id) = a := by
  have hreaction (x : Reaction) : x.relabel (fun id => id) = x := by
    cases x with
    | derive handler derived => cases handler <;> rfl
    | adopt follower => rfl
  have hpair (pair : ReactionPair) : pair.relabel (fun id => id) = pair := by
    simp only [ReactionPair.relabel, hreaction]
  have hslot (slot : Slot) : slot.relabel (fun id => id) = slot := by
    obtain ⟨generation, _ | ⟨_ | record, roots⟩⟩ := slot
    · rfl
    · rfl
    · simp [Slot.relabel, Cell.relabel, HeapObject.relabel, PromiseRecord.relabel, hpair]
  have hjob (job : Job) : job.relabel (fun id => id) = job := by
    cases job with
    | react kind reaction argument => simp only [Job.relabel, hreaction]
    | follow promise thenable => rfl
  simp [relabel, Heap.relabel, JobQueue.relabel, hslot, hjob]

variable (a : Agent)

@[simp] theorem terminating_relabel : (a.relabel f).terminating = a.terminating := rfl

@[simp] theorem heap_relabel : (a.relabel f).heap = a.heap.relabel f := rfl

@[simp] theorem queue_relabel : (a.relabel f).queue = a.queue.relabel f := rfl

@[simp] theorem stats_relabel : (a.relabel f).stats = a.stats := by
  simp only [stats, heap_relabel, queue_relabel, Heap.limit_relabel, Heap.live_relabel,
    Heap.rooted_relabel, JobQueue.length_relabel]

@[simp] theorem workload_relabel : (a.relabel f).workload = a.workload := by
  simp only [workload, heap_relabel, queue_relabel, Heap.workload_relabel, JobQueue.workload_relabel]

@[simp] theorem retained_relabel (ref : ObjectRef) :
    (a.relabel f).retained ref = (a.retained ref).relabel f := by
  simp only [retained, heap_relabel, Heap.retain_relabel]
  rfl

@[simp] theorem released_relabel (ref : ObjectRef) :
    (a.relabel f).released ref = (a.released ref).relabel f := by
  simp only [released, heap_relabel, Heap.release_relabel]
  rfl

@[simp] theorem collected_relabel : (a.relabel f).collected = a.collected.relabel f := by
  simp only [collected, heap_relabel, queue_relabel, JobQueue.references_relabel, Heap.collect_relabel]
  rfl

@[simp] theorem makeRoom_relabel : (a.relabel f).makeRoom = a.makeRoom.relabel f := by
  simp only [makeRoom, heap_relabel, Heap.isFull_relabel, collected_relabel]
  split <;> rfl

@[simp] theorem placed_relabel (object : HeapObject) :
    (a.relabel f).placed (object.relabel f) = (a.placed object).relabel f := by
  simp only [placed, heap_relabel, Heap.place_relabel]
  rfl

@[simp] theorem attaching_relabel (ref : ObjectRef) (record : PromiseRecord) (pair : ReactionPair) :
    (a.relabel f).attaching ref (record.relabel f) (pair.relabel f) =
      (a.attaching ref record pair).relabel f := by
  have hstatus : (record.relabel f).status = record.status := rfl
  rw [attaching, attaching, hstatus]
  cases record.status.outcome? with
  | none =>
    simp only [PromiseRecord.markHandled_relabel, PromiseRecord.addReactions_relabel, heap_relabel,
      Heap.setRecord_relabel]
    rfl
  | some outcome =>
    obtain ⟨kind, value⟩ := outcome
    have hjob : Job.react kind ((pair.due kind).relabel f) value =
        (Job.react kind (pair.due kind) value).relabel f := rfl
    simp only [PromiseRecord.markHandled_relabel, heap_relabel, queue_relabel, Heap.setRecord_relabel,
      ReactionPair.due_relabel, hjob, JobQueue.push_relabel]
    rfl

/-- What an agent with other names for its handlers comes to. -/
abbrev relabeled {ε α : Type} : EStateM.Result ε Agent α → EStateM.Result ε Agent α :=
  mapResult id (relabel f)

theorem allocate_relabel (object : HeapObject) :
    allocate (object.relabel f) (a.relabel f) = relabeled f (allocate object a) := by
  rw [allocate_run, allocate_run]
  simp only [terminating_relabel, makeRoom_relabel, heap_relabel, Heap.isFull_relabel,
    Heap.limit_relabel, Heap.place_relabel, placed_relabel]
  split
  · rfl
  · split <;> rfl

theorem newResolver_relabel :
    (newResolver : Request Agent ObjectRef) (a.relabel f) = relabeled f (newResolver a) := by
  have hpromise : (HeapObject.promise .new).relabel f = .promise .new := by
    simp only [HeapObject.relabel, PromiseRecord.new_relabel]
  have hallocate := allocate_relabel f a (.promise .new)
  rw [hpromise] at hallocate
  exact hallocate

theorem look_relabel {α : Type} (ref : ObjectRef) {look : PromiseRecord → α}
    (hl : ∀ record, look (record.relabel f) = look record) :
    (do return look (← record ref) : Request Agent α) (a.relabel f) =
      relabeled f ((do return look (← record ref) : Request Agent α) a) := by
  rw [look_run, look_run, heap_relabel, Heap.record?_relabel]
  cases a.heap.record? ref with
  | error e => rfl
  | ok record => simp only [Except.map, hl, mapResult, id]

theorem settle_relabel (ref : ObjectRef) (kind : ReactionKind) (value : ManagedValue) :
    settle ref kind value (a.relabel f) = relabeled f (settle ref kind value a) := by
  rw [settle_run, settle_run, heap_relabel, Heap.record?_relabel]
  cases a.heap.record? ref with
  | error e => rfl
  | ok record =>
    simp only [Except.map, PromiseRecord.settle_relabel]
    cases record.settle kind value with
    | error fault => rfl
    | ok outcome =>
      obtain ⟨due, settled⟩ := outcome
      have hjobs : (due.map (·.relabel f)).map (Job.react kind · value) =
          (due.map (Job.react kind · value)).map (·.relabel f) := by
        rw [List.map_map, List.map_map]
        rfl
      simp only [Prod.map, Heap.setRecord_relabel, hjobs, queue_relabel, JobQueue.pushAll_relabel]
      rfl

theorem latch_relabel (ref : ObjectRef) {next : Request Agent Unit}
    (hn : ∀ a, next (a.relabel f) = relabeled f (next a)) :
    latch ref next (a.relabel f) = relabeled f (latch ref next a) := by
  rw [latch_run, latch_run, heap_relabel, Heap.record?_relabel]
  cases a.heap.record? ref with
  | error e => rfl
  | ok record =>
    simp only [Except.map, PromiseRecord.lock_relabel, Heap.setRecord_relabel]
    change (if record.alreadyResolved then _ else _) = _
    split
    · rfl
    · have hlocked := hn { a with heap := a.heap.setRecord ref record.lock }
      simp only [relabel] at hlocked
      simp only [relabel, hlocked]
      rcases next { a with heap := a.heap.setRecord ref record.lock } with ⟨_ | _, _⟩ | _ <;> rfl

theorem resolveLatched_relabel (ref : ObjectRef) (value : ManagedValue) :
    resolveLatched ref value (a.relabel f) = relabeled f (resolveLatched ref value a) := by
  rw [resolveLatched_run, resolveLatched_run]
  cases value with
  | object other =>
    simp only [settle_relabel, heap_relabel, Heap.isPromise_relabel]
    split
    · rfl
    · split <;> rfl
  | _ => simp only [settle_relabel]

theorem passOn_relabel (kind : ReactionKind) (ref : ObjectRef) (value : ManagedValue) :
    passOn kind ref value (a.relabel f) = relabeled f (passOn kind ref value a) := by
  cases kind with
  | fulfill => exact latch_relabel f a ref fun b => resolveLatched_relabel f b ref value
  | reject => exact latch_relabel f a ref fun b => settle_relabel f b ref .reject value

theorem resolve_relabel (ref : ObjectRef) (value : ManagedValue) :
    resolve ref value (a.relabel f) = relabeled f (resolve ref value a) := by
  rw [resolve_run, resolve_run, passOn_relabel, terminating_relabel]
  split <;> rfl

theorem reject_relabel (ref : ObjectRef) (reason : ManagedValue) :
    reject ref reason (a.relabel f) = relabeled f (reject ref reason a) := by
  rw [reject_run, reject_run, passOn_relabel, terminating_relabel]
  split <;> rfl

theorem attach_relabel (ref : ObjectRef) (pair : ReactionPair) :
    attach ref (pair.relabel f) (a.relabel f) = relabeled f (attach ref pair a) := by
  rw [attach_eq, attach_eq, heap_relabel, Heap.record?_relabel]
  cases a.heap.record? ref with
  | error e => rfl
  | ok record =>
    simp only [Except.map, attaching_relabel]
    rfl

theorem addReactions_relabel (ref : ObjectRef) (onFulfilled onRejected : Option FunctionId) :
    addReactions ref (onFulfilled.map f) (onRejected.map f) (a.relabel f) =
      relabeled f (addReactions ref onFulfilled onRejected a) := by
  rw [addReactions_run, addReactions_run, heap_relabel, Heap.record?_relabel]
  cases a.heap.record? ref with
  | error e => rfl
  | ok record =>
    have hallocate : allocate (.promise .new) ((a.retained ref).relabel f) =
        relabeled f (allocate (.promise .new) (a.retained ref)) := newResolver_relabel f _
    simp only [Except.map, retained_relabel, hallocate]
    rcases allocate (.promise .new) (a.retained ref) with ⟨_ | derived, b⟩ | ⟨fault, b⟩
    · simp only [mapResult, id, released_relabel]
    · have hattach := attach_relabel f (b.released ref) ref
        ⟨.derive onFulfilled derived, .derive onRejected derived⟩
      simp only [ReactionPair.relabel, Reaction.relabel] at hattach
      simp only [mapResult, id, released_relabel, hattach]
      rcases attach ref ⟨.derive onFulfilled derived, .derive onRejected derived⟩ (b.released ref)
        with ⟨_ | _, _⟩ | _ <;> rfl
    · rfl

theorem collectGarbage_relabel : collectGarbage (a.relabel f) = relabeled f (collectGarbage a) := by
  change EStateM.Result.ok ((a.heap.relabel f).collect (a.queue.relabel f).references).1
    (a.relabel f).collected = .ok (a.heap.collect a.queue.references).1 (a.collected.relabel f)
  rw [collected_relabel, JobQueue.references_relabel, Heap.collect_relabel]

theorem runJob_relabel (job : Job) :
    runJob (job.relabel f) (a.relabel f) =
      mapResult (·.map (·.map (·.relabel f))) (relabel f) (runJob job a) := by
  match job with
  | .follow promise thenable =>
    have hattach := attach_relabel f a thenable ⟨.adopt promise, .adopt promise⟩
    simp only [ReactionPair.relabel, Reaction.relabel] at hattach
    rw [Job.relabel, runJob_follow, runJob_follow, hattach]
    rcases attach thenable ⟨.adopt promise, .adopt promise⟩ a with ⟨_ | _, _⟩ | _ <;> rfl
  | .react kind (.derive (some handler) derived) argument =>
    rw [Job.relabel, Reaction.relabel, Option.map_some, runJob_native, runJob_native, heap_relabel,
      Heap.retain_relabel]
    rfl
  | .react kind (.derive none derived) argument =>
    rw [Job.relabel, Reaction.relabel, Option.map_none, runJob_passOn, runJob_passOn, passOn_relabel]
    rcases passOn kind derived argument a with ⟨_ | _, _⟩ | _ <;> rfl
  | .react kind (.adopt follower) argument =>
    rw [Job.relabel, Reaction.relabel, runJob_adopt, runJob_adopt, heap_relabel, Heap.record?_relabel]
    cases a.heap.record? follower with
    | error e => rfl
    | ok record =>
      simp only [Except.map, settle_relabel]
      change (if record.state = .pending then _ else _) = _
      split
      · rcases settle follower kind argument a with ⟨_ | _, _⟩ | _ <;> rfl
      · rfl

theorem nextJob_relabel :
    nextJob (a.relabel f) = mapResult (·.map (·.relabel f)) (relabel f) (nextJob a) := by
  induction hw : a.workload using Nat.strongRecOn generalizing a with
  | ind n ih =>
    rw [nextJob_run, nextJob_run a, terminating_relabel, queue_relabel, JobQueue.pop?_relabel]
    split
    · rfl
    · cases hp : a.queue.pop? with
      | none => rfl
      | some taken =>
        obtain ⟨job, queue⟩ := taken
        have hjob : runJob (job.relabel f)
              ⟨(a.relabel f).heap, queue.relabel f, a.terminating⟩ =
            mapResult (·.map (·.map (·.relabel f))) (relabel f) (runJob job { a with queue }) :=
          runJob_relabel f { a with queue } job
        have hless {answer : Except EngineError (Option NativeJob)} {b : Agent}
            (hr : runJob job { a with queue } = .ok answer b) : b.workload < n := by
          have hrun := workload_runJob hr
          have hpop := workload_of_pop? hp
          omega
        simp only [Option.map_some, Prod.map]
        rw [hjob]
        rcases hr : runJob job { a with queue } with ⟨_ | _ | native, b⟩ | ⟨fault, b⟩
        · exact ih b.workload (hless hr) b rfl
        · exact ih b.workload (hless hr) b rfl
        · rfl
        · rfl

/-- All names of handlers that an agent holds are of a class: to rename others changes nothing. -/
def Confined (a : Agent) (known : FunctionId → Prop) : Prop :=
  ∀ f g : FunctionId → FunctionId, (∀ id, known id → f id = g id) → a.relabel f = a.relabel g

namespace Confined

variable {a b : Agent} {known more : FunctionId → Prop} {α : Type}

theorem mono (h : a.Confined known) (hm : ∀ id, known id → more id) : a.Confined more :=
  fun f g hfg => h f g fun id hid => hfg id (hm id hid)

/-- Names outside of a class can be told from others by renaming them. -/
theorem known_of_agree {id : FunctionId}
    (h : ∀ f g : FunctionId → FunctionId, (∀ id, known id → f id = g id) → f id = g id) : known id := by
  classical
  by_contra hid
  have hsame := h (fun other => other) (fun other => if known other then other else ⟨other.index + 1⟩)
    fun other hother => (if_pos hother).symm
  rw [if_neg hid] at hsame
  have hindex : id.index = id.index + 1 := congrArg FunctionId.index hsame
  omega

/-- An agent is as confined after a request that may rename its handlers as well before as after, and its
answer names known handlers only. -/
theorem of_run (h : a.Confined known) {x : Action Agent α}
    {y : (FunctionId → FunctionId) → Action Agent α} {value : (FunctionId → FunctionId) → α → α}
    (hy : ∀ f, y f (a.relabel f) = mapResult (value f) (relabel f) (x a))
    (hsame : ∀ f g : FunctionId → FunctionId, (∀ id, known id → f id = g id) → y f = y g)
    {v : α} (hx : x a = .ok v b) :
    b.Confined known ∧
      ∀ f g : FunctionId → FunctionId, (∀ id, known id → f id = g id) → value f v = value g v := by
  have hboth (f g : FunctionId → FunctionId) (hfg : ∀ id, known id → f id = g id) :
      value f v = value g v ∧ b.relabel f = b.relabel g := by
    have hf := hy f
    have hg := hy g
    rw [hx] at hf hg
    rw [hsame f g hfg, h f g hfg, hg] at hf
    obtain ⟨hvalue, hstate⟩ := EStateM.Result.ok.inj hf
    exact ⟨hvalue.symm, hstate.symm⟩
  exact ⟨fun f g hfg => (hboth f g hfg).2, fun f g hfg => (hboth f g hfg).1⟩

/-- The same for what names no handler. -/
theorem of_request (h : a.Confined known) {x : Action Agent α}
    (hx : ∀ f, x (a.relabel f) = relabeled f (x a)) {v : α} (hr : x a = .ok v b) : b.Confined known :=
  (h.of_run (y := fun _ => x) hx (fun _ _ _ => rfl) hr).1

theorem of_new (limit : Nat) : (Agent.new limit).Confined known := by
  intro f g _
  simp [relabel, Agent.new, Heap.empty, Heap.relabel, JobQueue.empty, JobQueue.relabel]

theorem retained (h : a.Confined known) (ref : ObjectRef) : (a.retained ref).Confined known := by
  intro f g hfg
  rw [← retained_relabel, ← retained_relabel, h f g hfg]

theorem released (h : a.Confined known) (ref : ObjectRef) : (a.released ref).Confined known := by
  intro f g hfg
  rw [← released_relabel, ← released_relabel, h f g hfg]

theorem collected (h : a.Confined known) : a.collected.Confined known := by
  intro f g hfg
  rw [← collected_relabel, ← collected_relabel, h f g hfg]

theorem flagged (h : a.Confined known) (terminating : Bool) :
    ({ a with terminating } : Agent).Confined known := by
  intro f g hfg
  exact congrArg (fun b : Agent => { b with terminating }) (h f g hfg)

theorem addReactions (h : a.Confined known) {ref : ObjectRef} {onFulfilled onRejected : Option FunctionId}
    (hf : ∀ id ∈ onFulfilled, known id) (hr : ∀ id ∈ onRejected, known id)
    {answer : Except EngineError ObjectRef}
    (hrun : Agent.addReactions ref onFulfilled onRejected a = .ok answer b) : b.Confined known := by
  refine (h.of_run (y := fun f => Agent.addReactions ref (onFulfilled.map f) (onRejected.map f))
    (fun f => addReactions_relabel f a ref onFulfilled onRejected) (fun f g hfg => ?_) hrun).1
  rw [Option.map_congr fun id hid => hfg id (hf id hid), Option.map_congr fun id hid => hfg id (hr id hid)]

theorem nextJob (h : a.Confined known) {job : Option NativeJob} (hrun : Agent.nextJob a = .ok job b) :
    b.Confined known ∧ ∀ native, job = some native → known native.handler := by
  obtain ⟨hb, hjob⟩ := h.of_run (y := fun _ => Agent.nextJob) (fun f => nextJob_relabel f a)
    (fun _ _ _ => rfl) hrun
  refine ⟨hb, ?_⟩
  rintro native rfl
  refine known_of_agree fun f g hfg => ?_
  exact congrArg NativeJob.handler (Option.some.inj (hjob f g hfg))

/-- The handlers of queued reactions are known. -/
theorem queued (h : a.Confined known) {kind : ReactionKind} {id : FunctionId} {derived : ObjectRef}
    {argument : ManagedValue} (hq : .react kind (.derive (some id) derived) argument ∈ a.queue.toList) :
    known id := by
  refine known_of_agree fun f g hfg => ?_
  have hqueue := congrArg (fun b : Agent => b.queue.toList) (h f g hfg)
  simp only [queue_relabel, JobQueue.toList_relabel] at hqueue
  have hjob := List.map_inj_left.1 hqueue _ hq
  simpa [Job.relabel, Reaction.relabel] using hjob

/-- The handlers of the reactions that wait for a promise are known. -/
theorem stored (h : a.Confined known) {ref : ObjectRef} {record : PromiseRecord}
    (hr : a.heap.record? ref = .ok record) {pair : ReactionPair} (hp : pair ∈ record.reactions)
    {kind : ReactionKind} {id : FunctionId} {derived : ObjectRef}
    (hd : pair.due kind = .derive (some id) derived) : known id := by
  refine known_of_agree fun f g hfg => ?_
  have hrecord := congrArg (fun b : Agent => b.heap.record? ref) (h f g hfg)
  simp only [heap_relabel, Heap.record?_relabel, hr, Except.map, Except.ok.injEq,
    PromiseRecord.relabel, PromiseRecord.mk.injEq, true_and] at hrecord
  have hlist := congrArg Array.toList hrecord
  simp only [Array.toList_map] at hlist
  have hpair := List.map_inj_left.1 hlist pair (Array.mem_toList_iff.2 hp)
  have hdue := congrArg (ReactionPair.due · kind) hpair
  simpa [hd, Reaction.relabel] using hdue

end Confined

end Agent

end Promises
