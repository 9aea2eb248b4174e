import Promises.Agent.Engine
import Promises.Proofs.Heap.Record

namespace Promises

/-- What a computation that came to an end did. -/
theorem bind_ok {ε σ α β : Type} {x : EStateM ε σ α} {f : α → EStateM ε σ β} {s t : σ} {v : β}
    (h : (x >>= f) s = .ok v t) : ∃ u r, x s = .ok u r ∧ f u r = .ok v t := by
  simp only [bind, EStateM.bind] at h
  cases hx : x s with
  | ok u r =>
    rw [hx] at h
    exact ⟨u, r, rfl, h⟩
  | error e r =>
    rw [hx] at h
    cases h

theorem bind_run {ε σ α β : Type} {x : EStateM ε σ α} (f : α → EStateM ε σ β) {s t : σ} {v : α}
    (h : x s = .ok v t) : (x >>= f) s = f v t := by
  simp only [bind, EStateM.bind, h]

theorem bind_error {ε σ α β : Type} {x : EStateM ε σ α} (f : α → EStateM ε σ β) {s t : σ} {e : ε}
    (h : x s = .error e t) : (x >>= f) s = .error e t := by
  simp only [bind, EStateM.bind, h]

theorem bind_congr_run {ε σ α β : Type} {x y : EStateM ε σ α} (f : α → EStateM ε σ β) {s : σ}
    (h : x s = y s) : (x >>= f) s = (y >>= f) s := by
  simp only [bind, EStateM.bind, h]

theorem Action.map_run {σ α β : Type} (f : α → β) (x : Action σ α) (s : σ) :
    (f <$> x) s =
      match x s with
      | .ok v t => .ok (f v) t
      | .error fault t => .error fault t := by
  simp only [Functor.map, EStateM.map]
  cases x s <;> rfl

theorem Action.map_ok {σ α β : Type} {f : α → β} {x : Action σ α} {s t : σ} {v : β}
    (h : (f <$> x) s = .ok v t) : ∃ u, x s = .ok u t ∧ f u = v := by
  rw [Action.map_run] at h
  cases hx : x s with
  | ok u r =>
    rw [hx] at h
    obtain ⟨hv, rfl⟩ := EStateM.Result.ok.inj h
    exact ⟨u, rfl, hv⟩
  | error fault r =>
    rw [hx] at h
    cases h

theorem Request.bind_run {σ α β : Type} (x : Request σ α) (f : α → Request σ β) (s : σ) :
    (x >>= f) s =
      match x s with
      | .ok (.ok v) t => f v t
      | .ok (.error e) t => .ok (.error e) t
      | .error fault t => .error fault t := by
  simp only [bind, ExceptT.bind, ExceptT.mk, EStateM.bind]
  rcases x s with ⟨_ | _, _⟩ | _ <;> rfl

theorem Request.get_run {σ : Type} (s : σ) : (get : Request σ σ) s = .ok (.ok s) s := rfl

theorem Request.ite_run {σ α : Type} (c : Prop) [Decidable c] (x y : Request σ α) (s : σ) :
    (if c then x else y) s = if c then x s else y s := by
  split <;> rfl

/-- How a settled promise was settled, and with what. -/
def PromiseStatus.outcome? : PromiseStatus → Option (ReactionKind × ManagedValue)
  | pending => none
  | fulfilled value => some (.fulfill, value)
  | rejected reason => some (.reject, reason)

@[simp] theorem PromiseStatus.outcome?_settled (kind : ReactionKind) (value : ManagedValue) :
    (settled kind value).outcome? = some (kind, value) := by
  cases kind <;> rfl

theorem PromiseStatus.settled_inj {k l : ReactionKind} {v w : ManagedValue}
    (h : settled k v = settled l w) : k = l ∧ v = w := by
  have ho := congrArg outcome? h
  simpa using ho

theorem PromiseStatus.outcome?_eq_some_iff {status : PromiseStatus} {kind : ReactionKind}
    {value : ManagedValue} :
    status.outcome? = some (kind, value) ↔ status = settled kind value := by
  cases status <;> cases kind <;> simp [outcome?, settled]

theorem PromiseStatus.outcome?_eq_none_iff {status : PromiseStatus} :
    status.outcome? = none ↔ status = pending := by
  cases status <;> simp [outcome?]

theorem PromiseStatus.exists_settled {status : PromiseStatus} (h : status ≠ .pending) :
    ∃ kind value, status = .settled kind value := by
  cases ho : status.outcome? with
  | none => exact absurd (outcome?_eq_none_iff.1 ho) h
  | some outcome => exact ⟨outcome.1, outcome.2, outcome?_eq_some_iff.1 ho⟩

@[simp] theorem PromiseStatus.settled_ne_pending (kind : ReactionKind) (value : ManagedValue) :
    settled kind value ≠ pending := by
  cases kind <;> simp [settled]

theorem PromiseStatus.state_eq_pending_iff {status : PromiseStatus} :
    status.state = .pending ↔ status = pending := by
  cases status <;> simp [state]

namespace PromiseRecord

/-- The record once it is settled. -/
def settled (r : PromiseRecord) (kind : ReactionKind) (value : ManagedValue) : PromiseRecord :=
  { r with status := .settled kind value, alreadyResolved := true, reactions := #[] }

/-- The jobs that a settlement queues. -/
def dueJobs (r : PromiseRecord) (kind : ReactionKind) (value : ManagedValue) : List Job :=
  r.reactions.toList.map fun pair => .react kind (pair.due kind) value

theorem settle_of_pending {r : PromiseRecord} (hp : r.status = .pending) (kind : ReactionKind)
    (value : ManagedValue) :
    r.settle kind value = .ok (r.reactions.toList.map (·.due kind), r.settled kind value) := by
  rw [settle, hp]
  rfl

end PromiseRecord

/-- What comes of a resolve or a reject that was accepted. -/
inductive Resolution
  | settle (kind : ReactionKind) (value : ManagedValue)
  | follow (other : ObjectRef)

/-- What comes of settling the promise at `ref` one way with a value. -/
def Heap.resolution (h : Heap) (ref : ObjectRef) : ReactionKind → ManagedValue → Resolution
  | .fulfill, .object other =>
    if other = ref then .settle .reject chainingCycle
    else if h.isPromise other then .follow other
    else .settle .fulfill (.object other)
  | kind, value => .settle kind value

namespace Agent

def collected (a : Agent) : Agent := { a with heap := (a.heap.collect a.queue.references).2 }

/-- The agent when it is about to allocate. A full heap was collected. -/
def makeRoom (a : Agent) : Agent := if a.heap.isFull then a.collected else a

def placed (a : Agent) (object : HeapObject) : Agent :=
  { a with heap := (a.heap.place object).2 }

def retained (a : Agent) (ref : ObjectRef) : Agent := { a with heap := (a.heap.retain ref).2 }

def released (a : Agent) (ref : ObjectRef) : Agent := { a with heap := (a.heap.release ref).2 }

def handled (a : Agent) (ref : ObjectRef) (record : PromiseRecord) : Agent :=
  { a with heap := a.heap.setRecord ref record.markHandled }

/-- The agent once the promise at `ref` is settled and its reactions are queued. -/
def settling (a : Agent) (ref : ObjectRef) (record : PromiseRecord) (kind : ReactionKind)
    (value : ManagedValue) : Agent :=
  { a with
    heap := a.heap.setRecord ref (record.settled kind value)
    queue := a.queue.pushAll (record.dueJobs kind value) }

/-- The agent once the promise at `ref` is to follow another one. -/
def following (a : Agent) (ref : ObjectRef) (record : PromiseRecord) (other : ObjectRef) : Agent :=
  { a with
    heap := a.heap.setRecord ref record.lock
    queue := a.queue.push (.follow ref other) }

def resolving (a : Agent) (ref : ObjectRef) (record : PromiseRecord) : Resolution → Agent
  | .settle kind value => a.settling ref record kind value
  | .follow other => a.following ref record other

/-- The agent once reactions were registered with the promise at `ref`. -/
def attaching (a : Agent) (ref : ObjectRef) (record : PromiseRecord) (pair : ReactionPair) :
    Agent :=
  match record.status.outcome? with
  | none => { a with heap := a.heap.setRecord ref (record.markHandled.addReactions pair) }
  | some (kind, value) =>
    { a with
      heap := a.heap.setRecord ref record.markHandled
      queue := a.queue.push (.react kind (pair.due kind) value) }

theorem checkRunning_run (a : Agent) :
    checkRunning a = if a.terminating then .ok (.error .terminated) a else .ok (.ok ()) a := by
  simp only [checkRunning, Request.bind_run, Request.get_run, Request.ite_run]
  split <;> rfl

theorem allocate_run (object : HeapObject) (a : Agent) :
    allocate object a =
      if a.terminating then .ok (.error .terminated) a
      else if a.makeRoom.heap.isFull then
        .ok (.error (.outOfMemory a.makeRoom.heap.limit)) a.makeRoom
      else .ok (.ok (a.makeRoom.heap.place object).1) (a.makeRoom.placed object) := by
  simp only [allocate, Request.bind_run, checkRunning_run, Request.get_run, Request.ite_run]
  cases ht : a.terminating with
  | true => rfl
  | false =>
    have hd (b : Agent) : (discard (liftM collectGarbage) : Request Agent PUnit) b =
        .ok (.ok ⟨⟩) b.collected := rfl
    by_cases hf : a.heap.isFull = true
    · by_cases hg : a.collected.heap.isFull = true
      · simp only [Bool.false_eq_true, if_false, makeRoom, hf, if_true, hd, hg]
        rfl
      · simp only [Bool.false_eq_true, if_false, makeRoom, hf, if_true, hd, hg]
        rfl
    · simp only [Bool.false_eq_true, if_false, makeRoom, hf]
      rfl

/-- What was allocated was placed where room was made for it. -/
theorem allocate_ok {object : HeapObject} {a b : Agent} {ref : ObjectRef}
    (h : allocate object a = .ok (.ok ref) b) :
    ref = (a.makeRoom.heap.place object).1 ∧ b = a.makeRoom.placed object := by
  rw [allocate_run] at h
  -- all answers but the last one are errors
  split at h
  · cases h
  · split at h
    · cases h
    · obtain ⟨href, rfl⟩ := EStateM.Result.ok.inj h
      exact ⟨(Except.ok.inj href).symm, rfl⟩

theorem settle_of_pending {ref : ObjectRef} {a : Agent} {record : PromiseRecord}
    (hr : a.heap.record? ref = .ok record) (hp : record.status = .pending) (kind : ReactionKind)
    (value : ManagedValue) :
    settle ref kind value a = .ok (.ok ()) (a.settling ref record kind value) := by
  rw [settle_run, hr]
  simp only [PromiseRecord.settle_of_pending hp, settling, PromiseRecord.dueJobs, List.map_map]
  rfl

theorem attach_eq (ref : ObjectRef) (pair : ReactionPair) (a : Agent) :
    attach ref pair a =
      match a.heap.record? ref with
      | .error e => .ok (.error e) a
      | .ok record => .ok (.ok ()) (a.attaching ref record pair) := by
  rw [attach_run]
  cases a.heap.record? ref with
  | error e => rfl
  | ok record =>
    simp only [attaching]
    cases record.status <;> rfl

theorem addReactions_run (ref : ObjectRef) (f g : Option FunctionId) (a : Agent) :
    addReactions ref f g a =
      match a.heap.record? ref with
      | .error e => .ok (.error e) a
      | .ok _ =>
        match allocate (.promise .new) (a.retained ref) with
        | .ok (.error e) b => .ok (.error e) (b.released ref)
        | .ok (.ok derived) b =>
          match attach ref ⟨.derive f derived, .derive g derived⟩ (b.released ref) with
          | .ok (.ok ()) c => .ok (.ok derived) c
          | .ok (.error e) c => .ok (.error e) c
          | .error fault c => .error fault c
        | .error fault b => .error fault b := by
  have hrecord : (discard (record ref) : Request Agent PUnit) a =
      match a.heap.record? ref with
      | .error e => .ok (.error e) a
      | .ok _ => .ok (.ok ⟨⟩) a := by
    change (record ref >>= fun _ => pure ⟨⟩ : Request Agent PUnit) a = _
    rw [Request.bind_run, record_run]
    cases a.heap.record? ref <;> rfl
  rw [addReactions, Request.bind_run, hrecord]
  cases a.heap.record? ref with
  | error e => rfl
  | ok record =>
    have hretain : (liftM (retain ref) : Request Agent Unit) a = .ok (.ok ()) (a.retained ref) := rfl
    have hrelease (b : Agent) :
        (liftM (release ref) : Request Agent Unit) b = .ok (.ok ()) (b.released ref) := rfl
    -- an allocation that is refused goes on as an answer, so that the source is released
    have hask : (allocate (.promise .new)).outcome (a.retained ref) =
        match allocate (.promise .new) (a.retained ref) with
        | .ok answer b => .ok (.ok answer) b
        | .error fault b => .error fault b := by
      change (EStateM.map _ (allocate (.promise .new)).run) (a.retained ref) = _
      simp only [EStateM.map, ExceptT.run]
      cases allocate (.promise .new) (a.retained ref) <;> rfl
    have hof (answer : Except EngineError ObjectRef) (b : Agent) :
        Request.ofExcept answer b = .ok answer b := rfl
    simp only [Request.bind_run, hretain, hask]
    rcases allocate (.promise .new) (a.retained ref) with ⟨_ | derived, b⟩ | _
    · simp only [hrelease, hof]
    · simp only [hrelease, hof]
      rcases attach ref ⟨.derive f derived, .derive g derived⟩ (b.released ref) with
        ⟨_ | _, _⟩ | _ <;> rfl
    · rfl

/-- A settlement right after the latch was set. -/
theorem settle_lock {ref : ObjectRef} {a : Agent} {record : PromiseRecord}
    (hr : a.heap.record? ref = .ok record) (hp : record.status = .pending) (kind : ReactionKind)
    (value : ManagedValue) :
    settle ref kind value { a with heap := a.heap.setRecord ref record.lock } =
      .ok (.ok ()) (a.settling ref record kind value) := by
  have hl : record.lock.status = .pending := hp
  have hlocked : ({ a with heap := a.heap.setRecord ref record.lock } : Agent).heap.record? ref =
      .ok record.lock := Heap.record?_setRecord hr record.lock
  rw [settle_of_pending hlocked hl]
  simp only [settling, Heap.setRecord_setRecord]
  rfl

theorem resolveLatched_lock {ref : ObjectRef} {a : Agent} {record : PromiseRecord}
    (hr : a.heap.record? ref = .ok record) (hp : record.status = .pending) (value : ManagedValue) :
    resolveLatched ref value { a with heap := a.heap.setRecord ref record.lock } =
      .ok (.ok ()) (a.resolving ref record (a.heap.resolution ref .fulfill value)) := by
  rw [resolveLatched_run]
  cases value with
  | object other =>
    simp only [settle_lock hr hp, Heap.isPromise_setRecord hr, Heap.resolution]
    split
    · rfl
    · split <;> rfl
  | _ => simp only [settle_lock hr hp, Heap.resolution, resolving]

/-- How a promise is resolved or rejected: once, as long as one that is not latched is pending. -/
theorem passOn_run (kind : ReactionKind) (ref : ObjectRef) (value : ManagedValue) (a : Agent)
    (hp : ∀ record, a.heap.record? ref = .ok record → record.alreadyResolved = false →
      record.status = .pending) :
    passOn kind ref value a =
      match a.heap.record? ref with
      | .error e => .ok (.error e) a
      | .ok record =>
        if record.alreadyResolved then .ok (.ok false) a
        else .ok (.ok true) (a.resolving ref record (a.heap.resolution ref kind value)) := by
  -- both ways set the latch first, and differ in what they do then
  have hlatch (next : Request Agent Unit)
      (hnext : ∀ record, a.heap.record? ref = .ok record → record.status = .pending →
        next { a with heap := a.heap.setRecord ref record.lock } =
          .ok (.ok ()) (a.resolving ref record (a.heap.resolution ref kind value))) :
      latch ref next a =
        match a.heap.record? ref with
        | .error e => .ok (.error e) a
        | .ok record =>
          if record.alreadyResolved then .ok (.ok false) a
          else .ok (.ok true) (a.resolving ref record (a.heap.resolution ref kind value)) := by
    rw [latch_run]
    cases hr : a.heap.record? ref with
    | error e => rfl
    | ok record =>
      cases hl : record.alreadyResolved with
      | true => simp only [hl, if_true]
      | false =>
        simp only [hl, Bool.false_eq_true, if_false]
        rw [hnext record hr (hp record hr hl)]
  cases kind with
  | fulfill => exact hlatch _ fun record hr hpend => resolveLatched_lock hr hpend value
  | reject =>
    refine hlatch _ fun record hr hpend => ?_
    rw [settle_lock hr hpend]
    cases value <;> rfl

/-- A call of an agent. Besides the calls of an engine there is one for the root count of an
object. -/
inductive Call
  | isPromise (ref : ObjectRef)
  | newObject
  | state (ref : ObjectRef)
  | result (ref : ObjectRef)
  | newResolver
  | resolve (ref : ObjectRef) (value : ManagedValue)
  | reject (ref : ObjectRef) (reason : ManagedValue)
  | promiseOf (ref : ObjectRef)
  | addReactions (ref : ObjectRef) (onFulfilled onRejected : Option FunctionId)
  | hasHandler (ref : ObjectRef)
  | markHandled (ref : ObjectRef)
  | nextJob
  | retain (ref : ObjectRef)
  | release (ref : ObjectRef)
  | rootCount (ref : ObjectRef)
  | collectGarbage
  | stats
  | terminate
  | cancelTermination
  | isTerminating

inductive Answer
  | none
  | flag (b : Bool)
  | count (n : Nat)
  | object (answer : Except EngineError ObjectRef)
  | state (answer : Except EngineError PromiseState)
  | value (answer : Except EngineError ManagedValue)
  | settled (answer : Except EngineError Bool)
  | has (answer : Except EngineError Bool)
  | marked (answer : Except EngineError Unit)
  | job (answer : Option NativeJob)
  | collection (answer : Collection)
  | stats (answer : HeapStats)

/-- Makes a call. -/
def Call.run : Call → Action Agent Answer
  | isPromise ref => Answer.flag <$> Engine.isPromise ref
  | newObject => Answer.object <$> (Engine.newObject : Request Agent ObjectRef).run
  | state ref => Answer.state <$> (Engine.state ref : Request Agent PromiseState).run
  | result ref => Answer.value <$> (Engine.result ref : Request Agent ManagedValue).run
  | newResolver => Answer.object <$> (Engine.newResolver : Request Agent ObjectRef).run
  | resolve ref value => Answer.settled <$> (Engine.resolve ref value : Request Agent Bool).run
  | reject ref reason => Answer.settled <$> (Engine.reject ref reason : Request Agent Bool).run
  | promiseOf ref => Answer.object <$> (Engine.promiseOf ref : Request Agent ObjectRef).run
  | addReactions ref f g =>
    Answer.object <$> (Engine.addReactions ref f g : Request Agent ObjectRef).run
  | hasHandler ref => Answer.has <$> (Engine.hasHandler ref : Request Agent Bool).run
  | markHandled ref => Answer.marked <$> (Engine.markHandled ref : Request Agent Unit).run
  | nextJob => Answer.job <$> Engine.nextJob
  | retain ref => (fun _ => Answer.none) <$> Engine.retain ref
  | release ref => (fun _ => Answer.none) <$> Engine.release ref
  | rootCount ref => return .count ((← get).heap.rootCount ref)
  | collectGarbage => Answer.collection <$> Engine.collectGarbage
  | stats => Answer.stats <$> Engine.stats
  | terminate => (fun _ => Answer.none) <$> Engine.terminate
  | cancelTermination => (fun _ => Answer.none) <$> Engine.cancelTermination
  | isTerminating => Answer.flag <$> Engine.isTerminating

/-- Whether the count of the roots can hold the one that a registration gives to its source. -/
def Call.HasRoom (a : Agent) : Call → Prop
  | addReactions ref .. => a.heap.rootCount ref + 1 < UInt32.size
  | _ => True

end Agent

end Promises
