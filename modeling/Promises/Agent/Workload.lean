import Promises.Agent.Outcome

/-!
The work that an agent still has to do by itself. Each job counts with what it can bring about: a
reaction one, a following two, a stored pair of reactions one, and an unresolved promise two, for
the following that it may come to. `workload_runJob` says that running a job costs more than what it
queues, so that `nextJob` ends.
-/

namespace Promises

/-- The sum of the weights of a list. -/
def total {α : Type} (weight : α → Nat) : List α → Nat
  | [] => 0
  | x :: xs => weight x + total weight xs

def PromiseRecord.workload (r : PromiseRecord) : Nat :=
  r.reactions.size + if r.alreadyResolved then 0 else 2

def Slot.workload (s : Slot) : Nat :=
  match s.cell with
  | some ⟨.promise record, _⟩ => record.workload
  | _ => 0

def Heap.workload (h : Heap) : Nat := total Slot.workload h.slots.toList

def Job.workload : Job → Nat
  | react .. => 1
  | follow .. => 2

def JobQueue.workload (q : JobQueue) : Nat := total Job.workload q.toList

def Agent.workload (a : Agent) : Nat := a.heap.workload + a.queue.workload

theorem total_append {α : Type} (weight : α → Nat) (xs ys : List α) :
    total weight (xs ++ ys) = total weight xs + total weight ys := by
  induction xs with
  | nil => simp [total]
  | cons x xs ih => simp [total, ih]; omega

theorem total_modify {α : Type} (weight : α → Nat) (f : α → α) (xs : List α) (i : Nat) (x : α)
    (h : xs[i]? = some x) :
    total weight (xs.modify i f) + weight x = total weight xs + weight (f x) := by
  induction xs generalizing i with
  | nil => simp at h
  | cons y ys ih =>
    cases i with
    | zero =>
      obtain rfl : y = x := by simpa using h
      simp only [List.modify_zero_cons, total]
      omega
    | succ i =>
      have := ih i (by simpa using h)
      simp only [List.modify_succ_cons, total]
      omega

/-- A change that keeps the weight of each member keeps the sum. -/
theorem total_modify_of_weight {α : Type} {weight : α → Nat} {f : α → α}
    (h : ∀ x, weight (f x) = weight x) (xs : List α) (i : Nat) :
    total weight (xs.modify i f) = total weight xs := by
  induction xs generalizing i with
  | nil => cases i <;> rfl
  | cons y ys ih =>
    cases i with
    | zero => simp only [List.modify_zero_cons, total, h]
    | succ i => simp only [List.modify_succ_cons, total, ih i]

namespace Heap

theorem cell?_eq_some_iff {h : Heap} {ref : ObjectRef} {cell : Cell} :
    h.cell? ref = some cell ↔ h.slots[ref.index]? = some ⟨ref.generation, some cell⟩ := by
  unfold cell?
  constructor
  · intro e
    split at e
    · rename_i slot found
      obtain ⟨g, c⟩ := slot
      grind
    · simp at e
  · intro e
    simp [e]

theorem record?_eq_ok_iff {h : Heap} {ref : ObjectRef} {record : PromiseRecord} :
    h.record? ref = .ok record ↔ ∃ roots, h.cell? ref = some ⟨.promise record, roots⟩ := by
  unfold record? object?
  rcases e : h.cell? ref with _ | ⟨object, roots⟩
  · simp
  · cases object <;> simp

theorem workload_update {h : Heap} {ref : ObjectRef} {cell : Cell} (f : Cell → Cell)
    (found : h.cell? ref = some cell) :
    (h.update ref f).workload + Slot.workload ⟨ref.generation, some cell⟩ =
      h.workload + Slot.workload ⟨ref.generation, some (f cell)⟩ := by
  have at_index := cell?_eq_some_iff.1 found
  have := total_modify Slot.workload
    (fun slot : Slot => if slot.generation = ref.generation then
      { slot with cell := slot.cell.map f } else slot)
    h.slots.toList ref.index _ (by simpa using at_index)
  simpa [workload, update] using this

theorem workload_setRecord {h : Heap} {ref : ObjectRef} {old : PromiseRecord}
    (found : h.record? ref = .ok old) (new : PromiseRecord) :
    (h.setRecord ref new).workload + old.workload = h.workload + new.workload := by
  obtain ⟨roots, found⟩ := record?_eq_ok_iff.1 found
  simpa [Slot.workload, setRecord] using workload_update
    (fun cell => { cell with object := .promise new }) found

theorem record?_setRecord {h : Heap} {ref : ObjectRef} {old : PromiseRecord}
    (found : h.record? ref = .ok old) (new : PromiseRecord) :
    (h.setRecord ref new).record? ref = .ok new := by
  obtain ⟨roots, found⟩ := record?_eq_ok_iff.1 found
  exact record?_eq_ok_iff.2 ⟨roots, by simp [setRecord, cell?_update, found]⟩

theorem workload_retain (h : Heap) (ref : ObjectRef) : (h.retain ref).2.workload = h.workload := by
  simp only [retain, workload, update, Array.toList_modify]
  apply total_modify_of_weight
  intro slot
  obtain ⟨g, _ | ⟨_ | record, roots⟩⟩ := slot <;> split <;> rfl

end Heap

theorem JobQueue.workload_push (q : JobQueue) (job : Job) :
    (q.push job).workload = q.workload + job.workload := by
  rw [workload, toList_push, total_append, workload]
  rfl

theorem JobQueue.workload_pushAll_react (q : JobQueue) (due : List Reaction) (kind : ReactionKind)
    (value : ManagedValue) :
    (q.pushAll (due.map (.react kind · value))).workload = q.workload + due.length := by
  have : ∀ due : List Reaction,
      total Job.workload (due.map (Job.react kind · value)) = due.length := by
    intro due
    induction due with
    | nil => rfl
    | cons r due ih =>
      rw [List.map_cons, total, ih, List.length_cons, Nat.add_comm]
      rfl
  rw [workload, toList_pushAll, total_append, this, workload]

namespace PromiseRecord

theorem settle_eq_ok {r settled : PromiseRecord} {kind : ReactionKind} {value : ManagedValue}
    {due : List Reaction} (h : r.settle kind value = .ok (due, settled)) :
    due.length = r.reactions.size ∧ settled.workload = 0 := by
  unfold settle at h
  split at h
  · simp only [Except.ok.injEq, Prod.mk.injEq] at h
    obtain ⟨rfl, rfl⟩ := h
    simp [workload]
  · cases h

end PromiseRecord

namespace Agent

theorem workload_settle {ref : ObjectRef} {kind : ReactionKind} {value : ManagedValue} {a b : Agent}
    {r : Except EngineError Unit} (h : settle ref kind value a = .ok r b) :
    b.workload ≤ a.workload := by
  rw [settle_run] at h
  split at h
  · cases h; omega
  · rename_i record found
    split at h
    · rename_i due settled hs
      cases h
      have := Heap.workload_setRecord found settled
      have := PromiseRecord.settle_eq_ok hs
      have : record.reactions.size ≤ record.workload := by simp [PromiseRecord.workload]
      simp only [workload, JobQueue.workload_pushAll_react]
      omega
    · cases h

theorem workload_latch {ref : ObjectRef} {next : Request Agent Unit} {a b : Agent}
    {r : Except EngineError Bool}
    (cheap : ∀ a r b, next a = .ok r b → b.workload ≤ a.workload + 2)
    (h : latch ref next a = .ok r b) : b.workload ≤ a.workload := by
  rw [latch_run] at h
  split at h
  · cases h; omega
  · rename_i record found
    split at h
    · cases h; omega
    · rename_i unresolved
      have := Heap.workload_setRecord found record.lock
      have weight : record.workload = record.lock.workload + 2 := by
        simp [PromiseRecord.workload, PromiseRecord.lock, unresolved]
      have : ({ a with heap := a.heap.setRecord ref record.lock } : Agent).workload + 2 =
          a.workload := by
        simp only [workload]
        omega
      rcases e : next { a with heap := a.heap.setRecord ref record.lock } with ⟨_ | _, c⟩ | _ <;>
        simp only [e, EStateM.Result.ok.injEq, reduceCtorEq] at h
      all_goals
        obtain ⟨rfl, rfl⟩ := h
        have := cheap _ _ _ e
        omega

theorem workload_resolveLatched {ref : ObjectRef} {value : ManagedValue} {a b : Agent}
    {r : Except EngineError Unit} (h : resolveLatched ref value a = .ok r b) :
    b.workload ≤ a.workload + 2 := by
  rw [resolveLatched_run] at h
  have settled : ∀ {kind value}, settle ref kind value a = .ok r b →
      b.workload ≤ a.workload + 2 := fun h => by
    have := workload_settle h
    omega
  split at h
  · split at h
    · exact settled h
    · split at h
      · cases h
        simp [workload, JobQueue.workload_push, Job.workload]
        omega
      · exact settled h
  · exact settled h

theorem workload_passOn {kind : ReactionKind} {ref : ObjectRef} {value : ManagedValue} {a b : Agent}
    {r : Except EngineError Bool} (h : passOn kind ref value a = .ok r b) :
    b.workload ≤ a.workload := by
  cases kind
  · exact workload_latch (fun _ _ _ h => workload_resolveLatched h) h
  · exact workload_latch (fun _ _ _ h => Nat.le_add_right_of_le (workload_settle h)) h

theorem workload_attach {ref : ObjectRef} {pair : ReactionPair} {a b : Agent}
    {r : Except EngineError Unit} (h : attach ref pair a = .ok r b) :
    b.workload ≤ a.workload + 1 := by
  rw [attach_run] at h
  split at h
  · cases h; omega
  · rename_i record found
    have handled : record.markHandled.workload = record.workload := rfl
    have added : (record.markHandled.addReactions pair).workload = record.workload + 1 := by
      simp only [PromiseRecord.workload, PromiseRecord.markHandled, PromiseRecord.addReactions,
        Array.size_push]
      exact Nat.add_right_comm _ _ _
    split at h
    all_goals
      cases h
      first
      | have := Heap.workload_setRecord found (record.markHandled.addReactions pair)
        simp only [workload]
        omega
      | have := Heap.workload_setRecord found record.markHandled
        simp only [workload, JobQueue.workload_push, Job.workload]
        omega

/-- Running a job costs more than what it queues. -/
theorem workload_runJob {job : Job} {a b : Agent} {r : Except EngineError (Option NativeJob)}
    (h : runJob job a = .ok r b) : b.workload < a.workload + job.workload := by
  match job with
  | .follow promise thenable =>
    rw [runJob_follow] at h
    rcases e : attach thenable ⟨.adopt promise, .adopt promise⟩ a with ⟨_ | _, c⟩ | _ <;>
      simp only [e, EStateM.Result.ok.injEq, reduceCtorEq] at h
    all_goals
      obtain ⟨rfl, rfl⟩ := h
      have := workload_attach e
      simp only [Job.workload]
      omega
  | .react kind (.derive (some handler) derived) argument =>
    rw [runJob_native] at h
    cases h
    simp [workload, Heap.workload_retain, Job.workload]
  | .react kind (.derive none derived) argument =>
    rw [runJob_passOn] at h
    rcases e : passOn kind derived argument a with ⟨_ | _, c⟩ | _ <;>
      simp only [e, EStateM.Result.ok.injEq, reduceCtorEq] at h
    all_goals
      obtain ⟨rfl, rfl⟩ := h
      have := workload_passOn e
      simp only [Job.workload]
      omega
  | .react kind (.adopt follower) argument =>
    -- one that fails, or finds the follower settled, queues nothing
    rw [runJob_adopt] at h
    split at h
    · cases h
      simp [Job.workload]
    · split at h
      · rcases e : settle follower kind argument a with ⟨_ | _, c⟩ | _ <;>
          simp only [e, EStateM.Result.ok.injEq, reduceCtorEq] at h
        all_goals
          obtain ⟨rfl, rfl⟩ := h
          have := workload_settle e
          simp only [Job.workload]
          omega
      · cases h
        simp [Job.workload]

theorem workload_of_pop? {a : Agent} {job : Job} {queue : JobQueue}
    (h : a.queue.pop? = some (job, queue)) :
    ({ a with queue } : Agent).workload + job.workload = a.workload := by
  simp only [workload, JobQueue.workload, JobQueue.toList_of_pop?_eq_some h, total]
  omega

/-- Runs jobs until one needs a native reaction, and none while execution is to stop. A job that
fails is dropped. -/
def nextJob (a : Agent) : EStateM.Result Fault Agent (Option NativeJob) :=
  if a.terminating then
    .ok none a
  else
    match _popped : a.queue.pop? with
    | none => .ok none a
    | some (job, queue) =>
      match _ran : runJob job { a with queue } with
      | .ok (.ok (some native)) b => .ok (some native) b
      | .ok (.ok none) b => nextJob b
      | .ok (.error _) b => nextJob b
      | .error fault b => .error fault b
termination_by a.workload
decreasing_by
  all_goals
    have := workload_runJob _ran
    have := workload_of_pop? _popped
    omega

/-- The loop once around. -/
theorem nextJob_run (a : Agent) :
    nextJob a =
      if a.terminating then .ok none a
      else
        match a.queue.pop? with
        | none => .ok none a
        | some (job, queue) =>
          match runJob job { a with queue } with
          | .ok (.ok (some native)) b => .ok (some native) b
          | .ok (.ok none) b => nextJob b
          | .ok (.error _) b => nextJob b
          | .error fault b => .error fault b := by
  rw [nextJob]
  split
  · rfl
  · split
    · rename_i hp
      rw [hp]
    · rename_i job queue hp
      rw [hp]
      -- the run of the job is matched together with the proof that it is one
      split <;> rename_i hrun <;> simp only [hrun]

end Agent

end Promises
