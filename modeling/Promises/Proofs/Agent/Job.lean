import Promises.Proofs.Agent.Request

namespace Promises

/-- The native job that a job hands out. -/
def Job.native? : Job → Option NativeJob
  | react kind (.derive (some handler) derived) argument => some ⟨kind, handler, argument, derived⟩
  | _ => none

namespace Agent

variable {a b : Agent}

/-- The agent after a job that was taken from the queue. -/
def working (a : Agent) : Job → Agent
  | .follow promise thenable =>
    match a.heap.record? thenable with
    | .ok record => a.attaching thenable record ⟨.adopt promise, .adopt promise⟩
    | .error _ => a
  | .react _ (.derive (some _) derived) _ => a.retained derived
  | .react kind (.derive none derived) argument =>
    match a.heap.record? derived with
    | .ok record =>
      if record.alreadyResolved then a
      else a.resolving derived record (a.heap.resolution derived kind argument)
    | .error _ => a
  | .react kind (.adopt follower) argument =>
    match a.heap.record? follower with
    | .ok record =>
      if record.status = .pending then a.settling follower record kind argument else a
    | .error _ => a

/-- What work on a job does to an agent. A job that has nothing left to do is dropped. -/
inductive Effect (a : Agent) : Job → Agent → Prop
  | dropped {job : Job} (hn : job.native? = none) : Effect a job a
  | attached {promise thenable : ObjectRef} {record : PromiseRecord}
    (hr : a.heap.record? thenable = .ok record) :
    Effect a (.follow promise thenable)
      (a.attaching thenable record ⟨.adopt promise, .adopt promise⟩)
  | handed (kind : ReactionKind) (handler : FunctionId) (derived : ObjectRef)
    (argument : ManagedValue) :
    Effect a (.react kind (.derive (some handler) derived) argument) (a.retained derived)
  | passed {kind : ReactionKind} {derived : ObjectRef} {argument : ManagedValue}
    {record : PromiseRecord} (hr : a.heap.record? derived = .ok record)
    (hu : record.alreadyResolved = false) :
    Effect a (.react kind (.derive none derived) argument)
      (a.resolving derived record (a.heap.resolution derived kind argument))
  | adopted {kind : ReactionKind} {follower : ObjectRef} {argument : ManagedValue}
    {record : PromiseRecord} (hr : a.heap.record? follower = .ok record)
    (hp : record.status = .pending) :
    Effect a (.react kind (.adopt follower) argument) (a.settling follower record kind argument)

theorem effect_working (a : Agent) (job : Job) : Effect a job (a.working job) := by
  match job with
  | .follow promise thenable =>
    rw [working]
    cases hr : a.heap.record? thenable with
    | error e => exact .dropped rfl
    | ok record => exact .attached hr
  | .react kind (.derive (some handler) derived) argument => exact .handed kind handler derived argument
  | .react kind (.derive none derived) argument =>
    rw [working]
    cases hr : a.heap.record? derived with
    | error e => exact .dropped rfl
    | ok record =>
      dsimp only
      split
      · exact .dropped rfl
      · rename_i hu
        exact .passed hr (Bool.eq_false_iff.2 hu)
  | .react kind (.adopt follower) argument =>
    rw [working]
    cases hr : a.heap.record? follower with
    | error e => exact .dropped rfl
    | ok record =>
      dsimp only
      split
      · rename_i hp
        exact .adopted hr hp
      · exact .dropped rfl

theorem runJob_eq (ha : a.Sound) {job : Job}
    (hj : ∀ ref ∈ job.promises, a.heap.isPromise ref = true) :
    runJob job a = .ok (.ok job.native?) (a.working job) := by
  match job with
  | .follow promise thenable =>
    obtain ⟨record, hr⟩ := Heap.isPromise_iff.1 (hj thenable (by simp [Job.promises]))
    rw [runJob_follow, attach_eq, working, hr]
    rfl
  | .react kind (.derive (some handler) derived) argument => rw [runJob_native]; rfl
  | .react kind (.derive none derived) argument =>
    obtain ⟨record, hr⟩ := Heap.isPromise_iff.1 (hj derived (by simp [Job.promises, Reaction.target]))
    rw [runJob_passOn, passOn_run kind derived argument a (ha.unlatched derived), working, hr]
    cases hl : record.alreadyResolved <;> simp [hl, Job.native?]
  | .react kind (.adopt follower) argument =>
    obtain ⟨record, hr⟩ :=
      Heap.isPromise_iff.1 (hj follower (by simp [Job.promises, Reaction.target]))
    rw [runJob_adopt, working, hr]
    by_cases hp : record.status = .pending
    · have hs : record.state = .pending := PromiseStatus.state_eq_pending_iff.2 hp
      simp only [hs, hp, if_true, settle_of_pending hr hp]
      rfl
    · have hs : record.state ≠ .pending := fun h => hp (PromiseStatus.state_eq_pending_iff.1 h)
      simp only [hs, hp, if_false]
      rfl

/-- A job that was taken is one change at most. -/
theorem Effect.eq_or_change {job : Job} (he : Effect a job b) (ha : a.Sound)
    (hj : ∀ ref ∈ job.promises, a.heap.isPromise ref = true) : b = a ∨ Change a b := by
  cases he with
  | dropped => exact Or.inl rfl
  | @attached promise thenable record hr =>
    have hp : a.heap.isPromise promise = true := hj promise List.mem_cons_self
    refine Or.inr (.attach hr fun kind => ?_)
    cases kind <;> exact hp
  | handed kind handler derived argument => exact Or.inr (.idle (.retain a derived))
  | passed hr hu => exact Or.inr (change_resolving ha hr hu _ _)
  | adopted hr hp => exact Or.inr (.settle hr hp _ _)

theorem isLive_attaching (a : Agent) (ref : ObjectRef) (record : PromiseRecord)
    (pair : ReactionPair) (q : ObjectRef) :
    (a.attaching ref record pair).heap.isLive q = a.heap.isLive q := by
  unfold attaching
  cases record.status.outcome? <;> exact Heap.isLive_setRecord _ q

theorem isLive_resolving (a : Agent) (ref : ObjectRef) (record : PromiseRecord) (r : Resolution)
    (q : ObjectRef) : (a.resolving ref record r).heap.isLive q = a.heap.isLive q := by
  cases r <;> exact Heap.isLive_setRecord _ q

/-- No job makes an object or takes one away. -/
theorem Effect.isLive_eq {job : Job} (he : Effect a job b) (q : ObjectRef) :
    b.heap.isLive q = a.heap.isLive q := by
  cases he with
  | dropped => rfl
  | attached => exact isLive_attaching ..
  | handed => exact Heap.isLive_update ..
  | passed => exact isLive_resolving ..
  | adopted => exact Heap.isLive_setRecord _ q

theorem kind?_attaching {ref : ObjectRef} {record : PromiseRecord}
    (hr : a.heap.record? ref = .ok record) (pair : ReactionPair) (q : ObjectRef) :
    (a.attaching ref record pair).heap.kind? q = a.heap.kind? q := by
  unfold attaching
  cases record.status.outcome? <;> exact Heap.kind?_setRecord hr _ q

theorem kind?_resolving {ref : ObjectRef} {record : PromiseRecord}
    (hr : a.heap.record? ref = .ok record) (r : Resolution) (q : ObjectRef) :
    (a.resolving ref record r).heap.kind? q = a.heap.kind? q := by
  cases r <;> exact Heap.kind?_setRecord hr _ q

/-- What a registration leaves alone in the record of the source, it leaves alone in all records. -/
theorem eq_of_attaching {α : Type} (f : PromiseRecord → α) {ref : ObjectRef}
    {record : PromiseRecord} (hr : a.heap.record? ref = .ok record) {pair : ReactionPair}
    {q : ObjectRef} {old new : PromiseRecord} (ho : a.heap.record? q = .ok old)
    (hn : (a.attaching ref record pair).heap.record? q = .ok new)
    (hm : f record.markHandled = f record)
    (hf : f (record.markHandled.addReactions pair) = f record) : f new = f old := by
  unfold attaching at hn
  cases hout : record.status.outcome? with
  | none =>
    rw [hout] at hn
    exact Heap.eq_of_setRecord f hr ho hn hf
  | some outcome =>
    rw [hout] at hn
    exact Heap.eq_of_setRecord f hr ho hn hm

/-- Nor does a job change what an object is. -/
theorem Effect.kind?_eq {job : Job} (he : Effect a job b) (q : ObjectRef) :
    b.heap.kind? q = a.heap.kind? q := by
  cases he with
  | dropped => rfl
  | attached hr => exact kind?_attaching hr _ q
  | handed kind handler derived => exact Heap.kind?_congr (Heap.object?_retain a.heap derived q)
  | passed hr => exact kind?_resolving hr _ q
  | adopted hr => exact Heap.kind?_setRecord hr _ q

/-- Where there is no handler, an outcome is passed on to a promise that is not resolved yet. -/
theorem working_derive_none {derived : ObjectRef} {record : PromiseRecord}
    (hr : a.heap.record? derived = .ok record) (kind : ReactionKind) (argument : ManagedValue) :
    a.working (.react kind (.derive none derived) argument) =
      if record.alreadyResolved then a
      else a.resolving derived record (a.heap.resolution derived kind argument) := by
  rw [working, hr]

theorem isLive_working (a : Agent) (job : Job) (q : ObjectRef) :
    (a.working job).heap.isLive q = a.heap.isLive q := (effect_working a job).isLive_eq q

/-- The agent once the first job is taken from its queue. -/
theorem Sound.pop {job : Job} {queue : JobQueue} (ha : a.Sound)
    (hp : a.queue.pop? = some (job, queue)) :
    ({ a with queue } : Agent).Sound ∧ ∀ ref ∈ job.promises, a.heap.isPromise ref = true := by
  refine ⟨ha.change (.pop hp), ha.queued job ?_⟩
  rw [JobQueue.toList_of_pop?_eq_some hp]
  exact List.mem_cons_self

/-- The loop once around, for an agent whose jobs do not fail. -/
theorem nextJob_eq (ha : a.Sound) :
    nextJob a =
      if a.terminating then .ok none a
      else
        match a.queue.pop? with
        | none => .ok none a
        | some (job, queue) =>
          match job.native? with
          | some native => .ok (some native) (({ a with queue } : Agent).working job)
          | none => nextJob (({ a with queue } : Agent).working job) := by
  rw [nextJob_run]
  split
  · rfl
  · cases hp : a.queue.pop? with
    | none => rfl
    | some found =>
      obtain ⟨job, queue⟩ := found
      obtain ⟨hs, hj⟩ := ha.pop hp
      dsimp only
      rw [runJob_eq hs hj]
      cases job.native? <;> rfl

/-- A job that is taken and run is a run of changes, and leaves less work. -/
theorem changes_job (ha : a.Sound) {job : Job} {queue : JobQueue}
    (hp : a.queue.pop? = some (job, queue)) :
    Changes a (({ a with queue } : Agent).working job) := by
  have hpop : Change a { a with queue } := .pop hp
  rcases (effect_working _ job).eq_or_change (ha.pop hp).1 (ha.pop hp).2 with hw | hw
  · rw [hw]
    exact .single hpop
  · exact .head hpop (.single hw)

theorem workload_job (ha : a.Sound) {job : Job} {queue : JobQueue}
    (hp : a.queue.pop? = some (job, queue)) :
    (({ a with queue } : Agent).working job).workload < a.workload := by
  have hrun := workload_runJob (runJob_eq (ha.pop hp).1 (ha.pop hp).2)
  have hpop := workload_of_pop? hp
  omega

/-- The jobs that a call for the next native job runs, up to its end. -/
inductive Runs : Agent → Option NativeJob → Agent → Prop
  | idle {a : Agent} (hi : a.terminating = true ∨ a.queue.toList = []) : Runs a none a
  | last {a : Agent} {job : Job} {queue : JobQueue} {native : NativeJob}
    (ht : a.terminating = false) (hp : a.queue.pop? = some (job, queue))
    (hn : job.native? = some native) :
    Runs a (some native) (({ a with queue } : Agent).working job)
  | more {a b : Agent} {job : Job} {queue : JobQueue} {native : Option NativeJob}
    (ht : a.terminating = false) (hp : a.queue.pop? = some (job, queue))
    (hn : job.native? = none) (hr : Runs (({ a with queue } : Agent).working job) native b) :
    Runs a native b

/-- A call for the next native job ends, as each job leaves less work. -/
theorem nextJob_runs (ha : a.Sound) : ∃ native b, nextJob a = .ok native b ∧ Runs a native b := by
  induction hw : a.workload using Nat.strongRecOn generalizing a with
  | ind n ih =>
    rw [nextJob_eq ha]
    by_cases ht : a.terminating = true
    · exact ⟨none, a, if_pos ht, .idle (Or.inl ht)⟩
    · rw [if_neg ht]
      rw [Bool.not_eq_true] at ht
      cases hp : a.queue.pop? with
      | none => exact ⟨none, a, rfl, .idle (Or.inr (JobQueue.pop?_eq_none_iff.1 hp))⟩
      | some found =>
        obtain ⟨job, queue⟩ := found
        dsimp only
        cases hn : job.native? with
        | some native => exact ⟨some native, _, rfl, .last ht hp hn⟩
        | none =>
          have hless : (({ a with queue } : Agent).working job).workload < n :=
            hw ▸ workload_job ha hp
          have hsound := ha.changes (changes_job ha hp)
          obtain ⟨native, b, hb, hruns⟩ := ih _ hless hsound rfl
          exact ⟨native, b, by simpa only [hn] using hb, .more ht hp hn hruns⟩

end Agent

end Promises
