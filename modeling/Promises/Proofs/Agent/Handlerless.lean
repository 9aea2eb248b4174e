import Promises.Proofs.Agent.Mirrored

namespace Promises

namespace Agent

/-- No reaction waits that needs the native side. -/
structure Handlerless (a : Agent) : Prop where
  stored : ∀ ref record, a.heap.record? ref = .ok record → ∀ pair ∈ record.reactions.toList,
    ∀ kind value, (Job.react kind (pair.due kind) value).native? = none
  queued : ∀ job ∈ a.queue.toList, job.native? = none

variable {a b : Agent}

theorem handlerless_new (limit : Nat) : (new limit).Handlerless where
  stored ref record hr := by simp [new, Heap.empty, Heap.record?, Heap.object?, Heap.cell?] at hr
  queued job hj := by simp [new] at hj

namespace Handlerless

theorem of_records (h : a.Handlerless)
    (hr : ∀ ref record, b.heap.record? ref = .ok record → a.heap.record? ref = .ok record)
    (hq : b.queue.toList ⊆ a.queue.toList) : b.Handlerless where
  stored ref record hrecord := h.stored ref record (hr ref record hrecord)
  queued job hjob := h.queued job (hq hjob)

theorem of_objects (h : a.Handlerless) (ho : ∀ ref, b.heap.object? ref = a.heap.object? ref)
    (hq : b.queue.toList ⊆ a.queue.toList) : b.Handlerless :=
  h.of_records (fun ref _ hr => (Heap.record?_congr (ho ref)).symm.trans hr) hq

theorem kept (h : a.Handlerless) (hk : Kept a b) : b.Handlerless := by
  refine h.of_records (fun ref record hr => ?_) ?_
  · obtain ⟨roots, hc⟩ := Heap.record?_eq_ok_iff.1 hr
    exact Heap.record?_of_cell? (hk.old ref _ hc)
  · rw [hk.queue]
    exact List.Subset.refl _

theorem placed (h : a.Handlerless) (ha : a.heap.WellFormed) {object : HeapObject}
    (ho : ∀ record, object = .promise record → record = .new) : (a.placed object).Handlerless where
  stored ref record hr pair hp := by
    rcases Heap.record?_place_inv ha ho hr with ⟨-, rfl⟩ | ⟨-, hr⟩
    · simp [PromiseRecord.new] at hp
    · exact h.stored ref record hr pair hp
  queued := h.queued

/-- A record may be replaced while jobs are queued. -/
theorem setRecord (h : a.Handlerless) {ref : ObjectRef} {old new : PromiseRecord} {queue : JobQueue}
    {jobs : List Job} (hr : a.heap.record? ref = .ok old)
    (hs : ∀ pair ∈ new.reactions.toList, ∀ kind value,
      (Job.react kind (pair.due kind) value).native? = none)
    (hq : queue.toList = a.queue.toList ++ jobs) (hj : ∀ job ∈ jobs, job.native? = none) :
    ({ a with heap := a.heap.setRecord ref new, queue } : Agent).Handlerless where
  stored q record hrecord := by
    rcases Heap.record?_setRecord_inv hr hrecord with ⟨rfl, rfl⟩ | ⟨-, hrecord⟩
    · exact hs
    · exact h.stored q record hrecord
  queued job hjob := by
    rw [hq, List.mem_append] at hjob
    rcases hjob with hjob | hjob
    · exact h.queued job hjob
    · exact hj job hjob

theorem settling (h : a.Handlerless) {ref : ObjectRef} {record : PromiseRecord}
    (hr : a.heap.record? ref = .ok record) (kind : ReactionKind) (value : ManagedValue) :
    (a.settling ref record kind value).Handlerless := by
  refine h.setRecord hr (by simp [PromiseRecord.settled]) (JobQueue.toList_pushAll _ _) ?_
  intro job hjob
  obtain ⟨pair, hp, rfl⟩ := List.mem_map.1 hjob
  exact h.stored ref record hr pair hp kind value

theorem resolving (h : a.Handlerless) {ref : ObjectRef} {record : PromiseRecord}
    (hr : a.heap.record? ref = .ok record) (r : Resolution) :
    (a.resolving ref record r).Handlerless := by
  cases r with
  | settle kind value => exact h.settling hr kind value
  | follow other =>
    refine h.setRecord hr (h.stored ref record hr) (JobQueue.toList_push _ _) ?_
    intro job hjob
    rw [List.mem_singleton.1 hjob]
    rfl

/-- A promise that follows another one registers no handler. -/
theorem adopting (h : a.Handlerless) {ref : ObjectRef} {record : PromiseRecord}
    (hr : a.heap.record? ref = .ok record) (follower : ObjectRef) :
    (a.attaching ref record ⟨.adopt follower, .adopt follower⟩).Handlerless := by
  have hadopt (kind k : ReactionKind) (value : ManagedValue) :
      (Job.react kind (ReactionPair.due ⟨.adopt follower, .adopt follower⟩ k) value).native? =
        none := by
    cases k <;> rfl
  unfold attaching
  cases record.status.outcome? with
  | none =>
    refine h.setRecord hr ?_ (List.append_nil _).symm (by simp)
    intro pair hp kind value
    rw [PromiseRecord.addReactions, Array.toList_push, List.mem_append] at hp
    rcases hp with hp | hp
    · exact h.stored ref record hr pair hp kind value
    · rw [List.mem_singleton.1 hp]
      exact hadopt kind kind value
  | some outcome =>
    refine h.setRecord hr (h.stored ref record hr) (JobQueue.toList_push _ _) ?_
    intro job hjob
    rw [List.mem_singleton.1 hjob]
    exact hadopt _ _ _

theorem working (h : a.Handlerless) {job : Job} (hn : job.native? = none) :
    (a.working job).Handlerless := by
  have he := effect_working a job
  generalize a.working job = b at he ⊢
  cases he with
  | dropped => exact h
  | attached hr => exact h.adopting hr _
  | handed => cases hn
  | passed hr => exact h.resolving hr _
  | adopted hr => exact h.settling hr _ _

theorem passOn (h : a.Handlerless) (ha : a.Sound) {kind : ReactionKind} {ref : ObjectRef}
    {value : ManagedValue} {answer : Except EngineError Bool}
    (hr : Agent.passOn kind ref value a = .ok answer b) : b.Handlerless := by
  rw [passOn_run kind ref value a (ha.unlatched ref)] at hr
  cases hrecord : a.heap.record? ref with
  | error e =>
    rw [hrecord] at hr
    obtain ⟨-, rfl⟩ := EStateM.Result.ok.inj hr
    exact h
  | ok record =>
    rw [hrecord] at hr
    dsimp only at hr
    split at hr
    · obtain ⟨-, rfl⟩ := EStateM.Result.ok.inj hr
      exact h
    · obtain ⟨-, rfl⟩ := EStateM.Result.ok.inj hr
      exact h.resolving hrecord _

theorem unlessTerminating (h : a.Handlerless) (ha : a.Sound) {kind : ReactionKind} {ref : ObjectRef}
    {value : ManagedValue} {answer : Except EngineError Bool} {x : Request Agent Bool}
    (hx : x a = if a.terminating then .ok (.error .terminated) a else Agent.passOn kind ref value a)
    (hr : x a = .ok answer b) : b.Handlerless := by
  rw [hx] at hr
  split at hr
  · obtain ⟨-, rfl⟩ := EStateM.Result.ok.inj hr
    exact h
  · exact h.passOn ha hr

end Handlerless

/-- Two agents that mirror each other run what is queued in lockstep, and need no native side for it. -/
theorem Mirrored.nextJob {R : ObjectRef → ObjectRef → Prop} (h : Mirrored R a b) (ha : a.Sound)
    (hb : b.Sound) (hn : a.Handlerless) :
    ∃ a' b', Agent.nextJob a = .ok none a' ∧ Agent.nextJob b = .ok none b' ∧ Mirrored R a' b' ∧
      a'.Handlerless := by
  -- each job leaves less work
  induction hw : a.workload using Nat.strongRecOn generalizing a b with
  | ind n ih =>
    rw [nextJob_eq ha, nextJob_eq hb]
    by_cases ht : a.terminating = true
    · exact ⟨a, b, if_pos ht, if_pos (h.terminating ▸ ht), h, hn⟩
    · rw [if_neg ht, if_neg (h.terminating ▸ ht)]
      rcases JobQueue.pop?_alike h.queue with ⟨hqa, hqb⟩ | ⟨x, y, qa, qb, hqa, hqb, hxy, hrest⟩
      · rw [hqa, hqb]
        exact ⟨a, b, rfl, rfl, h, hn⟩
      · have hx : x.native? = none := by
          apply hn.queued
          rw [JobQueue.toList_of_pop?_eq_some hqa]
          exact List.mem_cons_self
        have hy : y.native? = none := by
          have hnative := hxy.native?
          rw [hx] at hnative
          cases hy : y.native? with
          | none => rfl
          | some native =>
            rw [hy] at hnative
            cases hnative
        have hpopped : Mirrored R { a with queue := qa } { b with queue := qb } :=
          h.of_objects h.terminating (fun _ => rfl) (fun _ => rfl) hrest
        have hleft : ({ a with queue := qa } : Agent).Handlerless := by
          refine hn.of_objects (fun _ => rfl) ?_
          rw [JobQueue.toList_of_pop?_eq_some hqa]
          exact List.subset_cons_self x _
        have hless : (({ a with queue := qa } : Agent).working x).workload < n :=
          hw ▸ workload_job ha hqa
        rw [hqa, hqb]
        simp only [hx, hy]
        exact ih _ hless ((steady_mirrored R).working hpopped hxy) (ha.changes (changes_job ha hqa))
          (hb.changes (changes_job hb hqb)) (hleft.working hx) rfl

end Agent

end Promises
