import Mathlib.Logic.Relation
import Promises.Proofs.Agent.Call

namespace Promises

/-- The promises that a job works on. -/
def Job.promises : Job → List ObjectRef
  | react _ reaction _ => [reaction.target]
  | follow promise thenable => [promise, thenable]

theorem Job.promises_subset_references (job : Job) : job.promises ⊆ job.references := by
  cases job <;> simp [promises, references]

theorem PromiseRecord.target_mem_references {r : PromiseRecord} {pair : ReactionPair}
    (hp : pair ∈ r.reactions.toList) (kind : ReactionKind) :
    (pair.due kind).target ∈ r.references := by
  rw [references, List.mem_append, List.mem_append]
  cases kind with
  | fulfill => exact Or.inl (Or.inr (List.mem_map_of_mem hp))
  | reject => exact Or.inr (List.mem_map_of_mem hp)

theorem JobQueue.mem_references {q : JobQueue} {job : Job} {ref : ObjectRef}
    (hj : job ∈ q.toList) (hr : ref ∈ job.references) : ref ∈ q.references :=
  List.mem_flatMap.2 ⟨job, hj, hr⟩

namespace Agent

structure Sound (a : Agent) : Prop where
  shape : a.heap.WellFormed
  unlatched : ∀ ref record, a.heap.record? ref = .ok record → record.alreadyResolved = false →
    record.status = .pending
  stored : ∀ ref record, a.heap.record? ref = .ok record → ∀ pair ∈ record.reactions.toList,
    ∀ kind, a.heap.isPromise (pair.due kind).target = true
  queued : ∀ job ∈ a.queue.toList, ∀ ref ∈ job.promises, a.heap.isPromise ref = true

/-- A change that makes no object, queues no job and settles no promise. -/
inductive Idle : Agent → Agent → Prop
  | collect (a : Agent) : Idle a a.collected
  | retain (a : Agent) (ref : ObjectRef) : Idle a (a.retained ref)
  | release (a : Agent) (ref : ObjectRef) : Idle a (a.released ref)
  | handle {a : Agent} {ref : ObjectRef} {record : PromiseRecord}
    (hr : a.heap.record? ref = .ok record) : Idle a (a.handled ref record)
  | flag (a : Agent) (terminating : Bool) : Idle a { a with terminating }

/-- One thing that a call or a job may do to an agent, besides making an object. -/
inductive Change : Agent → Agent → Prop
  | idle {a b : Agent} (hi : Idle a b) : Change a b
  | pop {a : Agent} {job : Job} {queue : JobQueue} (hp : a.queue.pop? = some (job, queue)) :
    Change a { a with queue }
  | attach {a : Agent} {ref : ObjectRef} {record : PromiseRecord} {pair : ReactionPair}
    (hr : a.heap.record? ref = .ok record)
    (ht : ∀ kind, a.heap.isPromise (pair.due kind).target = true) :
    Change a (a.attaching ref record pair)
  | settle {a : Agent} {ref : ObjectRef} {record : PromiseRecord}
    (hr : a.heap.record? ref = .ok record) (hp : record.status = .pending) (kind : ReactionKind)
    (value : ManagedValue) : Change a (a.settling ref record kind value)
  | follow {a : Agent} {ref other : ObjectRef} {record : PromiseRecord}
    (hr : a.heap.record? ref = .ok record) (hu : record.alreadyResolved = false)
    (ho : a.heap.isPromise other = true) (hn : other ≠ ref) :
    Change a (a.following ref record other)

theorem Idle.queue_eq {a b : Agent} (hi : Idle a b) : b.queue = a.queue := by
  cases hi <;> rfl

theorem Idle.isLive_of {a b : Agent} (hi : Idle a b) {ref : ObjectRef}
    (hl : b.heap.isLive ref = true) : a.heap.isLive ref = true := by
  cases hi with
  | collect => exact (Heap.isLive_collect_iff.1 hl).isLive
  | retain => exact (Heap.isLive_update _ _ _ ref).symm.trans hl
  | release => exact (Heap.isLive_update _ _ _ ref).symm.trans hl
  | handle hr => exact (Heap.isLive_setRecord _ ref).symm.trans hl
  | flag => exact hl

abbrev Idles : Agent → Agent → Prop := Relation.ReflTransGen Idle

abbrev Changes : Agent → Agent → Prop := Relation.ReflTransGen Change

theorem sound_new (limit : Nat) : (new limit).Sound where
  shape := Heap.wellFormed_empty limit
  unlatched ref record hr := by simp [new, Heap.empty, Heap.record?, Heap.object?, Heap.cell?] at hr
  stored ref record hr := by simp [new, Heap.empty, Heap.record?, Heap.object?, Heap.cell?] at hr
  queued job hj := by simp [new] at hj

/-- An agent stays sound as long as its records, its promises and its queue stay the same. -/
theorem Sound.of_objects {a b : Agent} (ha : a.Sound) (hw : b.heap.WellFormed)
    (ho : ∀ ref, b.heap.object? ref = a.heap.object? ref)
    (hq : b.queue.toList = a.queue.toList) : b.Sound where
  shape := hw
  unlatched ref record hr := ha.unlatched ref record (Heap.record?_congr (ho ref) ▸ hr)
  stored ref record hr pair hp kind := by
    rw [Heap.isPromise_congr (ho _)]
    exact ha.stored ref record (Heap.record?_congr (ho ref) ▸ hr) pair hp kind
  queued job hj ref hm := by
    rw [Heap.isPromise_congr (ho _)]
    exact ha.queued job (hq ▸ hj) ref hm

/-- A record may be replaced by one that is pending or latched and has targets that are promises,
while jobs about promises are queued. -/
theorem Sound.setRecord {a : Agent} (ha : a.Sound) {ref : ObjectRef} {old new : PromiseRecord}
    {queue : JobQueue} {jobs : List Job} (hr : a.heap.record? ref = .ok old)
    (hu : new.alreadyResolved = false → new.status = .pending)
    (hs : ∀ pair ∈ new.reactions.toList, ∀ kind, a.heap.isPromise (pair.due kind).target = true)
    (hq : queue.toList = a.queue.toList ++ jobs)
    (hj : ∀ job ∈ jobs, ∀ p ∈ job.promises, a.heap.isPromise p = true) :
    ({ a with heap := a.heap.setRecord ref new, queue } : Agent).Sound where
  shape := ha.shape.setRecord ref new
  unlatched q record hq := by
    by_cases hqr : q = ref
    · subst q
      obtain rfl : new = record := by simpa [Heap.record?_setRecord hr] using hq
      exact hu
    · rw [Heap.record?_setRecord_of_ne hqr] at hq
      exact ha.unlatched q record hq
  stored q record hq pair hp kind := by
    rw [Heap.isPromise_setRecord hr]
    by_cases hqr : q = ref
    · subst q
      obtain rfl : new = record := by simpa [Heap.record?_setRecord hr] using hq
      exact hs pair hp kind
    · rw [Heap.record?_setRecord_of_ne hqr] at hq
      exact ha.stored q record hq pair hp kind
  queued job hjob p hp := by
    rw [Heap.isPromise_setRecord hr]
    rw [hq, List.mem_append] at hjob
    rcases hjob with hjob | hjob
    · exact ha.queued job hjob p hp
    · exact hj job hjob p hp

/-- What soundness is about survives a collection. -/
theorem Sound.collected {a : Agent} (ha : a.Sound) : a.collected.Sound where
  shape := ha.shape.collect _
  unlatched ref record hr := ha.unlatched ref record (Heap.record?_of_collect hr)
  stored ref record hr pair hp kind := by
    have hold := ha.stored ref record (Heap.record?_of_collect hr) pair hp kind
    -- the record was reachable, so that its targets are
    obtain ⟨roots, hc⟩ := Heap.record?_eq_ok_iff.1 hr
    obtain ⟨hc, hreach⟩ := Heap.cell?_collect_eq_some_iff.1 hc
    refine Heap.isPromise_collect (.step hreach hc ?_ (Heap.isLive_of_isPromise hold)) hold
    exact PromiseRecord.target_mem_references hp kind
  queued job hj ref hm := by
    have hold := ha.queued job hj ref hm
    -- what the queue refers to are extra roots
    refine Heap.isPromise_collect (.start ?_ (Heap.isLive_of_isPromise hold)) hold
    exact List.mem_append_right _ (JobQueue.mem_references hj (job.promises_subset_references hm))

theorem Sound.placed {a : Agent} (ha : a.Sound) {object : HeapObject}
    (hr : a.heap.isFull = false) (ho : ∀ record, object = .promise record → record = .new) :
    (a.placed object).Sound where
  shape := ha.shape.place hr object
  unlatched q record hq hl := by
    rcases Heap.record?_place_inv ha.shape ho hq with ⟨-, rfl⟩ | ⟨-, hq⟩
    · rfl
    · exact ha.unlatched q record hq hl
  stored q record hq pair hp kind := by
    rcases Heap.record?_place_inv ha.shape ho hq with ⟨-, rfl⟩ | ⟨-, hq⟩
    · simp [PromiseRecord.new] at hp
    · exact Heap.isPromise_place ha.shape object (ha.stored q record hq pair hp kind)
  queued job hj q hq := Heap.isPromise_place ha.shape object (ha.queued job hj q hq)

theorem Sound.idle {a b : Agent} (ha : a.Sound) (hi : Idle a b) : b.Sound := by
  cases hi with
  | collect => exact ha.collected
  | retain ref => exact ha.of_objects (ha.shape.retain ref) (Heap.object?_retain _ ref) rfl
  | release ref => exact ha.of_objects (ha.shape.release ref) (Heap.object?_release _ ref) rfl
  | @handle ref record hr =>
    exact ha.setRecord hr (ha.unlatched ref record hr) (ha.stored ref record hr)
      (List.append_nil _).symm (by simp)
  | flag => exact ⟨ha.shape, ha.unlatched, ha.stored, ha.queued⟩

theorem Sound.idles {a b : Agent} (ha : a.Sound) (hi : Idles a b) : b.Sound := by
  induction hi with
  | refl => exact ha
  | tail _ hi ih => exact ih.idle hi

theorem Sound.change {a b : Agent} (ha : a.Sound) (hc : Change a b) : b.Sound := by
  cases hc with
  | idle hi => exact ha.idle hi
  | pop hp =>
    refine ⟨ha.shape, ha.unlatched, ha.stored, fun job hj => ha.queued job ?_⟩
    rw [JobQueue.toList_of_pop?_eq_some hp]
    exact List.mem_cons_of_mem _ hj
  | @attach ref record pair hr ht =>
    unfold attaching
    -- the pair is stored with a pending promise, and one half of it is queued for a settled one
    cases ho : record.status.outcome? with
    | none =>
      refine ha.setRecord hr (ha.unlatched ref record hr) ?_ (List.append_nil _).symm (by simp)
      intro p hp kind
      rw [PromiseRecord.addReactions, Array.toList_push, List.mem_append] at hp
      rcases hp with hp | hp
      · exact ha.stored ref record hr p hp kind
      · rw [List.mem_singleton.1 hp]
        exact ht kind
    | some outcome =>
      refine ha.setRecord hr (ha.unlatched ref record hr) (ha.stored ref record hr)
        (JobQueue.toList_push _ _) ?_
      intro job hj p hp
      rw [List.mem_singleton.1 hj] at hp
      rw [List.mem_singleton.1 hp]
      exact ht _
  | @settle ref record hr hp kind value =>
    refine ha.setRecord hr (by simp [PromiseRecord.settled]) (by simp [PromiseRecord.settled])
      (JobQueue.toList_pushAll _ _) ?_
    intro job hj p hm
    obtain ⟨pair, hpair, rfl⟩ := List.mem_map.1 hj
    rw [List.mem_singleton.1 hm]
    exact ha.stored ref record hr pair hpair kind
  | @follow ref other record hr hu ho hn =>
    refine ha.setRecord hr (by simp [PromiseRecord.lock]) (ha.stored ref record hr)
      (JobQueue.toList_push _ _) ?_
    intro job hj p hm
    rw [List.mem_singleton.1 hj] at hm
    rcases List.mem_cons.1 hm with rfl | hm
    · exact Heap.isPromise_of_record? hr
    · rw [List.mem_singleton.1 hm]
      exact ho

theorem Sound.changes {a b : Agent} (ha : a.Sound) (hc : Changes a b) : b.Sound := by
  induction hc with
  | refl => exact ha
  | tail _ hc ih => exact ih.change hc

end Agent

end Promises
