import Promises.Proofs.Agent.Job
import Promises.Value

namespace Promises

/-- Whether a value fits into a native one. -/
def ManagedValue.Fits : ManagedValue → Prop
  | int n => Value.fits n = true
  | _ => True

namespace Agent

/-- The roots are those of before and the gained ones, and what was rooted is of the same kind. -/
structure Keeps (gained : List ObjectRef) (a b : Agent) : Prop where
  rootCount : ∀ q, b.heap.rootCount q = a.heap.rootCount q + gained.count q
  kind? : ∀ q, a.heap.rootCount q ≠ 0 → b.heap.kind? q = a.heap.kind? q

variable {a b c : Agent} {gained more : List ObjectRef}

theorem Keeps.trans (h : Keeps gained a b) (k : Keeps more b c) : Keeps (gained ++ more) a c where
  rootCount q := by
    rw [k.rootCount, h.rootCount, List.count_append]
    omega
  kind? q hq := by
    have hb : b.heap.rootCount q ≠ 0 := by
      rw [h.rootCount]
      omega
    rw [k.kind? q hb, h.kind? q hq]

/-- Nothing is gained where roots and kinds stay the same. -/
theorem keeps_of_same (hr : ∀ q, b.heap.rootCount q = a.heap.rootCount q)
    (hk : ∀ q, a.heap.rootCount q ≠ 0 → b.heap.kind? q = a.heap.kind? q) : Keeps [] a b :=
  ⟨fun q => by rw [hr]; rfl, hk⟩

theorem keeps_self (a : Agent) : Keeps [] a a := keeps_of_same (fun _ => rfl) fun _ _ => rfl

theorem keeps_collected (a : Agent) : Keeps [] a a.collected := by
  apply keeps_of_same
  · exact Heap.rootCount_collect a.heap _
  · intro q hq
    exact Heap.kind?_congr (Heap.object?_collect_of_reaches (Heap.reaches_of_rootCount hq))

theorem keeps_makeRoom (a : Agent) : Keeps [] a a.makeRoom := by
  unfold makeRoom
  split
  · exact keeps_collected a
  · exact keeps_self a

theorem keeps_placed (ha : a.heap.WellFormed) (object : HeapObject) :
    Keeps [] a (a.placed object) := by
  apply keeps_of_same
  · exact Heap.rootCount_place ha object
  · intro q hq
    have hne := Heap.ne_place_of_isLive ha object (Heap.isLive_of_rootCount hq)
    exact Heap.kind?_congr (Heap.object?_place_of_ne ha object hne)

theorem keeps_setRecord {ref : ObjectRef} {old : PromiseRecord}
    (hr : a.heap.record? ref = .ok old) (new : PromiseRecord) (queue : JobQueue) :
    Keeps [] a { a with heap := a.heap.setRecord ref new, queue } := by
  apply keeps_of_same
  · exact Heap.rootCount_setRecord hr new
  · intro q _
    exact Heap.kind?_setRecord hr new q

theorem keeps_retained {ref : ObjectRef} (hl : a.heap.isLive ref = true)
    (hr : a.heap.rootCount ref + 1 < UInt32.size) : Keeps [ref] a (a.retained ref) :=
  ⟨Heap.rootCount_retain hl hr, fun q _ => Heap.kind?_congr (Heap.object?_retain a.heap ref q)⟩

/-- The count of the roots of each object can hold `n` more. -/
def Roomy (a : Agent) (n : Nat) : Prop := ∀ ref, a.heap.rootCount ref + n < UInt32.size

theorem Roomy.mono {m n : Nat} (h : a.Roomy n) (hm : m ≤ n) : a.Roomy m :=
  fun ref => Nat.lt_of_le_of_lt (Nat.add_le_add_left hm _) (h ref)

/-- What is gained takes up room. -/
theorem Roomy.keeps {n : Nat} (h : a.Roomy (n + gained.length)) (hk : Keeps gained a b) : b.Roomy n := by
  intro ref
  have hcount : gained.count ref ≤ gained.length := List.count_le_length
  have hroom := h ref
  rw [hk.rootCount]
  omega

/-- A root that was gained is taken back. -/
theorem Keeps.released {ref : ObjectRef} (h : Keeps [ref] a b) : Keeps [] a (b.released ref) := by
  have hroot : b.heap.rootCount ref ≠ 0 := by
    rw [h.rootCount, List.count_singleton_self]
    omega
  apply keeps_of_same
  · intro q
    have hback : (b.released ref).heap.rootCount q + [ref].count q = b.heap.rootCount q :=
      Heap.rootCount_release hroot q
    have hb := h.rootCount q
    omega
  · intro q hq
    exact (Heap.kind?_congr (Heap.object?_release b.heap ref q)).trans (h.kind? q hq)

theorem keeps_resolving {ref : ObjectRef} {record : PromiseRecord}
    (hr : a.heap.record? ref = .ok record) (r : Resolution) :
    Keeps [] a (a.resolving ref record r) := by
  cases r <;> exact keeps_setRecord hr _ _

theorem keeps_attaching {ref : ObjectRef} {record : PromiseRecord}
    (hr : a.heap.record? ref = .ok record) (pair : ReactionPair) :
    Keeps [] a (a.attaching ref record pair) := by
  unfold attaching
  cases record.status.outcome? <;> exact keeps_setRecord hr _ _

/-- The values that an agent stores, each with the way of settling that it is for: the results of
settled promises, and what reactions are to be run with. -/
inductive Stores (a : Agent) : ReactionKind → ManagedValue → Prop
  | result {ref : ObjectRef} {record : PromiseRecord} {kind : ReactionKind} {value : ManagedValue}
    (hr : a.heap.record? ref = .ok record) (hs : record.status = .settled kind value) :
    Stores a kind value
  | argument {kind : ReactionKind} {reaction : Reaction} {value : ManagedValue}
    (hj : .react kind reaction value ∈ a.queue.toList) : Stores a kind value

/-- What an agent may store for a way of settling. Whether integers are to be narrow is up to those who
make the calls. -/
structure Admits (a : Agent) (narrow : Prop) (kind : ReactionKind) (value : ManagedValue) : Prop where
  fits : narrow → value.Fits
  live : ∀ ref, value = .object ref → a.heap.isLive ref = true
  plain : kind = .fulfill → ∀ ref, value = .object ref → a.heap.isPromise ref = false

/-- Sound agents that store what they may. -/
structure Fit (a : Agent) (narrow : Prop) : Prop where
  sound : a.Sound
  stored : ∀ kind value, a.Stores kind value → a.Admits narrow kind value

variable {narrow : Prop}

theorem admits_of_no_object (a : Agent) (kind : ReactionKind) {value : ManagedValue}
    (hf : value.Fits) (ho : ∀ ref, value ≠ .object ref) : a.Admits narrow kind value :=
  ⟨fun _ => hf, fun ref hv => absurd hv (ho ref), fun _ ref hv => absurd hv (ho ref)⟩

theorem admits_undefined (a : Agent) (kind : ReactionKind) : a.Admits narrow kind .undefined :=
  admits_of_no_object a kind trivial (by simp)

theorem admits_chainingCycle (a : Agent) (kind : ReactionKind) :
    a.Admits narrow kind chainingCycle :=
  admits_of_no_object a kind trivial (by simp [chainingCycle])

/-- A promise may be rejected with what one may be settled with in any way. -/
theorem Admits.reject {kind : ReactionKind} {value : ManagedValue} (h : a.Admits narrow kind value) :
    a.Admits narrow .reject value := ⟨h.fits, h.live, by simp⟩

theorem Admits.mono {kind : ReactionKind} {value : ManagedValue} (h : a.Admits narrow kind value)
    (hk : ∀ ref, value = .object ref → a.heap.isLive ref = true →
      b.heap.kind? ref = a.heap.kind? ref) : b.Admits narrow kind value where
  fits := h.fits
  live ref hv := by
    have hl := h.live ref hv
    rw [Heap.isLive_iff_kind?, hk ref hv hl]
    exact Heap.isLive_iff_kind?.1 hl
  plain hf ref hv := by
    rw [Heap.isPromise, hk ref hv (h.live ref hv)]
    exact h.plain hf ref hv

theorem fit_new (limit : Nat) : (new limit).Fit narrow := by
  refine ⟨sound_new limit, fun kind value hs => ?_⟩
  cases hs with
  | result hr => simp [new, Heap.empty, Heap.record?, Heap.object?, Heap.cell?] at hr
  | argument hj => simp [new] at hj

theorem Stores.of_records {kind : ReactionKind} {value : ManagedValue} (hs : b.Stores kind value)
    (hr : ∀ ref record, b.heap.record? ref = .ok record → a.heap.record? ref = .ok record)
    (hq : b.queue.toList ⊆ a.queue.toList) : a.Stores kind value := by
  cases hs with
  | result h hs => exact .result (hr _ _ h) hs
  | argument h => exact .argument (hq h)

/-- What a promise holds is admitted, also while it is pending. -/
theorem Fit.admits_result (ha : a.Fit narrow) {ref : ObjectRef} {record : PromiseRecord}
    (hr : a.heap.record? ref = .ok record) : a.Admits narrow .reject record.result := by
  cases ho : record.status.outcome? with
  | none =>
    rw [PromiseRecord.result, PromiseStatus.outcome?_eq_none_iff.1 ho]
    exact admits_undefined a .reject
  | some outcome =>
    have hs := PromiseStatus.outcome?_eq_some_iff.1 ho
    rw [PromiseRecord.result, hs, PromiseStatus.result_settled]
    exact (ha.stored _ _ (.result hr hs)).reject

/-- Agents with the same objects and some of the jobs are as fit. -/
theorem Fit.of_objects (ha : a.Fit narrow) (hb : b.Sound)
    (ho : ∀ ref, b.heap.object? ref = a.heap.object? ref)
    (hq : b.queue.toList ⊆ a.queue.toList) : b.Fit narrow := by
  refine ⟨hb, fun kind value hs => (ha.stored kind value ?_).mono fun ref _ _ => ?_⟩
  · exact hs.of_records (fun ref record hr => Heap.record?_congr (ho ref) ▸ hr) hq
  · exact Heap.kind?_congr (ho ref)

theorem Fit.retained (ha : a.Fit narrow) (ref : ObjectRef) : (a.retained ref).Fit narrow :=
  ha.of_objects (ha.sound.idle (.retain a ref)) (Heap.object?_retain a.heap ref) (List.Subset.refl _)

theorem Fit.released (ha : a.Fit narrow) (ref : ObjectRef) : (a.released ref).Fit narrow :=
  ha.of_objects (ha.sound.idle (.release a ref)) (Heap.object?_release a.heap ref)
    (List.Subset.refl _)

theorem Fit.flagged (ha : a.Fit narrow) (terminating : Bool) :
    ({ a with terminating } : Agent).Fit narrow :=
  ha.of_objects (ha.sound.idle (.flag a terminating)) (fun _ => rfl) (List.Subset.refl _)

theorem Fit.popped (ha : a.Fit narrow) {job : Job} {queue : JobQueue}
    (hp : a.queue.pop? = some (job, queue)) : ({ a with queue } : Agent).Fit narrow := by
  refine ha.of_objects (ha.sound.pop hp).1 (fun _ => rfl) ?_
  rw [JobQueue.toList_of_pop?_eq_some hp]
  exact List.subset_cons_self job _

/-- What is stored after a collection is reachable, and so are its objects. -/
theorem Fit.collected (ha : a.Fit narrow) : a.collected.Fit narrow := by
  refine ⟨ha.sound.collected, fun kind value hs => ?_⟩
  have hold : a.Stores kind value := by
    refine hs.of_records (fun ref record hr => ?_) (List.Subset.refl _)
    exact Heap.record?_of_collect hr
  refine (ha.stored kind value hold).mono fun p hv hl => ?_
  refine Heap.kind?_congr (Heap.object?_collect_of_reaches ?_)
  -- the object of a result is a reference of its record, that of an argument is an extra root
  cases hs with
  | @result ref record _ _ hr hs =>
    obtain ⟨roots, hc⟩ := Heap.record?_eq_ok_iff.1 hr
    obtain ⟨hc, hreach⟩ := Heap.cell?_collect_eq_some_iff.1 hc
    refine .step hreach hc ?_ hl
    apply List.mem_append_left
    apply List.mem_append_left
    rw [PromiseRecord.result, hs, PromiseStatus.result_settled, hv]
    exact List.mem_singleton_self p
  | @argument kind reaction value hj =>
    refine .start (List.mem_append_right _ (JobQueue.mem_references hj ?_)) hl
    rw [hv]
    exact List.mem_cons_of_mem _ (List.mem_singleton_self p)

theorem Fit.makeRoom (ha : a.Fit narrow) : a.makeRoom.Fit narrow := by
  unfold Agent.makeRoom
  split
  · exact ha.collected
  · exact ha

theorem Fit.placed (ha : a.Fit narrow) {object : HeapObject} (hf : a.heap.isFull = false)
    (ho : ∀ record, object = .promise record → record = .new) : (a.placed object).Fit narrow := by
  refine ⟨ha.sound.placed hf ho, fun kind value hs => ?_⟩
  have hkind (ref : ObjectRef) (hl : a.heap.isLive ref = true) :
      (a.placed object).heap.kind? ref = a.heap.kind? ref := by
    have hne := Heap.ne_place_of_isLive ha.sound.shape object hl
    exact Heap.kind?_congr (Heap.object?_place_of_ne ha.sound.shape object hne)
  cases hs with
  | argument hj => exact (ha.stored _ _ (.argument hj)).mono fun ref _ => hkind ref
  | @result ref record _ _ hr hs =>
    rcases Heap.record?_place_inv ha.sound.shape ho hr with ⟨-, rfl⟩ | ⟨-, hr⟩
    · exact absurd hs.symm (PromiseStatus.settled_ne_pending kind value)
    · exact (ha.stored _ _ (.result hr hs)).mono fun ref _ => hkind ref

/-- A record may be replaced while jobs are queued, as long as the values in them are admitted. -/
theorem Fit.setRecord (ha : a.Fit narrow) {ref : ObjectRef} {new : PromiseRecord} {queue : JobQueue}
    {jobs : List Job} (hb : ({ a with heap := a.heap.setRecord ref new, queue } : Agent).Sound)
    {old : PromiseRecord} (hr : a.heap.record? ref = .ok old)
    (hnew : ∀ kind value, new.status = .settled kind value → a.Admits narrow kind value)
    (hq : queue.toList = a.queue.toList ++ jobs)
    (hj : ∀ kind reaction value, .react kind reaction value ∈ jobs → a.Admits narrow kind value) :
    ({ a with heap := a.heap.setRecord ref new, queue } : Agent).Fit narrow := by
  refine ⟨hb, fun kind value hs => ?_⟩
  have hadmits : a.Admits narrow kind value := by
    cases hs with
    | @result q record _ _ hrecord hs =>
      by_cases hn : q = ref
      · rw [hn, Heap.record?_setRecord hr, Except.ok.injEq] at hrecord
        exact hnew kind value (hrecord ▸ hs)
      · rw [Heap.record?_setRecord_of_ne hn] at hrecord
        exact ha.stored _ _ (.result hrecord hs)
    | @argument kind reaction value hjob =>
      rw [hq, List.mem_append] at hjob
      rcases hjob with hjob | hjob
      · exact ha.stored _ _ (.argument hjob)
      · exact hj kind reaction value hjob
  exact hadmits.mono fun p _ _ => Heap.kind?_setRecord hr new p

/-- A record may be replaced by one of the same status. -/
theorem Fit.sameStatus (ha : a.Fit narrow) {ref : ObjectRef} {old new : PromiseRecord}
    (hr : a.heap.record? ref = .ok old) (hs : new.status = old.status) (kind : ReactionKind)
    (value : ManagedValue) (hn : new.status = .settled kind value) : a.Admits narrow kind value :=
  ha.stored kind value (.result hr (hs ▸ hn))

theorem Fit.handled (ha : a.Fit narrow) {ref : ObjectRef} {record : PromiseRecord}
    (hr : a.heap.record? ref = .ok record) : (a.handled ref record).Fit narrow :=
  ha.setRecord (ha.sound.idle (.handle hr)) hr (ha.sameStatus hr rfl) (List.append_nil _).symm
    (by simp)

theorem Fit.settling (ha : a.Fit narrow) {ref : ObjectRef} {record : PromiseRecord}
    (hr : a.heap.record? ref = .ok record) (hp : record.status = .pending) (kind : ReactionKind)
    {value : ManagedValue} (hv : a.Admits narrow kind value) :
    (a.settling ref record kind value).Fit narrow := by
  refine ha.setRecord (ha.sound.change (.settle hr hp kind value)) hr ?_
    (JobQueue.toList_pushAll _ _) ?_
  · intro k v hs
    obtain ⟨rfl, rfl⟩ := PromiseStatus.settled_inj hs
    exact hv
  · intro k reaction v hj
    obtain ⟨pair, -, hpair⟩ := List.mem_map.1 hj
    obtain ⟨rfl, -, rfl⟩ := Job.react.inj hpair
    exact hv

/-- What comes of settling a promise with a live value may be stored: a promise is not fulfilled with
another one, but follows it. -/
theorem admits_resolution {ref : ObjectRef} {kind k : ReactionKind} {value v : ManagedValue}
    (hv : a.Admits narrow .reject value) (h : a.heap.resolution ref kind value = .settle k v) :
    a.Admits narrow k v := by
  rcases Heap.value_of_resolution h with rfl | rfl
  · refine ⟨hv.fits, hv.live, ?_⟩
    rintro rfl p rfl
    exact Heap.isPromise_of_resolution h
  · exact admits_chainingCycle a k

theorem Fit.resolving (ha : a.Fit narrow) {ref : ObjectRef} {record : PromiseRecord}
    (hr : a.heap.record? ref = .ok record) (hu : record.alreadyResolved = false)
    (kind : ReactionKind) {value : ManagedValue} (hv : a.Admits narrow .reject value) :
    (a.resolving ref record (a.heap.resolution ref kind value)).Fit narrow := by
  have hsound := ha.sound.change (change_resolving ha.sound hr hu kind value)
  cases h : a.heap.resolution ref kind value with
  | settle k v => exact ha.settling hr (ha.sound.unlatched ref record hr hu) k (admits_resolution hv h)
  | follow other =>
    rw [h] at hsound
    refine ha.setRecord hsound hr (ha.sameStatus hr rfl) (JobQueue.toList_push _ _) ?_
    intro k reaction v hj
    cases List.mem_singleton.1 hj

theorem Fit.attaching (ha : a.Fit narrow) {ref : ObjectRef} {record : PromiseRecord}
    {pair : ReactionPair} (hr : a.heap.record? ref = .ok record)
    (ht : ∀ kind, a.heap.isPromise (pair.due kind).target = true) :
    (a.attaching ref record pair).Fit narrow := by
  have hsound := ha.sound.change (.attach hr ht)
  unfold Agent.attaching at hsound ⊢
  cases ho : record.status.outcome? with
  | none =>
    rw [ho] at hsound
    exact ha.setRecord hsound hr (ha.sameStatus hr rfl) (List.append_nil _).symm (by simp)
  | some outcome =>
    obtain ⟨kind, value⟩ := outcome
    rw [ho] at hsound
    refine ha.setRecord hsound hr (ha.sameStatus hr rfl) (JobQueue.toList_push _ _) ?_
    intro k reaction v hj
    obtain ⟨rfl, -, rfl⟩ := Job.react.inj (List.mem_singleton.1 hj)
    exact ha.stored _ _ (.result hr (PromiseStatus.outcome?_eq_some_iff.1 ho))

end Agent

end Promises
