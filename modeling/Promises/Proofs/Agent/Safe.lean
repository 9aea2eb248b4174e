import Promises.Proofs.Agent.Stored

namespace Promises

namespace Agent

/-- A fit agent gives an answer of which `post` holds, and keeps what is rooted. -/
def Safe {α : Type} (a : Agent) (narrow : Prop) (x : Action Agent α) (post : α → Agent → Prop) :
    Prop :=
  ∃ v b, x a = .ok v b ∧ b.Fit narrow ∧ Keeps [] a b ∧ post v b

/-- An object that was made is live. -/
def Made (answer : Except EngineError ObjectRef) (a : Agent) : Prop :=
  ∀ ref, answer = .ok ref → a.heap.isLive ref = true

namespace Fit

variable {a : Agent} {narrow : Prop}

/-- Answers that leave the agent as it is. -/
theorem unchanged (ha : a.Fit narrow) {α : Type} {x : Action Agent α} {v : α} {post : α → Agent → Prop}
    (hx : x a = .ok v a) (hp : post v a) : a.Safe narrow x post := ⟨v, a, hx, ha, keeps_self a, hp⟩

theorem collects (ha : a.Fit narrow) :
    a.Safe narrow (Engine.collectGarbage : Action Agent Collection) fun _ _ => True :=
  ⟨_, _, rfl, ha.collected, keeps_collected a, trivial⟩

/-- Termination is asked for or called off. -/
theorem flags (ha : a.Fit narrow) {act : Action Agent Unit} {terminating : Bool}
    (hact : act a = .ok () { a with terminating }) : a.Safe narrow act fun _ _ => True :=
  ⟨(), _, hact, ha.flagged terminating, keeps_of_same (fun _ => rfl) fun _ _ => rfl, trivial⟩

theorem makes (ha : a.Fit narrow) {object : HeapObject}
    (ho : ∀ record, object = .promise record → record = .new) :
    a.Safe narrow (allocate object).run Made := by
  have hroom := keeps_makeRoom a
  rw [Safe, ExceptT.run, allocate_run]
  split
  · exact ⟨_, _, rfl, ha, keeps_self a, by simp [Made]⟩
  · split
    · exact ⟨_, _, rfl, ha.makeRoom, hroom, by simp [Made]⟩
    · rename_i hf
      have hshape := ha.makeRoom.sound.shape
      refine ⟨_, _, rfl, ha.makeRoom.placed (by simpa using hf) ho,
        hroom.trans (keeps_placed hshape object), ?_⟩
      rintro ref ⟨⟩
      have hnew : (a.makeRoom.placed object).heap.cell? (a.makeRoom.heap.place object).1 =
          some ⟨object, 0⟩ := by
        rw [Agent.placed, hshape.cell?_place, if_pos rfl]
      exact Heap.isLive_of_cell? hnew

theorem newObject (ha : a.Fit narrow) : a.Safe narrow (Engine.newObject : Request Agent ObjectRef).run Made :=
  ha.makes (by simp)

theorem newResolver (ha : a.Fit narrow) :
    a.Safe narrow (Engine.newResolver : Request Agent ObjectRef).run Made :=
  ha.makes fun _ h => (HeapObject.promise.inj h).symm

/-- A promise is resolved or rejected with an admitted value. -/
theorem passOn (ha : a.Fit narrow) (kind : ReactionKind) (ref : ObjectRef) {value : ManagedValue}
    (hv : a.Admits narrow .reject value) :
    a.Safe narrow (Agent.passOn kind ref value).run fun _ _ => True := by
  rw [Safe, ExceptT.run, passOn_run kind ref value a (ha.sound.unlatched ref)]
  cases hr : a.heap.record? ref with
  | error e => exact ⟨_, _, rfl, ha, keeps_self a, trivial⟩
  | ok record =>
    cases hl : record.alreadyResolved with
    | true => exact ⟨.ok false, a, by simp [hl], ha, keeps_self a, trivial⟩
    | false =>
      refine ⟨.ok true, a.resolving ref record (a.heap.resolution ref kind value), by simp [hl], ?_,
        ?_, trivial⟩
      · exact ha.resolving hr hl kind hv
      · exact keeps_resolving hr _

theorem unlessTerminating (ha : a.Fit narrow) {kind : ReactionKind} {ref : ObjectRef}
    {value : ManagedValue} (hv : a.Admits narrow .reject value) {x : Request Agent Bool}
    (hx : x a = if a.terminating then .ok (.error .terminated) a
      else Agent.passOn kind ref value a) : a.Safe narrow x.run fun _ _ => True := by
  cases ht : a.terminating with
  | true =>
    rw [ht, if_pos rfl] at hx
    exact ha.unchanged hx trivial
  | false =>
    rw [ht, if_neg Bool.false_ne_true] at hx
    obtain ⟨v, b, hb, hrest⟩ := ha.passOn kind ref hv
    exact ⟨v, b, hx.trans hb, hrest⟩

theorem resolve (ha : a.Fit narrow) (ref : ObjectRef) {value : ManagedValue}
    (hv : a.Admits narrow .reject value) :
    a.Safe narrow (Engine.resolve ref value : Request Agent Bool).run fun _ _ => True :=
  ha.unlessTerminating hv (resolve_run ref value a)

theorem reject (ha : a.Fit narrow) (ref : ObjectRef) {reason : ManagedValue}
    (hv : a.Admits narrow .reject reason) :
    a.Safe narrow (Engine.reject ref reason : Request Agent Bool).run fun _ _ => True :=
  ha.unlessTerminating hv (reject_run ref reason a)

/-- A registration leaves an agent fit, also where the root of its source is one too many for the count. As
long as it is not, all that is rooted is kept. -/
theorem registers (ha : a.Fit narrow) (ref : ObjectRef) (f g : Option FunctionId) :
    ∃ answer b, Agent.addReactions ref f g a = .ok answer b ∧ b.Fit narrow ∧ Made answer b ∧
      (a.heap.rootCount ref + 1 < UInt32.size → Keeps [] a b) := by
  have hrun := addReactions_eq ha.sound ref f g
  cases hr : a.heap.record? ref with
  | error e =>
    rw [hr] at hrun
    exact ⟨_, _, hrun, ha, by simp [Made], fun _ => keeps_self a⟩
  | ok record =>
    rw [hr] at hrun
    -- the root of the source is taken back on every way out
    have hretained (hroom : a.heap.rootCount ref + 1 < UInt32.size) : Keeps [ref] a (a.retained ref) :=
      keeps_retained (Heap.isLive_of_record? hr) hroom
    have hmade (hroom : a.heap.rootCount ref + 1 < UInt32.size) : Keeps [ref] a (a.retained ref).makeRoom :=
      (hretained hroom).trans (keeps_makeRoom _)
    have hfit : (a.retained ref).makeRoom.Fit narrow := (ha.retained ref).makeRoom
    cases ht : a.terminating with
    | true =>
      simp only [ht, if_true] at hrun
      exact ⟨_, _, hrun, (ha.retained ref).released ref, by simp [Made],
        fun hroom => (hretained hroom).released⟩
    | false =>
      cases hf : (a.retained ref).makeRoom.heap.isFull with
      | true =>
        simp only [ht, hf, Bool.false_eq_true, if_false, if_true] at hrun
        exact ⟨_, _, hrun, hfit.released ref, by simp [Made], fun hroom => (hmade hroom).released⟩
      | false =>
        have hplaced (hroom : a.heap.rootCount ref + 1 < UInt32.size) : Keeps [] a (a.withDerived ref) :=
          ((hmade hroom).trans (keeps_placed hfit.sound.shape _)).released
        have hderived : (a.withDerived ref).Fit narrow := by
          refine (hfit.placed hf ?_).released ref
          exact fun _ h => (HeapObject.promise.inj h).symm
        cases hl : (a.withDerived ref).heap.isLive ref with
        | true =>
          simp only [ht, hf, hl, Bool.false_eq_true, if_false, if_true] at hrun
          have hrecord := record?_withDerived ha.sound hr hl
          have hpromise := isPromise_derivedRef ha.sound ref
          refine ⟨_, _, hrun, hderived.attaching hrecord fun kind => ?_, ?_,
            fun hroom => (hplaced hroom).trans (keeps_attaching hrecord _)⟩
          · cases kind <;> exact hpromise
          · rintro q ⟨⟩
            exact (isLive_attaching _ _ _ _ _).trans (Heap.isLive_of_isPromise hpromise)
        | false =>
          simp only [ht, hf, hl, Bool.false_eq_true, if_false] at hrun
          exact ⟨_, _, hrun, hderived, by simp [Made], hplaced⟩

/-- A live object is rooted while room is made for a derived promise. -/
theorem addReactions (ha : a.Fit narrow) {ref : ObjectRef} (hroom : a.heap.rootCount ref + 1 < UInt32.size)
    (f g : Option FunctionId) :
    a.Safe narrow (Engine.addReactions ref f g : Request Agent ObjectRef).run Made := by
  obtain ⟨answer, b, hrun, hfit, hmade, hkeeps⟩ := ha.registers ref f g
  exact ⟨answer, b, hrun, hfit, hkeeps hroom, hmade⟩

theorem promiseOf (ha : a.Fit narrow) (ref : ObjectRef) :
    a.Safe narrow (Engine.promiseOf ref : Request Agent ObjectRef).run Made := by
  refine ha.unchanged (promiseOf_run ref a) ?_
  intro q hq
  cases hr : a.heap.record? ref with
  | error e => simp [hr, Except.map] at hq
  | ok record =>
    obtain rfl : ref = q := by simpa [hr, Except.map] using hq
    exact Heap.isLive_of_record? hr

/-- The record of what is bound as a promise. -/
theorem exists_record? {ref : ObjectRef} (hk : a.heap.kind? ref = some .promise) :
    ∃ record, a.heap.record? ref = .ok record :=
  Heap.isPromise_iff.1 (Heap.isPromise_iff_kind?.2 hk)

theorem state {ref : ObjectRef} (hk : a.heap.kind? ref = some .promise) :
    ∃ s, (Engine.state ref : Request Agent PromiseState).run a = .ok (.ok s) a := by
  obtain ⟨record, hr⟩ := exists_record? hk
  refine ⟨record.state, (look_run ref _ a).trans ?_⟩
  rw [hr]
  rfl

theorem hasHandler {ref : ObjectRef} (hk : a.heap.kind? ref = some .promise) :
    ∃ s, (Engine.hasHandler ref : Request Agent Bool).run a = .ok (.ok s) a := by
  obtain ⟨record, hr⟩ := exists_record? hk
  refine ⟨record.handled, (look_run ref _ a).trans ?_⟩
  rw [hr]
  rfl

theorem result (ha : a.Fit narrow) {ref : ObjectRef} (hk : a.heap.kind? ref = some .promise) :
    ∃ v, (Engine.result ref : Request Agent ManagedValue).run a = .ok (.ok v) a ∧
      a.Admits narrow .reject v := by
  obtain ⟨record, hr⟩ := exists_record? hk
  refine ⟨record.result, (look_run ref _ a).trans ?_, ha.admits_result hr⟩
  rw [hr]
  rfl

theorem markHandled (ha : a.Fit narrow) {ref : ObjectRef} (hk : a.heap.kind? ref = some .promise) :
    ∃ b, (Engine.markHandled ref : Request Agent Unit).run a = .ok (.ok ()) b ∧ b.Fit narrow ∧
      Keeps [] a b := by
  obtain ⟨record, hr⟩ := exists_record? hk
  have hrun := markHandled_run ref a
  rw [hr] at hrun
  exact ⟨a.handled ref record, hrun, ha.handled hr, keeps_setRecord hr _ _⟩

/-- A job that was taken from the queue. -/
theorem working (ha : a.Fit narrow) {job : Job} (hj : ∀ ref ∈ job.promises, a.heap.isPromise ref = true)
    (hv : ∀ kind reaction value, job = .react kind reaction value → a.Admits narrow kind value) :
    (a.working job).Fit narrow := by
  have he := effect_working a job
  generalize a.working job = b at he ⊢
  cases he with
  | dropped => exact ha
  | @attached promise thenable record hr =>
    have hp : a.heap.isPromise promise = true := hj promise List.mem_cons_self
    refine ha.attaching hr fun kind => ?_
    cases kind <;> exact hp
  | handed kind handler derived argument => exact ha.retained derived
  | @passed kind derived argument record hr hu =>
    have hargument : a.Admits narrow kind argument := hv kind (.derive none derived) argument rfl
    exact ha.resolving hr hu kind hargument.reject
  | @adopted kind follower argument record hr hp =>
    have hargument : a.Admits narrow kind argument := hv kind (.adopt follower) argument rfl
    exact ha.settling hr hp kind hargument

/-- A native job comes from a reaction job with its argument and its promise. -/
theorem native?_eq_some_iff {job : Job} {native : NativeJob} :
    job.native? = some native ↔
      job = .react native.kind (.derive (some native.handler) native.derived) native.argument := by
  obtain ⟨kind, handler, argument, derived⟩ := native
  constructor
  · intro h
    match job with
    | .react kind (.derive (some handler) derived) argument =>
      obtain ⟨rfl, rfl, rfl, rfl⟩ := NativeJob.mk.inj (Option.some.inj h)
      rfl
  · rintro rfl
    rfl

/-- The argument of a job that waits is admitted. -/
theorem argument (ha : a.Fit narrow) {job : Job} {queue : JobQueue}
    (hp : a.queue.pop? = some (job, queue)) {kind : ReactionKind} {reaction : Reaction}
    {value : ManagedValue} (hj : job = .react kind reaction value) : a.Admits narrow kind value := by
  have hmem : job ∈ a.queue.toList := by
    rw [JobQueue.toList_of_pop?_eq_some hp]
    exact List.mem_cons_self
  exact ha.stored kind value (.argument (hj ▸ hmem))

/-- A job that is taken and run. -/
theorem worked (ha : a.Fit narrow) {job : Job} {queue : JobQueue}
    (hp : a.queue.pop? = some (job, queue)) : (({ a with queue } : Agent).working job).Fit narrow :=
  (ha.popped hp).working (ha.sound.pop hp).2 fun _ _ _ hj => (ha.argument hp hj).mono fun _ _ _ => rfl

/-- What a run of jobs hands out is live when it is handed out. -/
theorem runs {b : Agent} {native : Option NativeJob} (ha : a.Fit narrow) (hr : Runs a native b) :
    b.Fit narrow ∧
      ∀ job, native = some job → b.heap.isLive job.derived = true ∧ b.Admits narrow job.kind job.argument := by
  induction hr with
  | idle => exact ⟨ha, by simp⟩
  | @last a job queue native ht hp hn =>
    refine ⟨ha.worked hp, ?_⟩
    rintro _ ⟨⟩
    have hjob := native?_eq_some_iff.1 hn
    have hkind (ref : ObjectRef) :
        (({ a with queue } : Agent).working job).heap.kind? ref = a.heap.kind? ref :=
      (effect_working { a with queue } job).kind?_eq ref
    have hderived : a.heap.isPromise native.derived = true := by
      apply (ha.sound.pop hp).2
      rw [hjob]
      exact List.mem_singleton_self native.derived
    refine ⟨(isLive_working _ job _).trans (Heap.isLive_of_isPromise hderived), ?_⟩
    exact (ha.argument hp hjob).mono fun ref _ _ => hkind ref
  | more ht hp hn _ ih => exact ih (ha.worked hp)

end Fit

/-- What a job hands out is rooted, if the count can hold one more. -/
theorem keeps_worked {a : Agent} (ha : a.Sound) {job : Job} {queue : JobQueue}
    (hp : a.queue.pop? = some (job, queue))
    (hroom : ∀ native, job.native? = some native → a.heap.rootCount native.derived + 1 < UInt32.size) :
    Keeps (job.native?.toList.map (·.derived)) a (({ a with queue } : Agent).working job) := by
  have hpopped : Keeps [] a { a with queue } := keeps_of_same (fun _ => rfl) fun _ _ => rfl
  refine hpopped.trans ?_
  have hj := (ha.pop hp).2
  have he := effect_working { a with queue } job
  generalize ({ a with queue } : Agent).working job = b at he ⊢
  cases he with
  | dropped hn =>
    rw [hn]
    exact keeps_self _
  | attached hr => exact keeps_attaching hr _
  | handed kind handler derived argument =>
    have hlive : a.heap.isPromise derived = true := hj derived (List.mem_singleton_self derived)
    exact keeps_retained (Heap.isLive_of_isPromise hlive) (hroom _ rfl)
  | passed hr => exact keeps_resolving hr _
  | adopted hr => exact keeps_setRecord hr _ _

theorem Runs.keeps {a b : Agent} {native : Option NativeJob} (hr : Runs a native b) (ha : a.Sound)
    (hroom : ∀ job, native = some job → a.heap.rootCount job.derived + 1 < UInt32.size) :
    Keeps (native.toList.map (·.derived)) a b := by
  induction hr with
  | idle => exact keeps_self _
  | @last a job queue native ht hp hn =>
    have hkeeps := keeps_worked ha hp fun found hf => hroom found (hn.symm.trans hf)
    rwa [hn] at hkeeps
  | @more a b job queue native ht hp hn _ ih =>
    have hkeeps := keeps_worked ha hp fun found hf => by cases hn.symm.trans hf
    rw [hn] at hkeeps
    -- the jobs before the one that is handed out give no roots
    refine hkeeps.trans (ih (ha.changes (changes_job ha hp)) fun found hf => ?_)
    rw [hkeeps.rootCount]
    exact hroom found hf

theorem Fit.nextJob {a : Agent} {narrow : Prop} (ha : a.Fit narrow) :
    ∃ native b, Agent.nextJob a = .ok native b ∧ b.Fit narrow ∧
      (∀ job, native = some job → b.heap.isLive job.derived = true ∧ b.Admits narrow job.kind job.argument) ∧
      ((∀ job, native = some job → a.heap.rootCount job.derived + 1 < UInt32.size) →
        Keeps (native.toList.map (·.derived)) a b) := by
  obtain ⟨native, b, hb, hr⟩ := nextJob_runs ha.sound
  obtain ⟨hfit, hjob⟩ := ha.runs hr
  exact ⟨native, b, hb, hfit, hjob, hr.keeps ha.sound⟩

end Agent

end Promises
