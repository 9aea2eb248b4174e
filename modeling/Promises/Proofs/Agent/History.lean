import Mathlib.Logic.Function.Basic
import Promises.Proofs.Agent.Job

/-! Histories of an agent. A step is a call of the client or one of the jobs that a call for the next
native job runs. The history tells the objects apart by the number of the allocation that made them,
also where one reference is given out twice, and keeps all the jobs that were ever queued. -/

namespace Promises

/-- The promise that a job is to settle. -/
def Job.target : Job → ObjectRef
  | react _ reaction _ => reaction.target
  | follow promise _ => promise

theorem Job.target_mem_promises (job : Job) : job.target ∈ job.promises := by
  cases job <;> simp [target, promises]

theorem JobQueue.length_of_pop?_eq_some {q rest : JobQueue} {job : Job}
    (hp : q.pop? = some (job, rest)) : q.length - 1 = rest.length := by
  rw [← length_toList, ← length_toList, toList_of_pop?_eq_some hp]
  rfl

/-- A job, with the number of the promise that it is to settle. -/
structure Entry where
  number : Nat
  job : Job
deriving DecidableEq

namespace Agent

inductive Event
  | call (call : Call) (answer : Answer)
  | job (job : Job) (native : Option NativeJob)

/-- The object that a call of an agent made. A registration whose source was lost meanwhile has made a
promise all the same. -/
def Call.birth? (a : Agent) : Call → Answer → Option ObjectRef
  | newObject, .object (.ok ref) => some ref
  | newResolver, .object (.ok ref) => some ref
  | addReactions .., .object (.ok ref) => some ref
  | addReactions ref _ _, .object (.error (.deadObject _)) =>
    if a.heap.isPromise ref then some (a.derivedRef ref) else none
  | _, _ => none

section

variable {a : Agent}

theorem Call.birth?_newObject (answer : Except EngineError ObjectRef) :
    newObject.birth? a (.object answer) = answer.toOption := by
  cases answer <;> rfl

theorem Call.birth?_newResolver (answer : Except EngineError ObjectRef) :
    newResolver.birth? a (.object answer) = answer.toOption := by
  cases answer <;> rfl

/-- A registration that finds no promise makes none. -/
theorem Call.birth?_of_error {ref : ObjectRef} {e : EngineError} (hr : a.heap.record? ref = .error e)
    (f g : Option FunctionId) : (addReactions ref f g).birth? a (.object (.error e)) = none := by
  cases e with
  | deadObject p =>
    have hp : ¬ a.heap.isPromise ref = true := by
      rw [Heap.isPromise_iff, hr]
      simp
    rw [birth?, if_neg hp]
  | _ => rfl

/-- The promise that is made for a source that is lost. -/
theorem Call.birth?_of_lost {ref : ObjectRef} {record : PromiseRecord}
    (hr : a.heap.record? ref = .ok record) (f g : Option FunctionId) (p : ObjectRef) :
    (addReactions ref f g).birth? a (.object (.error (.deadObject p))) = some (a.derivedRef ref) := by
  rw [birth?, if_pos (Heap.isPromise_of_record? hr)]

end

/-- Whether a call neither settles a promise nor runs a job. -/
def Call.isCalm : Call → Bool
  | resolve .. | reject .. | nextJob => false
  | _ => true

/-- What an agent does at a time: it answers a call, or it runs the first job of its queue. -/
inductive Step (a : Agent) : Event → Agent → Prop
  | call {c : Call} {answer : Answer} {b : Agent} (hn : c ≠ .nextJob)
    (hc : c.run a = .ok answer b) : Step a (.call c answer) b
  | job {job : Job} {queue : JobQueue} {native : Option NativeJob} {b : Agent}
    (ht : a.terminating = false) (hp : a.queue.pop? = some (job, queue))
    (hj : runJob job { a with queue } = .ok (.ok native) b) : Step a (.job job native) b

/-- The promise that the next job is to settle is there. -/
theorem Sound.target_record {a : Agent} (ha : a.Sound) {job : Job} {queue : JobQueue}
    (hp : a.queue.pop? = some (job, queue)) : ∃ record, a.heap.record? job.target = .ok record :=
  Heap.isPromise_iff.1 ((ha.pop hp).2 job.target job.target_mem_promises)

theorem step_job {a : Agent} (ha : a.Sound) {job : Job} {queue : JobQueue}
    (ht : a.terminating = false) (hp : a.queue.pop? = some (job, queue)) :
    Step a (.job job job.native?) (({ a with queue } : Agent).working job) :=
  .job ht hp (runJob_eq (ha.pop hp).1 (ha.pop hp).2)

theorem Step.job_inv {a b : Agent} {job : Job} {native : Option NativeJob} (ha : a.Sound)
    (hs : Step a (.job job native) b) :
    ∃ queue, a.terminating = false ∧ a.queue.pop? = some (job, queue) ∧ native = job.native? ∧
      b = ({ a with queue } : Agent).working job := by
  cases hs with
  | @job _ queue _ _ ht hp hj =>
    rw [runJob_eq (ha.pop hp).1 (ha.pop hp).2] at hj
    simp only [EStateM.Result.ok.injEq, Except.ok.injEq] at hj
    exact ⟨queue, ht, hp, hj.1.symm, hj.2.symm⟩

end Agent

open Agent

/-- An agent, and what has come about since it was made. -/
structure History where
  agent : Agent
  /-- How many objects were made. -/
  born : Nat
  /-- The number of the object that a reference was given out for last. -/
  number : ObjectRef → Nat
  /-- All the jobs that were ever queued. -/
  queued : List Entry
  /-- The jobs that were run. -/
  ran : List Entry
  /-- The native jobs that were handed out, with the numbers of their derived promises. -/
  handed : List (Nat × NativeJob)

namespace History

/-- An agent that was just made. -/
def start (limit : Nat) : History := ⟨.new limit, 0, fun _ => 0, [], [], []⟩

def entry (s : History) (job : Job) : Entry := ⟨s.number job.target, job⟩

def bear (s : History) : Option ObjectRef → History
  | some ref => { s with born := s.born + 1, number := Function.update s.number ref s.born }
  | none => s

def worked (s : History) (job : Job) (answer : Option NativeJob) : History :=
  { s with
    ran := s.ran ++ [s.entry job]
    handed := s.handed ++ answer.toList.map fun native => (s.number native.derived, native) }

/-- The history with another agent, whose queue has new jobs after the first `kept` ones. -/
def after (s : History) (kept : Nat) (b : Agent) : History :=
  { s with
    agent := b
    queued := s.queued ++ (b.queue.toList.drop kept).map s.entry }

def record (s : History) : Event → Agent → History
  | .call c answer, b => (s.bear (c.birth? s.agent answer)).after s.agent.queue.length b
  | .job job native, b => (s.worked job native).after (s.agent.queue.length - 1) b

inductive Step (s : History) (event : Event) : History → Prop
  | mk {b : Agent} (hs : s.agent.Step event b) : Step s event (s.record event b)

/-- What may come of a history, step by step. -/
abbrev Later : History → History → Prop :=
  Relation.ReflTransGen fun s t => ∃ event, Step s event t

/-- The histories of an agent, from its making on. -/
def Reachable (limit : Nat) (s : History) : Prop := Later (start limit) s

/-- Whether no reaction is to settle a promise yet. -/
def Unclaimed (s : History) (derived : ObjectRef) : Prop :=
  (∀ ref record, s.agent.heap.record? ref = .ok record → ∀ pair ∈ record.reactions.toList,
    ∀ kind, (pair.due kind).target ≠ derived) ∧
  ∀ e ∈ s.queued, e.number ≠ s.number derived

/-- The parts of a step. -/
inductive Move (s : History) : History → Prop
  | idle {b : Agent} (hi : Idle s.agent b) : Move s { s with agent := b }
  | place {object : HeapObject} (hf : s.agent.heap.isFull = false)
    (ho : ∀ record, object = .promise record → record = .new) :
    Move s { s.bear (some (s.agent.heap.place object).1) with agent := s.agent.placed object }
  | register {ref derived : ObjectRef} {record : PromiseRecord} {f g : Option FunctionId}
    (hr : s.agent.heap.record? ref = .ok record) (hd : s.agent.heap.isPromise derived = true)
    (hu : s.Unclaimed derived) :
    Move s (s.after s.agent.queue.length
      (s.agent.attaching ref record ⟨.derive f derived, .derive g derived⟩))
  | resolve {ref : ObjectRef} {record : PromiseRecord}
    (hr : s.agent.heap.record? ref = .ok record) (hu : record.alreadyResolved = false)
    (kind : ReactionKind) (value : ManagedValue) :
    Move s (s.after s.agent.queue.length
      (s.agent.resolving ref record (s.agent.heap.resolution ref kind value)))
  | job {job : Job} {queue : JobQueue} (hp : s.agent.queue.pop? = some (job, queue)) :
    Move s ((s.worked job job.native?).after (s.agent.queue.length - 1)
      (({ s.agent with queue } : Agent).working job))

abbrev Moves : History → History → Prop := Relation.ReflTransGen Move

/-- The parts of a step that leave all reactions and jobs as they are. -/
inductive Still (s : History) : History → Prop
  | idle {b : Agent} (hi : Idle s.agent b) : Still s { s with agent := b }
  | place {object : HeapObject} (hf : s.agent.heap.isFull = false)
    (ho : ∀ record, object = .promise record → record = .new) :
    Still s { s.bear (some (s.agent.heap.place object).1) with agent := s.agent.placed object }

abbrev Stills : History → History → Prop := Relation.ReflTransGen Still

/-- The parts of a step that neither resolve a promise nor run a job. -/
inductive Calm (s : History) : History → Prop
  | idle {b : Agent} (hi : Idle s.agent b) : Calm s { s with agent := b }
  | place {object : HeapObject} (hf : s.agent.heap.isFull = false)
    (ho : ∀ record, object = .promise record → record = .new) :
    Calm s { s.bear (some (s.agent.heap.place object).1) with agent := s.agent.placed object }
  | register {ref derived : ObjectRef} {record : PromiseRecord} {f g : Option FunctionId}
    (hr : s.agent.heap.record? ref = .ok record) (hd : s.agent.heap.isPromise derived = true)
    (hu : s.Unclaimed derived) :
    Calm s (s.after s.agent.queue.length
      (s.agent.attaching ref record ⟨.derive f derived, .derive g derived⟩))

abbrev Calms : History → History → Prop := Relation.ReflTransGen Calm

theorem Still.calm {s t : History} (hm : Still s t) : Calm s t := by
  cases hm with
  | idle hi => exact .idle hi
  | place hf ho => exact .place hf ho

theorem Stills.calms {s t : History} (hm : Stills s t) : Calms s t :=
  Relation.ReflTransGen.mono (fun _ _ => Still.calm) s t hm

theorem Calm.move {s t : History} (hc : Calm s t) : Move s t := by
  cases hc with
  | idle hi => exact .idle hi
  | place hf ho => exact .place hf ho
  | register hr hd hu => exact .register hr hd hu

theorem Calms.moves {s t : History} (hc : Calms s t) : Moves s t :=
  Relation.ReflTransGen.mono (fun _ _ => Calm.move) s t hc

/-- What every history keeps: its agent is sound, live objects have numbers of their own, and what is
queued settles objects that were made. -/
structure Sound (s : History) : Prop where
  agent : s.agent.Sound
  number_lt : ∀ ref, s.agent.heap.isLive ref = true → s.number ref < s.born
  number_inj : ∀ p q, s.agent.heap.isLive p = true → s.agent.heap.isLive q = true →
    s.number p = s.number q → p = q
  entry_lt : ∀ e ∈ s.queued, e.number < s.born

theorem sound_start (limit : Nat) : (start limit).Sound where
  agent := sound_new limit
  number_lt ref hl := by simp [start, new, Heap.empty, Heap.isLive, Heap.cell?] at hl
  number_inj p q hp := by simp [start, new, Heap.empty, Heap.isLive, Heap.cell?] at hp
  entry_lt e he := by simp [start] at he

variable {s t : History}

/-- A history stays sound when no object is made and the agent stays sound. -/
theorem Sound.after (hs : s.Sound) (kept : Nat) {b : Agent} (hb : b.Sound)
    (hl : ∀ ref, b.heap.isLive ref = true → s.agent.heap.isLive ref = true) :
    (s.after kept b).Sound where
  agent := hb
  number_lt ref h := hs.number_lt ref (hl ref h)
  number_inj p q hp hq := hs.number_inj p q (hl p hp) (hl q hq)
  entry_lt e he := by
    rcases List.mem_append.1 he with he | he
    · exact hs.entry_lt e he
    · obtain ⟨job, hj, rfl⟩ := List.mem_map.1 he
      have hp := hb.queued job (List.mem_of_mem_drop hj) job.target job.target_mem_promises
      exact hs.number_lt _ (hl _ (Heap.isLive_of_isPromise hp))

theorem Sound.worked (hs : s.Sound) (job : Job) (native : Option NativeJob) :
    (s.worked job native).Sound := ⟨hs.agent, hs.number_lt, hs.number_inj, hs.entry_lt⟩

theorem Sound.placed (hs : s.Sound) {object : HeapObject} (hf : s.agent.heap.isFull = false)
    (ho : ∀ record, object = .promise record → record = .new) :
    ({ s.bear (some (s.agent.heap.place object).1) with
      agent := s.agent.placed object } : History).Sound := by
  have hlt {q : ObjectRef} (hq : (s.agent.placed object).heap.isLive q = true)
      (hn : q ≠ (s.agent.heap.place object).1) : s.number q < s.born :=
    hs.number_lt q (Heap.isLive_of_place hs.agent.shape hq hn)
  constructor
  case agent => exact hs.agent.placed hf ho
  case number_lt =>
    intro q hq
    simp only [bear, Function.update_apply]
    split
    · exact Nat.lt_succ_self _
    · rename_i hn
      exact Nat.lt_succ_of_lt (hlt hq hn)
  case number_inj =>
    -- the number of the new object is larger than all others
    intro p q hp hq
    simp only [bear, Function.update_apply]
    split <;> split <;> rename_i hpn hqn <;> intro he
    · rw [hpn, hqn]
    · exact absurd he.symm (Nat.ne_of_lt (hlt hq hqn))
    · exact absurd he (Nat.ne_of_lt (hlt hp hpn))
    · have hpl := Heap.isLive_of_place hs.agent.shape hp hpn
      have hql := Heap.isLive_of_place hs.agent.shape hq hqn
      exact hs.number_inj p q hpl hql he
  case entry_lt =>
    intro e he
    exact Nat.lt_succ_of_lt (hs.entry_lt e he)

theorem Move.sound (hs : s.Sound) (hm : Move s t) : t.Sound := by
  cases hm with
  | idle hi =>
    exact ⟨hs.agent.idle hi, fun ref hl => hs.number_lt ref (hi.isLive_of hl),
      fun p q hp hq => hs.number_inj p q (hi.isLive_of hp) (hi.isLive_of hq), hs.entry_lt⟩
  | place hf ho => exact hs.placed hf ho
  | @register ref derived record f g hr hd hu =>
    refine hs.after _ (hs.agent.change (.attach hr fun kind => ?_)) fun q hq => ?_
    · cases kind <;> exact hd
    · rwa [isLive_attaching] at hq
  | resolve hr hu kind value =>
    refine hs.after _ (hs.agent.change (change_resolving hs.agent hr hu kind value)) fun q hq => ?_
    rwa [isLive_resolving] at hq
  | @job job queue hp =>
    refine (hs.worked job _).after _ (hs.agent.changes (changes_job hs.agent hp)) fun q hq => ?_
    rwa [isLive_working] at hq

theorem Moves.sound (hs : s.Sound) (hm : Moves s t) : t.Sound := by
  induction hm with
  | refl => exact hs
  | tail _ hm ih => exact hm.sound ih

theorem after_of_queue_eq (s : History) {b : Agent} (hq : b.queue = s.agent.queue) :
    s.after s.agent.queue.length b = { s with agent := b } := by
  simp only [after, hq, ← JobQueue.length_toList, List.drop_length, List.map_nil, List.append_nil]

/-- Idle changes of the agent leave reactions and jobs as they are. -/
theorem stills_of_idles {a b : Agent} (hi : Idles a b) (s : History) (ha : s.agent = a) :
    Stills s { s with agent := b } ∧ b.queue = a.queue := by
  induction hi with
  | refl => exact ⟨by rw [← ha], rfl⟩
  | tail _ hi ih =>
    obtain ⟨hm, hq⟩ := ih
    exact ⟨hm.tail (.idle hi), hi.queue_eq.trans hq⟩

theorem calms_of_idles {a b : Agent} (hi : Idles a b) (s : History) (ha : s.agent = a) :
    Calms s { s with agent := b } ∧ b.queue = a.queue :=
  (stills_of_idles hi s ha).imp_left Stills.calms

theorem stills_after_of_idles (s : History) {b : Agent} (hi : Idles s.agent b) :
    Stills s (s.after s.agent.queue.length b) := by
  obtain ⟨hm, hq⟩ := stills_of_idles hi s rfl
  rwa [s.after_of_queue_eq hq]

/-- The moves that make room for an object and then make it. -/
theorem stills_placed (s : History) (object : HeapObject) {a : Agent} (hi : Idles s.agent a)
    (hf : a.makeRoom.heap.isFull = false)
    (ho : ∀ record, object = .promise record → record = .new) :
    Stills s { s.bear (some (a.makeRoom.heap.place object).1) with
      agent := a.makeRoom.placed object } := by
  obtain ⟨hm, -⟩ := stills_of_idles (hi.trans (idles_makeRoom a)) s rfl
  exact hm.tail (.place (s := { s with agent := a.makeRoom }) hf ho)

theorem allocate_stills (s : History) (object : HeapObject)
    (ho : ∀ record, object = .promise record → record = .new) :
    ∃ answer b, allocate object s.agent = .ok answer b ∧
      Stills s ((s.bear answer.toOption).after s.agent.queue.length b) := by
  rw [allocate_run]
  split
  · exact ⟨_, _, rfl, s.stills_after_of_idles .refl⟩
  · split
    · exact ⟨_, _, rfl, s.stills_after_of_idles (idles_makeRoom s.agent)⟩
    · rename_i hf
      refine ⟨_, _, rfl, ?_⟩
      have hm := s.stills_placed object .refl (by simpa using hf) ho
      have hq : (s.agent.makeRoom.placed object).queue = s.agent.queue :=
        (stills_of_idles (idles_makeRoom s.agent) s rfl).2
      have he := (s.bear (some (s.agent.makeRoom.heap.place object).1)).after_of_queue_eq hq
      rwa [← he] at hm

theorem passOn_moves (hs : s.Sound) (kind : ReactionKind) (ref : ObjectRef)
    (value : ManagedValue) :
    ∃ answer b, passOn kind ref value s.agent = .ok answer b ∧
      Moves s (s.after s.agent.queue.length b) := by
  rw [passOn_run kind ref value s.agent (hs.agent.unlatched ref)]
  cases hr : s.agent.heap.record? ref with
  | error e => exact ⟨_, _, rfl, (s.stills_after_of_idles .refl).calms.moves⟩
  | ok record =>
    cases hl : record.alreadyResolved with
    | true => exact ⟨.ok false, s.agent, by simp [hl], (s.stills_after_of_idles .refl).calms.moves⟩
    | false => exact ⟨.ok true, _, by simp [hl], .single (.resolve hr hl kind value)⟩

theorem unlessTerminating_moves (hs : s.Sound) {kind : ReactionKind} {ref : ObjectRef}
    {value : ManagedValue} {x : Request Agent Bool}
    (hx : x s.agent = if s.agent.terminating then .ok (.error .terminated) s.agent
      else passOn kind ref value s.agent) :
    ∃ answer b, x s.agent = .ok answer b ∧ Moves s (s.after s.agent.queue.length b) := by
  rw [hx]
  split
  · exact ⟨_, _, rfl, (s.stills_after_of_idles .refl).calms.moves⟩
  · exact passOn_moves hs kind ref value

/-- No reaction is to settle a promise that was just derived. -/
theorem unclaimed_withDerived (hs : s.Sound) (ref : ObjectRef) :
    ({ s.bear (some (s.agent.derivedRef ref)) with
      agent := s.agent.withDerived ref } : History).Unclaimed (s.agent.derivedRef ref) := by
  have hroom := hs.agent.makeRoom_retained ref
  constructor
  · intro q record hq pair hp kind
    have hq : ((s.agent.retained ref).makeRoom.heap.place (.promise .new)).2.record? q = .ok record :=
      (Heap.record?_congr (Heap.object?_release _ ref q)).symm.trans hq
    have hnew (record : PromiseRecord) (ho : HeapObject.promise .new = .promise record) :
        record = .new := (HeapObject.promise.inj ho).symm
    rcases Heap.record?_place_inv hroom.shape hnew hq with ⟨-, rfl⟩ | ⟨-, hq⟩
    · simp [PromiseRecord.new] at hp
    · -- the targets of older reactions are live before the promise is placed
      have ht := hroom.stored q record hq pair hp kind
      exact Heap.ne_place_of_isLive hroom.shape _ (Heap.isLive_of_isPromise ht)
  · intro e he
    simp only [bear, Function.update_self]
    exact Nat.ne_of_lt (hs.entry_lt e he)

/-- The history once a registration has derived its promise and before it adds the reactions. -/
def derived (s : History) (ref : ObjectRef) : History :=
  { s.bear (some (s.agent.derivedRef ref)) with agent := s.agent.withDerived ref }

/-- A registration is refused, or it derives a promise and adds reactions that are to settle it. -/
theorem addReactions_stills (hs : s.Sound) (ref : ObjectRef) (f g : Option FunctionId) :
    ∃ answer b, addReactions ref f g s.agent = .ok answer b ∧
      ((∃ e, answer = .error e) ∧ Stills s (s.record (.call (.addReactions ref f g) (.object answer)) b) ∨
        ∃ record, answer = .ok (s.agent.derivedRef ref) ∧ s.agent.heap.record? ref = .ok record ∧
          (s.derived ref).agent.heap.record? ref = .ok record ∧
          Stills s (s.derived ref) ∧ (s.derived ref).agent.queue = s.agent.queue ∧
          b = (s.agent.withDerived ref).attaching ref record
            ⟨.derive f (s.agent.derivedRef ref), .derive g (s.agent.derivedRef ref)⟩) := by
  rw [addReactions_eq hs.agent]
  cases hr : s.agent.heap.record? ref with
  | error e =>
    refine ⟨_, _, rfl, Or.inl ⟨⟨e, rfl⟩, ?_⟩⟩
    rw [record, Call.birth?_of_error hr]
    exact s.stills_after_of_idles .refl
  | ok record =>
    have hretain : Idles s.agent (s.agent.retained ref) := .single (.retain _ ref)
    dsimp only
    split
    · exact ⟨_, _, rfl, Or.inl ⟨⟨_, rfl⟩, s.stills_after_of_idles (hretain.tail (.release _ ref))⟩⟩
    · split
      · refine ⟨_, _, rfl, Or.inl ⟨⟨_, rfl⟩, s.stills_after_of_idles ?_⟩⟩
        exact (hretain.trans (idles_makeRoom _)).tail (.release _ ref)
      · rename_i hf
        have hm := s.stills_placed (.promise .new) hretain (by simpa using hf)
          fun record hr => (HeapObject.promise.inj hr).symm
        have hq : (s.derived ref).agent.queue = s.agent.queue :=
          (stills_of_idles (hretain.trans (idles_makeRoom _)) s rfl).2
        -- the source is retained, room is made, the promise is placed and the source is released
        have hderived : Stills s (s.derived ref) := hm.tail (.idle (.release _ ref))
        split
        · rename_i hl
          exact ⟨_, _, rfl, Or.inr
            ⟨record, rfl, rfl, record?_withDerived hs.agent hr hl, hderived, hq, rfl⟩⟩
        · -- without its source the promise is there, though nobody is told of it
          refine ⟨_, _, rfl, Or.inl ⟨⟨_, rfl⟩, ?_⟩⟩
          rw [History.record, Call.birth?_of_lost hr]
          have he : (s.bear (some (s.agent.derivedRef ref))).after s.agent.queue.length
              (s.agent.withDerived ref) = s.derived ref :=
            (s.bear (some (s.agent.derivedRef ref))).after_of_queue_eq hq
          rw [he]
          exact hderived

theorem addReactions_call_run {a b : Agent} {ref : ObjectRef} {f g : Option FunctionId}
    {answer : Except EngineError ObjectRef} (hrun : addReactions ref f g a = .ok answer b) :
    (Call.addReactions ref f g).run a = .ok (.object answer) b :=
  (Action.map_run Answer.object (addReactions ref f g).run a).trans (by rw [ExceptT.run, hrun])

theorem addReactions_calms (hs : s.Sound) (ref : ObjectRef) (f g : Option FunctionId) :
    ∃ answer b, addReactions ref f g s.agent = .ok answer b ∧
      Calms s (s.record (.call (.addReactions ref f g) (.object answer)) b) := by
  obtain ⟨answer, b, hrun, hend⟩ := addReactions_stills hs ref f g
  refine ⟨answer, b, hrun, ?_⟩
  rcases hend with ⟨-, hm⟩ | ⟨record, rfl, -, hr, hm, hq, rfl⟩
  · exact hm.calms
  · -- what is left to do is to register the reactions
    have hreg : Calm (s.derived ref) ((s.derived ref).after (s.derived ref).agent.queue.length _) :=
      .register (f := f) (g := g) hr (isPromise_derivedRef hs.agent ref) (unclaimed_withDerived hs ref)
    rw [hq] at hreg
    exact hm.calms.tail hreg

/-- What registers nothing either leaves reactions and jobs as they are. -/
theorem call_stills (s : History) {c : Call} (hc : c.isCalm = true)
    (hn : ∀ ref f g, c ≠ .addReactions ref f g) :
    ∃ answer b, c.run s.agent = .ok answer b ∧ Stills s (s.record (.call c answer) b) := by
  -- what an inner request comes to, the call comes to
  have hmap {α : Type} {f : α → Answer} {x : Action Agent α}
      (hx : ∃ v b, x s.agent = .ok v b ∧ Stills s (s.record (.call c (f v)) b)) :
      ∃ answer b, (f <$> x) s.agent = .ok answer b ∧ Stills s (s.record (.call c answer) b) := by
    obtain ⟨v, b, hx, hc⟩ := hx
    exact ⟨f v, b, by rw [Action.map_run, hx], hc⟩
  have hstay : Stills s (s.after s.agent.queue.length s.agent) := s.stills_after_of_idles .refl
  have hidle {b : Agent} (hi : Idle s.agent b) : Stills s (s.after s.agent.queue.length b) :=
    s.stills_after_of_idles (.single hi)
  cases c with
  | isPromise ref => exact ⟨_, _, rfl, hstay⟩
  | newObject =>
    obtain ⟨answer, b, hx, hm⟩ := s.allocate_stills .plain (by simp)
    exact hmap ⟨answer, b, hx, by rwa [record, Call.birth?_newObject]⟩
  | state ref => exact hmap ⟨_, _, look_run ref PromiseRecord.state s.agent, hstay⟩
  | result ref => exact hmap ⟨_, _, look_run ref PromiseRecord.result s.agent, hstay⟩
  | newResolver =>
    obtain ⟨answer, b, hx, hm⟩ := s.allocate_stills (.promise .new)
      (fun _ h => (HeapObject.promise.inj h).symm)
    exact hmap ⟨answer, b, hx, by rwa [record, Call.birth?_newResolver]⟩
  | promiseOf ref => exact hmap ⟨_, _, promiseOf_run ref s.agent, hstay⟩
  | addReactions ref f g => exact absurd rfl (hn ref f g)
  | hasHandler ref => exact hmap ⟨_, _, look_run ref PromiseRecord.handled s.agent, hstay⟩
  | markHandled ref =>
    have hrun := markHandled_run ref s.agent
    cases hr : s.agent.heap.record? ref with
    | error e => exact hmap ⟨_, _, by rw [hr] at hrun; exact hrun, hstay⟩
    | ok record => exact hmap ⟨_, _, by rw [hr] at hrun; exact hrun, hidle (.handle hr)⟩
  | resolve => cases hc
  | reject => cases hc
  | nextJob => cases hc
  | retain ref => exact ⟨_, _, rfl, hidle (.retain _ ref)⟩
  | release ref => exact ⟨_, _, rfl, hidle (.release _ ref)⟩
  | rootCount ref => exact ⟨_, _, rfl, hstay⟩
  | collectGarbage => exact ⟨_, _, rfl, hidle (.collect _)⟩
  | stats => exact ⟨_, _, rfl, hstay⟩
  | terminate => exact ⟨_, _, rfl, hidle (.flag _ true)⟩
  | cancelTermination => exact ⟨_, _, rfl, hidle (.flag _ false)⟩
  | isTerminating => exact ⟨_, _, rfl, hstay⟩

/-- A call that settles no promise and runs no job is answered, and is a run of calm moves. -/
theorem call_calms (hs : s.Sound) {c : Call} (hc : c.isCalm = true) :
    ∃ answer b, c.run s.agent = .ok answer b ∧ Calms s (s.record (.call c answer) b) := by
  by_cases hreg : ∃ ref f g, c = .addReactions ref f g
  · obtain ⟨ref, f, g, rfl⟩ := hreg
    obtain ⟨answer, b, hx, hm⟩ := addReactions_calms hs ref f g
    exact ⟨.object answer, b, addReactions_call_run hx, hm⟩
  · have hn : ∀ ref f g, c ≠ .addReactions ref f g := fun ref f g h => hreg ⟨ref, f, g, h⟩
    obtain ⟨answer, b, hrun, hm⟩ := s.call_stills hc hn
    exact ⟨answer, b, hrun, hm.calms⟩

/-- A call is answered, and is a run of moves. -/
theorem call_moves (hs : s.Sound) {c : Call} (hn : c ≠ .nextJob) :
    ∃ answer b, c.run s.agent = .ok answer b ∧ Moves s (s.record (.call c answer) b) := by
  have hpass {x : Request Agent Bool}
      (hx : ∃ answer b, x s.agent = .ok answer b ∧ Moves s (s.after s.agent.queue.length b)) :
      ∃ answer b, (Answer.settled <$> x.run) s.agent = .ok answer b ∧
        Moves s (s.after s.agent.queue.length b) := by
    obtain ⟨answer, b, hx, hm⟩ := hx
    exact ⟨.settled answer, b, by rw [Action.map_run, ExceptT.run, hx], hm⟩
  by_cases hc : c.isCalm = true
  · obtain ⟨answer, b, hb, hm⟩ := call_calms hs hc
    exact ⟨answer, b, hb, hm.moves⟩
  · cases c with
    | resolve ref value => exact hpass (unlessTerminating_moves hs (resolve_run ref value s.agent))
    | reject ref reason => exact hpass (unlessTerminating_moves hs (reject_run ref reason s.agent))
    | nextJob => exact absurd rfl hn
    | _ => exact absurd rfl hc

/-- A step is a run of moves. -/
theorem Step.moves {event : Event} (hs : s.Sound) (h : Step s event t) : Moves s t := by
  obtain ⟨h⟩ := h
  cases h with
  | @call c answer b hn hc =>
    obtain ⟨answer', b', hc', hm⟩ := call_moves hs hn
    rw [hc, EStateM.Result.ok.injEq] at hc'
    obtain ⟨rfl, rfl⟩ := hc'
    exact hm
  | job ht hp hj =>
    obtain ⟨queue, -, hp, rfl, rfl⟩ := Agent.Step.job_inv hs.agent (.job ht hp hj)
    exact .single (.job hp)

theorem Step.sound {event : Event} (hs : s.Sound) (h : Step s event t) : t.Sound :=
  Moves.sound hs (h.moves hs)

theorem Later.moves (hs : s.Sound) (h : Later s t) : Moves s t := by
  induction h with
  | refl => exact .refl
  | tail _ h ih =>
    obtain ⟨event, h⟩ := h
    exact ih.trans (h.moves (ih.sound hs))

theorem Reachable.sound {limit : Nat} (hr : Reachable limit s) : s.Sound :=
  Moves.sound (sound_start limit) (Later.moves (sound_start limit) hr)

theorem Reachable.call {limit : Nat} (hr : Reachable limit s) {c : Call} {answer : Answer}
    {b : Agent} (hn : c ≠ .nextJob) (hc : c.run s.agent = .ok answer b) :
    Step s (.call c answer) (s.record (.call c answer) b) ∧
      Reachable limit (s.record (.call c answer) b) := by
  have hstep : Step s (.call c answer) _ := .mk (.call hn hc)
  exact ⟨hstep, Relation.ReflTransGen.tail hr ⟨_, hstep⟩⟩

/-- The jobs that a call for the next native job runs. -/
inductive Works : History → Option NativeJob → History → Prop
  | idle {s : History} (hi : s.agent.terminating = true ∨ s.agent.queue.toList = []) :
    Works s none s
  | last {s t : History} {job : Job} {native : NativeJob} (hs : Step s (.job job (some native)) t) :
    Works s (some native) t
  | more {s t u : History} {job : Job} {native : Option NativeJob}
    (hs : Step s (.job job none) t) (hw : Works t native u) : Works s native u

/-- The jobs that an agent runs are steps of its history. -/
theorem works_of_runs {a b : Agent} {native : Option NativeJob} (hr : Runs a native b)
    (hs : s.Sound) (ha : s.agent = a) : ∃ t, t.agent = b ∧ Works s native t := by
  induction hr generalizing s with
  | idle hi =>
    subst ha
    exact ⟨s, rfl, .idle hi⟩
  | last ht hp hn =>
    subst ha
    have hstep := Step.mk (step_job hs.agent ht hp)
    rw [hn] at hstep
    exact ⟨_, rfl, .last hstep⟩
  | more ht hp hn _ ih =>
    subst ha
    have hstep := Step.mk (step_job hs.agent ht hp)
    rw [hn] at hstep
    obtain ⟨t, hb, hworks⟩ := ih (hstep.sound hs) rfl
    exact ⟨t, hb, .more hstep hworks⟩

/-- A call for the next native job ends, and runs jobs to its end. -/
theorem nextJob_works (hs : s.Sound) :
    ∃ native t, nextJob s.agent = .ok native t.agent ∧ Works s native t := by
  obtain ⟨native, b, hb, hruns⟩ := nextJob_runs hs.agent
  obtain ⟨t, rfl, hworks⟩ := works_of_runs hruns hs rfl
  exact ⟨native, t, hb, hworks⟩

theorem Works.later {native : Option NativeJob} (hw : Works s native t) : Later s t := by
  induction hw with
  | idle => exact .refl
  | last hs => exact .single ⟨_, hs⟩
  | more hs _ ih => exact .head ⟨_, hs⟩ ih

/-- Whatever the client calls, it is answered, and the agent goes on to a later history. -/
theorem call_later (hs : s.Sound) (c : Call) :
    ∃ answer t, c.run s.agent = .ok answer t.agent ∧ Later s t := by
  by_cases hn : c = .nextJob
  · subst c
    obtain ⟨native, t, ht, hw⟩ := nextJob_works hs
    refine ⟨.job native, t, ?_, hw.later⟩
    exact (Action.map_run Answer.job nextJob s.agent).trans (by rw [ht])
  · obtain ⟨answer, b, hb, -⟩ := call_moves hs hn
    exact ⟨answer, s.record (.call c answer) b, hb, .single ⟨_, .mk (.call hn hb)⟩⟩

end History

end Promises
