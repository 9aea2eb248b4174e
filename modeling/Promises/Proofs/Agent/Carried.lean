import Promises.Proofs.Agent.Identity
import Promises.Proofs.Agent.Progress

namespace Promises

namespace Agent

/-- Between the two agents a family of promises, the queue and the flag are left alone. -/
structure Spares (members : Finset ObjectRef) (a b : Agent) : Prop where
  record? : ∀ p ∈ members, b.heap.record? p = a.heap.record? p
  jobs : b.queue.toList = a.queue.toList
  terminating : b.terminating = a.terminating

theorem Spares.refl (members : Finset ObjectRef) (a : Agent) : a.Spares members a :=
  ⟨fun _ _ => rfl, rfl, rfl⟩

theorem Rootings.spares {a b : Agent} (h : Rootings a b) (members : Finset ObjectRef) :
    a.Spares members b := by
  refine ⟨fun p _ => Heap.record?_congr (h.object? p), ?_, ?_⟩
  all_goals
    induction h with
    | refl => rfl
    | tail _ hlast ih => cases hlast <;> exact ih

end Agent

namespace Plan

open Agent

variable {plan : Plan} {todo : List ObjectRef} {head : List Job} {a b : Agent} {ran : ℕ}

/-- A plan for promises that are pending in a history, with one verdict at most on each of them. -/
theorem proper_of_history {h : History} (hb : h.Balanced)
    (hrecord : ∀ p ∈ plan.members, h.agent.heap.record? p = .ok (plan.record p))
    (hpending : ∀ p ∈ plan.members, (plan.record p).status = .pending)
    (hclosed : ∀ p ∈ plan.members, ∀ pair ∈ (plan.record p).reactions.toList,
      pair.onFulfilled.target ∈ plan.members)
    (hnamed : ∀ v ∈ plan.verdicts, v.ref ∈ plan.members)
    (hvalue : ∀ v ∈ plan.verdicts,
      v.value.Plain ∨ v.kind = .fulfill ∧ ∃ q ∈ plan.members, v.value = .object q)
    (hdistinct : ∀ v ∈ plan.verdicts, ∀ w ∈ plan.verdicts, v.ref = w.ref → v = w) : plan.Proper where
  pending := hpending
  closed := hclosed
  twin p hp := hb.twin p _ (hrecord p hp)
  once p hp q hq pair hpair other hother hderive htarget := by
    let aims := ReactionPair.aims h.number pair.onFulfilled.isDerive (h.number pair.onFulfilled.target)
    have haims : aims pair = true := by
      simp [aims, ReactionPair.aims]
    have haims' : aims other = true := by
      simp [aims, ReactionPair.aims, hderive, htarget]
    have hone : h.agent.heap.tally aims ≤ 1 := by
      have hpledged := hb.pledged_le pair.onFulfilled.isDerive (h.number pair.onFulfilled.target)
      rw [History.pledged] at hpledged
      exact Nat.le_of_add_right_le hpledged
    exact Heap.eq_of_tally_le_one aims hone (hrecord p hp) hpair haims (hrecord q hq) hother haims'
  latched p hp pair hpair hadopt := by
    have htarget := hrecord _ (hclosed p hp pair hpair)
    -- what adopts has followed, and what is not latched has not
    by_contra hclear
    have hnone := hb.unlatched _ _ htarget (Bool.eq_false_iff.2 hclear)
    have haims : pair.aims h.number false (h.number pair.onFulfilled.target) = true := by
      simp [ReactionPair.aims, hadopt]
    have hstored := Heap.tally_pos _ (hrecord p hp) hpair haims
    have hfollowed := hb.adopted_le (h.number pair.onFulfilled.target)
    rw [hb.logged, List.countP_append] at hnone
    rw [History.pledged] at hfollowed
    omega
  named := hnamed
  value := hvalue
  distinct := hdistinct

/-- An agent carries out a plan: it has the records of the family, and the jobs to be run are some at hand
and then those in its queue. -/
structure Carried (plan : Plan) (todo : List ObjectRef) (head : List Job) (a : Agent) (ran : ℕ) :
    Prop where
  running : a.terminating = false
  stands : ∃ now, (∀ p ∈ plan.members, a.heap.record? p = .ok (now p)) ∧
    plan.Progress todo now (head ++ a.queue.toList) ran

theorem Carried.spared (h : plan.Carried todo head a ran) (hs : a.Spares plan.members b) :
    plan.Carried todo head b ran := by
  obtain ⟨hrunning, now, hnow, hprogress⟩ := h
  refine ⟨hs.terminating.trans hrunning, now, fun p hp => (hs.record? p hp).trans (hnow p hp), ?_⟩
  rw [hs.jobs]
  exact hprogress

theorem Carried.ran_le (h : plan.Carried todo head a ran) :
    ran ≤ ∑ q ∈ plan.members, (plan.record q).reactions.size := by
  obtain ⟨-, now, -, hprogress⟩ := h
  exact hprogress.ran_le

theorem record?_update {members : Finset ObjectRef} {now : ObjectRef → PromiseRecord} {p : ObjectRef}
    (hnow : ∀ p ∈ members, a.heap.record? p = .ok (now p)) (hp : p ∈ members) (new : PromiseRecord) :
    ∀ q ∈ members, (a.heap.setRecord p new).record? q = .ok (Function.update now p new q) := by
  intro q hq
  by_cases hqp : q = p
  · subst hqp
    rw [Function.update_self]
    exact Heap.record?_setRecord (hnow q hq) new
  · rw [Heap.record?_setRecord_of_ne hqp, Function.update_of_ne hqp]
    exact hnow q hq

/-- A promise of the family is settled, and what it sets to work is queued. -/
theorem Carried.of_settling {now : ObjectRef → PromiseRecord} {p : ObjectRef} {kind : ReactionKind}
    {value : ManagedValue} (hrunning : a.terminating = false)
    (hnow : ∀ p ∈ plan.members, a.heap.record? p = .ok (now p)) (hp : p ∈ plan.members)
    (h : plan.Progress todo (Function.update now p ((now p).settled kind value))
      (a.queue.toList ++ (now p).dueJobs kind value) ran) :
    plan.Carried todo [] (a.settling p (now p) kind value) ran := by
  refine ⟨hrunning, _, record?_update hnow hp _, ?_⟩
  rw [settling, JobQueue.toList_pushAll]
  exact h

theorem Due.mem (hplan : plan.Proper) {kind : ReactionKind} {reaction : Reaction} {value : ManagedValue}
    (h : plan.Due (.react kind reaction value)) : reaction.target ∈ plan.members := by
  obtain ⟨-, q, pair, hlink, rfl, -⟩ := h
  rw [(hlink.twin hplan).target_due]
  exact (hlink.mem hplan).2

/-- A reaction without a handler has nothing left to do, or it settles its promise. -/
theorem Carried.passing (hplan : plan.Proper) {now : ObjectRef → PromiseRecord} {kind : ReactionKind}
    {reaction : Reaction} {value : ManagedValue} (hn : (Job.react kind reaction value).native? = none)
    (hrunning : a.terminating = false)
    (hnow : ∀ p ∈ plan.members, a.heap.record? p = .ok (now p))
    (h : plan.Progress [] now (.react kind reaction value :: a.queue.toList) ran) :
    (reaction.Done (now reaction.target) → plan.Carried [] [] a ran) ∧
      (¬ reaction.Done (now reaction.target) →
        plan.Carried [] [] (a.settling reaction.target (now reaction.target) kind value) ran) := by
  have hdue := h.queued _ List.mem_cons_self
  have hyields : reaction.yields plan.answer kind value = (kind, value) := by
    match reaction with
    | .derive none _ => rfl
    | .adopt _ => rfl
    | .derive (some _) _ => cases hn
  have hnone : ran + (Job.react kind reaction value).native?.toList.length = ran := by
    rw [hn]
    rfl
  constructor
  · intro hdone
    have hdropped := h.drop hdone
    rw [hnone] at hdropped
    exact ⟨hrunning, now, hnow, hdropped⟩
  · intro hopen
    have hreacted := h.react hplan hopen hyields hdue.1
    rw [hnone] at hreacted
    exact .of_settling hrunning hnow (Due.mem hplan hdue) hreacted

/-- A job that runs no handler moves the plan on. -/
theorem Carried.working (hplan : plan.Proper) {job : Job} (hn : job.native? = none)
    (h : plan.Carried [] [job] a ran) : plan.Carried [] [] (a.working job) ran := by
  obtain ⟨hrunning, now, hnow, hprogress⟩ := h
  have hprogress : plan.Progress [] now (job :: a.queue.toList) ran := hprogress
  have hdue := hprogress.queued job List.mem_cons_self
  match job with
  | .react kind (.derive (some handler) derived) value => cases hn
  -- a follower waits for the other promise, or is due at once where that is settled
  | .follow p q =>
    have hq := (Link.mem hplan (.follow hdue)).1
    rw [Agent.working, hnow q hq]
    dsimp only
    rw [attaching]
    cases ho : (now q).status.outcome? with
    | none =>
      have hs := PromiseStatus.outcome?_eq_none_iff.1 ho
      exact ⟨hrunning, _, record?_update hnow hq _, hprogress.follow_pending hplan hs⟩
    | some outcome =>
      have hs := PromiseStatus.outcome?_eq_some_iff.1 ho
      have hqueued := hprogress.follow_settled hplan hs
      have hpair : (⟨.adopt p, .adopt p⟩ : ReactionPair).due outcome.1 = .adopt p := by
        cases outcome.1 <;> rfl
      refine ⟨hrunning, _, record?_update hnow hq _, ?_⟩
      rw [JobQueue.toList_push, hpair]
      exact hqueued
  | .react kind (.derive none derived) value =>
    -- what is passed on settles a promise that waits, and no other one
    have hpassing := Carried.passing hplan hn hrunning hnow hprogress
    rw [working_derive_none (hnow derived (Due.mem hplan hdue)), hdue.1.resolution]
    split
    · exact hpassing.1 ‹_›
    · exact hpassing.2 ‹_›
  | .react kind (.adopt follower) value =>
    have hpassing := Carried.passing hplan hn hrunning hnow hprogress
    rw [Agent.working, hnow follower (Due.mem hplan hdue)]
    dsimp only
    by_cases hs : (now follower).status = .pending
    · rw [if_pos hs]
      exact hpassing.2 (not_not_intro hs)
    · rw [if_neg hs]
      exact hpassing.1 hs

/-- The job that a native job was handed out for. -/
def toJob (native : NativeJob) : Job :=
  .react native.kind (.derive (some native.handler) native.derived) native.argument

theorem eq_toJob {job : Job} {native : NativeJob} (hn : job.native? = some native) :
    job = toJob native := by
  match job with
  | .react _ (.derive (some _) _) _ =>
    obtain rfl := Option.some.inj hn
    rfl

/-- A job is at hand once it is taken from the queue. -/
theorem Carried.popped (h : plan.Carried [] [] a ran) {job : Job} {queue : JobQueue}
    (hp : a.queue.pop? = some (job, queue)) : plan.Carried [] [job] { a with queue } ran := by
  obtain ⟨hrunning, now, hnow, hprogress⟩ := h
  refine ⟨hrunning, now, hnow, ?_⟩
  rw [JobQueue.toList_of_pop?_eq_some hp] at hprogress
  exact hprogress

/-- The jobs up to the next native one move the plan on, or all that there are. -/
theorem Carried.runs (hplan : plan.Proper) {native : Option NativeJob} (hr : Runs a native b)
    (h : plan.Carried [] [] a ran) :
    plan.Carried [] (native.toList.map toJob) b ran ∧ (native = none → b.queue.toList = []) := by
  induction hr with
  | idle hi =>
    refine ⟨h, fun _ => hi.resolve_left ?_⟩
    rw [h.running]
    exact Bool.false_ne_true
  | @last a job queue native ht hp hn =>
    obtain rfl := eq_toJob hn
    refine ⟨(h.popped hp).spared ?_, fun hnone => by cases hnone⟩
    exact Rootings.spares (.single (.retain _ native.derived)) plan.members
  | more ht hp hn _ ih => exact ih ((h.popped hp).working hplan hn)

theorem Carried.nextJob (hplan : plan.Proper) (h : plan.Carried [] [] a ran) (ha : a.Sound)
    {native : Option NativeJob} (hnext : nextJob a = .ok native b) :
    plan.Carried [] (native.toList.map toJob) b ran ∧ (native = none → b.queue.toList = []) := by
  obtain ⟨found, c, hc, hruns⟩ := nextJob_runs ha
  obtain ⟨rfl, rfl⟩ := EStateM.Result.ok.inj (hnext.symm.trans hc)
  exact h.runs hplan hruns

/-- What a plan sets to work has an argument that stands for no object. -/
theorem Carried.argument_plain {native : NativeJob} (h : plan.Carried [] [toJob native] a ran) :
    native.argument.Plain := by
  obtain ⟨-, now, -, hprogress⟩ := h
  exact (hprogress.queued (toJob native) List.mem_cons_self).1

/-- The end of a native job, whose handler answered as the plan says. -/
theorem Carried.concluded (hplan : plan.Proper) {native : NativeJob} {kind : ReactionKind}
    {value : ManagedValue} (h : plan.Carried [] [toJob native] a ran) (ha : a.Sound)
    (hanswer : plan.answer native.handler native.argument = (kind, value)) (hv : value.Plain) :
    ∃ result b, (Call.settle kind native.derived value).run a = .ok (.settled result) b ∧
      plan.Carried [] [] b (ran + 1) := by
  obtain ⟨hrunning, now, hnow, hprogress⟩ := h
  have hprogress : plan.Progress [] now (toJob native :: a.queue.toList) ran := hprogress
  have hp : native.derived ∈ plan.members := Due.mem hplan (hprogress.queued _ List.mem_cons_self)
  rw [settle_call_run ha, hrunning, hnow _ hp]
  by_cases hl : (now native.derived).alreadyResolved = true
  · exact ⟨.ok false, a, by simp [hl], hrunning, now, hnow, hprogress.drop hl⟩
  · refine ⟨.ok true, a.settling native.derived (now native.derived) kind value, ?_, ?_⟩
    · rw [hv.resolution]
      simp [hl, resolving]
    · exact .of_settling hrunning hnow hp (hprogress.react hplan hl hanswer hv)

/-- A call makes a verdict known, and changes no other record. -/
theorem Carried.heard (hplan : plan.Proper) {v : Verdict} (hv : v ∈ plan.verdicts)
    (h : plan.Carried (v.ref :: todo) [] a ran) (ha : a.Sound)
    (hfresh : a.heap.record? v.ref = .ok (plan.record v.ref)) :
    ∃ result b, (Call.settle v.kind v.ref v.value).run a = .ok (.settled result) b ∧
      plan.Carried todo [] b ran ∧ ∀ p ≠ v.ref, b.heap.record? p = a.heap.record? p := by
  obtain ⟨hrunning, now, hnow, hprogress⟩ := h
  have hp := hplan.named v hv
  have hsame : now v.ref = plan.record v.ref := Except.ok.inj ((hnow _ hp).symm.trans hfresh)
  have hs : (now v.ref).status = .pending := by
    rw [hsame]
    exact hplan.pending _ hp
  -- what stands in the family is a promise, so that the heap resolves to what the verdict says
  have hresolution : a.heap.resolution v.ref v.kind v.value = v.resolution := by
    apply Verdict.resolution_eq
    intro other hother
    rcases hplan.value v hv with hplain | ⟨-, q, hq, hobject⟩
    · exact absurd hother (hplain.ne_object other)
    · obtain rfl := ManagedValue.object.inj (hother.symm.trans hobject)
      exact Heap.isPromise_of_record? (hnow _ hq)
  rw [settle_call_run ha, hrunning, hnow _ hp, hsame, hresolution]
  cases hl : (plan.record v.ref).alreadyResolved with
  | true =>
    exact ⟨.ok false, a, by simp [hl], ⟨hrunning, now, hnow, hprogress.refuse hl⟩, fun _ _ => rfl⟩
  | false =>
    refine ⟨.ok true, a.resolving v.ref (plan.record v.ref) v.resolution, by simp [hl], ?_,
      fun p hne => ?_⟩
    · rw [← hsame]
      cases hr : v.resolution with
      | settle kind value =>
        exact .of_settling hrunning hnow hp (hprogress.accept_settle hplan hv hs hl hr)
      | follow other =>
        refine ⟨hrunning, _, record?_update hnow hp _, ?_⟩
        change plan.Progress _ _ (a.queue.push (.follow v.ref other)).toList _
        rw [JobQueue.toList_push]
        exact hprogress.accept_follow hplan hv hs hl hr
    · cases v.resolution with
      | settle kind value => exact Heap.record?_setRecord_of_ne hne _
      | follow other => exact Heap.record?_setRecord_of_ne hne _

end Plan

end Promises
