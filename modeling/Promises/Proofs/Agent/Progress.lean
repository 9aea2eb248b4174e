import Mathlib.Algebra.BigOperators.Group.Finset.Basic
import Mathlib.Algebra.Order.BigOperators.Group.Finset
import Promises.Proofs.Agent.Plan

namespace Promises

/-- Whether the reaction runs a handler. -/
def Reaction.hasHandler : Reaction → Bool
  | derive (some _) _ => true
  | _ => false

theorem Job.isSome_native?_react (kind : ReactionKind) (reaction : Reaction) (value : ManagedValue) :
    (Job.react kind reaction value).native?.isSome = reaction.hasHandler := by
  match reaction with
  | .derive (some _) _ => rfl
  | .derive none _ => rfl
  | .adopt _ => rfl

/-- How many jobs run a handler. -/
def handlersIn (jobs : List Job) : ℕ := jobs.countP (·.native?.isSome)

theorem handlersIn_append (jobs more : List Job) :
    handlersIn (jobs ++ more) = handlersIn jobs + handlersIn more := List.countP_append

theorem handlersIn_cons (job : Job) (jobs : List Job) :
    handlersIn (job :: jobs) = job.native?.toList.length + handlersIn jobs := by
  rw [handlersIn, List.countP_cons, Nat.add_comm, handlersIn]
  cases job.native? <;> rfl

/-- How many handlers are due once the promise is settled one way. -/
def PromiseRecord.handlersDue (r : PromiseRecord) (kind : ReactionKind) : ℕ :=
  r.reactions.toList.countP fun pair => (pair.due kind).hasHandler

theorem PromiseRecord.handlersIn_dueJobs (r : PromiseRecord) (kind : ReactionKind) (value : ManagedValue) :
    handlersIn (r.dueJobs kind value) = r.handlersDue kind := by
  rw [handlersIn, dueJobs, List.countP_map, handlersDue]
  refine List.countP_congr fun pair _ => ?_
  rw [Function.comp, Job.isSome_native?_react]

/-- Whether there is nothing left to do for a reaction, by the record of the promise that it settles. -/
def Reaction.Done : Reaction → PromiseRecord → Prop
  | derive .., record => record.alreadyResolved = true
  | adopt _, record => record.status ≠ .pending

theorem Reaction.Done.advances {reaction : Reaction} {old new : PromiseRecord} (h : reaction.Done old)
    (ha : old.Advances new) : reaction.Done new := by
  cases reaction with
  | derive => exact ha.latched h
  | adopt =>
    change new.status ≠ .pending
    rw [ha.status h]
    exact h

theorem PromiseRecord.Advances.status_ne {old new : PromiseRecord} (h : old.Advances new)
    (hs : old.status ≠ .pending) : new.status ≠ .pending := by
  rw [h.status hs]
  exact hs

theorem PromiseRecord.Advances.settled_eq {old new : PromiseRecord} (h : old.Advances new)
    {kind : ReactionKind} {value : ManagedValue} (hs : old.status = .settled kind value) :
    new.status = .settled kind value := by
  rw [h.status (by simp [hs]), hs]

namespace Plan

variable (plan : Plan)

/-- What justifies a job. -/
def Due : Job → Prop
  | .follow p q => plan.Follows p q
  | .react kind reaction value =>
    value.Plain ∧ ∃ q pair, plan.Link q pair ∧ pair.due kind = reaction ∧ plan.Comes q kind value

/-- How many handlers the promise sets to work with what it has come to. -/
def due (q : ObjectRef) (status : PromiseStatus) : ℕ :=
  match status.outcome? with
  | none => 0
  | some (kind, _) => (plan.record q).handlersDue kind

/-- Where a link stands: its verdict is to be heard, the job that makes the promise follow waits, the pair
is stored, its reaction waits, or there is nothing left to do. -/
inductive Served (todo : List ObjectRef) (now : ObjectRef → PromiseRecord) (jobs : List Job)
    (q : ObjectRef) (pair : ReactionPair) : Prop
  | unheard {p : ObjectRef} (hf : plan.Follows p q) (hp : pair = ⟨.adopt p, .adopt p⟩) (ht : p ∈ todo) :
    Served todo now jobs q pair
  | follows {p : ObjectRef} (hp : pair = ⟨.adopt p, .adopt p⟩) (hj : .follow p q ∈ jobs) :
    Served todo now jobs q pair
  | stored (hs : (now q).status = .pending) (hp : pair ∈ (now q).reactions.toList) :
    Served todo now jobs q pair
  | queued {kind : ReactionKind} {value : ManagedValue} (hs : (now q).status = .settled kind value)
    (hj : .react kind (pair.due kind) value ∈ jobs) : Served todo now jobs q pair
  | done {kind : ReactionKind} {value : ManagedValue} (hs : (now q).status = .settled kind value)
    (hd : (pair.due kind).Done (now (pair.due kind).target)) : Served todo now jobs q pair

/-- What the record of a promise may have come to. -/
structure Standing (p : ObjectRef) (r : PromiseRecord) : Prop where
  pending : r.alreadyResolved = false → r.status = .pending
  came : ∀ kind value, r.status = .settled kind value → plan.Comes p kind value ∧ value.Plain
  stored : ∀ pair ∈ r.reactions.toList, plan.Link p pair
  latched : r.alreadyResolved = true →
    (plan.record p).alreadyResolved = true ∨ (∃ v ∈ plan.verdicts, v.ref = p) ∨ r.status ≠ .pending
  handled : r.handled = true → (plan.record p).handled = true ∨ ∃ q, plan.Follows q p
  handlersDue : r.status = .pending → ∀ kind, r.handlersDue kind = (plan.record p).handlersDue kind

/-- The records of the family, the verdicts to be heard, the jobs that wait and the number of handlers that
were run, at a time on the way. -/
structure Progress (todo : List ObjectRef) (now : ObjectRef → PromiseRecord) (jobs : List Job)
    (ran : ℕ) : Prop where
  advances : ∀ p, (plan.record p).Advances (now p)
  standing : ∀ p ∈ plan.members, plan.Standing p (now p)
  queued : ∀ job ∈ jobs, plan.Due job
  /-- A verdict that was heard has set the latch. -/
  heard : ∀ v ∈ plan.verdicts, v.ref ∈ todo ∨ (now v.ref).alreadyResolved = true
  ruled : ∀ p kind value, plan.Rules p kind value → p ∈ todo ∨ (now p).status ≠ .pending
  served : ∀ q pair, plan.Link q pair → plan.Served todo now jobs q pair
  followed : ∀ p q, plan.Follows p q → p ∈ todo ∨ .follow p q ∈ jobs ∨ (now q).handled = true
  counted : ran + handlersIn jobs = ∑ q ∈ plan.members, plan.due q (now q).status

variable {plan} {todo : List ObjectRef} {now now' : ObjectRef → PromiseRecord} {jobs jobs' added : List Job}
  {ran : ℕ} {p q : ObjectRef} {pair : ReactionPair} {kind : ReactionKind} {value : ManagedValue}
  {new : PromiseRecord}

theorem standing_start (hplan : plan.Proper) (hp : p ∈ plan.members) : plan.Standing p (plan.record p) where
  pending _ := hplan.pending p hp
  came kind value hs := absurd (hs.symm.trans (hplan.pending p hp)) (by simp)
  stored pair hpair := .stored hp hpair
  latched hl := .inl hl
  handled hh := .inl hh
  handlersDue _ _ := rfl

theorem progress_start (hplan : plan.Proper) (htodo : ∀ v ∈ plan.verdicts, v.ref ∈ todo) :
    plan.Progress todo plan.record [] 0 where
  advances p := .refl _
  standing p hp := standing_start hplan hp
  queued job hj := nomatch hj
  heard v hv := .inl (htodo v hv)
  ruled p kind value hr := by
    obtain ⟨v, hv, rfl, -⟩ := hr
    exact .inl (htodo v hv)
  served q pair hl := by
    cases hl with
    | stored hq hp => exact .stored (hplan.pending q hq) hp
    | follow hf =>
      have ⟨v, hv, hp, _⟩ := hf
      exact .unheard hf rfl (hp ▸ htodo v hv)
  followed p q hf := by
    obtain ⟨v, hv, rfl, -⟩ := hf
    exact .inl (htodo v hv)
  counted := by
    symm
    apply Finset.sum_eq_zero
    intro q hq
    rw [due, hplan.pending q hq]
    rfl

namespace Standing

variable {r : PromiseRecord}

/-- A promise is settled with what it comes to. -/
theorem settled (h : plan.Standing p r) (hc : plan.Comes p kind value) (hv : value.Plain) :
    plan.Standing p (r.settled kind value) where
  pending hl := absurd hl (by simp [PromiseRecord.settled])
  came k w hw := by
    obtain ⟨rfl, rfl⟩ := PromiseStatus.settled_inj hw
    exact ⟨hc, hv⟩
  stored := by simp [PromiseRecord.settled]
  latched _ := .inr (.inr (PromiseStatus.settled_ne_pending kind value))
  handled := h.handled
  handlersDue hs := absurd hs (PromiseStatus.settled_ne_pending kind value)

/-- A promise is latched that its verdict makes follow another one. -/
theorem lock (h : plan.Standing p r) (hf : plan.Follows p q) : plan.Standing p r.lock where
  pending hl := absurd hl (by simp [PromiseRecord.lock])
  came := h.came
  stored := h.stored
  latched _ := by
    obtain ⟨v, hv, hvp, -⟩ := hf
    exact .inr (.inl ⟨v, hv, hvp⟩)
  handled := h.handled
  handlersDue := h.handlersDue

/-- A promise has been followed. -/
theorem markHandled (h : plan.Standing q r) (hf : plan.Follows p q) : plan.Standing q r.markHandled where
  pending := h.pending
  came := h.came
  stored := h.stored
  latched := h.latched
  handled _ := .inr ⟨p, hf⟩
  handlersDue := h.handlersDue

/-- A pair that makes a promise follow is stored. -/
theorem addReactions (h : plan.Standing q r) (hf : plan.Follows p q) :
    plan.Standing q (r.addReactions ⟨.adopt p, .adopt p⟩) where
  pending := h.pending
  came := h.came
  stored pair hpair := by
    rw [PromiseRecord.addReactions, Array.toList_push] at hpair
    rcases List.mem_append.1 hpair with hpair | hpair
    · exact h.stored pair hpair
    · rw [List.mem_singleton.1 hpair]
      exact .follow hf
  latched := h.latched
  handled := h.handled
  handlersDue hs kind := by
    -- a reaction that adopts has no handler
    rw [← h.handlersDue hs kind, PromiseRecord.handlersDue, PromiseRecord.addReactions,
      Array.toList_push, List.countP_append]
    cases kind <;> rfl

end Standing

theorem advances_update (ha : (now p).Advances new) (q : ObjectRef) :
    (now q).Advances (Function.update now p new q) := by
  rw [Function.update_apply]
  split
  · rename_i hq
    rw [hq]
    exact ha
  · exact .refl _

/-- A link keeps its standing while records advance and jobs are added, unless its pair was stored. -/
theorem Served.later (h : plan.Served todo now jobs q pair) (ha : ∀ p, (now p).Advances (now' p))
    (hj : ∀ job ∈ jobs, job ∈ jobs')
    (hstored : (now q).status = .pending → pair ∈ (now q).reactions.toList →
      plan.Served todo now' jobs' q pair) : plan.Served todo now' jobs' q pair := by
  cases h with
  | unheard hf hp ht => exact .unheard hf hp ht
  | follows hp hfollow => exact .follows hp (hj _ hfollow)
  | stored hs hp => exact hstored hs hp
  | queued hs hreact => exact .queued ((ha q).settled_eq hs) (hj _ hreact)
  | done hs hd => exact .done ((ha q).settled_eq hs) (hd.advances (ha _))

/-- What has to be known when the record of one promise is replaced and jobs are added. -/
structure Change (plan : Plan) (todo : List ObjectRef) (now : ObjectRef → PromiseRecord)
    (jobs : List Job) (p : ObjectRef) (new : PromiseRecord) (added : List Job) : Prop where
  advances : (now p).Advances new
  standing : plan.Standing p new
  queued : ∀ job ∈ added, plan.Due job
  served : (now p).status = .pending → ∀ pair ∈ (now p).reactions.toList,
    plan.Served todo (Function.update now p new) (jobs ++ added) p pair
  counted : handlersIn added + plan.due p (now p).status = plan.due p new.status

theorem Progress.change (h : plan.Progress todo now jobs ran) (hp : p ∈ plan.members)
    (hc : plan.Change todo now jobs p new added) :
    plan.Progress todo (Function.update now p new) (jobs ++ added) ran := by
  have hadvances := advances_update hc.advances
  have hself : Function.update now p new p = new := Function.update_self p new now
  have hother {q : ObjectRef} (hq : q ≠ p) : Function.update now p new q = now q :=
    Function.update_of_ne hq new now
  constructor
  case advances => exact fun q => (h.advances q).trans (hadvances q)
  case standing =>
    intro q hq
    by_cases hqp : q = p
    · subst hqp
      rw [hself]
      exact hc.standing
    · rw [hother hqp]
      exact h.standing q hq
  case queued =>
    intro job hjob
    rcases List.mem_append.1 hjob with hjob | hjob
    · exact h.queued job hjob
    · exact hc.queued job hjob
  case heard => exact fun v hv => (h.heard v hv).imp_right (hadvances v.ref).latched
  case ruled => exact fun q kind value hr => (h.ruled q kind value hr).imp_right (hadvances q).status_ne
  case served =>
    intro q pair hl
    -- only a pair that was stored with the promise itself can have been moved
    refine (h.served q pair hl).later hadvances (fun job => List.mem_append_left added) fun hs hpair => ?_
    by_cases hqp : q = p
    · subst hqp
      exact hc.served hs pair hpair
    · rw [← hother hqp] at hs hpair
      exact .stored hs hpair
  case followed =>
    intro r q hf
    rcases h.followed r q hf with ht | hjob | hh
    · exact .inl ht
    · exact .inr (.inl (List.mem_append_left added hjob))
    · exact .inr (.inr ((hadvances q).handled hh))
  case counted =>
    -- of the sum only the summand of the promise itself changes
    have hrest : ∑ q ∈ plan.members.erase p, plan.due q (Function.update now p new q).status =
        ∑ q ∈ plan.members.erase p, plan.due q (now q).status := by
      apply Finset.sum_congr rfl
      intro q hq
      rw [hother (Finset.ne_of_mem_erase hq)]
    have hbefore := Finset.add_sum_erase plan.members (fun q => plan.due q (now q).status) hp
    have hafter := Finset.add_sum_erase plan.members
      (fun q => plan.due q (Function.update now p new q).status) hp
    have hcount := h.counted
    have hadded := hc.counted
    rw [handlersIn_append]
    simp only [hself, hrest] at hbefore hafter
    omega

/-- A pending promise of the family is settled with what it comes to. -/
theorem Progress.settle (h : plan.Progress todo now jobs ran) (hp : p ∈ plan.members)
    (hs : (now p).status = .pending) (hc : plan.Comes p kind value) (hv : value.Plain) :
    plan.Progress todo (Function.update now p ((now p).settled kind value))
      (jobs ++ (now p).dueJobs kind value) ran := by
  have hstanding := h.standing p hp
  apply h.change hp
  constructor
  case advances => exact .settled hs kind value
  case standing => exact hstanding.settled hc hv
  case queued =>
    intro job hjob
    obtain ⟨pair, hpair, rfl⟩ := List.mem_map.1 hjob
    exact ⟨hv, p, pair, hstanding.stored pair hpair, rfl, hc⟩
  case served =>
    intro _ pair hpair
    have hstatus : (Function.update now p ((now p).settled kind value) p).status = .settled kind value := by
      rw [Function.update_self]
      rfl
    exact .queued hstatus (List.mem_append_right jobs (List.mem_map_of_mem hpair))
  case counted =>
    have hdue : plan.due p (.settled kind value) = (plan.record p).handlersDue kind := by
      rw [due, PromiseStatus.outcome?_settled]
    have hnone : plan.due p (now p).status = 0 := by
      rw [due, hs]
      rfl
    rw [PromiseRecord.handlersIn_dueJobs, hstanding.handlersDue hs, hnone]
    exact hdue.symm

/-- A promise is latched that its verdict makes follow another one. -/
theorem Progress.lock (h : plan.Progress todo now jobs ran) (hp : p ∈ plan.members)
    (hs : (now p).status = .pending) (hf : plan.Follows p q) :
    plan.Progress todo (Function.update now p (now p).lock) (jobs ++ [.follow p q]) ran := by
  apply h.change hp
  constructor
  case advances => exact .lock _
  case standing => exact (h.standing p hp).lock hf
  case queued =>
    intro job hjob
    rw [List.mem_singleton.1 hjob]
    exact hf
  case served =>
    intro _ pair hpair
    refine .stored ?_ ?_ <;> rw [Function.update_self]
    · exact hs
    · exact hpair
  case counted => exact Nat.zero_add _

/-- A pair that makes a promise follow is stored with a pending promise. -/
theorem Progress.store (h : plan.Progress todo now jobs ran) (hq : q ∈ plan.members)
    (hs : (now q).status = .pending) (hf : plan.Follows p q) :
    plan.Progress todo (Function.update now q ((now q).markHandled.addReactions ⟨.adopt p, .adopt p⟩))
      (jobs ++ []) ran := by
  apply h.change hq
  constructor
  case advances => exact .addReactions _ _
  case standing => exact ((h.standing q hq).markHandled hf).addReactions hf
  case queued => exact fun job hj => nomatch hj
  case served =>
    intro _ pair hpair
    refine .stored ?_ ?_ <;> rw [Function.update_self]
    · exact hs
    · rw [PromiseRecord.addReactions, Array.toList_push]
      exact List.mem_append_left _ hpair
  case counted => exact Nat.zero_add _

/-- The reaction is queued that makes a promise follow one that is settled. -/
theorem Progress.enqueue (h : plan.Progress todo now jobs ran) (hq : q ∈ plan.members)
    (hs : (now q).status = .settled kind value) (hf : plan.Follows p q) :
    plan.Progress todo (Function.update now q (now q).markHandled)
      (jobs ++ [.react kind (.adopt p) value]) ran := by
  have hstanding := h.standing q hq
  apply h.change hq
  constructor
  case advances => exact .markHandled _
  case standing => exact hstanding.markHandled hf
  case queued =>
    intro job hjob
    rw [List.mem_singleton.1 hjob]
    obtain ⟨hc, hv⟩ := hstanding.came kind value hs
    exact ⟨hv, q, _, .follow hf, by cases kind <;> rfl, hc⟩
  case served => exact fun hp => absurd hp (by simp [hs])
  case counted => exact Nat.zero_add _

/-- What has to be known when a job is done with. -/
def Finished (plan : Plan) (todo : List ObjectRef) (now : ObjectRef → PromiseRecord) (jobs : List Job) :
    Job → Prop
  | .follow p q => (now q).handled = true ∧ plan.Served todo now jobs q ⟨.adopt p, .adopt p⟩
  | .react _ reaction _ => reaction.Done (now reaction.target)

theorem Progress.drop {job : Job} (h : plan.Progress todo now (job :: jobs) ran)
    (hd : plan.Finished todo now jobs job) :
    plan.Progress todo now jobs (ran + job.native?.toList.length) where
  advances := h.advances
  standing := h.standing
  queued other hother := h.queued other (List.mem_cons_of_mem job hother)
  heard := h.heard
  ruled := h.ruled
  served q pair hl := by
    -- a link that the job stood for is where the job has left it
    cases h.served q pair hl with
    | unheard hf hp ht => exact .unheard hf hp ht
    | follows hp hj =>
      rcases List.mem_cons.1 hj with rfl | hj
      · rw [hp]
        exact hd.2
      · exact .follows hp hj
    | stored hs hp => exact .stored hs hp
    | queued hs hj =>
      rcases List.mem_cons.1 hj with rfl | hj
      · exact .done hs hd
      · exact .queued hs hj
    | done hs hdone => exact .done hs hdone
  followed p q hf := by
    rcases h.followed p q hf with ht | hj | hh
    · exact .inl ht
    · rcases List.mem_cons.1 hj with rfl | hj
      · exact .inr (.inr hd.1)
      · exact .inr (.inl hj)
    · exact .inr (.inr hh)
  counted := by
    rw [← h.counted, handlersIn_cons]
    omega

/-- A verdict is heard once the latch is set and what comes of it has begun. -/
theorem Progress.hear (h : plan.Progress (p :: todo) now jobs ran)
    (hl : (now p).alreadyResolved = true)
    (hr : ∀ kind value, plan.Rules p kind value → (now p).status ≠ .pending)
    (hf : ∀ q, plan.Follows p q → .follow p q ∈ jobs) : plan.Progress todo now jobs ran where
  advances := h.advances
  standing := h.standing
  queued := h.queued
  heard v hv := by
    rcases h.heard v hv with ht | hlatch
    · rcases List.mem_cons.1 ht with hvp | ht
      · rw [hvp]
        exact .inr hl
      · exact .inl ht
    · exact .inr hlatch
  ruled q kind value hrule := by
    rcases h.ruled q kind value hrule with ht | hs
    · rcases List.mem_cons.1 ht with rfl | ht
      · exact .inr (hr kind value hrule)
      · exact .inl ht
    · exact .inr hs
  served q pair hlink := by
    cases h.served q pair hlink with
    | unheard hfollow hadopt ht =>
      rcases List.mem_cons.1 ht with rfl | ht
      · exact .follows hadopt (hf q hfollow)
      · exact .unheard hfollow hadopt ht
    | follows hadopt hj => exact .follows hadopt hj
    | stored hs hp => exact .stored hs hp
    | queued hs hj => exact .queued hs hj
    | done hs hdone => exact .done hs hdone
  followed r q hfollow := by
    rcases h.followed r q hfollow with ht | hj | hh
    · rcases List.mem_cons.1 ht with rfl | ht
      · exact .inr (.inl (hf q hfollow))
      · exact .inl ht
    · exact .inr (.inl hj)
    · exact .inr (.inr hh)
  counted := h.counted

/-- A verdict on a promise that was latched before has no effect. -/
theorem Progress.refuse {v : Verdict} (h : plan.Progress (v.ref :: todo) now jobs ran)
    (hl : (plan.record v.ref).alreadyResolved = true) : plan.Progress todo now jobs ran := by
  apply h.hear ((h.advances v.ref).latched hl)
  · rintro kind value ⟨-, -, -, hclear, -⟩
    exact absurd (hclear.symm.trans hl) Bool.false_ne_true
  · rintro q ⟨-, -, -, hclear, -⟩
    exact absurd (hclear.symm.trans hl) Bool.false_ne_true

theorem Progress.accept_settle (hplan : plan.Proper) {v : Verdict} (hv : v ∈ plan.verdicts)
    (h : plan.Progress (v.ref :: todo) now jobs ran) (hs : (now v.ref).status = .pending)
    (hclear : (plan.record v.ref).alreadyResolved = false) (hr : v.resolution = .settle kind value) :
    plan.Progress todo (Function.update now v.ref ((now v.ref).settled kind value))
      (jobs ++ (now v.ref).dueJobs kind value) ran := by
  have hrules : plan.Rules v.ref kind value := ⟨v, hv, rfl, hclear, hr⟩
  have hsettled := h.settle (hplan.named v hv) hs (.ruled hrules) (hrules.plain hplan)
  apply hsettled.hear
  · rw [Function.update_self]
    rfl
  · intro k w _
    rw [Function.update_self]
    exact PromiseStatus.settled_ne_pending kind value
  · rintro q ⟨w, hw, hnamed, -, hfollow⟩
    obtain rfl := hplan.distinct w hw v hv hnamed
    cases hr.symm.trans hfollow

theorem Progress.accept_follow (hplan : plan.Proper) {v : Verdict} (hv : v ∈ plan.verdicts)
    (h : plan.Progress (v.ref :: todo) now jobs ran) (hs : (now v.ref).status = .pending)
    (hclear : (plan.record v.ref).alreadyResolved = false) (hr : v.resolution = .follow q) :
    plan.Progress todo (Function.update now v.ref (now v.ref).lock) (jobs ++ [.follow v.ref q]) ran := by
  have hfollows : plan.Follows v.ref q := ⟨v, hv, rfl, hclear, hr⟩
  apply (h.lock (hplan.named v hv) hs hfollows).hear
  · rw [Function.update_self]
    rfl
  · rintro kind value ⟨w, hw, hnamed, -, hsettle⟩
    obtain rfl := hplan.distinct w hw v hv hnamed
    cases hr.symm.trans hsettle
  · intro other hother
    obtain rfl := hother.unique hplan hfollows
    exact List.mem_append_right _ (List.mem_singleton.2 rfl)

/-- A reaction with something left to do finds its promise pending. -/
theorem Progress.pending_target (h : plan.Progress todo now jobs ran) {reaction : Reaction}
    (hp : reaction.target ∈ plan.members) (hopen : ¬ reaction.Done (now reaction.target)) :
    (now reaction.target).status = .pending := by
  cases reaction with
  | derive handler derived => exact (h.standing derived hp).pending (Bool.eq_false_iff.2 hopen)
  | adopt follower => exact Decidable.not_not.1 hopen

/-- What a reaction has still to do is what its promise comes to. -/
theorem Progress.comes (hplan : plan.Proper) (h : plan.Progress [] now jobs ran) {reaction : Reaction}
    (hdue : plan.Due (.react kind reaction value)) (hopen : ¬ reaction.Done (now reaction.target)) :
    plan.Comes reaction.target (reaction.yields plan.answer kind value).1
      (reaction.yields plan.answer kind value).2 := by
  obtain ⟨-, q, pair, hlink, rfl, hcomes⟩ := hdue
  have htwin := hlink.twin hplan
  refine .passed ⟨hlink, (htwin.target_due kind).symm, fun hderive => ?_⟩ hcomes
  -- a verdict that was heard would have set the latch
  have hunlatched : (now (pair.due kind).target).alreadyResolved ≠ true := by
    rw [← htwin.isDerive_due kind] at hderive
    intro hlatched
    apply hopen
    cases hreaction : pair.due kind with
    | derive handler derived =>
      rw [hreaction] at hlatched
      exact hlatched
    | adopt follower =>
      rw [hreaction] at hderive
      cases hderive
  constructor
  case unlatched =>
    refine Bool.eq_false_iff.2 fun hlatched => ?_
    exact hunlatched ((h.advances _).latched hlatched)
  case unnamed =>
    intro v hv hnamed
    rcases h.heard v hv with ht | hlatched
    · cases ht
    · rw [hnamed] at hlatched
      exact hunlatched hlatched

theorem Progress.react (hplan : plan.Proper) {kind' : ReactionKind} {value' : ManagedValue}
    {reaction : Reaction} (h : plan.Progress [] now (.react kind reaction value :: jobs) ran)
    (hopen : ¬ reaction.Done (now reaction.target))
    (hyields : reaction.yields plan.answer kind value = (kind', value')) (hv : value'.Plain) :
    plan.Progress []
      (Function.update now reaction.target ((now reaction.target).settled kind' value'))
      (jobs ++ (now reaction.target).dueJobs kind' value')
      (ran + (Job.react kind reaction value).native?.toList.length) := by
  have hcomes := h.comes hplan (h.queued _ List.mem_cons_self) hopen
  rw [hyields] at hcomes
  have hp := hcomes.mem hplan
  refine (h.settle hp (h.pending_target hp hopen) hcomes hv).drop ?_
  change reaction.Done (Function.update now _ _ reaction.target)
  rw [Function.update_self]
  cases reaction with
  | derive => rfl
  | adopt => exact PromiseStatus.settled_ne_pending kind' value'

/-- The job that makes a promise follow stores a pair while the other promise is pending. -/
theorem Progress.follow_pending (hplan : plan.Proper)
    (h : plan.Progress todo now (.follow p q :: jobs) ran) (hs : (now q).status = .pending) :
    plan.Progress todo
      (Function.update now q ((now q).markHandled.addReactions ⟨.adopt p, .adopt p⟩)) jobs ran := by
  have hf : plan.Follows p q := h.queued _ List.mem_cons_self
  have hstored := h.store (Link.mem hplan (.follow hf)).1 hs hf
  rw [List.append_nil] at hstored
  refine hstored.drop ⟨?_, .stored ?_ ?_⟩
  · rw [Function.update_self]
    rfl
  · rw [Function.update_self]
    exact hs
  · rw [Function.update_self, PromiseRecord.addReactions, Array.toList_push]
    exact List.mem_append_right _ (List.mem_singleton.2 rfl)

/-- It queues the reaction that is due once the other promise is settled. -/
theorem Progress.follow_settled (hplan : plan.Proper)
    (h : plan.Progress todo now (.follow p q :: jobs) ran) (hs : (now q).status = .settled kind value) :
    plan.Progress todo (Function.update now q (now q).markHandled)
      (jobs ++ [.react kind (.adopt p) value]) ran := by
  have hf : plan.Follows p q := h.queued _ List.mem_cons_self
  have hdue : (⟨.adopt p, .adopt p⟩ : ReactionPair).due kind = .adopt p := by
    cases kind <;> rfl
  have hqueued := h.enqueue (Link.mem hplan (.follow hf)).1 hs hf
  have hmarked : Function.update now q (now q).markHandled q = (now q).markHandled :=
    Function.update_self q _ now
  refine hqueued.drop ⟨?_, .queued ((congrArg PromiseRecord.status hmarked).trans hs) ?_⟩
  · rw [hmarked]
    rfl
  · rw [hdue]
    exact List.mem_append_right _ (List.mem_singleton.2 rfl)

/-- When nothing is left to hear or to run, each promise is what it comes to. -/
theorem Progress.settled_iff (hplan : plan.Proper) (h : plan.Progress [] now [] ran)
    (hp : p ∈ plan.members) : (now p).status = .settled kind value ↔ plan.Comes p kind value := by
  constructor
  · exact fun hs => ((h.standing p hp).came kind value hs).1
  intro hc
  -- it is enough that the promise is not pending, as it comes to one outcome only
  have hsame {p : ObjectRef} {kind : ReactionKind} {value : ManagedValue} (hc : plan.Comes p kind value)
      (hne : (now p).status ≠ .pending) : (now p).status = .settled kind value := by
    obtain ⟨k, v, hs⟩ := PromiseStatus.exists_settled hne
    obtain ⟨rfl, rfl⟩ := ((h.standing p (hc.mem hplan)).came k v hs).1.unique hplan hc
    exact hs
  clear hp
  -- the induction is on the way that the outcome came along: nothing is left to hear or to run, and the
  -- promise at the other end is settled, so that the link has done its work
  induction hc with
  | ruled hr =>
    rcases h.ruled _ _ _ hr with ht | hne
    · cases ht
    · exact hsame (.ruled hr) hne
  | @passed p q pair kind value ha hc ih =>
    apply hsame (.passed ha hc)
    have hlink := ha.link
    cases h.served q pair hlink with
    | unheard _ _ ht => cases ht
    | follows _ hj => cases hj
    | stored hs => exact absurd (hs.symm.trans ih) (PromiseStatus.settled_ne_pending kind value).symm
    | queued _ hj => cases hj
    | done hs hd =>
      obtain ⟨rfl, rfl⟩ := PromiseStatus.settled_inj (hs.symm.trans ih)
      have htwin := hlink.twin hplan
      rw [htwin.target_due, ha.target] at hd
      cases hreaction : pair.due _ with
      | adopt follower =>
        rw [hreaction] at hd
        exact hd
      | derive handler derived =>
        rw [hreaction] at hd
        have hfree : plan.Free p := by
          apply ha.free
          rw [← htwin.isDerive_due, hreaction]
          rfl
        rcases (h.standing p ((Comes.passed ha hc).mem hplan)).latched hd with hl | ⟨v, hv, hnamed⟩ | hne
        · exact absurd (hfree.unlatched.symm.trans hl) Bool.false_ne_true
        · exact absurd hnamed (hfree.unnamed v hv)
        · exact hne

theorem Progress.handled_iff (h : plan.Progress [] now [] ran) (hq : q ∈ plan.members) :
    (now q).handled = true ↔ (plan.record q).handled = true ∨ ∃ p, plan.Follows p q := by
  constructor
  · exact (h.standing q hq).handled
  · rintro (hh | ⟨p, hf⟩)
    · exact (h.advances q).handled hh
    · rcases h.followed p q hf with ht | hj | hh
      · cases ht
      · cases hj
      · exact hh

/-- Whatever the order was, a plan that has come about has come to the same. -/
theorem Progress.same (hplan : plan.Proper) {ran' : ℕ} (h : plan.Progress [] now [] ran)
    (h' : plan.Progress [] now' [] ran') :
    ran = ran' ∧ ∀ p ∈ plan.members,
      (now p).status = (now' p).status ∧ (now p).handled = (now' p).handled := by
  have hstatus (p : ObjectRef) (hp : p ∈ plan.members) : (now p).status = (now' p).status := by
    by_cases hpend : (now' p).status = .pending
    · rw [hpend]
      by_contra hne
      obtain ⟨kind, value, hs⟩ := PromiseStatus.exists_settled hne
      have hs' := (h'.settled_iff hplan hp).2 ((h.settled_iff hplan hp).1 hs)
      exact PromiseStatus.settled_ne_pending kind value (hs'.symm.trans hpend)
    · obtain ⟨kind, value, hs⟩ := PromiseStatus.exists_settled hpend
      rw [hs]
      exact (h.settled_iff hplan hp).2 ((h'.settled_iff hplan hp).1 hs)
  constructor
  · calc ran
        = ∑ q ∈ plan.members, plan.due q (now q).status := h.counted
      _ = ∑ q ∈ plan.members, plan.due q (now' q).status :=
        Finset.sum_congr rfl fun q hq => by rw [hstatus q hq]
      _ = ran' := h'.counted.symm
  · intro p hp
    have hhandled := (h.handled_iff hp).trans (h'.handled_iff hp).symm
    exact ⟨hstatus p hp, Bool.eq_iff_iff.2 hhandled⟩

/-- A plan runs no more handlers than there are registrations. -/
theorem Progress.ran_le (h : plan.Progress todo now jobs ran) :
    ran ≤ ∑ q ∈ plan.members, (plan.record q).reactions.size := by
  calc ran
      ≤ ran + handlersIn jobs := Nat.le_add_right _ _
    _ = ∑ q ∈ plan.members, plan.due q (now q).status := h.counted
    _ ≤ ∑ q ∈ plan.members, (plan.record q).reactions.size := by
      apply Finset.sum_le_sum
      intro q _
      rw [due]
      cases (now q).status.outcome? with
      | none => exact Nat.zero_le _
      | some outcome => exact List.countP_le_length

end Plan

end Promises
