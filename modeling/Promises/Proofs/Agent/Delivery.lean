import Promises.Proofs.Agent.History
import Promises.Proofs.Agent.Safe

namespace Promises

namespace Agent

/-- The value that a call passes in. -/
def Call.value? : Call → Option ManagedValue
  | resolve _ value => some value
  | reject _ reason => some reason
  | _ => none

/-- The object of a value that is passed in is live. -/
def Call.PassesLive (c : Call) (a : Agent) : Prop :=
  ∀ value, c.value? = some value → ∀ ref, value = .object ref → a.heap.isLive ref = true

/-- The agents that a client comes to with calls of any kind, and those in the midst of a call for
the next native job. A careful client passes no object that is gone. -/
inductive Reached (limit : Nat) (careful : Prop) : Agent → Prop
  | new : Reached limit careful (.new limit)
  | call {a b : Agent} {c : Call} {answer : Answer} (h : Reached limit careful a)
    (hv : careful → c.PassesLive a) (hc : c.run a = .ok answer b) : Reached limit careful b
  | job {a b : Agent} {job : Job} {queue : JobQueue} {outcome : Except EngineError (Option NativeJob)}
    (h : Reached limit careful a) (ht : a.terminating = false)
    (hp : a.queue.pop? = some (job, queue)) (hj : runJob job { a with queue } = .ok outcome b) :
    Reached limit careful b

variable {limit : Nat} {careful narrow : Prop} {a b : Agent}

/-- A call that is given what may be stored leaves an agent fit. -/
theorem Fit.call (ha : a.Fit narrow) {c : Call}
    (hv : ∀ value, c.value? = some value → a.Admits narrow .reject value) :
    ∃ answer b, c.run a = .ok answer b ∧ b.Fit narrow := by
  have hmap {α : Type} {f : α → Answer} {x : Action Agent α} {v : α} {b : Agent}
      (hx : x a = .ok v b) (hb : b.Fit narrow) :
      ∃ answer b, (f <$> x) a = .ok answer b ∧ b.Fit narrow :=
    ⟨f v, b, by rw [Action.map_run, hx], hb⟩
  have hsafe {α : Type} {f : α → Answer} {x : Action Agent α} {post : α → Agent → Prop}
      (hx : a.Safe narrow x post) : ∃ answer b, (f <$> x) a = .ok answer b ∧ b.Fit narrow := by
    obtain ⟨v, b, hx, hb, -⟩ := hx
    exact hmap hx hb
  -- each call is a request that is safe, or one that only looks
  cases c with
  | isPromise ref => exact ⟨_, _, rfl, ha⟩
  | newObject => exact hsafe ha.newObject
  | state ref => exact hmap (look_run ref PromiseRecord.state a) ha
  | result ref => exact hmap (look_run ref PromiseRecord.result a) ha
  | newResolver => exact hsafe ha.newResolver
  | resolve ref value => exact hsafe (ha.resolve ref (hv value rfl))
  | reject ref reason => exact hsafe (ha.reject ref (hv reason rfl))
  | promiseOf ref => exact hsafe (ha.promiseOf ref)
  | addReactions ref f g =>
    obtain ⟨answer, b, hb, hfit, -⟩ := ha.registers ref f g
    exact hmap hb hfit
  | hasHandler ref => exact hmap (look_run ref PromiseRecord.handled a) ha
  | markHandled ref =>
    have hrun := markHandled_run ref a
    cases hr : a.heap.record? ref with
    | error e =>
      rw [hr] at hrun
      exact hmap hrun ha
    | ok record =>
      rw [hr] at hrun
      exact hmap hrun (ha.handled hr)
  | nextJob =>
    obtain ⟨native, b, hb, hfit, -⟩ := ha.nextJob
    exact hmap hb hfit
  | retain ref => exact ⟨_, _, rfl, ha.retained ref⟩
  | release ref => exact ⟨_, _, rfl, ha.released ref⟩
  | rootCount ref => exact ⟨_, _, rfl, ha⟩
  | collectGarbage => exact ⟨_, _, rfl, ha.collected⟩
  | stats => exact ⟨_, _, rfl, ha⟩
  | terminate => exact ⟨_, _, rfl, ha.flagged true⟩
  | cancelTermination => exact ⟨_, _, rfl, ha.flagged false⟩
  | isTerminating => exact ⟨_, _, rfl, ha⟩

/-- Every agent that is reached is that of a history. -/
theorem Reached.history (h : Reached limit careful a) : ∃ s : History, s.Sound ∧ s.agent = a := by
  induction h with
  | new => exact ⟨History.start limit, History.sound_start limit, rfl⟩
  | @call a b c answer _ _ hc ih =>
    obtain ⟨s, hs, rfl⟩ := ih
    obtain ⟨answer', t, ht, hlater⟩ := History.call_later hs c
    obtain ⟨-, rfl⟩ := EStateM.Result.ok.inj (hc.symm.trans ht)
    exact ⟨t, History.Moves.sound hs (hlater.moves hs), rfl⟩
  | @job a b job queue outcome _ ht hp hj ih =>
    -- each turn of the loop of a call for the next native job is a step of its own
    obtain ⟨s, hs, rfl⟩ := ih
    have hrun := runJob_eq (hs.agent.pop hp).1 (hs.agent.pop hp).2
    obtain ⟨-, rfl⟩ := EStateM.Result.ok.inj (hj.symm.trans hrun)
    have hstep := History.Step.mk (step_job hs.agent ht hp)
    exact ⟨_, hstep.sound hs, rfl⟩

theorem Reached.sound (h : Reached limit careful a) : a.Sound := by
  obtain ⟨s, hs, rfl⟩ := h.history
  exact hs.agent

/-- A careful client leaves an agent fit, whatever the size of its integers. -/
theorem Reached.fit (h : Reached limit careful a) (hcareful : careful) : a.Fit False := by
  induction h with
  | new => exact fit_new limit
  | @call a b c answer _ hv hc ih =>
    have hadmits (value : ManagedValue) (hvalue : c.value? = some value) :
        a.Admits False .reject value := ⟨False.elim, hv hcareful value hvalue, by simp⟩
    obtain ⟨answer', b', hb, hfit⟩ := ih.call hadmits
    obtain ⟨-, rfl⟩ := EStateM.Result.ok.inj (hc.symm.trans hb)
    exact hfit
  | @job a b job queue outcome _ ht hp hj ih =>
    have hrun := runJob_eq (ih.sound.pop hp).1 (ih.sound.pop hp).2
    obtain ⟨-, rfl⟩ := EStateM.Result.ok.inj (hj.symm.trans hrun)
    exact ih.worked hp

/-- The first job of a sound agent comes to its end, and a call for the next native job goes on from
there. -/
theorem Sound.first_job (ha : a.Sound) {job : Job} {queue : JobQueue}
    (hp : a.queue.pop? = some (job, queue)) :
    ∃ native b, runJob job { a with queue } = .ok (.ok native) b ∧
      (a.terminating = false →
        nextJob a = match native with
          | some native => .ok (some native) b
          | none => nextJob b) := by
  refine ⟨job.native?, _, runJob_eq (ha.pop hp).1 (ha.pop hp).2, fun ht => ?_⟩
  have hloop := nextJob_eq ha
  rw [if_neg (ht ▸ Bool.false_ne_true), hp] at hloop
  exact hloop

/-- Whatever a client calls, it is answered; what stored reactions and queued jobs are about are live
promises; and no job fails, so that none is dropped. A careful client finds the results of promises and
the arguments of jobs live too. -/
theorem Reached.nothing_lost (h : Reached limit careful a) :
    (∀ c : Call, ∃ answer b, c.run a = .ok answer b) ∧
      (∀ ref record, a.heap.record? ref = .ok record → ∀ pair ∈ record.reactions.toList, ∀ kind,
        a.heap.isPromise (pair.due kind).target = true) ∧
      (∀ job ∈ a.queue.toList, ∀ ref ∈ job.promises, a.heap.isPromise ref = true) ∧
      (∀ job queue, a.queue.pop? = some (job, queue) →
        ∃ native b, runJob job { a with queue } = .ok (.ok native) b ∧
          (a.terminating = false →
            nextJob a = match native with
              | some native => .ok (some native) b
              | none => nextJob b)) ∧
      (careful →
        (∀ ref record q, a.heap.record? ref = .ok record → record.result = .object q →
          a.heap.isLive q = true) ∧
        ∀ kind reaction q, .react kind reaction (.object q) ∈ a.queue.toList →
          a.heap.isLive q = true) := by
  have hsound := h.sound
  refine ⟨?_, hsound.stored, hsound.queued, fun job queue hp => hsound.first_job hp, ?_⟩
  · intro c
    obtain ⟨s, hs, rfl⟩ := h.history
    obtain ⟨answer, t, ht, -⟩ := History.call_later hs c
    exact ⟨answer, t.agent, ht⟩
  · intro hcareful
    have hfit := h.fit hcareful
    refine ⟨fun ref record q hr hq => (hfit.admits_result hr).live q hq, fun kind reaction q hj => ?_⟩
    exact (hfit.stored kind (.object q) (.argument hj)).live q rfl

/-- A job waits for two promises that nobody holds, after a release of what never was. -/
theorem Reached.nothing_lost_unrooted : ∃ a, Reached 2 True a ∧
    a.queue.pop? = some (.follow ⟨0, 0⟩ ⟨1, 0⟩, .empty) ∧ a.heap.rooted = 0 ∧
    a.heap.isPromise ⟨1, 0⟩ = true ∧
    ∃ native b, runJob (.follow ⟨0, 0⟩ ⟨1, 0⟩) { a with queue := .empty } = .ok (.ok native) b := by
  let slot (record : PromiseRecord) : Slot := ⟨0, some ⟨.promise record, 0⟩⟩
  let first : Agent := ⟨⟨#[slot .new], [], 2, 1⟩, .empty, false⟩
  let second : Agent := ⟨⟨#[slot .new, slot .new], [], 2, 2⟩, .empty, false⟩
  let last : Agent :=
    ⟨⟨#[slot PromiseRecord.new.lock, slot .new], [], 2, 2⟩, ⟨[], [.follow ⟨0, 0⟩ ⟨1, 0⟩]⟩, false⟩
  have hidle {c : Call} (hc : c.value? = none) (a : Agent) : c.PassesLive a := by
    intro value hv
    rw [hc] at hv
    cases hv
  have h₁ : Reached 2 True first := .call (c := .newResolver) .new (fun _ => hidle rfl _) rfl
  have h₂ : Reached 2 True second := .call (c := .newResolver) h₁ (fun _ => hidle rfl _) rfl
  have h₃ : Reached 2 True second := .call (c := .release ⟨9, 9⟩) h₂ (fun _ => hidle rfl _) rfl
  have h₄ : Reached 2 True last := by
    refine .call (c := .resolve ⟨0, 0⟩ (.object ⟨1, 0⟩)) h₃ (fun _ value hv ref hr => ?_) rfl
    obtain rfl := Option.some.inj hv
    obtain rfl := ManagedValue.object.inj hr
    rfl
  obtain ⟨-, -, hqueued, hruns, -⟩ := nothing_lost h₄
  refine ⟨last, h₄, rfl, rfl, hqueued _ List.mem_cons_self ⟨1, 0⟩ (by decide), ?_⟩
  obtain ⟨native, b, hb, -⟩ := hruns _ _ rfl
  exact ⟨native, b, hb⟩

end Agent

end Promises
