import Promises.Proofs.Agent.Delivery
import Promises.Proofs.Agent.Identity

namespace Promises

namespace Agent

variable {limit : Nat} {careful narrow : Prop} {a b c : Agent} {ref : ObjectRef}

/-- An object in the value is live, and not a promise. -/
def NoPromise (a : Agent) (value : ManagedValue) : Prop :=
  ∀ ref, value = .object ref → a.heap.kind? ref = some .object

theorem Admits.noPromise {value : ManagedValue} (h : a.Admits narrow .fulfill value) :
    a.NoPromise value := by
  intro ref hv
  obtain ⟨kind, hk⟩ := Heap.isLive_iff_kind?.1 (h.live ref hv)
  have hn : a.heap.isPromise ref = false := h.plain rfl ref hv
  cases kind with
  | object => exact hk
  | promise =>
    rw [Heap.isPromise_iff_kind?.2 hk] at hn
    cases hn

/-- No promise was fulfilled with a promise, and none is about to be. -/
structure FulfillsPlainly (a : Agent) : Prop where
  result : ∀ ref record value, a.heap.record? ref = .ok record → record.status = .fulfilled value →
    a.NoPromise value
  argument : ∀ reaction value, .react .fulfill reaction value ∈ a.queue.toList → a.NoPromise value
  native : ∀ native b, nextJob a = .ok (some native) b → native.kind = .fulfill →
    b.NoPromise native.argument

theorem Fit.fulfillsPlainly (ha : a.Fit narrow) : a.FulfillsPlainly where
  result ref record value hr hs := (ha.stored .fulfill value (.result hr hs)).noPromise
  argument reaction value hj := (ha.stored .fulfill value (.argument hj)).noPromise
  native native b hb hf := by
    obtain ⟨native', b', hb', -, hadmits, -⟩ := ha.nextJob
    obtain ⟨rfl, rfl⟩ := EStateM.Result.ok.inj (hb.symm.trans hb')
    have hargument := (hadmits native rfl).2
    rw [hf] at hargument
    exact hargument.noPromise

/-- What a client that passes no object which is gone comes to at a time: by a call of any kind, or by one
turn in the midst of a call for the next native job. -/
inductive CarefulStep (a : Agent) : Agent → Prop
  | call {c : Call} {answer : Answer} {b : Agent} (hv : c.PassesLive a)
    (hc : c.run a = .ok answer b) : CarefulStep a b
  | job {job : Job} {queue : JobQueue} {outcome : Except EngineError (Option NativeJob)} {b : Agent}
    (ht : a.terminating = false) (hp : a.queue.pop? = some (job, queue))
    (hj : runJob job { a with queue } = .ok outcome b) : CarefulStep a b

abbrev CarefulSteps : Agent → Agent → Prop := Relation.ReflTransGen CarefulStep

/-- Steps between which, and after which, an object lives. -/
abbrev CarefulStepsWith (ref : ObjectRef) : Agent → Agent → Prop :=
  Relation.ReflTransGen fun a b => CarefulStep a b ∧ b.heap.isLive ref = true

theorem Reached.step (h : Reached limit True a) (hs : CarefulStep a b) : Reached limit True b := by
  cases hs with
  | call hv hc => exact .call h (fun _ => hv) hc
  | job ht hp hj => exact .job h ht hp hj

theorem Reached.steps (h : Reached limit True a) (hs : CarefulSteps a b) : Reached limit True b := by
  induction hs with
  | refl => exact h
  | tail _ hs ih => exact ih.step hs

/-- An object of `a` is of the same kind in `b`, and its record there is what became of the one here. -/
structure LivesOn (ref : ObjectRef) (a b : Agent) : Prop where
  kind? : b.heap.kind? ref = a.heap.kind? ref
  advances : ∀ new, b.heap.record? ref = .ok new →
    ∃ old, a.heap.record? ref = .ok old ∧ old.Advances new

theorem LivesOn.trans (h : LivesOn ref a b) (k : LivesOn ref b c) : LivesOn ref a c where
  kind? := k.kind?.trans h.kind?
  advances new hr := by
    obtain ⟨mid, hm, hk⟩ := k.advances new hr
    obtain ⟨old, ho, hh⟩ := h.advances mid hm
    exact ⟨old, ho, hh.trans hk⟩

/-- No job ends the life of an object. -/
theorem livesOn_working (ha : a.Sound) {job : Job} {queue : JobQueue}
    (hp : a.queue.pop? = some (job, queue)) (ref : ObjectRef) :
    LivesOn ref a (({ a with queue } : Agent).working job) where
  kind? := (effect_working { a with queue } job).kind?_eq ref
  advances new hr := (changes_job ha hp).onward ref new hr

theorem Runs.livesOn {native : Option NativeJob} (hr : Runs a native b) (ha : a.Sound)
    (ref : ObjectRef) : LivesOn ref a b := by
  induction hr with
  | idle => exact ⟨rfl, fun new hr => ⟨new, hr, .refl new⟩⟩
  | last _ hp => exact livesOn_working ha hp ref
  | more _ hp _ _ ih =>
    exact (livesOn_working ha hp ref).trans (ih (ha.changes (changes_job ha hp)))

/-- What lives before and after a call has lived on meanwhile, as no call gives out a reference of
something that lives. -/
theorem Reached.livesOn_call (h : Reached limit careful a) {c : Call} {answer : Answer}
    (hc : c.run a = .ok answer b) (ha : a.heap.isLive ref = true) (hb : b.heap.isLive ref = true) :
    LivesOn ref a b := by
  by_cases hn : c = .nextJob
  · subst hn
    obtain ⟨native, b', hb', hruns⟩ := nextJob_runs h.sound
    have hcall : Call.nextJob.run a = .ok (.job native) b' :=
      (Action.map_run Answer.job nextJob a).trans (by rw [hb'])
    obtain ⟨-, rfl⟩ := EStateM.Result.ok.inj (hc.symm.trans hcall)
    exact hruns.livesOn h.sound ref
  · obtain ⟨s, hs, rfl⟩ := h.history
    obtain ⟨answer', b', hb', hmoves⟩ := History.call_moves hs hn
    obtain ⟨rfl, rfl⟩ := EStateM.Result.ok.inj (hc.symm.trans hb')
    have hstep : History.Step s (.call c answer) (s.record (.call c answer) b) := .mk (.call hn hc)
    -- the number of what lived before is older than those that the call gives
    have hold : (s.record (.call c answer) b).number ref < s.born := by
      rw [hstep.number_eq hs ha]
      exact hs.number_lt ref ha
    refine ⟨(History.Moves.kind? hs hmoves hb hold).2, fun new hr => ?_⟩
    exact ((History.Moves.leads hs hmoves).kept ref new hr hold).2

theorem Reached.livesOn (h : Reached limit True a) (hs : CarefulStep a b)
    (ha : a.heap.isLive ref = true) (hb : b.heap.isLive ref = true) : LivesOn ref a b := by
  cases hs with
  | call _ hc => exact h.livesOn_call hc ha hb
  | job _ hp hj =>
    have hrun := runJob_eq (h.sound.pop hp).1 (h.sound.pop hp).2
    obtain ⟨-, rfl⟩ := EStateM.Result.ok.inj (hj.symm.trans hrun)
    exact livesOn_working h.sound hp ref

/-- A live promise is fulfilled with a value. -/
def FulfilledWith (a : Agent) (ref : ObjectRef) (value : ManagedValue) : Prop :=
  ∃ record, a.heap.record? ref = .ok record ∧ record.status = .fulfilled value

theorem FulfilledWith.isPromise {value : ManagedValue} (h : a.FulfilledWith ref value) :
    a.heap.isPromise ref = true := by
  obtain ⟨record, hr, -⟩ := h
  exact Heap.isPromise_of_record? hr

theorem FulfilledWith.livesOn {value : ManagedValue} (h : a.FulfilledWith ref value)
    (hl : LivesOn ref a b) : b.FulfilledWith ref value := by
  have hpromise : b.heap.isPromise ref = true := by
    rw [Heap.isPromise, hl.kind?]
    exact h.isPromise
  obtain ⟨new, hnew⟩ := Heap.isPromise_iff.1 hpromise
  obtain ⟨old, hold, hadvance⟩ := hl.advances new hnew
  obtain ⟨record, hr, hs⟩ := h
  obtain rfl : record = old := Except.ok.inj (hr.symm.trans hold)
  have hsettled : record.status ≠ .pending := by
    rw [hs]
    intro hpending
    cases hpending
  exact ⟨new, hnew, (hadvance.status hsettled).trans hs⟩

theorem FulfilledWith.steps {value : ManagedValue} (h : Reached limit True a)
    (hf : a.FulfilledWith ref value) (hs : CarefulStepsWith ref a b) : b.FulfilledWith ref value := by
  have hreached : Reached limit True b ∧ b.FulfilledWith ref value := by
    induction hs with
    | refl => exact ⟨h, hf⟩
    | tail _ hs ih =>
      obtain ⟨hreach, hfulfilled⟩ := ih
      have hlive := Heap.isLive_of_isPromise hfulfilled.isPromise
      exact ⟨hreach.step hs.1, hfulfilled.livesOn (hreach.livesOn hs.1 hlive hs.2)⟩
  exact hreached.2

/-- A promise that was not resolved may be rejected with any live object, a promise or not. -/
theorem Sound.rejects_with (ha : a.Sound) (ht : a.terminating = false) {record : PromiseRecord}
    (hr : a.heap.record? ref = .ok record) (hu : record.alreadyResolved = false) {q : ObjectRef}
    (hq : a.heap.isLive q = true) :
    ∃ b, CarefulStep a b ∧ b.heap.kind? q = a.heap.kind? q ∧
      ∃ new, b.heap.record? ref = .ok new ∧ new.status = .rejected (.object q) := by
  have hlive : (Call.settle .reject ref (.object q)).PassesLive a := by
    intro value hv p hp
    obtain rfl := Option.some.inj hv
    obtain rfl := ManagedValue.object.inj hp
    exact hq
  have hcall := settle_call_run ha .reject ref (.object q)
  rw [ht, if_neg Bool.false_ne_true, hr] at hcall
  dsimp only at hcall
  rw [hu, if_neg Bool.false_ne_true] at hcall
  obtain ⟨new, hnew, -, hstatus⟩ := record?_resolving hr (a.heap.resolution ref .reject (.object q))
  exact ⟨_, .call hlive hcall, kind?_resolving hr _ q, new, hnew, hstatus _ _ rfl⟩

/-- No promise is ever fulfilled with a promise, whichever way it came to be fulfilled, and neither is a
reaction or a native job to be run with one as the value of a fulfilled promise. This holds from then on. A
fulfilled promise keeps its value while it lives, and an object in it stays live and what it is. A promise may
be rejected with a promise, though. -/
theorem Reached.fulfills_plainly (h : Reached limit True a) :
    (∀ b, CarefulSteps a b → b.FulfillsPlainly) ∧
      (∀ ref value b, a.FulfilledWith ref value → CarefulStepsWith ref a b →
        b.FulfilledWith ref value ∧ b.NoPromise value) ∧
      ∀ ref record q, a.terminating = false → a.heap.record? ref = .ok record →
        record.alreadyResolved = false → a.heap.isPromise q = true →
        ∃ b, CarefulStep a b ∧ b.heap.isPromise q = true ∧
          ∃ new, b.heap.record? ref = .ok new ∧ new.status = .rejected (.object q) := by
  have hplain (b : Agent) (hb : CarefulSteps a b) : b.FulfillsPlainly :=
    ((h.steps hb).fit trivial).fulfillsPlainly
  refine ⟨hplain, ?_, ?_⟩
  · intro ref value b hf hb
    have hstays := hf.steps h hb
    obtain ⟨record, hr, hs⟩ := hstays
    have hsteps : CarefulSteps a b := Relation.ReflTransGen.mono (fun _ _ hs => hs.1) _ _ hb
    exact ⟨⟨record, hr, hs⟩, (hplain b hsteps).result ref record value hr hs⟩
  · intro ref record q ht hr hu hq
    obtain ⟨b, hb, hkind, hrejected⟩ := h.sound.rejects_with ht hr hu (Heap.isLive_of_isPromise hq)
    refine ⟨b, hb, ?_, hrejected⟩
    rw [Heap.isPromise, hkind]
    exact hq

/-- A collection frees what a rooted promise does not hold, and a new object takes its slot; the promise is
fulfilled as before. -/
theorem Reached.fulfills_plainly_reusing : ∃ a b, Reached 3 True a ∧
    a.FulfilledWith ⟨1, 0⟩ (.object ⟨2, 0⟩) ∧ CarefulStepsWith ⟨1, 0⟩ a b ∧
    b.heap.isLive ⟨0, 0⟩ = false ∧ b.heap.isLive ⟨0, 1⟩ = true ∧
    b.FulfilledWith ⟨1, 0⟩ (.object ⟨2, 0⟩) ∧ b.NoPromise (.object ⟨2, 0⟩) ∧
    ∃ c new, CarefulStep a c ∧ c.heap.record? ⟨0, 0⟩ = .ok new ∧
      new.status = .rejected (.object ⟨1, 0⟩) := by
  let plain : Slot := ⟨0, some ⟨.plain, 0⟩⟩
  let fresh : Slot := ⟨0, some ⟨.promise .new, 0⟩⟩
  let done (roots : UInt32) : Slot :=
    ⟨0, some ⟨.promise ⟨.fulfilled (.object ⟨2, 0⟩), true, false, #[]⟩, roots⟩⟩
  let made : Agent := ⟨⟨#[fresh, fresh, plain], [], 3, 3⟩, .empty, false⟩
  let settled : Agent := ⟨⟨#[fresh, done 0, plain], [], 3, 3⟩, .empty, false⟩
  let a : Agent := ⟨⟨#[fresh, done 1, plain], [], 3, 3⟩, .empty, false⟩
  let swept : Agent := ⟨⟨#[⟨1, none⟩, done 1, plain], [0], 3, 2⟩, .empty, false⟩
  let b : Agent := ⟨⟨#[⟨1, some ⟨.plain, 0⟩⟩, done 1, plain], [], 3, 3⟩, .empty, false⟩
  have hidle {c : Call} (hc : c.value? = none) (a : Agent) : c.PassesLive a := by
    intro value hv
    rw [hc] at hv
    cases hv
  have hmade : Reached 3 True made :=
    .call (c := .newObject)
      (.call (c := .newResolver) (.call (c := .newResolver) .new (fun _ => hidle rfl _) rfl)
        (fun _ => hidle rfl _) rfl)
      (fun _ => hidle rfl _) rfl
  have hsettled : Reached 3 True settled := by
    refine .call (c := .resolve ⟨1, 0⟩ (.object ⟨2, 0⟩)) hmade (fun _ value hv ref hr => ?_) rfl
    obtain rfl := Option.some.inj hv
    obtain rfl := ManagedValue.object.inj hr
    rfl
  have ha : Reached 3 True a :=
    .call (c := .retain ⟨1, 0⟩) hsettled (fun _ => hidle rfl _) rfl
  have hcollect : a.heap.collect [] = (⟨3, 2, 1⟩, swept.heap) := by
    have hmarks : a.heap.reachableMarks [] = #[false, true, true] := by
      cbv
    rw [Heap.collect, hmarks]
    rfl
  have hsweep : Call.collectGarbage.run a = .ok (.collection ⟨3, 2, 1⟩) swept := by
    show EStateM.Result.ok (Answer.collection (a.heap.collect []).1)
      { a with heap := (a.heap.collect []).2 } = _
    rw [hcollect]
  have hsteps : CarefulStepsWith ⟨1, 0⟩ a b :=
    .tail (.single ⟨.call (hidle rfl _) hsweep, rfl⟩)
      ⟨.call (c := .newObject) (hidle rfl _) rfl, rfl⟩
  have hf : a.FulfilledWith ⟨1, 0⟩ (.object ⟨2, 0⟩) := ⟨_, rfl, rfl⟩
  obtain ⟨-, hkeeps, hrejects⟩ := fulfills_plainly ha
  obtain ⟨hstays, hplain⟩ := hkeeps ⟨1, 0⟩ (.object ⟨2, 0⟩) b hf hsteps
  obtain ⟨c, hc, -, new, hnew, hreason⟩ := hrejects ⟨0, 0⟩ .new ⟨1, 0⟩ rfl rfl rfl rfl
  exact ⟨a, b, ha, hf, hsteps, rfl, rfl, hstays, hplain, c, new, hc, hnew, hreason⟩

end Agent

end Promises
