import Promises.Proofs.Agent.Delivery
import Promises.Proofs.Agent.Settlement

namespace Promises

def Job.isReaction : Job → Bool
  | react .. => true
  | follow .. => false

namespace JobQueue

/-- How many reactions are queued. -/
def reactions (q : JobQueue) : Nat := q.toList.countP Job.isReaction

/-- How many promises are queued to follow another one. -/
def followings (q : JobQueue) : Nat := q.toList.countP (!·.isReaction)

theorem workload_eq (q : JobQueue) : q.workload = q.reactions + 2 * q.followings := by
  unfold workload reactions followings
  induction q.toList with
  | nil => rfl
  | cons job jobs ih =>
    rw [total, ih, List.countP_cons, List.countP_cons]
    cases job <;> simp only [Job.workload, Job.isReaction] <;> simp <;> omega

end JobQueue

def Slot.promise? (s : Slot) : Option PromiseRecord :=
  match s.cell with
  | some ⟨.promise record, _⟩ => some record
  | _ => none

namespace Heap

/-- The records of the live promises. -/
def promises (h : Heap) : List PromiseRecord := h.slots.toList.filterMap Slot.promise?

/-- How many pairs of reactions are stored with pending promises. -/
def storedPairs (h : Heap) : Nat :=
  total (·.reactions.size) (h.promises.filter (·.status = .pending))

/-- How many live promises were not resolved yet. -/
def unresolved (h : Heap) : Nat := h.promises.countP (!·.alreadyResolved)

theorem mem_promises_iff {h : Heap} {record : PromiseRecord} :
    record ∈ h.promises ↔ ∃ ref, h.record? ref = .ok record := by
  simp only [promises, List.mem_filterMap, record?_eq_ok_iff, cell?_eq_some_iff]
  constructor
  · rintro ⟨⟨generation, cell⟩, hs, hc⟩
    obtain ⟨i, hi, he⟩ := Array.mem_iff_getElem.1 (Array.mem_toList_iff.1 hs)
    refine ⟨⟨i, generation⟩, ?_⟩
    rcases cell with _ | ⟨_ | found, roots⟩ <;> simp only [Slot.promise?, reduceCtorEq] at hc
    obtain rfl := Option.some.inj hc
    exact ⟨roots, Array.getElem?_eq_some_iff.2 ⟨hi, he⟩⟩
  · rintro ⟨ref, roots, hs⟩
    exact ⟨_, Array.mem_toList_iff.2 (Array.mem_of_getElem? hs), rfl⟩

theorem workload_eq_total (h : Heap) : h.workload = total PromiseRecord.workload h.promises := by
  unfold workload promises
  induction h.slots.toList with
  | nil => rfl
  | cons slot slots ih =>
    obtain ⟨generation, _ | ⟨_ | record, roots⟩⟩ := slot
    · rw [List.filterMap_cons_none rfl, total, ih]
      exact Nat.zero_add _
    · rw [List.filterMap_cons_none rfl, total, ih]
      exact Nat.zero_add _
    · have hslot : Slot.promise? ⟨generation, some ⟨.promise record, roots⟩⟩ = some record := rfl
      rw [List.filterMap_cons_some hslot, total, total, ih]
      rfl

/-- If settled promises store no reactions, the work that the heap may bring about is that of the pending
promises. -/
theorem workload_eq {h : Heap}
    (hs : ∀ record ∈ h.promises, record.status ≠ .pending → record.reactions = #[]) :
    h.workload = h.storedPairs + 2 * h.unresolved := by
  rw [workload_eq_total]
  unfold storedPairs unresolved
  revert hs
  induction h.promises with
  | nil => exact fun _ => rfl
  | cons record records ih =>
    intro hs
    have hrest := ih fun r hr => hs r (List.mem_cons_of_mem _ hr)
    have hsettled := hs record List.mem_cons_self
    rw [total, hrest, List.countP_cons, PromiseRecord.workload]
    by_cases hp : record.status = .pending
    · rw [List.filter_cons_of_pos (by simpa using hp), total]
      cases record.alreadyResolved
      · simp
        omega
      · simp
        omega
    · rw [List.filter_cons_of_neg (by simpa using hp), hsettled hp]
      cases record.alreadyResolved
      · simp
        omega
      · simp

end Heap

namespace Agent

variable {limit n : Nat} {careful : Prop} {a b : Agent} {native : Option NativeJob}

/-- Whether no settled promise stores reactions. -/
def Spent (a : Agent) : Prop :=
  ∀ ref record, a.heap.record? ref = .ok record → record.status ≠ .pending → record.reactions = #[]

theorem spent_new (limit : Nat) : (new limit).Spent := by
  intro ref record hr
  simp [new, Heap.empty, Heap.record?, Heap.object?, Heap.cell?] at hr

theorem Spent.setRecord (ha : a.Spent) {ref : ObjectRef} {old new : PromiseRecord}
    (hr : a.heap.record? ref = .ok old) (hn : new.status ≠ .pending → new.reactions = #[])
    {queue : JobQueue} : ({ a with heap := a.heap.setRecord ref new, queue } : Agent).Spent := by
  intro q record hq
  rcases Heap.record?_setRecord_inv hr hq with ⟨rfl, rfl⟩ | ⟨-, hq⟩
  · exact hn
  · exact ha q record hq

theorem Spent.idle (ha : a.Spent) (hi : Idle a b) : b.Spent := by
  intro ref record hr
  obtain ⟨old, ho, he, -⟩ := hi.record?_inv hr
  rw [he]
  exact ha ref old ho

theorem Spent.placed (ha : a.Spent) (hw : a.heap.WellFormed) {object : HeapObject}
    (ho : ∀ record, object = .promise record → record = .new) : (a.placed object).Spent := by
  intro ref record hr
  rcases Heap.record?_place_inv hw ho hr with ⟨-, rfl⟩ | ⟨-, hr⟩
  · exact fun hp => absurd rfl hp
  · exact ha ref record hr

/-- Reactions are stored with pending promises only, and a settlement takes them all out. -/
theorem Spent.change (ha : a.Spent) (hc : Change a b) : b.Spent := by
  cases hc with
  | idle hi => exact ha.idle hi
  | pop => exact ha
  | @attach ref record pair hr ht =>
    unfold attaching
    cases ho : record.status.outcome? with
    | none =>
      have hp : record.status = .pending := PromiseStatus.outcome?_eq_none_iff.1 ho
      refine ha.setRecord hr ?_
      exact fun hn => absurd hp hn
    | some outcome =>
      refine ha.setRecord hr ?_
      exact ha ref record hr
  | @settle ref record hr hp kind value =>
    refine ha.setRecord hr ?_
    exact fun _ => rfl
  | @follow ref other record hr =>
    refine ha.setRecord hr ?_
    exact ha ref record hr

theorem Spent.changes (ha : a.Spent) (hc : Changes a b) : b.Spent := by
  induction hc with
  | refl => exact ha
  | tail _ hc ih => exact ih.change hc

theorem Spent.move {s t : History} (ha : s.agent.Spent) (hs : s.Sound) (hm : s.Move t) :
    t.agent.Spent := by
  cases hm with
  | idle hi => exact ha.idle hi
  | place hf ho => exact ha.placed hs.agent.shape ho
  | @register ref derived record f g hr hd hu =>
    refine ha.change (.attach hr fun kind => ?_)
    cases kind <;> exact hd
  | resolve hr hu kind value => exact ha.change (change_resolving hs.agent hr hu kind value)
  | job hp => exact ha.changes (changes_job hs.agent hp)

theorem Spent.moves {s t : History} (ha : s.agent.Spent) (hs : s.Sound) (hm : s.Moves t) :
    t.agent.Spent := by
  induction hm with
  | refl => exact ha
  | tail hbefore hm ih => exact ih.move (History.Moves.sound hs hbefore) hm

theorem Reached.spent (h : Reached limit careful a) : a.Spent := by
  induction h with
  | new => exact spent_new limit
  | @call a b c answer h _ hc ih =>
    obtain ⟨s, hs, rfl⟩ := h.history
    obtain ⟨answer', t, ht, hlater⟩ := History.call_later hs c
    obtain ⟨-, rfl⟩ := EStateM.Result.ok.inj (hc.symm.trans ht)
    exact ih.moves hs (hlater.moves hs)
  | @job a b job queue outcome h ht hp hj ih =>
    have hrun := runJob_eq (h.sound.pop hp).1 (h.sound.pop hp).2
    obtain ⟨-, rfl⟩ := EStateM.Result.ok.inj (hj.symm.trans hrun)
    exact ih.changes (changes_job h.sound hp)

/-- The queued reactions and the stored pairs of reactions, and twice the queued followings and the
promises that were not resolved yet. -/
def jobBound (a : Agent) : Nat :=
  a.queue.reactions + 2 * a.queue.followings + a.heap.storedPairs + 2 * a.heap.unresolved

theorem Reached.workload_eq (h : Reached limit careful a) : a.workload = a.jobBound := by
  have hsettled : ∀ record ∈ a.heap.promises, record.status ≠ .pending → record.reactions = #[] := by
    intro record hr
    obtain ⟨ref, hr⟩ := Heap.mem_promises_iff.1 hr
    exact h.spent ref record hr
  rw [workload, Heap.workload_eq hsettled, JobQueue.workload_eq, jobBound]
  omega

/-- The first job is taken from the queue and run, whether or not it fails. -/
inductive Pop (a : Agent) (outcome : Except EngineError (Option NativeJob)) (b : Agent) : Prop
  | mk {job : Job} {queue : JobQueue} (hp : a.queue.pop? = some (job, queue))
    (hj : runJob job { a with queue } = .ok outcome b)

/-- The loop of a call for the next native job, with the number of jobs that it takes. -/
inductive Pops : Nat → Agent → Option NativeJob → Agent → Prop
  | stopped {a : Agent} (ht : a.terminating = true) : Pops 0 a none a
  | emptied {a : Agent} (ht : a.terminating = false) (hq : a.queue.toList = []) : Pops 0 a none a
  | handed {a b : Agent} {native : NativeJob} (ht : a.terminating = false)
    (hp : a.Pop (.ok (some native)) b) : Pops 1 a (some native) b
  | more {n : Nat} {a b c : Agent} {outcome : Except EngineError (Option NativeJob)}
    {native : Option NativeJob} (ht : a.terminating = false) (hp : a.Pop outcome b)
    (ho : ∀ native, outcome ≠ .ok (some native)) (hr : Pops n b native c) : Pops (n + 1) a native c

theorem Pop.workload_lt {outcome : Except EngineError (Option NativeJob)} (h : a.Pop outcome b) :
    b.workload < a.workload := by
  obtain ⟨hp, hj⟩ := h
  have hrun := workload_runJob hj
  have hpop := workload_of_pop? hp
  omega

theorem Pops.le_workload (h : Pops n a native b) : n + b.workload ≤ a.workload := by
  induction h with
  | stopped | emptied => omega
  | handed _ hp =>
    have hless := hp.workload_lt
    omega
  | more _ hp _ _ ih =>
    have hless := hp.workload_lt
    omega

theorem nextJob_stopped (ht : a.terminating = true) : nextJob a = .ok none a := by
  rw [nextJob_run, if_pos ht]

theorem Pops.nextJob_eq (h : Pops n a native b) : nextJob a = .ok native b := by
  induction h with
  | stopped ht => exact nextJob_stopped ht
  | emptied ht hq => rw [nextJob_run, ht, if_neg Bool.false_ne_true, JobQueue.pop?_eq_none_iff.2 hq]
  | handed ht hpop =>
    obtain ⟨hp, hj⟩ := hpop
    rw [nextJob_run, if_neg (ht ▸ Bool.false_ne_true), hp]
    dsimp only
    rw [hj]
  | @more n a b c outcome native ht hpop ho _ ih =>
    obtain ⟨hp, hj⟩ := hpop
    rw [nextJob_run, if_neg (ht ▸ Bool.false_ne_true), hp]
    dsimp only
    rw [hj]
    -- what fails is dropped, and what hands nothing out is followed by the next job
    rcases outcome with _ | _ | native
    · exact ih
    · exact ih
    · exact absurd rfl (ho native)

theorem Sound.pop_working (ha : a.Sound) {job : Job} {queue : JobQueue}
    (hp : a.queue.pop? = some (job, queue)) :
    a.Pop (.ok job.native?) (({ a with queue } : Agent).working job) :=
  ⟨hp, runJob_eq (ha.pop hp).1 (ha.pop hp).2⟩

theorem pops_of_runs (hr : Runs a native b) (ha : a.Sound) : ∃ n, Pops n a native b := by
  induction hr with
  | @idle a hi =>
    cases ht : a.terminating with
    | true => exact ⟨0, .stopped ht⟩
    | false =>
      rw [ht] at hi
      exact ⟨0, .emptied ht (hi.resolve_left Bool.false_ne_true)⟩
  | last ht hp hn =>
    have hpop := ha.pop_working hp
    rw [hn] at hpop
    exact ⟨1, .handed ht hpop⟩
  | more ht hp hn _ ih =>
    obtain ⟨n, hpops⟩ := ih (ha.changes (changes_job ha hp))
    refine ⟨n + 1, .more ht (ha.pop_working hp) ?_ hpops⟩
    rw [hn]
    exact nofun

/-- What a call for the next native job comes to is what its loop comes to. -/
theorem Sound.nextJob_eq_ok_iff (ha : a.Sound) :
    nextJob a = .ok native b ↔ ∃ n, Pops n a native b := by
  constructor
  · intro hb
    obtain ⟨native', b', hb', hruns⟩ := nextJob_runs ha
    obtain ⟨rfl, rfl⟩ := EStateM.Result.ok.inj (hb.symm.trans hb')
    exact pops_of_runs hruns ha
  · rintro ⟨n, hpops⟩
    exact hpops.nextJob_eq

theorem Effect.terminating_eq {job : Job} (he : Effect a job b) : b.terminating = a.terminating := by
  cases he with
  | attached hr =>
    unfold attaching
    split <;> rfl
  | @passed kind derived argument record hr hu =>
    cases a.heap.resolution derived kind argument <;> rfl
  | dropped | handed | adopted => rfl

/-- A call that finds no native job leaves no job at all, unless execution is to stop. -/
theorem Runs.toList_eq_nil (hr : Runs a native b) (ht : a.terminating = false)
    (hn : native = none) : b.queue.toList = [] := by
  induction hr with
  | @idle a hi =>
    rw [ht] at hi
    exact hi.resolve_left Bool.false_ne_true
  | last => cases hn
  | more _ _ _ _ ih => exact ih ((effect_working _ _).terminating_eq.trans ht) hn

/-- Jobs can be run one after another only as often as there is work at first. -/
theorem le_workload_of_pops (agents : Nat → Agent)
    (hp : ∀ i < n, ∃ outcome, (agents i).Pop outcome (agents (i + 1))) :
    n ≤ (agents 0).workload := by
  have hless (i : Nat) (hi : i ≤ n) : i + (agents i).workload ≤ (agents 0).workload := by
    induction i with
    | zero => exact Nat.le_of_eq (Nat.zero_add _)
    | succ i ih =>
      obtain ⟨outcome, hpop⟩ := hp i hi
      have hdrop := hpop.workload_lt
      have hbefore := ih (Nat.le_of_succ_le hi)
      omega
  have hlast := hless n (Nat.le_refl n)
  omega

/-- A call for the next native job ends, whatever promises follow, adopt or pass on to each other, and takes
no more jobs than the bound. It ends at once if execution is to stop, and otherwise with a native job or an
empty queue. Nor can jobs be run one after another any longer than that. -/
theorem Reached.nextJob_ends (h : Reached limit careful a) :
    (∃ n native b, nextJob a = .ok native b ∧ Pops n a native b ∧ n ≤ a.jobBound ∧
      (a.terminating = true → n = 0 ∧ native = none ∧ b = a) ∧
      (a.terminating = false → native = none → b.queue.toList = [])) ∧
    ∀ n (agents : Nat → Agent), agents 0 = a →
      (∀ i < n, ∃ outcome, (agents i).Pop outcome (agents (i + 1))) → n ≤ a.jobBound := by
  rw [← h.workload_eq]
  constructor
  · obtain ⟨native, b, hb, hruns⟩ := nextJob_runs h.sound
    obtain ⟨n, hpops⟩ := h.sound.nextJob_eq_ok_iff.1 hb
    have hle := hpops.le_workload
    refine ⟨n, native, b, hb, hpops, by omega, fun ht => ?_, hruns.toList_eq_nil⟩
    cases hpops with
    | stopped => exact ⟨rfl, rfl, rfl⟩
    | emptied hf | handed hf | more hf =>
      rw [ht] at hf
      cases hf
  · rintro n agents rfl hp
    exact le_workload_of_pops agents hp

/-- A promise that is to follow a fulfilled one takes two jobs, which is the bound. -/
theorem Reached.nextJob_ends_adopting : ∃ a b, Reached 2 True a ∧ a.jobBound = 2 ∧ Pops 2 a none b ∧
    ∃ n native c, nextJob a = .ok native c ∧ Pops n a native c ∧ n ≤ 2 := by
  let slot (record : PromiseRecord) : Slot := ⟨0, some ⟨.promise record, 0⟩⟩
  let done (value : ManagedValue) : PromiseRecord := ⟨.fulfilled value, true, false, #[]⟩
  let fresh : Agent := ⟨⟨#[slot .new, slot .new], [], 2, 2⟩, .empty, false⟩
  let locked : Agent :=
    ⟨⟨#[slot PromiseRecord.new.lock, slot .new], [], 2, 2⟩, ⟨[], [.follow ⟨0, 0⟩ ⟨1, 0⟩]⟩, false⟩
  let a : Agent :=
    ⟨⟨#[slot PromiseRecord.new.lock, slot (done .null)], [], 2, 2⟩,
      ⟨[], [.follow ⟨0, 0⟩ ⟨1, 0⟩]⟩, false⟩
  let waiting : Agent :=
    ⟨⟨#[slot PromiseRecord.new.lock, slot (done .null).markHandled], [], 2, 2⟩,
      ⟨[], [.react .fulfill (.adopt ⟨0, 0⟩) .null]⟩, false⟩
  let b : Agent :=
    ⟨⟨#[slot (done .null), slot (done .null).markHandled], [], 2, 2⟩, .empty, false⟩
  have hidle {c : Call} (hc : c.value? = none) (a : Agent) : c.PassesLive a := by
    intro value hv
    rw [hc] at hv
    cases hv
  have hfresh : Reached 2 True fresh :=
    .call (c := .newResolver) (.call (c := .newResolver) .new (fun _ => hidle rfl _) rfl)
      (fun _ => hidle rfl _) rfl
  have hlocked : Reached 2 True locked := by
    refine .call (c := .resolve ⟨0, 0⟩ (.object ⟨1, 0⟩)) hfresh (fun _ value hv ref hr => ?_) rfl
    obtain rfl := Option.some.inj hv
    obtain rfl := ManagedValue.object.inj hr
    rfl
  have ha : Reached 2 True a := by
    refine .call (c := .resolve ⟨1, 0⟩ .null) hlocked (fun _ value hv ref hr => ?_) rfl
    obtain rfl := Option.some.inj hv
    cases hr
  have hfollow : a.Pop (.ok none) waiting := ⟨rfl, rfl⟩
  have hadopt : waiting.Pop (.ok none) b := ⟨rfl, rfl⟩
  have hpops : Pops 2 a none b :=
    .more rfl hfollow (fun _ => nofun) (.more rfl hadopt (fun _ => nofun) (.emptied rfl rfl))
  obtain ⟨⟨n, native, c, hc, hn, hle, -⟩, -⟩ := nextJob_ends ha
  exact ⟨a, b, ha, rfl, hpops, n, native, c, hc, hn, hle⟩

end Agent

end Promises
