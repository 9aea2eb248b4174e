import Mathlib.Data.List.Permutation
import Promises.Proofs.Program.Checkpoint
import Promises.Proofs.Program.Registration

namespace Promises

/-- A call that resolves or rejects a promise. -/
structure Settlement where
  kind : ReactionKind
  resolver : Resolver
  value : Value

namespace Settlement

def call (c : Settlement) : Call :=
  match c.kind with
  | .fulfill => .resolve c.resolver c.value
  | .reject => .reject c.resolver c.value

/-- What the call is to decide, if its resolver and its value mean something on the isolate. -/
def verdict? {ε φ : Type} (iso : Isolate ε φ) (c : Settlement) : Option Verdict :=
  match iso.handles.get c.resolver.handle, iso.toManaged c.value with
  | .ok b, .ok value => some ⟨b.object, c.kind, value⟩
  | _, _ => none

end Settlement

/-- A verdict on a promise of a family, with a value that is no object or, for a resolve, with another
promise of the family. -/
structure Verdict.Within (family : Finset ObjectRef) (v : Verdict) : Prop where
  ref : v.ref ∈ family
  value : v.value.Plain ∨ v.kind = .fulfill ∧ ∃ q ∈ family, v.value = .object q

/-- Makes the calls one after the other and comes to a checkpoint. -/
def Program.settling {κ ρ : Type} (next : ℕ → Program κ ρ) : List Settlement → Program κ ρ
  | [] => .checkpoint next
  | c :: calls => .call c.call fun _ => settling next calls

namespace Isolate

variable {κ : Type} {iso : Isolate Agent (Handler κ Empty)}

/-- A call asks the agent for its verdict. -/
theorem settlement_run {c : Settlement} {v : Verdict} {result : Except EngineError Bool} {b : Agent}
    (hv : c.verdict? iso = some v)
    (h : (Agent.Call.settle v.kind v.ref v.value).run iso.engine = .ok (.settled result) b) :
    ∃ answer, c.call.run iso = .ok answer { iso with engine := b } := by
  unfold Settlement.verdict? at hv
  split at hv
  · rename_i bound value hget hvalue
    obtain rfl := Option.some.inj hv
    obtain ⟨kind, resolver, word⟩ := c
    cases kind with
    | fulfill =>
      have hask := ask_run (.resolve bound.object value) rfl h
      exact ⟨result.toOption, (bind_run _ (manage_run hvalue)).trans
        ((bind_run _ (binding_run hget)).trans (bind_run _ hask))⟩
    | reject =>
      have hask := ask_run (.reject bound.object value) rfl h
      exact ⟨result.toOption, (bind_run _ (manage_run hvalue)).trans
        ((bind_run _ (binding_run hget)).trans (bind_run _ hask))⟩
  · cases hv

end Isolate

namespace Stage

open Plan

variable {κ : Type} {m m' : Machine Agent κ Empty} {frames : List (Frame κ Empty)} {plan : Plan} {n ran : ℕ}

/-- The promises that calls are on. -/
def targets (iso : Isolate Agent (Handler κ Empty)) (calls : List Settlement) : List ObjectRef :=
  (calls.filterMap (·.verdict? iso)).map (·.ref)

/-- The calls make the verdicts of a plan known one after the other. -/
theorem carried_calls (hplan : plan.Proper) {calls : List Settlement}
    (hverdicts : ∀ c ∈ calls, ∃ v ∈ plan.verdicts, c.verdict? m.isolate = some v)
    (hdistinct : (targets m.isolate calls).Nodup)
    (hfresh : ∀ p ∈ targets m.isolate calls, m.isolate.engine.heap.record? p = .ok (plan.record p))
    (hm : Steady m frames) (h : plan.Carried (targets m.isolate calls) [] m.isolate.engine ran) :
    ∃ m', Steady m' frames ∧ plan.Carried [] [] m'.isolate.engine ran ∧ ∀ next frames, ∃ n,
      Leads n ⟨m, .settling next calls, frames⟩ ⟨m', .checkpoint next, frames⟩ := by
  induction calls generalizing m with
  | nil => exact ⟨m, hm, h, fun next frames => ⟨0, .refl _⟩⟩
  | cons c calls ih =>
    obtain ⟨v, hv, hverdict⟩ := hverdicts c List.mem_cons_self
    have htargets : targets m.isolate (c :: calls) = v.ref :: targets m.isolate calls := by
      rw [targets, List.filterMap_cons, hverdict]
      rfl
    rw [htargets] at hdistinct hfresh h
    obtain ⟨hnew, hdistinct⟩ := List.nodup_cons.1 hdistinct
    obtain ⟨result, b, hcall, hcarried, hkept⟩ :=
      h.heard hplan hv hm.sound (hfresh v.ref List.mem_cons_self)
    obtain ⟨answer, hrun⟩ := Isolate.settlement_run hverdict hcall
    -- the handles and the strings are as they were, and so is what the calls after it are to decide
    let m₁ : Machine Agent κ Empty := ⟨{ m.isolate with engine := b }, m.memory⟩
    have hone (next : ℕ → Program κ Empty) (frames : List (Frame κ Empty)) :
        Leads 1 ⟨m, .settling next (c :: calls), frames⟩ ⟨m₁, .settling next calls, frames⟩ :=
      .step (Goes.call hrun).step_eq (.refl _)
    have hrest (p : ObjectRef) (hp : p ∈ targets m.isolate calls) :
        m₁.isolate.engine.heap.record? p = .ok (plan.record p) := by
      have hne : p ≠ v.ref := by
        rintro rfl
        exact hnew hp
      exact (hkept p hne).trans (hfresh p (List.mem_cons_of_mem _ hp))
    obtain ⟨m', hm', hall, hway⟩ := ih (m := m₁)
      (fun d hd => hverdicts d (List.mem_cons_of_mem _ hd)) hdistinct hrest
      (hm.leads (hone Program.idle frames)) hcarried
    refine ⟨m', hm', hall, fun next frames => ?_⟩
    obtain ⟨n, hn⟩ := hway next frames
    exact ⟨1 + n, (hone next frames).trans hn⟩

/-- While execution is to stop, calls are refused and no reaction runs. -/
theorem refused_calls (ha : m.isolate.engine.Sound) (ht : m.isolate.engine.terminating = true)
    {calls : List Settlement} (hcalls : ∀ c ∈ calls, ∃ v, c.verdict? m.isolate = some v)
    (next : ℕ → Program κ Empty) (frames : List (Frame κ Empty)) :
    ∃ n, Leads n ⟨m, .settling next calls, frames⟩ ⟨m, next 0, frames⟩ := by
  induction calls with
  | nil =>
    have hnext : Agent.nextJob m.isolate.engine = .ok none m.isolate.engine := by
      rw [Agent.nextJob_eq ha, if_pos ht]
    have hdue : Program.due m = .ok none m := (Program.Finds.nothing hnext).due_eq
    exact ⟨1, .step (Goes.idle hdue).step_eq (.refl _)⟩
  | cons c calls ih =>
    obtain ⟨v, hverdict⟩ := hcalls c List.mem_cons_self
    have hrefused : (Agent.Call.settle v.kind v.ref v.value).run m.isolate.engine =
        .ok (.settled (.error .terminated)) m.isolate.engine := by
      rw [Agent.settle_call_run ha, if_pos ht]
    obtain ⟨answer, hrun⟩ := Isolate.settlement_run hverdict hrefused
    obtain ⟨n, hn⟩ := ih fun d hd => hcalls d (List.mem_cons_of_mem _ hd)
    exact ⟨n + 1, .step (Goes.call hrun).step_eq hn⟩

section

variable {s : Stage Agent κ Empty} {family : Finset ObjectRef} {calls : List Settlement}

/-- A family of promises of which none is settled, with the promises that are to be settled by reactions to
them, while no job waits. -/
structure Unsettled (s : Stage Agent κ Empty) (family : Finset ObjectRef) : Prop where
  pending : ∀ p ∈ family, ∃ record, s.agent.heap.record? p = .ok record ∧ record.status = .pending ∧
    ∀ pair ∈ record.reactions.toList, pair.onFulfilled.target ∈ family
  idle : s.agent.queue.toList = []

theorem steady_reached {id : IsolateId} {config : Config} {iso : Isolate Agent (Handler κ Empty)}
    (hnew : Isolate.new id config = .ok iso) (memory : κ) (program : Program κ Empty)
    (hs : Leads n ⟨⟨iso, memory⟩, program, []⟩ s) : Steady s.machine s.frames := by
  obtain ⟨hheld, haloft⟩ := holds_new hnew memory program
  have hstart : Steady (⟨iso, memory⟩ : Machine Agent κ Empty) [] := ⟨hheld, haloft, fitted_new hnew⟩
  exact hstart.leads hs

/-- The plan of some calls on a family, by the records that the promises have at a stage. -/
def planOf (s : Stage Agent κ Empty) (family : Finset ObjectRef) (calls : List Settlement)
    (answer : FunctionId → ManagedValue → ReactionKind × ManagedValue) : Plan where
  members := family
  record p := (s.agent.heap.record? p).toOption.getD .new
  verdicts := calls.filterMap (·.verdict? s.machine.isolate)
  answer := answer

variable {answer : FunctionId → ManagedValue → ReactionKind × ManagedValue}

theorem record?_planOf (hfamily : s.Unsettled family) {p : ObjectRef} (hp : p ∈ family) :
    s.agent.heap.record? p = .ok ((s.planOf family calls answer).record p) := by
  obtain ⟨record, hr, -⟩ := hfamily.pending p hp
  change s.agent.heap.record? p = .ok ((s.agent.heap.record? p).toOption.getD .new)
  rw [hr]
  rfl

theorem proper_planOf {h : History} (hl : Lifted h s) (hfamily : s.Unsettled family)
    (hcalls : ∀ c ∈ calls, ∃ v, c.verdict? s.machine.isolate = some v ∧ v.Within family)
    (hdistinct : (targets s.machine.isolate calls).Nodup) : (s.planOf family calls answer).Proper := by
  have hrecord {p : ObjectRef} (hp : p ∈ family) :
      s.agent.heap.record? p = .ok ((s.planOf family calls answer).record p) := record?_planOf hfamily hp
  have hwithin (v : Verdict) (hv : v ∈ (s.planOf family calls answer).verdicts) : v.Within family := by
    obtain ⟨c, hc, hverdict⟩ := List.mem_filterMap.1 hv
    obtain ⟨w, hw, hwithin⟩ := hcalls c hc
    obtain rfl := Option.some.inj (hverdict.symm.trans hw)
    exact hwithin
  apply proper_of_history hl.balanced
  · intro p hp
    rw [hl.agent]
    exact hrecord hp
  · intro p hp
    obtain ⟨record, hr, hs, -⟩ := hfamily.pending p hp
    obtain rfl := Except.ok.inj (hr.symm.trans (hrecord hp))
    exact hs
  · intro p hp
    obtain ⟨record, hr, -, hclosed⟩ := hfamily.pending p hp
    obtain rfl := Except.ok.inj (hr.symm.trans (hrecord hp))
    exact hclosed
  · exact fun v hv => (hwithin v hv).ref
  · exact fun v hv => (hwithin v hv).value
  · exact fun v hv w hw hsame => List.inj_on_of_nodup_map hdistinct hv hw hsame

/-- In each order the calls and the checkpoint carry the same plan out to its end. -/
theorem carried_order (hs : Steady s.machine s.frames) (hrunning : s.agent.terminating = false)
    (hfamily : s.Unsettled family) (hplan : (s.planOf family calls answer).Proper)
    (hcalls : ∀ c ∈ calls, ∃ v, c.verdict? s.machine.isolate = some v)
    (hdistinct : (targets s.machine.isolate calls).Nodup) {order : List Settlement}
    (hperm : order.Perm calls)
    (hanswers : ∀ n m next,
      Leads n ⟨s.machine, .settling Program.idle order, []⟩ ⟨m, .checkpoint next, []⟩ →
        Answers m family answer) :
    ∃ reactions m', (s.planOf family calls answer).Carried [] [] m'.isolate.engine reactions ∧
      m'.isolate.engine.queue.toList = [] ∧ ∀ next frames, ∃ n,
        Leads n ⟨s.machine, .settling next order, frames⟩ ⟨m', next reactions, frames⟩ := by
  have hverdicts := hperm.filterMap (·.verdict? s.machine.isolate)
  have htargets : (targets s.machine.isolate order).Perm (targets s.machine.isolate calls) :=
    hverdicts.map Verdict.ref
  -- at first all verdicts are to be heard, and nothing waits
  have hstart : (s.planOf family calls answer).Carried (targets s.machine.isolate order) []
      s.machine.isolate.engine 0 := by
    refine ⟨hrunning, (s.planOf family calls answer).record, fun p hp => record?_planOf hfamily hp, ?_⟩
    have hidle : s.machine.isolate.engine.queue.toList = [] := hfamily.idle
    rw [hidle]
    exact progress_start hplan fun v hv => htargets.mem_iff.2 (List.mem_map_of_mem hv)
  have hknown (c : Settlement) (hc : c ∈ order) :
      ∃ v ∈ (s.planOf family calls answer).verdicts, c.verdict? s.machine.isolate = some v := by
    obtain ⟨v, hv⟩ := hcalls c (hperm.mem_iff.1 hc)
    exact ⟨v, List.mem_filterMap.2 ⟨c, hperm.mem_iff.1 hc, hv⟩, hv⟩
  have hfresh (p : ObjectRef) (hp : p ∈ targets s.machine.isolate order) :
      s.machine.isolate.engine.heap.record? p = .ok ((s.planOf family calls answer).record p) := by
    obtain ⟨v, hv, rfl⟩ := List.mem_map.1 (htargets.mem_iff.1 hp)
    exact record?_planOf hfamily (hplan.named v hv)
  -- after the calls all verdicts are heard, and after the checkpoint all jobs are run
  obtain ⟨m, hm, hheard, hway⟩ :=
    carried_calls hplan hknown (htargets.nodup_iff.2 hdistinct) hfresh hs hstart
  obtain ⟨n, hn⟩ := hway Program.idle []
  obtain ⟨reactions, m', hcarried, hempty, hrest⟩ := carried_checkpoint hplan hm hheard
    fun k m' next hk => hanswers (n + k) m' next (hn.trans hk)
  rw [Nat.zero_add] at hcarried
  refine ⟨reactions, m', hcarried, hempty, fun next frames => ?_⟩
  obtain ⟨i, hi⟩ := hway next frames
  obtain ⟨j, hj⟩ := hrest next frames
  exact ⟨i + j, hi.trans hj⟩

/-- The order of independent settlements does not matter. Wherever a program has come to, take a family of
promises of which none is settled, with all that were derived from them, while no job waits, and calls that
resolve or reject some of them, each promise once, with values that are no objects or with promises of the
family. Let each handler that a checkpoint after the calls comes to end, by its argument alone, with a value
that is no object. Then in every order of the calls the program comes past the checkpoint, with the same
number of reactions, and with the same state, the same result and the same handled flag of every promise.
The ways of a program are its runs, by `run_ok_iff`. -/
theorem settlements_commute {id : IsolateId} {config : Config} {iso : Isolate Agent (Handler κ Empty)}
    (hnew : Isolate.new id config = .ok iso) (memory : κ) (program : Program κ Empty)
    (hs : Leads n ⟨⟨iso, memory⟩, program, []⟩ s) (hfamily : s.Unsettled family)
    (hcalls : ∀ c ∈ calls, ∃ v, c.verdict? s.machine.isolate = some v ∧ v.Within family)
    (hdistinct : (targets s.machine.isolate calls).Nodup)
    (hanswers : ∀ order, order.Perm calls → ∀ n m next,
      Leads n ⟨s.machine, .settling Program.idle order, []⟩ ⟨m, .checkpoint next, []⟩ →
        Answers m family answer) :
    ∃ (reactions : ℕ) (outcome : ObjectRef → PromiseState × ManagedValue × Bool),
      ∀ order, order.Perm calls → ∃ m',
        (∀ next frames, ∃ n,
          Leads n ⟨s.machine, .settling next order, frames⟩ ⟨m', next reactions, frames⟩) ∧
        ∀ p ∈ family, ∃ record, m'.isolate.engine.heap.record? p = .ok record ∧
          (record.state, record.result, record.handled) = outcome p := by
  have hsteady := steady_reached hnew memory program hs
  have hknown (c : Settlement) (hc : c ∈ calls) : ∃ v, c.verdict? s.machine.isolate = some v := by
    obtain ⟨v, hv, -⟩ := hcalls c hc
    exact ⟨v, hv⟩
  cases ht : s.agent.terminating with
  | true =>
    -- an agent that is to stop refuses the calls and hands out no job, so that nothing changes
    let record (p : ObjectRef) : PromiseRecord := (s.planOf family calls answer).record p
    refine ⟨0, fun p => ((record p).state, (record p).result, (record p).handled), fun order hperm => ?_⟩
    refine ⟨s.machine, fun next frames => ?_, fun p hp => ⟨record p, record?_planOf hfamily hp, rfl⟩⟩
    exact refused_calls hsteady.sound ht (fun c hc => hknown c (hperm.mem_iff.1 hc)) next frames
  | false =>
    obtain ⟨path, -, hpath⟩ := hs.trail
    obtain ⟨h, hl, -⟩ := (lifted_new hnew memory program).trail hpath
    have hplan : (s.planOf family calls answer).Proper := proper_planOf hl hfamily hcalls hdistinct
    have hall (order : List Settlement) (hperm : order.Perm calls) :=
      carried_order hsteady ht hfamily hplan hknown hdistinct hperm (hanswers order hperm)
    -- the order that the calls are listed in stands for all others
    obtain ⟨reactions, m₀, ⟨-, now, -, hfirst⟩, hempty, -⟩ := hall calls (List.Perm.refl calls)
    rw [hempty] at hfirst
    refine ⟨reactions, fun p => ((now p).state, (now p).result, (now p).handled), fun order hperm => ?_⟩
    obtain ⟨reactions', m', ⟨-, now', hnow', hprogress⟩, hempty', hway⟩ := hall order hperm
    rw [hempty'] at hprogress
    obtain ⟨rfl, hsame⟩ := hfirst.same hplan hprogress
    refine ⟨m', hway, fun p hp => ⟨now' p, hnow' p hp, ?_⟩⟩
    obtain ⟨hstatus, hhandled⟩ := hsame p hp
    simp only [PromiseRecord.state, PromiseRecord.result, hstatus, hhandled]

end

/-- Registers a handler for the rejection of a promise, and makes another promise. -/
def branching : Program Unit Empty :=
  .register (fun v => .done (.ok v)) fun handler =>
    .call .newResolver fun answer =>
      match answer with
      | none => .done (.error .undefined)
      | some resolver =>
        .call (.addReactions ⟨resolver.handle⟩ none (some handler)) fun _ =>
          .call .newResolver fun _ => .done (.ok .null)

namespace Branching

def handler : Handler Unit Empty := fun v => .done (.ok v)

def native : NativeJob := ⟨.reject, ⟨0⟩, .null, ⟨1, 0⟩⟩

/-- The promise with the handler, while it is pending. -/
def source (latched : Bool) : PromiseRecord :=
  ⟨.pending, latched, true, #[⟨.derive none ⟨1, 0⟩, .derive (some ⟨0⟩) ⟨1, 0⟩⟩]⟩

def rejected (handled : Bool) : PromiseRecord := ⟨.rejected .null, true, handled, #[]⟩

def made : Machine Agent Unit Empty :=
  Handing.machine [(source false, 1), (.new, 1), (.new, 1)] [] [] #[handler]

/-- The first promise is to follow the last one. -/
def resolving : Settlement := ⟨.fulfill, ⟨⟨1, 0, 0⟩⟩, .handle ⟨1, 0, 2⟩⟩

def rejecting : Settlement := ⟨.reject, ⟨⟨1, 0, 2⟩⟩, .null⟩

def called : Machine Agent Unit Empty :=
  Handing.machine [(source true, 1), (.new, 1), (rejected false, 1)] [.follow ⟨0, 0⟩ ⟨2, 0⟩] [] #[handler]

/-- The handler runs. -/
def running : Machine Agent Unit Empty :=
  Handing.machine [(rejected true, 1), (.new, 2), (rejected true, 1)] [] [3] #[handler]

def finished : Machine Agent Unit Empty :=
  Handing.machine [(rejected true, 1), (⟨.fulfilled .null, true, false, #[]⟩, 1), (rejected true, 1)] [] []
    #[handler]

theorem due_called :
    Program.due called = .ok (some (⟨1, 3⟩, native, .done (.ok .null))) running := by
  let followed := Handing.machine [(source true, 1), (.new, 1), (rejected true, 1)]
    [.react .reject (.adopt ⟨0, 0⟩) .null] [] #[handler]
  let adopted := Handing.machine [(rejected true, 1), (.new, 1), (rejected true, 1)]
    [.react .reject (.derive (some ⟨0⟩) ⟨1, 0⟩) .null] [] #[handler]
  have hfollow : Agent.nextJob called.isolate.engine = Agent.nextJob followed.isolate.engine := by
    rw [Agent.nextJob]
    rfl
  have hadopt : Agent.nextJob followed.isolate.engine = Agent.nextJob adopted.isolate.engine := by
    rw [Agent.nextJob]
    rfl
  have hnext : Agent.nextJob called.isolate.engine = .ok (some native) running.isolate.engine := by
    rw [hfollow, hadopt, Agent.nextJob]
    rfl
  exact (bind_run _ (Run.nextJob_run hnext)).trans rfl

theorem due_finished : Program.due finished = .ok none finished := by
  have hnext : Agent.nextJob finished.isolate.engine = .ok none finished.isolate.engine := by
    rw [Agent.nextJob]
    rfl
  exact (Program.Finds.nothing hnext).due_eq

theorem way : Leads 4 ⟨Handing.machine [] [] [] #[], branching, []⟩ ⟨made, .done (.ok .null), []⟩ := by
  refine .step (m := Handing.machine [] [] [] #[handler]) rfl ?_
  refine .step (m := Handing.machine [(.new, 1)] [] [] #[handler]) rfl ?_
  refine .step (m := Handing.machine [(source false, 1), (.new, 1)] [] [] #[handler]) rfl ?_
  exact .step (m := made) rfl (.refl _)

def family : Finset ObjectRef := {⟨0, 0⟩, ⟨1, 0⟩, ⟨2, 0⟩}

/-- The handler gives back the reason. -/
def answer (_ : FunctionId) (value : ManagedValue) : ReactionKind × ManagedValue := (.fulfill, value)

theorem unsettled : (⟨made, .done (.ok .null), []⟩ : Stage Agent Unit Empty).Unsettled family := by
  refine ⟨fun p hp => ?_, rfl⟩
  simp only [family, Finset.mem_insert, Finset.mem_singleton] at hp
  rcases hp with rfl | rfl | rfl
  · exact ⟨source false, rfl, rfl, by simp [source, family, Reaction.target]⟩
  · exact ⟨.new, rfl, rfl, by simp [PromiseRecord.new]⟩
  · exact ⟨.new, rfl, rfl, by simp [PromiseRecord.new]⟩

theorem within {c : Settlement} (hc : c ∈ [resolving, rejecting]) :
    ∃ v, c.verdict? made.isolate = some v ∧ v.Within family := by
  simp only [List.mem_cons, List.not_mem_nil, or_false] at hc
  rcases hc with rfl | rfl
  · exact ⟨⟨⟨0, 0⟩, .fulfill, .object ⟨2, 0⟩⟩, rfl, by decide, .inr ⟨rfl, ⟨2, 0⟩, by decide, rfl⟩⟩
  · exact ⟨⟨⟨2, 0⟩, .reject, .null⟩, rfl, by decide, .inl ⟨trivial, rfl⟩⟩

/-- From the checkpoint on there is one reaction, whose handler answers. -/
theorem answers_called {n : ℕ} {m : Machine Agent Unit Empty} {next : ℕ → Program Unit Empty}
    (hn : Leads n ⟨called, .checkpoint Program.idle, []⟩ ⟨m, .checkpoint next, []⟩) :
    Answers m family answer := by
  rcases hn.cases_step (bind_run _ due_called) with hu | ⟨n, hn⟩
  · cases hu
    intro mark job body m₁ hdue
    obtain ⟨hfound, rfl⟩ := EStateM.Result.ok.inj (due_called.symm.trans hdue)
    cases hfound
    exact ⟨0, .ok .null, running, .null, rfl, rfl, ⟨trivial, rfl⟩, rfl, .refl _ _⟩
  · rcases hn.cases_step (m := finished) rfl with hu | ⟨n, hn⟩
    · cases hu
    · rcases hn.cases_step (bind_run _ due_finished) with hu | ⟨n, hn⟩
      · cases hu
        intro mark job body m₁ hdue
        cases due_finished.symm.trans hdue
      · cases hn.of_done

theorem leads_called (next : ℕ → Program Unit Empty) :
    Leads 2 ⟨made, .settling next [resolving, rejecting], []⟩ ⟨called, .checkpoint next, []⟩ := by
  refine .step (m := Handing.machine [(source true, 1), (.new, 1), (.new, 1)]
    [.follow ⟨0, 0⟩ ⟨2, 0⟩] [] #[handler]) rfl ?_
  exact .step (m := called) rfl (.refl _)

theorem answers {order : List Settlement} (hperm : order.Perm [resolving, rejecting]) {n : ℕ}
    {m : Machine Agent Unit Empty} {next : ℕ → Program Unit Empty}
    (hn : Leads n ⟨made, .settling Program.idle order, []⟩ ⟨m, .checkpoint next, []⟩) :
    Answers m family answer := by
  let resolved := Handing.machine [(source true, 1), (.new, 1), (.new, 1)] [.follow ⟨0, 0⟩ ⟨2, 0⟩] []
    #[handler]
  let refused := Handing.machine [(source false, 1), (.new, 1), (rejected false, 1)] [] [] #[handler]
  rcases List.perm_pair.1 hperm with rfl | rfl
  · rcases hn.cases_step (m := resolved) rfl with hu | ⟨n, hn⟩
    · cases congrArg Stage.program hu
    · rcases hn.cases_step (m := called) rfl with hu | ⟨n, hn⟩
      · cases congrArg Stage.program hu
      · exact answers_called hn
  · rcases hn.cases_step (m := refused) rfl with hu | ⟨n, hn⟩
    · cases congrArg Stage.program hu
    · rcases hn.cases_step (m := called) rfl with hu | ⟨n, hn⟩
      · cases congrArg Stage.program hu
      · exact answers_called hn

end Branching

open Branching

/-- A promise that follows another one comes to the same whether it is resolved before the other one is
rejected or after it. In both orders the handler of its rejection runs, and fulfills the derived promise. -/
theorem settlements_commute_branching :
    ∃ outcome : ObjectRef → PromiseState × ManagedValue × Bool,
      outcome ⟨1, 0⟩ = (.fulfilled, .null, false) ∧
      ∀ order ∈ [[resolving, rejecting], [rejecting, resolving]], ∃ m',
        (∀ next frames, ∃ n, Leads n ⟨made, .settling next order, frames⟩ ⟨m', next 1, frames⟩) ∧
        ∀ p ∈ family, ∃ record, m'.isolate.engine.heap.record? p = .ok record ∧
          (record.state, record.result, record.handled) = outcome p := by
  have hnew : Isolate.new ⟨1⟩ .default = .ok (Handing.machine [] [] [] #[]).isolate := rfl
  obtain ⟨reactions, outcome, hall⟩ := settlements_commute hnew () branching way unsettled
    (fun c hc => within hc) (by decide) fun order hperm n m next hn => answers hperm hn
  -- one order tells the number of the reactions and the outcome
  let next (ran : ℕ) : Program Unit Empty := .done (if ran = 1 then .ok .null else .error .null)
  have hend : Leads 5 ⟨made, .settling next [resolving, rejecting], []⟩ ⟨finished, next 1, []⟩ := by
    have hreaction : Leads 3 ⟨called, .checkpoint next, []⟩ ⟨finished, next 1, []⟩ := by
      refine .step (bind_run _ due_called) (.step (m := finished) rfl ?_)
      exact .step (bind_run _ due_finished) (.refl _)
    exact (leads_called next).trans hreaction
  obtain ⟨m', hway, hrecords⟩ := hall _ (List.Perm.refl _)
  obtain ⟨n, hn⟩ := hway next []
  have hsame := hn.end_unique hend
  have hcompletion := Program.done.inj (congrArg Stage.program hsame)
  have hone : reactions = 1 := by
    by_contra hne
    rw [if_neg hne] at hcompletion
    cases hcompletion
  obtain rfl : m' = finished := congrArg Stage.machine hsame
  obtain ⟨record, hrecord, houtcome⟩ := hrecords ⟨1, 0⟩ (by decide)
  obtain rfl : ⟨.fulfilled .null, true, false, #[]⟩ = record := Except.ok.inj hrecord
  subst hone
  refine ⟨outcome, houtcome.symm, fun order horder => hall order ?_⟩
  simp only [List.mem_cons, List.not_mem_nil, or_false] at horder
  exact List.perm_pair.2 horder

end Stage

end Promises
