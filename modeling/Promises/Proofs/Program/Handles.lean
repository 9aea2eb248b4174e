import Promises.Proofs.Isolate.Calls
import Promises.Proofs.Program.Course

namespace Promises

namespace Isolate.Held

variable {κ ρ : Type} {iso next : Isolate Agent (Handler κ ρ)} {e : Agent} {narrow : Prop}
  {owed : List ObjectRef}

theorem registerFunction (h : iso.Held narrow owed) {f : Handler κ ρ} {id : FunctionId}
    (hr : Isolate.registerFunction f iso = .ok id next) : next.Held narrow owed := by
  obtain ⟨-, rfl⟩ := EStateM.Result.ok.inj hr
  exact h.of_same rfl rfl

/-- A job that is taken owes a root to the promise that it is to settle. No other one is owed to it. -/
theorem nextJob (h : iso.Held narrow owed) {job : Option NativeJob}
    (hr : Engine.nextJob iso.engine = .ok job e)
    (hn : (job.toList.map (·.derived) ++ owed).Nodup) :
    ({ iso with engine := e } : Isolate Agent (Handler κ ρ)).Held narrow
        (job.toList.map (·.derived) ++ owed) ∧
      ∀ found, job = some found → e.Admits narrow found.kind found.argument := by
  obtain ⟨native, e', hnext, hfit, hadmits, hkeeps⟩ := h.fit.nextJob
  obtain ⟨rfl, rfl⟩ := EStateM.Result.ok.inj (hnext.symm.trans hr)
  have hroom := hkeeps fun found _ => h.room found.derived
  exact ⟨⟨h.toOwes.engine hfit hroom, hn⟩, fun found hf => (hadmits found hf).2⟩

/-- The promise of a job is settled with what the handler came to. -/
theorem conclude (h : iso.Held narrow owed) {derived : ObjectRef} {completion : Completion}
    (hc : narrow → completion.value.Checked) (hr : Run.conclude derived completion iso = .ok () next) :
    next.Held narrow owed := by
  obtain ⟨m, mid, hmanage, hsettle⟩ := bind_ok hr
  obtain ⟨hm, rfl⟩ := manage_ok hmanage
  have hadmits := h.toManaged hc hm
  cases completion with
  | ok v =>
    obtain ⟨answer, last, ha, hrest⟩ := bind_ok hsettle
    obtain ⟨-, rfl⟩ := EStateM.Result.ok.inj hrest
    exact (h.ask (h.fit.resolve derived hadmits) ha).1
  | error v =>
    obtain ⟨answer, last, ha, hrest⟩ := bind_ok hsettle
    obtain ⟨-, rfl⟩ := EStateM.Result.ok.inj hrest
    exact (h.ask (h.fit.reject derived hadmits) ha).1

theorem giveBack {ref : ObjectRef} (h : iso.Held narrow (ref :: owed))
    (hr : Engine.release ref iso.engine = .ok () e) :
    ({ iso with engine := e } : Isolate Agent (Handler κ ρ)).Held narrow owed := by
  obtain ⟨-, rfl⟩ := EStateM.Result.ok.inj hr
  exact ⟨h.toOwes.release, h.once.of_cons⟩

end Isolate.Held

namespace Stage

variable {κ : Type} {s t : Stage Agent κ Empty}

/-- The checked constructors made the values that the next step uses. -/
def Checked {ε κ ρ : Type} (s : Stage ε κ ρ) : Prop :=
  match s.program with
  | .done completion => completion.value.Checked
  | .call call _ => call.Checked
  | _ => True

/-- The roots of an isolate are its handles and the promises of the reactions under way, whose jobs some
history of its agent has handed out. -/
structure Holds (s : Stage Agent κ Empty) (narrow : Prop) : Prop where
  held : s.machine.isolate.Held narrow (inFlight s.frames)
  aloft : ∃ h, Aloft h s.agent s.frames

/-- So it is, where all values are checked. -/
abbrev Held (s : Stage Agent κ Empty) : Prop := s.Holds True

section

variable {m m' : Machine Agent κ Empty} {narrow : Prop} {owed : List ObjectRef}

/-- The promise of a reaction that is due has a root until the reaction is over. -/
theorem held_due (h : m.isolate.Held narrow owed)
    {found : Option (ScopeMark × NativeJob × Program κ Empty)}
    (hr : Program.due m = .ok found m') (hn : ((found.map (·.2.1.derived)).toList ++ owed).Nodup) :
    m'.isolate.Held narrow ((found.map (·.2.1.derived)).toList ++ owed) := by
  cases Program.due_ok hr with
  | nothing hnext => exact (h.nextJob hnext hn).1
  | @reaction e job mark argument opened iso hnext hopen hnative =>
    obtain ⟨h₁, hadmits⟩ := h.nextJob hnext hn
    obtain ⟨h₂, hengine⟩ := h₁.openScope hopen
    -- the argument has no root: nothing may be collected before it has its handle
    have hargument : opened.engine.Admits narrow job.kind job.argument := by
      rw [hengine]
      exact hadmits job rfl
    exact (h₂.toNative hargument.reject hnative).1

end

/-- Nothing in this depends on what is left of the program. -/
theorem Holds.of_program {narrow : Prop} (h : s.Holds narrow) (p : Program κ Empty) :
    (⟨s.machine, p, s.frames⟩ : Stage Agent κ Empty).Holds narrow :=
  ⟨h.held, h.aloft⟩

/-- The promise of a reaction under way has a root, and so it is there. -/
theorem Holds.isLive_of_flying {narrow : Prop} (h : s.Holds narrow) {job : NativeJob}
    (hj : job ∈ flying s.frames) : s.agent.heap.isLive job.derived = true := by
  have howed : job.derived ∈ inFlight s.frames := by
    rw [inFlight_eq]
    exact List.mem_map_of_mem hj
  exact Heap.isLive_of_rootCount (h.held.rootCount_ne_zero (Or.inr howed))

/-- Every step keeps the handles held, also into and out of scopes and handlers. -/
theorem Holds.step {narrow : Prop} (hh : s.Holds narrow) (hc : narrow → s.Checked)
    {p : Program κ Empty} {frames : List (Frame κ Empty)} {m : Machine Agent κ Empty}
    (hs : s.step = .ok (p, frames) m) : (⟨m, p, frames⟩ : Stage Agent κ Empty).Holds narrow := by
  obtain ⟨h, history, hhistory⟩ := id hh
  obtain ⟨next, hnext⟩ := hhistory.step (fun job => hh.isLive_of_flying) hs
  refine ⟨?_, next, hnext⟩
  cases goes_of_step hs with
  | stay | read | update => exact h
  | call hcall => exact (h.call hc hcall).1
  | register hregister => exact h.registerFunction hregister
  -- a scope is closed where its frame is left
  | enterScope hopen => exact (h.openScope hopen).1
  | enterEscape hopen => exact (h.openScope hopen).1
  | leaveScope hclose => exact (h.closeScope hclose).1
  | leaveEscape hv hclose => exact (h.closeScope hclose).1
  | @escape m c mark next frames handle id b closed iso hv hget hclose hregister =>
    -- the object may lose its last root here, but no object goes before it has a new one
    obtain ⟨h₁, hkind⟩ := h.closeScope hclose
    have hb : closed.engine.heap.kind? b.object = some b.kind := by
      rw [hkind]
      exact h.bound b (HandleTable.mem_of_get hget)
    exact h₁.register hb hregister
  -- what is under way after the step was handed out, and nothing is handed out twice
  | idle hdue => exact held_due h hdue hnext.once
  | react hdue => exact held_due h hdue hnext.once
  | conclude hconclude hclose hrelease =>
    have h₁ := h.conclude hc hconclude
    have h₂ := (h₁.closeScope hclose).1
    exact h₂.giveBack hrelease

/-- Every stage that is reached by steps with checked values is held. -/
theorem Held.leads {n : Nat} (h : s.Held) (hn : Leads n s t)
    (hc : ∀ k u, k < n → Leads k s u → u.Checked) : t.Held := by
  induction hn with
  | refl => exact h
  | step hs _ ih =>
    have hfirst := hc 0 _ (Nat.succ_pos _) (.refl _)
    apply ih (Holds.step h (fun _ => hfirst) hs)
    intro k u hk hu
    exact hc (k + 1) u (Nat.succ_lt_succ hk) (.step hs hu)

theorem holds_new {narrow : Prop} {id : IsolateId} {config : Config}
    {iso : Isolate Agent (Handler κ Empty)} (hnew : Isolate.new id config = .ok iso) (memory : κ)
    (program : Program κ Empty) :
    (⟨⟨iso, memory⟩, program, []⟩ : Stage Agent κ Empty).Holds narrow :=
  ⟨Isolate.held_create (Isolate.create_of_new hnew), _, aloft_new hnew⟩

theorem held_new {id : IsolateId} {config : Config} {iso : Isolate Agent (Handler κ Empty)}
    (hnew : Isolate.new id config = .ok iso) (memory : κ) (program : Program κ Empty) :
    (⟨⟨iso, memory⟩, program, []⟩ : Stage Agent κ Empty).Held := holds_new hnew memory program

/-- On every way of a program that uses checked values, each handle is bound to a live object of its
kind, the roots of an object are its handles and the reactions under way that are to settle it, and the
queries on the live handle of a promise come to an end while the table has room. The ways of a program
are its runs, by `run_ok_iff`. -/
theorem handles_sound {id : IsolateId} {config : Config} {iso : Isolate Agent (Handler κ Empty)}
    (hnew : Isolate.new id config = .ok iso) (memory : κ) (program : Program κ Empty) {n : Nat}
    (hs : Leads n ⟨⟨iso, memory⟩, program, []⟩ s)
    (hc : ∀ k t, k < n → Leads k ⟨⟨iso, memory⟩, program, []⟩ t → t.Checked) :
    (∀ b ∈ s.machine.isolate.handles.entries.toList,
      s.machine.isolate.engine.heap.isLive b.object = true ∧
        (b.kind = .promise ↔ s.machine.isolate.engine.heap.isPromise b.object = true)) ∧
    (∀ ref, s.machine.isolate.engine.heap.rootCount ref =
      (s.machine.isolate.handles.entries.toList.map (·.object)).count ref +
        (inFlight s.frames).count ref) ∧
    (s.machine.isolate.handles.size < HandleId.capacity →
      ∀ handle b, s.machine.isolate.handles.get handle = .ok b → b.kind = .promise →
        ∀ query ∈ Call.queries handle, ∃ answer next,
          query.run s.machine.isolate = .ok answer next) := by
  obtain ⟨hheld, -⟩ : s.Held := (held_new hnew memory program).leads hs hc
  refine ⟨?_, hheld.roots, ?_⟩
  · intro b hb
    have hlive := hheld.isLive hb
    have hkind := hheld.bound b hb
    refine ⟨hlive, ?_⟩
    rw [Heap.isPromise_iff_kind?, hkind, Option.some.injEq]
  · intro hroom handle b hb hp
    exact hheld.answers hb hp hroom

/-- The values on a way are checked, if those of its first step and those after it are. -/
theorem checked_of_step {n : Nat} {m : Machine Agent κ Empty} {p : Program κ Empty}
    {frames : List (Frame κ Empty)} (hc : s.Checked) (hs : s.step = .ok (p, frames) m)
    (hrest : ∀ k t, k < n → Leads k ⟨m, p, frames⟩ t → t.Checked) :
    ∀ k t, k < n + 1 → Leads k s t → t.Checked := by
  intro k t hk ht
  cases k with
  | zero =>
    cases ht
    exact hc
  | succ k =>
    have hfirst : Leads 1 s ⟨m, p, frames⟩ := .step hs (.refl _)
    have hlater : Leads k ⟨m, p, frames⟩ t := by
      apply hfirst.rest
      rw [Nat.add_comm]
      exact ht
    exact hrest k t (Nat.lt_of_succ_lt_succ hk) hlater

/-- Resolves a promise that has a handler and comes to a checkpoint. -/
def chaining : Program Unit Empty :=
  .register (fun v => .done (.ok v)) fun handler =>
    .call .newResolver fun answer =>
      match answer with
      | none => .done (.error .undefined)
      | some resolver =>
        .call (.addReactions ⟨resolver.handle⟩ (some handler) none) fun _ =>
          .call (.resolve resolver .null) fun _ => .checkpoint fun _ => .done (.ok .null)

/-- A derived promise has a root for its handle and one for the reaction that is to settle it. -/
theorem handles_sound_reaction : ∃ s : Stage Agent Unit Empty,
    s.machine.isolate.engine.heap.rootCount ⟨1, 0⟩ = 2 ∧
      ∀ query ∈ Call.queries ⟨1, 0, 1⟩, ∃ answer next,
        query.run s.machine.isolate = .ok answer next := by
  let machine (slots : Array Slot) (jobs : List Job) (entries : Array Binding) (scopes : List Nat)
      (functions : Array (Handler Unit Empty)) : Machine Agent Unit Empty :=
    ⟨⟨⟨1⟩, .default, ⟨⟨slots, [], 65536, slots.size⟩, ⟨[], jobs⟩, false⟩,
      ⟨⟨1⟩, entries, (entries.toList.map fun _ => 0).toArray, scopes⟩, .empty, functions⟩, ()⟩
  let handler : Handler Unit Empty := fun v => .done (.ok v)
  let job : Job := .react .fulfill (.derive (some ⟨0⟩) ⟨1, 0⟩) .null
  let native : NativeJob := ⟨.fulfill, ⟨0⟩, .null, ⟨1, 0⟩⟩
  let first : Binding := ⟨⟨1⟩, ⟨0, 0⟩, .promise⟩
  let derived : Binding := ⟨⟨1⟩, ⟨1, 0⟩, .promise⟩
  let slot (record : PromiseRecord) (roots : UInt32) : Slot := ⟨0, some ⟨.promise record, roots⟩⟩
  let waiting : PromiseRecord :=
    ⟨.pending, false, true, #[⟨.derive (some ⟨0⟩) ⟨1, 0⟩, .derive none ⟨1, 0⟩⟩]⟩
  let settled : PromiseRecord := ⟨.fulfilled .null, true, true, #[]⟩
  let m₀ := machine #[] [] #[] [] #[]
  let m₁ := machine #[] [] #[] [] #[handler]
  let m₂ := machine #[slot .new 1] [] #[first] [] #[handler]
  let m₃ := machine #[slot waiting 1, slot .new 1] [] #[first, derived] [] #[handler]
  let m₄ := machine #[slot settled 1, slot .new 1] [job] #[first, derived] [] #[handler]
  let m₅ := machine #[slot settled 1, slot .new 2] [] #[first, derived] [2] #[handler]
  let last : Stage Agent Unit Empty :=
    ⟨m₅, .done (.ok .null), [.reaction ⟨1, 2⟩ native fun _ => .done (.ok .null)]⟩
  -- the loop over the jobs does not unfold by itself, and the job at its front is a native one
  have hnext : Agent.nextJob m₄.isolate.engine = .ok (some native) m₅.isolate.engine := by
    rw [Agent.nextJob]
    rfl
  have hengine : Engine.nextJob m₄.isolate.engine = .ok (some native) m₅.isolate.engine := hnext
  have hrun : (Run.onIsolate (Isolate.onEngine Engine.nextJob) : Run Agent Unit Empty _) m₄ =
      .ok (some native) ⟨{ m₄.isolate with engine := m₅.isolate.engine }, ()⟩ := by
    rw [Run.onIsolate_run, Isolate.onEngine_run, hengine]
  have hdue : Program.due m₄ = .ok (some (⟨1, 2⟩, native, .done (.ok .null))) m₅ := by
    refine (bind_run _ hrun).trans ?_
    rfl
  have hlast : (⟨m₄, .checkpoint fun _ => .done (.ok .null), []⟩ : Stage Agent Unit Empty).step =
      .ok (last.program, last.frames) last.machine := by
    refine (bind_run _ hdue).trans ?_
    rfl
  have hs : Leads 5 ⟨m₀, chaining, []⟩ last := by
    refine .step (m := m₁) rfl ?_
    refine .step (m := m₂) rfl ?_
    refine .step (m := m₃) rfl ?_
    refine .step (m := m₄) rfl ?_
    exact .step hlast (.refl _)
  have hc : ∀ k t, k < 5 → Leads k ⟨m₀, chaining, []⟩ t → t.Checked := by
    refine checked_of_step (m := m₁) trivial rfl ?_
    refine checked_of_step (m := m₂) trivial rfl ?_
    refine checked_of_step (m := m₃) trivial rfl ?_
    refine checked_of_step (m := m₄) .null rfl ?_
    refine checked_of_step trivial hlast ?_
    intro k t hk
    exact absurd hk (Nat.not_lt_zero k)
  have hnew : Isolate.new ⟨1⟩ .default = .ok m₀.isolate := rfl
  obtain ⟨-, hroots, hqueries⟩ := handles_sound hnew () chaining hs hc
  refine ⟨last, (hroots ⟨1, 0⟩).trans rfl, ?_⟩
  exact hqueries (by decide) ⟨1, 0, 1⟩ derived rfl rfl

end Stage

end Promises
