import Promises.Proofs.Isolate.Served
import Promises.Proofs.Program.Step

/-! What a program does to its agent, stage by stage. A step is a call of the agent at most, besides
roots that are given and taken back: one that settles no promise, one with which the program settles
one, one for the next native job, or one that settles the promise of a reaction that has ended. -/

namespace Promises

/-- How a handler that ends like this settles its promise. -/
def Completion.kind : Completion → ReactionKind
  | .ok _ => .fulfill
  | .error _ => .reject

namespace Isolate

variable {κ ρ : Type} {iso next : Isolate Agent (Handler κ ρ)}

/-- What the end of a reaction asks of the agent. -/
theorem conclude_ok {derived : ObjectRef} {completion : Completion}
    (hr : Run.conclude derived completion iso = .ok () next) :
    ∃ value result, iso.toManaged completion.value = .ok value ∧
      (Agent.Call.settle completion.kind derived value).run iso.engine =
        .ok (.settled result) next.engine := by
  obtain ⟨value, mid, hmanage, hsettle⟩ := bind_ok hr
  obtain ⟨hm, rfl⟩ := manage_ok hmanage
  have hask {request : Request Agent Bool} {c : Agent.Call}
      (hcall : c.run = .settled <$> request.run)
      (hr : (discard (Isolate.ask request) : Action (Isolate Agent (Handler κ ρ)) Unit) mid =
        .ok () next) :
      ∃ result, c.run mid.engine = .ok (.settled result) next.engine := by
    obtain ⟨result, last, ha, hrest⟩ := bind_ok hr
    obtain ⟨-, rfl⟩ := EStateM.Result.ok.inj hrest
    obtain ⟨e, he, rfl⟩ := onEngine_ok ha
    exact ⟨result, by rw [hcall, Action.map_run, he]⟩
  cases completion with
  | ok v =>
    obtain ⟨result, hc⟩ := hask (c := .resolve derived value) rfl hsettle
    exact ⟨value, result, hm, hc⟩
  | error v =>
    obtain ⟨result, hc⟩ := hask (c := .reject derived value) rfl hsettle
    exact ⟨value, result, hm, hc⟩

end Isolate

namespace Stage

section

variable {ε κ ρ : Type} [Engine ε] [Moves ε κ ρ] {s t u : Stage ε κ ρ}

/-- The way from one stage to another, as the list of the stages that steps are taken from. -/
inductive Trail : Stage ε κ ρ → List (Stage ε κ ρ) → Stage ε κ ρ → Prop
  | refl (s : Stage ε κ ρ) : Trail s [] s
  | step {s u : Stage ε κ ρ} {m : Machine ε κ ρ} {p : Program κ ρ} {frames : List (Frame κ ρ)}
    {path : List (Stage ε κ ρ)} (hs : s.step = .ok (p, frames) m)
    (h : Trail ⟨m, p, frames⟩ path u) : Trail s (s :: path) u

theorem Trail.leads {path : List (Stage ε κ ρ)} (h : Trail s path u) : Leads path.length s u := by
  induction h with
  | refl => exact .refl _
  | step hs _ ih => exact .step hs ih

/-- Each number of steps has a way. -/
theorem Leads.trail {n : Nat} (h : Leads n s u) : ∃ path, path.length = n ∧ Trail s path u := by
  induction h with
  | refl => exact ⟨[], rfl, .refl _⟩
  | step hs _ ih =>
    obtain ⟨path, hn, hpath⟩ := ih
    exact ⟨_ :: path, congrArg (· + 1) hn, .step hs hpath⟩

theorem Trail.split {before path : List (Stage ε κ ρ)} (h : Trail s (before ++ t :: path) u) :
    Trail s before t ∧ ∃ m p frames, t.step = .ok (p, frames) m ∧ Trail ⟨m, p, frames⟩ path u := by
  induction before generalizing s with
  | nil =>
    cases h with
    | step hs h => exact ⟨.refl _, _, _, _, hs, h⟩
  | cons first before ih =>
    cases h with
    | step hs h =>
      obtain ⟨hbefore, hrest⟩ := ih h
      exact ⟨.step hs hbefore, hrest⟩

/-- The promises that the reactions under way are to settle. -/
def inFlight : List (Frame κ ρ) → List ObjectRef
  | [] => []
  | .reaction _ job _ :: frames => job.derived :: inFlight frames
  | .scope .. :: frames | .escape .. :: frames => inFlight frames

/-- The native jobs of the reactions under way. -/
def flying : List (Frame κ ρ) → List NativeJob
  | [] => []
  | .reaction _ job _ :: frames => job :: flying frames
  | .scope .. :: frames | .escape .. :: frames => flying frames

theorem inFlight_eq (frames : List (Frame κ ρ)) :
    inFlight frames = (flying frames).map (·.derived) := by
  induction frames with
  | nil => rfl
  | cons frame frames ih => cases frame <;> simp [inFlight, flying, ih]

/-- The native job whose reaction begins with the next step: its handler is about to be run. -/
def begins? (s : Stage ε κ ρ) : Option NativeJob :=
  match s.program with
  | .checkpoint _ =>
    match (Program.due s.machine : EStateM.Result Halt (Machine ε κ ρ) _) with
    | .ok (some (_, job, _)) _ => some job
    | _ => none
  | _ => none

/-- The native job whose reaction ends with the next step, and how its handler ended. -/
def ends? (s : Stage ε κ ρ) : Option (NativeJob × Completion) :=
  match s.program, s.frames with
  | .done completion, .reaction _ job _ :: _ => some (job, completion)
  | _, _ => none

/-- The native jobs whose reactions begin on a way. -/
def begun (path : List (Stage ε κ ρ)) : List NativeJob := path.filterMap begins?

/-- The native jobs whose reactions end on a way. -/
def ended (path : List (Stage ε κ ρ)) : List NativeJob :=
  path.filterMap fun s => s.ends?.map (·.1)

end

variable {κ : Type} {s t u : Stage Agent κ Empty}

theorem begun_append (path more : List (Stage Agent κ Empty)) :
    begun (path ++ more) = begun path ++ begun more := List.filterMap_append

theorem ended_append (path more : List (Stage Agent κ Empty)) :
    ended (path ++ more) = ended path ++ ended more := List.filterMap_append

theorem begun_singleton (s : Stage Agent κ Empty) : begun [s] = s.begins?.toList := by
  cases hb : s.begins? <;> simp [begun, hb]

theorem ended_singleton (s : Stage Agent κ Empty) :
    ended [s] = (s.ends?.map (·.1)).toList := by
  cases he : s.ends? <;> simp [ended, he]

theorem mem_ended_iff {path : List (Stage Agent κ Empty)} {job : NativeJob} :
    job ∈ ended path ↔ ∃ v ∈ path, ∃ completion, v.ends? = some (job, completion) := by
  simp [ended, List.mem_filterMap]

/-- A reaction that ends is under way. -/
theorem mem_flying_of_ends {job : NativeJob} {completion : Completion}
    (he : s.ends? = some (job, completion)) : job ∈ flying s.frames := by
  unfold ends? at he
  split at he
  · rename_i hframes
    obtain ⟨rfl, rfl⟩ := Prod.mk.inj (Option.some.inj he)
    rw [hframes]
    exact List.mem_cons_self
  · cases he

/-- The agent of a stage. -/
def agent (s : Stage Agent κ Empty) : Agent := s.machine.isolate.engine

/-- With the next step the program itself resolves or rejects a promise, and that is accepted. -/
inductive Settles (s : Stage Agent κ Empty) (ref : ObjectRef) : Prop
  | resolve {r : Resolver} {v : Value} {next : Option Bool → Program κ Empty} {b : Binding}
    {iso : Isolate Agent (Handler κ Empty)} (hp : s.program = .call (.resolve r v) next)
    (hb : s.machine.isolate.handles.get r.handle = .ok b) (ho : b.object = ref)
    (hr : Isolate.resolve r v s.machine.isolate = .ok (some true) iso)
  | reject {r : Resolver} {v : Value} {next : Option Bool → Program κ Empty} {b : Binding}
    {iso : Isolate Agent (Handler κ Empty)} (hp : s.program = .call (.reject r v) next)
    (hb : s.machine.isolate.handles.get r.handle = .ok b) (ho : b.object = ref)
    (hr : Isolate.reject r v s.machine.isolate = .ok (some true) iso)

/-- With the next step the program registers handlers with the promise `p` and gets a handle of the
promise `d`. -/
inductive Registers (s : Stage Agent κ Empty) (p : ObjectRef) (f g : Option FunctionId)
    (d : ObjectRef) : Prop
  | mk {source derived : Promise} {next : Option Promise → Program κ Empty} {b c : Binding}
    {iso : Isolate Agent (Handler κ Empty)} (hprogram : s.program = .call (.addReactions source f g) next)
    (hsource : s.machine.isolate.handles.get source.handle = .ok b) (hp : b.object = p)
    (hr : Isolate.addReactions source f g s.machine.isolate = .ok (some derived) iso)
    (hderived : iso.handles.get derived.handle = .ok c) (hd : c.object = d)

open Agent (Rootings Serves)

/-- What a step does to the agent. -/
inductive Turn (s : Stage Agent κ Empty) : Agent → Prop
  | served {b : Agent} (h : s.agent.Serves b) (hb : s.begins? = none) (he : s.ends? = none) : Turn s b
  | asked {kind : ReactionKind} {ref : ObjectRef} {value : ManagedValue}
    {result : Except EngineError Bool} {b : Agent}
    (hc : (Agent.Call.settle kind ref value).run s.agent = .ok (.settled result) b)
    (hs : result = .ok true → s.Settles ref) (hb : s.begins? = none) (he : s.ends? = none) : Turn s b
  | began {native : Option NativeJob} {m b : Agent}
    (hn : Agent.nextJob s.agent = .ok native m) (hr : Rootings m b) (hb : s.begins? = native)
    (he : s.ends? = none) : Turn s b
  | ended {job : NativeJob} {completion : Completion} {value : ManagedValue}
    {result : Except EngineError Bool} {m b : Agent} (he : s.ends? = some (job, completion))
    (hv : s.machine.isolate.toManaged completion.value = .ok value)
    (hc : (Agent.Call.settle completion.kind job.derived value).run s.agent = .ok (.settled result) m)
    (hr : Rootings m b) (hb : s.begins? = none) : Turn s b

/-- A reaction that begins is under way until it ends. -/
def Flies (s : Stage Agent κ Empty) (frames : List (Frame κ Empty)) : Prop :=
  s.begins?.toList ++ flying s.frames = (s.ends?.map (·.1)).toList ++ flying frames

theorem due_rootings {m m' : Machine Agent κ Empty}
    {found : Option (ScopeMark × NativeJob × Program κ Empty)}
    (hr : Program.due m = .ok found m') :
    ∃ e, Agent.nextJob m.isolate.engine = .ok (found.map (·.2.1)) e ∧
      Rootings e m'.isolate.engine := by
  cases Program.due_ok hr with
  | nothing hnext => exact ⟨_, hnext, .refl⟩
  | reaction hnext hopen hnative =>
    have hroots := Isolate.toNative_rootings hnative
    rw [Isolate.openScope_engine hopen] at hroots
    exact ⟨_, hnext, hroots⟩

/-- What a call does to the agent. -/
theorem turn_call {call : Call} {next : call.Answer → Program κ Empty}
    {frames : List (Frame κ Empty)} {answer : call.Answer} {m : Machine Agent κ Empty}
    {iso : Isolate Agent (Handler κ Empty)} (hr : call.run m.isolate = .ok answer iso) :
    (⟨m, .call call next, frames⟩ : Stage Agent κ Empty).Turn iso.engine := by
  by_cases hc : (∀ r v, call ≠ .resolve r v) ∧ ∀ r v, call ≠ .reject r v
  · exact .served (Isolate.call_serves hc hr) rfl rfl
  · cases call with
    | resolve r v =>
      obtain ⟨value, b, result, hv, hb, hsettle, rfl⟩ := Isolate.settle_ok .fulfill (fun _ _ => rfl) hr
      refine .asked hsettle (fun hresult => ?_) rfl rfl
      subst hresult
      exact .resolve rfl hb rfl hr
    | reject r v =>
      obtain ⟨value, b, result, hv, hb, hsettle, rfl⟩ := Isolate.settle_ok .reject (fun _ _ => rfl) hr
      refine .asked hsettle (fun hresult => ?_) rfl rfl
      subst hresult
      exact .reject rfl hb rfl hr
    | _ => exact absurd ⟨by simp, by simp⟩ hc

theorem begins?_of_due {m m' : Machine Agent κ Empty} {next : ℕ → Program κ Empty}
    {frames : List (Frame κ Empty)} {found : Option (ScopeMark × NativeJob × Program κ Empty)}
    (hr : Program.due m = .ok found m') :
    (⟨m, .checkpoint next, frames⟩ : Stage Agent κ Empty).begins? = found.map (·.2.1) := by
  rw [begins?]
  dsimp only
  rw [hr]
  cases found <;> rfl

theorem step_turn {p : Program κ Empty} {frames : List (Frame κ Empty)} {m : Machine Agent κ Empty}
    (hs : s.step = .ok (p, frames) m) : s.Turn m.isolate.engine ∧ s.Flies frames := by
  have hself {a : Agent} : a.Serves a := Agent.serves_self a
  cases goes_of_step hs with
  | stay | read | update => exact ⟨.served hself rfl rfl, rfl⟩
  | call hcall => exact ⟨turn_call hcall, rfl⟩
  | register hregister =>
    obtain ⟨-, rfl⟩ := EStateM.Result.ok.inj hregister
    exact ⟨.served hself rfl rfl, rfl⟩
  | enterScope hopen =>
    rw [Isolate.openScope_engine hopen]
    exact ⟨.served hself rfl rfl, rfl⟩
  | enterEscape hopen =>
    rw [Isolate.openScope_engine hopen]
    exact ⟨.served hself rfl rfl, rfl⟩
  | leaveScope hclose => exact ⟨.served (Isolate.closeScope_rootings hclose).serves rfl rfl, rfl⟩
  | leaveEscape hv hclose => exact ⟨.served (Isolate.closeScope_rootings hclose).serves rfl rfl, rfl⟩
  | escape hv hget hclose hregister =>
    -- the value that is kept gets its handle in the scope outside
    have hserves := (Isolate.closeScope_rootings hclose).serves
    exact ⟨.served (hserves.rootings (Isolate.register_rootings hregister)) rfl rfl, rfl⟩
  | idle hdue =>
    obtain ⟨e, hn, hroots⟩ := due_rootings hdue
    refine ⟨.began hn hroots (begins?_of_due hdue) rfl, ?_⟩
    rw [Flies, begins?_of_due hdue]
    rfl
  | react hdue =>
    obtain ⟨e, hn, hroots⟩ := due_rootings hdue
    refine ⟨.began hn hroots (begins?_of_due hdue) rfl, ?_⟩
    rw [Flies, begins?_of_due hdue]
    rfl
  | conclude hconclude hclose hrelease =>
    -- the promise is settled before its root is taken back
    obtain ⟨value, result, hv, hc⟩ := Isolate.conclude_ok hconclude
    obtain ⟨-, rfl⟩ := EStateM.Result.ok.inj hrelease
    exact ⟨.ended rfl hv hc ((Isolate.closeScope_rootings hclose).tail (.release _ _)) rfl, rfl⟩

/-- What a registration asks of the agent. Its frames stay. -/
theorem Registers.turn {p d : ObjectRef} {f g : Option FunctionId} (hreg : s.Registers p f g d)
    {q : Program κ Empty} {frames : List (Frame κ Empty)} {m : Machine Agent κ Empty}
    (hs : s.step = .ok (q, frames) m) :
    ∃ e, (Agent.Call.addReactions p f g).run s.agent = .ok (.object (.ok d)) e ∧
      Rootings e m.isolate.engine ∧ frames = s.frames := by
  obtain @⟨source, derived, next, b, c, iso, hprogram, hsource, rfl, hr, hderived, rfl⟩ := hreg
  obtain ⟨m₀, p₀, frames₀⟩ := s
  obtain rfl : p₀ = _ := hprogram
  cases goes_of_step hs with
  | call hcall =>
    obtain ⟨-, rfl⟩ := EStateM.Result.ok.inj (hr.symm.trans hcall)
    obtain ⟨b', d, e, hb, hc, hroots, hbound⟩ := Isolate.addReactions_ok hr
    obtain rfl : b = b' := Except.ok.inj (hsource.symm.trans hb)
    obtain rfl := hbound c hderived
    exact ⟨e, hc, hroots, rfl⟩

end Stage

end Promises
