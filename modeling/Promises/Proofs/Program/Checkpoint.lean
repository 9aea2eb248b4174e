import Promises.Proofs.Agent.Carried
import Promises.Proofs.Program.Lifted
import Promises.Proofs.Program.Escape

namespace Promises

/-- Ends without looking at the number of the reactions. -/
def Program.idle {κ ρ : Type} (_ : ℕ) : Program κ ρ := .done (.ok .undefined)

namespace Isolate

variable {κ : Type} {iso : Isolate Agent (Handler κ Empty)} {b : Agent}
  {result : Except EngineError Bool}

theorem ask_run {request : Request Agent Bool} (call : Agent.Call)
    (hcall : call.run = .settled <$> request.run)
    (h : call.run iso.engine = .ok (.settled result) b) :
    (ask request : Action (Isolate Agent (Handler κ Empty)) _) iso =
      .ok result { iso with engine := b } := by
  rw [hcall] at h
  obtain ⟨answer, hrun, hanswer⟩ := Action.map_ok h
  obtain rfl := Agent.Answer.settled.inj hanswer
  rw [ask, onEngine_run, hrun]

/-- A value that stands for no object can be given to the native side without a handle. -/
theorem toNative_plain {value : ManagedValue} (hv : value.Plain)
    (iso : Isolate Agent (Handler κ Empty)) : ∃ v next, toNative value iso = .ok v next := by
  cases value with
  | int n =>
    have hn : Value.int n = .ok (Value.ofInt32 n) := if_pos hv.fits
    refine ⟨Value.ofInt32 n, iso, ?_⟩
    rw [toNative_int, hn]
  | object ref => exact absurd rfl (hv.ne_object ref)
  | _ => exact ⟨_, _, rfl⟩

/-- The promise of a reaction is settled with what its handler came to. -/
theorem conclude_run {derived : ObjectRef} {completion : Completion} {value : ManagedValue}
    (hv : iso.toManaged completion.value = .ok value)
    (h : (Agent.Call.settle completion.kind derived value).run iso.engine = .ok (.settled result) b) :
    Run.conclude derived completion iso = .ok () { iso with engine := b } := by
  refine (bind_run _ (manage_run hv)).trans ?_
  cases completion with
  | ok v => exact bind_run _ (ask_run (.resolve derived value) rfl h)
  | error v => exact bind_run _ (ask_run (.reject derived value) rfl h)

end Isolate

namespace Stage

open HandleTable

variable {κ : Type} {m m' m₁ m₂ : Machine Agent κ Empty} {p p' body : Program κ Empty}
  {frames frames' : List (Frame κ Empty)} {n : ℕ} {mark : ScopeMark} {job : NativeJob} {c : Completion}

/-- What holds of a machine below the frames of a stage, wherever a program has come to. -/
structure Steady (m : Machine Agent κ Empty) (frames : List (Frame κ Empty)) : Prop where
  held : m.isolate.Held False (inFlight frames)
  aloft : ∃ h, Aloft h m.isolate.engine frames
  fitted : m.isolate.handles.Fitted

theorem Steady.sound (h : Steady m frames) : m.isolate.engine.Sound := h.held.fit.sound

theorem Steady.leads (h : Steady m frames) (hn : Leads n ⟨m, p, frames⟩ ⟨m', p', frames'⟩) :
    Steady m' frames' := by
  have hholds : (⟨m, p, frames⟩ : Stage Agent κ Empty).Holds False := ⟨h.held, h.aloft⟩
  obtain ⟨hheld, haloft⟩ := hholds.leads hn
  exact ⟨hheld, haloft, hn.table.2 h.fitted⟩

theorem due_total (ha : m.isolate.engine.Sound)
    (hplain : ∀ native e, Agent.nextJob m.isolate.engine = .ok (some native) e → native.argument.Plain) :
    ∃ found m', Program.due m = .ok found m' := by
  obtain ⟨native, e, hnext, -⟩ := Agent.nextJob_runs ha
  cases native with
  | none => exact ⟨none, _, (Program.Finds.nothing hnext).due_eq⟩
  | some native =>
    let opened : Isolate Agent (Handler κ Empty) :=
      { m.isolate with engine := e, handles := m.isolate.handles.openScope.2 }
    have hopen : Isolate.openScope { m.isolate with engine := e } =
        .ok m.isolate.handles.openScope.1 opened := rfl
    obtain ⟨argument, iso, hnative⟩ := Isolate.toNative_plain (hplain native e hnext) opened
    exact ⟨_, _, (Program.Finds.reaction hnext hopen hnative).due_eq⟩

/-- A body that was run in the scope of its reaction leaves the scope as one that can be closed. -/
theorem closes_of_run (hf : m.isolate.handles.Fitted) (hdue : Program.due m = .ok (some (mark, job, body)) m₁)
    {fuel : ℕ} (hrun : body.run fuel m₁ = .ok c m₂) :
    ∃ popped table, m₂.isolate.handles.closeScope mark = (.ok popped, table) := by
  -- in a scope with nothing after it there is one way out, which is the end of the body
  let bottom : Frame κ Empty := .scope mark .done
  have hinside : Inside m.isolate.handles bottom ⟨m₁, body, [bottom]⟩ := by
    have hshifts := due_shifts [] (fun _ => body) hdue
    generalize hframes : ((some (mark, job, body)).map fun f => Frame.reaction f.1 f.2.1 fun _ => body).toList ++
      [] = frames at hshifts
    cases hshifts with
    | grown => cases hframes
    | closed hp => cases hp
    | opened hd hm hg =>
      obtain ⟨rfl, -⟩ := List.cons.inj hframes
      have hm : mark = m.isolate.handles.openScope.1 := hm
      have hunder := (Under.refl hf).opened.grown hg
      rw [← hm] at hunder
      exact ⟨⟨[], rfl⟩, hm, hunder⟩
  obtain ⟨n, hn⟩ := leads_of_run hrun [bottom]
  rcases hinside.leads hn with hend | ⟨i, j, m₃, c₃, m₄, p, -, -, -, hleft, hj⟩
  · have hmark : mark = m.isolate.handles.openScope.1 := hend.mark
    have hunder : m.isolate.handles.Under m₂.isolate.handles [mark] := hend.under
    rw [hmark] at hunder ⊢
    exact hunder.closes
  · obtain ⟨c₄, rfl⟩ := (Wraps.scope : Wraps body _ _).ends hleft
    cases hj.of_done

theorem settle_total {value : ManagedValue} {result : Except EngineError Bool} {b : Agent}
    (hv : m.isolate.toManaged c.value = .ok value)
    (hc : (Agent.Call.settle c.kind job.derived value).run m.isolate.engine = .ok (.settled result) b)
    (hclose : ∃ popped table, m.isolate.handles.closeScope mark = (.ok popped, table)) :
    ∃ m', Program.settle mark job c m = .ok () m' ∧ Agent.Rootings b m'.isolate.engine := by
  obtain ⟨popped, table, htable⟩ := hclose
  obtain ⟨iso, hiso⟩ : ∃ iso, Isolate.closeScope mark { m.isolate with engine := b } = .ok () iso :=
    Isolate.closeScope_total htable
  have hrelease : Engine.release job.derived iso.engine = .ok () (iso.engine.released job.derived) := rfl
  exact ⟨_, Program.settle_run (Isolate.conclude_run hv hc) hiso hrelease,
    (Isolate.closeScope_rootings hiso).tail (.release _ job.derived)⟩

/-- The handler of the reaction that is due, if there is one, comes to the end that is told by the handler and
its argument, with a value that is no object, and leaves a family of promises and the queue alone. -/
def Answers (m : Machine Agent κ Empty) (family : Finset ObjectRef)
    (answer : FunctionId → ManagedValue → ReactionKind × ManagedValue) : Prop :=
  ∀ mark job body m₁, Program.due m = .ok (some (mark, job, body)) m₁ →
    ∃ fuel c m₂ value, body.run fuel m₁ = .ok c m₂ ∧ m₂.isolate.toManaged c.value = .ok value ∧
      value.Plain ∧ answer job.handler job.argument = (c.kind, value) ∧
      m₁.isolate.engine.Spares family m₂.isolate.engine

open Plan

variable {plan : Plan} {ran : ℕ}

/-- A checkpoint is over, or a reaction runs and the checkpoint is at hand again. -/
theorem carried_turn (hplan : plan.Proper) (hm : Steady m frames)
    (h : plan.Carried [] [] m.isolate.engine ran) (hanswers : Answers m plan.members plan.answer) :
    (∃ m', plan.Carried [] [] m'.isolate.engine ran ∧ m'.isolate.engine.queue.toList = [] ∧
      ∀ next frames, Leads 1 ⟨m, .checkpoint next, frames⟩ ⟨m', next 0, frames⟩) ∨
    ∃ m', Steady m' frames ∧ plan.Carried [] [] m'.isolate.engine (ran + 1) ∧ ∀ next frames, ∃ n,
      Leads n ⟨m, .checkpoint next, frames⟩ ⟨m', .checkpoint fun more => next (more + 1), frames⟩ := by
  have hplain (native : NativeJob) (e : Agent)
      (hnext : Agent.nextJob m.isolate.engine = .ok (some native) e) : native.argument.Plain :=
    (h.nextJob hplan hm.sound hnext).1.argument_plain
  obtain ⟨found, m₁, hdue⟩ := due_total hm.sound hplain
  obtain ⟨e, hnext, hroots⟩ := due_rootings hdue
  obtain ⟨hcarried, hempty⟩ := h.nextJob hplan hm.sound hnext
  have hspared := hroots.spares plan.members
  cases found with
  | none =>
    refine .inl ⟨m₁, hcarried.spared hspared, hspared.jobs.trans (hempty rfl), fun next frames => ?_⟩
    exact .step (Goes.idle hdue).step_eq (.refl _)
  | some found =>
    obtain ⟨mark, job, body⟩ := found
    obtain ⟨fuel, c, m₂, value, hrun, hvalue, hplain, hanswer, hspares⟩ := hanswers mark job body m₁ hdue
    have hfirst (next : ℕ → Program κ Empty) (frames : List (Frame κ Empty)) :
        Leads 1 ⟨m, .checkpoint next, frames⟩ ⟨m₁, body, .reaction mark job next :: frames⟩ :=
      .step (Goes.react hdue).step_eq (.refl _)
    -- the frames above are free, so that some are chosen to see that the machine stays sound
    have hsound : m₂.isolate.engine.Sound := by
      obtain ⟨n, hn⟩ := leads_of_run hrun (.reaction mark job Program.idle :: frames)
      exact ((hm.leads (hfirst Program.idle frames)).leads hn).sound
    obtain ⟨result, b, hcall, hnow⟩ :=
      ((hcarried.spared hspared).spared hspares).concluded hplan hsound hanswer hplain
    obtain ⟨m₃, hsettle, hlast⟩ := settle_total hvalue hcall (closes_of_run hm.fitted hdue hrun)
    have hway (next : ℕ → Program κ Empty) (frames : List (Frame κ Empty)) : ∃ n,
        Leads n ⟨m, .checkpoint next, frames⟩ ⟨m₃, .checkpoint fun more => next (more + 1), frames⟩ := by
      obtain ⟨n, hn⟩ := leads_of_run hrun (.reaction mark job next :: frames)
      have hleave : (⟨m₂, .done c, .reaction mark job next :: frames⟩ : Stage Agent κ Empty).step =
          .ok (.checkpoint fun more => next (more + 1), frames) m₃ := bind_run _ hsettle
      exact ⟨_, ((hfirst next frames).trans hn).trans (.step hleave (.refl _))⟩
    obtain ⟨n, hn⟩ := hway Program.idle frames
    exact .inr ⟨m₃, hm.leads hn, hnow.spared (hlast.spares plan.members), hway⟩

/-- A checkpoint ends, as each reaction is one of those that were registered. -/
theorem carried_checkpoint (hplan : plan.Proper) (hm : Steady m frames)
    (h : plan.Carried [] [] m.isolate.engine ran)
    (hanswers : ∀ n m' next, Leads n ⟨m, .checkpoint Program.idle, []⟩ ⟨m', .checkpoint next, []⟩ →
      Answers m' plan.members plan.answer) :
    ∃ reactions m', plan.Carried [] [] m'.isolate.engine (ran + reactions) ∧
      m'.isolate.engine.queue.toList = [] ∧
      ∀ next frames, ∃ n, Leads n ⟨m, .checkpoint next, frames⟩ ⟨m', next reactions, frames⟩ := by
  -- the induction is on the registrations that no reaction has used up
  induction hleft : (∑ q ∈ plan.members, (plan.record q).reactions.size) - ran using Nat.strongRecOn
    generalizing m ran with
  | ind left ih =>
    rcases carried_turn hplan hm h (hanswers 0 m Program.idle (.refl _)) with
      ⟨m', hcarried, hempty, hn⟩ | ⟨m', hm', hcarried, hway⟩
    · exact ⟨0, m', hcarried, hempty, fun next frames => ⟨1, hn next frames⟩⟩
    · have hle := hcarried.ran_le
      obtain ⟨n, hn⟩ := hway Program.idle []
      have hlater (k : ℕ) (m₂ : Machine Agent κ Empty) (next : ℕ → Program κ Empty)
          (hk : Leads k ⟨m', .checkpoint Program.idle, []⟩ ⟨m₂, .checkpoint next, []⟩) :
          Answers m₂ plan.members plan.answer := hanswers (n + k) m₂ next (hn.trans hk)
      obtain ⟨reactions, m₂, hcarried, hempty, hrest⟩ := ih _ (by omega) hm' hcarried hlater rfl
      refine ⟨reactions + 1, m₂, ?_, hempty, fun next frames => ?_⟩
      · rw [Nat.add_comm reactions 1, ← Nat.add_assoc]
        exact hcarried
      · obtain ⟨i, hi⟩ := hway next frames
        obtain ⟨j, hj⟩ := hrest (fun more => next (more + 1)) frames
        exact ⟨i + j, hi.trans hj⟩

end Stage

end Promises
