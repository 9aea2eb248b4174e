import Promises.Program.Run

/-! Programs that run one step at a time. A stage is a machine, the program at hand and the frames of
what waits for its end: scopes to close, and reactions to conclude within their checkpoints. A run of a
program goes from stage to stage, through handlers and scopes, until it ends or faults. -/

namespace Promises

/-- What is left to do when a body ends. -/
inductive Frame (κ ρ : Type) where
  | scope (mark : ScopeMark) (next : Completion → Program κ ρ)
  | escape (mark : ScopeMark) (next : Completion → Program κ ρ)
  /-- A reaction of a checkpoint, which counts the reactions after it. -/
  | reaction (mark : ScopeMark) (job : NativeJob) (next : Nat → Program κ ρ)

/-- A program that has begun. -/
structure Stage (ε κ ρ : Type) where
  machine : Machine ε κ ρ
  program : Program κ ρ
  frames : List (Frame κ ρ)

namespace Program

variable {ε κ ρ : Type} [Engine ε]

/-- The next reaction of a checkpoint, if one is due, in a scope of its own. A handler that was not
registered throws undefined. -/
def due : Run ε κ ρ (Option (ScopeMark × NativeJob × Program κ ρ)) := do
  match ← Run.onIsolate (Isolate.onEngine Engine.nextJob) with
  | none => return none
  | some job =>
    let mark ← Run.onIsolate Isolate.openScope
    let argument ← Run.onIsolate (Isolate.toNative job.argument)
    match (← get).isolate.functions[job.handler.index]? with
    | some handler => return some (mark, job, handler argument)
    | none => return some (mark, job, done (.error .undefined))

/-- The end of a reaction. -/
def settle (mark : ScopeMark) (job : NativeJob) (completion : Completion) : Run ε κ ρ Unit := do
  Run.onIsolate (Run.conclude job.derived completion)
  Run.onIsolate (Isolate.closeScope mark)
  Run.onIsolate (Isolate.onEngine (Engine.release job.derived))

/-- The end of a body, below the frame that waits for it. -/
def leave (completion : Completion) :
    Frame κ ρ → List (Frame κ ρ) → Run ε κ ρ (Program κ ρ × List (Frame κ ρ))
  | .scope mark next, frames => do
    Run.onIsolate (Isolate.closeScope mark)
    return (next completion, frames)
  | .escape mark next, frames => do
    let kept ← Run.onIsolate (Run.escaping completion.value)
    Run.onIsolate (Isolate.closeScope mark)
    match kept with
    | some b =>
      let handle ← Run.onIsolate (Isolate.register b)
      return (next (completion.replace (.handle handle)), frames)
    | none => return (next completion, frames)
  | .reaction mark job next, frames => do
    settle mark job completion
    return (checkpoint fun ran => next (ran + 1), frames)

/-- One step of a program. What has come to its end stays there. -/
def step [Moves ε κ ρ] :
    Program κ ρ → List (Frame κ ρ) → Run ε κ ρ (Program κ ρ × List (Frame κ ρ))
  | done completion, [] => return (done completion, [])
  | done completion, frame :: frames => leave completion frame frames
  | read next, frames => return (next (← get).memory, frames)
  | update change next, frames => do
    Run.onMemory change
    return (next, frames)
  | call c next, frames => return (next (← Run.onIsolate c.run), frames)
  | scope body next, frames => do
    return (body, .scope (← Run.onIsolate Isolate.openScope) next :: frames)
  | escape body next, frames => do
    return (body, .escape (← Run.onIsolate Isolate.openScope) next :: frames)
  | checkpoint next, frames => do
    match ← due with
    | none => return (next 0, frames)
    | some (mark, job, body) => return (body, .reaction mark job next :: frames)
  | register handler next, frames =>
    return (next (← Run.onIsolate (Isolate.registerFunction handler)), frames)
  | fail fault, _ => throw (.fault fault)
  | outside move next, frames => do
    Moves.perform move
    return (next, frames)

/-- A checkpoint lets its reactions run one by one. -/
theorem drain_succ [Moves ε κ ρ] (fuel ran : Nat) :
    (drain (fuel + 1) ran : Run ε κ ρ Nat) = (do
      match ← due with
      | none => return ran
      | some (mark, job, body) =>
        let completion ← runWith (drain fuel 0) body
        settle mark job completion
        drain fuel (ran + 1)) := by
  rw [drain, due, bind_assoc]
  refine bind_congr fun job => ?_
  cases job with
  | none => rfl
  | some job =>
    simp only [Run.react, Run.inScope, settle, bind_assoc, pure_bind]
    -- the same moves in the same order up to the handler, which is looked up in the isolate
    refine bind_congr fun mark => bind_congr fun argument => bind_congr fun m => ?_
    cases m.isolate.functions[job.handler.index]? <;> simp [runWith]

end Program

namespace Stage

variable {ε κ ρ : Type} [Engine ε] [Moves ε κ ρ] {s t u : Stage ε κ ρ} {n k : Nat}

/-- The outcome of a step. -/
def step (s : Stage ε κ ρ) :
    EStateM.Result Halt (Machine ε κ ρ) (Program κ ρ × List (Frame κ ρ)) :=
  s.program.step s.frames s.machine

/-- `n` steps lead from one stage to another. -/
inductive Leads : Nat → Stage ε κ ρ → Stage ε κ ρ → Prop
  | refl (s : Stage ε κ ρ) : Leads 0 s s
  | step {n : Nat} {s u : Stage ε κ ρ} {m : Machine ε κ ρ} {p : Program κ ρ}
      {frames : List (Frame κ ρ)} (hs : s.step = .ok (p, frames) m) (h : Leads n ⟨m, p, frames⟩ u) :
      Leads (n + 1) s u

theorem Leads.trans (h : Leads n s t) (h' : Leads k t u) : Leads (n + k) s u := by
  induction h with
  | refl => simpa using h'
  | @step n _ _ _ _ _ hs _ ih =>
    rw [Nat.add_right_comm]
    exact .step hs (ih h')

/-- There is one way on from each stage: what is reached in more steps lies beyond. -/
theorem Leads.rest (h : Leads n s t) (h' : Leads (n + k) s u) : Leads k t u := by
  induction h with
  | refl => simpa using h'
  | step hs _ ih =>
    rw [Nat.add_right_comm] at h'
    cases h' with
    | step hs' h' =>
      obtain ⟨hp, rfl⟩ := EStateM.Result.ok.inj (hs.symm.trans hs')
      obtain ⟨rfl, rfl⟩ := Prod.mk.inj hp
      exact ih h'

/-- What has come to its end stays there. -/
theorem Leads.of_done {m : Machine ε κ ρ} {c : Completion}
    (h : Leads n ⟨m, .done c, []⟩ u) : u = ⟨m, .done c, []⟩ := by
  generalize hs : (⟨m, .done c, []⟩ : Stage ε κ ρ) = s at h
  induction h with
  | refl => rfl
  | step hstep _ ih =>
    subst hs
    obtain ⟨hp, rfl⟩ := EStateM.Result.ok.inj hstep
    obtain ⟨rfl, rfl⟩ := Prod.mk.inj hp
    exact ih rfl

/-- Two ends of one way are the same. -/
theorem Leads.end_unique {m m' : Machine ε κ ρ} {c c' : Completion}
    (h : Leads n s ⟨m, .done c, []⟩) (h' : Leads k s ⟨m', .done c', []⟩) :
    (⟨m, .done c, []⟩ : Stage ε κ ρ) = ⟨m', .done c', []⟩ := by
  rcases Nat.le_total n k with hle | hle
  · obtain ⟨i, rfl⟩ := Nat.exists_eq_add_of_le hle
    exact (h.rest h').of_done.symm
  · obtain ⟨i, rfl⟩ := Nat.exists_eq_add_of_le hle
    exact (h'.rest h).of_done

/-- A way from a stage stays there or goes on by its step. -/
theorem Leads.cases_step {m : Machine ε κ ρ} {p : Program κ ρ} {frames : List (Frame κ ρ)}
    (h : Leads n s u) (hs : s.step = .ok (p, frames) m) : u = s ∨ ∃ k, Leads k ⟨m, p, frames⟩ u := by
  cases h with
  | refl => exact .inl rfl
  | step hs' h =>
    obtain ⟨hpair, rfl⟩ := EStateM.Result.ok.inj (hs.symm.trans hs')
    obtain ⟨rfl, rfl⟩ := Prod.mk.inj hpair
    exact .inr ⟨_, h⟩

/-- What steps have to do with the outcome of a run of a body: they lead to the end of the body above
its frames, or to the step that halts. A run that is out of fuel took a step at least for each unit. -/
def Meets (fuel : Nat) (s : Stage ε κ ρ) (frames : List (Frame κ ρ)) :
    EStateM.Result Halt (Machine ε κ ρ) Completion → Prop
  | .ok c m => ∃ n, Leads n s ⟨m, .done c, frames⟩
  | .error halt m =>
    ∃ n t, Leads n s t ∧
      (t.step = .error halt m ∨ halt = .outOfFuel ∧ fuel ≤ n ∧ ∃ next, t.program = .checkpoint next)

variable {fuel : Nat} {frames inner : List (Frame κ ρ)} {m : Machine ε κ ρ}
  {r : EStateM.Result Halt (Machine ε κ ρ) Completion}

theorem Meets.of_leads (h : Leads n s t) (ht : Meets k t frames r) (hk : fuel ≤ n + k) :
    Meets fuel s frames r := by
  cases r with
  | ok c m =>
    obtain ⟨i, hi⟩ := ht
    exact ⟨n + i, h.trans hi⟩
  | error halt m =>
    obtain ⟨i, u, hi, hu⟩ := ht
    refine ⟨n + i, u, h.trans hi, hu.imp_right ?_⟩
    rintro ⟨hhalt, hki, hnext⟩
    exact ⟨hhalt, by omega, hnext⟩

/-- A run goes on from the end of a body as the steps do. -/
theorem Meets.bind {x : Run ε κ ρ Completion} {f : Completion → Run ε κ ρ Completion}
    (hx : Meets fuel s inner (x s.machine))
    (hf : ∀ c m, Meets fuel ⟨m, .done c, inner⟩ frames (f c m)) :
    Meets fuel s frames ((x >>= f) s.machine) := by
  simp only [Bind.bind, EStateM.bind]
  cases hr : x s.machine with
  | ok c m =>
    rw [hr] at hx
    obtain ⟨n, hn⟩ := hx
    exact .of_leads hn (hf c m) (Nat.le_add_left fuel n)
  | error halt m =>
    rw [hr] at hx
    exact hx

/-- A run begins as the step does, which counts. -/
theorem Meets.of_first {α : Type} {x : Run ε κ ρ α} {g : α → Program κ ρ × List (Frame κ ρ)}
    {f : α → Run ε κ ρ Completion} (hs : s.step = (x >>= fun a => pure (g a)) s.machine)
    (hf : ∀ a m, Meets fuel ⟨m, (g a).1, (g a).2⟩ frames (f a m)) :
    Meets (fuel + 1) s frames ((x >>= f) s.machine) := by
  simp only [Bind.bind, EStateM.bind] at hs ⊢
  cases hr : x s.machine with
  | ok a m =>
    rw [hr] at hs
    exact .of_leads (.step hs (.refl _)) (hf a m) (Nat.le_of_eq (Nat.add_comm fuel 1))
  | error halt m =>
    rw [hr] at hs
    exact ⟨0, s, .refl s, Or.inl hs⟩

theorem Meets.of_step {α : Type} {x : Run ε κ ρ α} {g : α → Program κ ρ × List (Frame κ ρ)}
    {f : α → Run ε κ ρ Completion} (hs : s.step = (x >>= fun a => pure (g a)) s.machine)
    (hf : ∀ a m, Meets fuel ⟨m, (g a).1, (g a).2⟩ frames (f a m)) :
    Meets fuel s frames ((x >>= f) s.machine) :=
  .of_leads (.refl s) (.of_first hs hf) (by omega)

/-- A way to run checkpoints that goes on as the steps do. -/
def Drains (fuel ran : Nat) (x : Run ε κ ρ Nat) : Prop :=
  ∀ (m : Machine ε κ ρ) (next : Nat → Program κ ρ) (inner frames : List (Frame κ ρ))
    (f : Nat → Run ε κ ρ Completion),
    (∀ i m, Meets fuel ⟨m, next i, inner⟩ frames (f (ran + i) m)) →
      Meets fuel ⟨m, .checkpoint next, inner⟩ frames ((x >>= f) m)

/-- The runs of programs meet the steps, given that checkpoints do. -/
theorem meets_runWith {x : Run ε κ ρ Nat} (hx : Drains fuel 0 x) (p : Program κ ρ)
    (m : Machine ε κ ρ) (frames : List (Frame κ ρ)) :
    Meets fuel ⟨m, p, frames⟩ frames (p.runWith x m) := by
  -- a body runs above the frame of its scope, so that the frames vary with the program
  induction p generalizing m frames with
  | done c => exact ⟨0, .refl _⟩
  | read next ih =>
    exact .of_step (x := get) (g := fun m => (next m.memory, frames)) rfl fun a m => ih a.memory m frames
  | update change next ih =>
    exact .of_step (x := Run.onMemory change) (g := fun _ => (next, frames)) rfl fun _ m =>
      ih m frames
  | call c next ih =>
    exact .of_step (x := Run.onIsolate c.run) (g := fun a => (next a, frames)) rfl fun a m =>
      ih a m frames
  | scope body next ihb ihn =>
    rw [Program.runWith, Run.inScope, bind_assoc]
    refine .of_step (g := fun mark => (body, .scope mark next :: frames)) rfl fun mark m => ?_
    rw [bind_assoc]
    refine .bind (ihb m _) fun c m => ?_
    rw [bind_assoc]
    exact .of_step (g := fun _ => (next c, frames)) rfl fun _ m => ihn c m frames
  | escape body next ihb ihn =>
    rw [Program.runWith, Run.inEscapableScope, bind_assoc]
    refine .of_step (g := fun mark => (body, .escape mark next :: frames)) rfl fun mark m => ?_
    rw [bind_assoc]
    refine .bind (ihb m _) fun c m => ?_
    refine .of_step (g := fun c => (next c, frames)) ?_ fun c m => ihn c m frames
    -- the step gives the program after the completion, the run the completion itself
    change (Run.onIsolate _ >>= _) m = _
    rw [bind_assoc]
    refine congrFun (bind_congr fun kept => ?_) m
    rw [bind_assoc]
    refine bind_congr fun _ => ?_
    cases kept with
    | none => rfl
    | some b => simp only [bind_assoc, pure_bind]
  | checkpoint next ih => exact hx m next frames frames _ fun i m => by simpa using ih i m frames
  | register handler next _ ih =>
    exact .of_step (x := Run.onIsolate (Isolate.registerFunction handler))
      (g := fun id => (next id, frames)) rfl fun id m => ih id m frames
  | fail fault => exact ⟨0, _, .refl _, Or.inl rfl⟩
  | outside move next ih =>
    exact .of_step (x := Moves.perform move) (g := fun _ => (next, frames)) rfl fun _ m =>
      ih m frames

/-- The loop of a checkpoint goes on as the steps do. -/
theorem drains_drain (fuel ran : Nat) :
    Drains fuel ran (Program.drain fuel ran : Run ε κ ρ Nat) := by
  -- handlers run on the fuel that is left, so that one induction serves the loop and the handlers
  induction fuel generalizing ran with
  | zero =>
    intro m next inner frames f _
    exact ⟨0, _, .refl _, Or.inr ⟨rfl, Nat.le_refl 0, next, rfl⟩⟩
  | succ fuel ih =>
    intro m next inner frames f hf
    rw [Program.drain_succ, bind_assoc]
    refine .of_first ?_ ?_ (g := fun found =>
      match found with
      | none => (next 0, inner)
      | some (mark, job, body) => (body, .reaction mark job next :: inner))
    · refine congrFun (bind_congr fun found => ?_) m
      cases found <;> rfl
    · intro found m
      cases found with
      | none => exact .of_leads (.refl _) (hf 0 m) (by omega)
      | some found =>
        obtain ⟨mark, job, body⟩ := found
        dsimp only
        rw [bind_assoc]
        refine .bind (meets_runWith (ih 0) body m _) fun c m => ?_
        rw [bind_assoc]
        refine .of_step (g := fun _ => (.checkpoint fun i => next (i + 1), inner)) rfl fun _ m => ?_
        -- the checkpoint is at hand again, with one reaction more behind it
        refine ih (ran + 1) m _ inner frames f fun i m => ?_
        rw [Nat.add_assoc, Nat.add_comm 1 i]
        exact .of_leads (.refl _) (hf (i + 1) m) (by omega)

theorem meets_run (fuel : Nat) (p : Program κ ρ) (m : Machine ε κ ρ) (frames : List (Frame κ ρ)) :
    Meets fuel ⟨m, p, frames⟩ frames (p.run fuel m) := meets_runWith (drains_drain fuel 0) p m frames

/-- The steps lead to the end of a run, whatever the frames below it are. -/
theorem leads_of_run {fuel : Nat} {p : Program κ ρ} {m m' : Machine ε κ ρ} {c : Completion}
    (hr : p.run fuel m = .ok c m') (frames : List (Frame κ ρ)) :
    ∃ n, Leads n ⟨m, p, frames⟩ ⟨m', .done c, frames⟩ := by
  have hmeets := meets_run fuel p m frames
  rw [hr] at hmeets
  exact hmeets

/-- A program can be run to its end just when the steps lead to it. -/
theorem run_ok_iff {p : Program κ ρ} {m m' : Machine ε κ ρ} {c : Completion} :
    (∃ fuel, p.run fuel m = .ok c m') ↔ ∃ n, Leads n ⟨m, p, []⟩ ⟨m', .done c, []⟩ := by
  constructor
  · rintro ⟨fuel, hr⟩
    exact leads_of_run hr []
  · rintro ⟨n, hn⟩
    -- fuel for every step is enough, as a run without fuel would have gone on longer
    have hmeets := meets_run n p m []
    refine ⟨n, ?_⟩
    cases hr : p.run n m with
    | ok c₂ m₂ =>
      rw [hr] at hmeets
      obtain ⟨k, hk⟩ := hmeets
      cases hn.end_unique hk
      rfl
    | error halt m₂ =>
      rw [hr] at hmeets
      obtain ⟨k, t, hk, ht⟩ := hmeets
      have hlast (hle : n ≤ k) : t = ⟨m', .done c, []⟩ := by
        obtain ⟨i, rfl⟩ := Nat.exists_eq_add_of_le hle
        exact (hn.rest hk).of_done
      -- no stage on the way to the end halts, and the end is no checkpoint
      rcases ht with hstep | ⟨-, hle, next, hnext⟩
      · rcases Nat.le_total k n with hle | hle
        · obtain ⟨i, rfl⟩ := Nat.exists_eq_add_of_le hle
          cases hk.rest hn with
          | refl => cases hstep
          | step hs => cases hs.symm.trans hstep
        · rw [hlast hle] at hstep
          cases hstep
      · rw [hlast hle] at hnext
        cases hnext

end Stage

end Promises
