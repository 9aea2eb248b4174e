import Promises.Proofs.Isolate.Held
import Promises.Proofs.Program.Stage

namespace Promises

namespace Run

variable {ε κ ρ α : Type} {act : Action (Isolate ε (Handler κ ρ)) α} {iso next : Isolate ε (Handler κ ρ)}
  {m m' : Machine ε κ ρ} {v : α}

theorem onIsolate_run (act : Action (Isolate ε (Handler κ ρ)) α) (m : Machine ε κ ρ) :
    onIsolate act m =
      match act m.isolate with
      | .ok v iso => .ok v ⟨iso, m.memory⟩
      | .error fault iso => .error (.fault fault) ⟨iso, m.memory⟩ := rfl

theorem onIsolate_ok_run (h : act iso = .ok v next) (memory : κ) :
    onIsolate act ⟨iso, memory⟩ = .ok v ⟨next, memory⟩ := by
  rw [onIsolate_run]
  dsimp only
  rw [h]

theorem onIsolate_error_run {fault : Fault} (h : act iso = .error fault next) (memory : κ) :
    onIsolate act ⟨iso, memory⟩ = .error (.fault fault) ⟨next, memory⟩ := by
  rw [onIsolate_run]
  dsimp only
  rw [h]

/-- The memory is left alone. -/
theorem exists_of_onIsolate_ok (h : onIsolate act m = .ok v m') :
    ∃ next, act m.isolate = .ok v next ∧ m' = ⟨next, m.memory⟩ := by
  rw [onIsolate_run] at h
  cases hact : act m.isolate with
  | ok u next =>
    rw [hact] at h
    obtain ⟨rfl, rfl⟩ := EStateM.Result.ok.inj h
    exact ⟨next, rfl, rfl⟩
  | error fault next =>
    rw [hact] at h
    cases h

theorem onIsolate_ok (h : onIsolate act m = .ok v m') : act m.isolate = .ok v m'.isolate := by
  obtain ⟨next, hact, rfl⟩ := exists_of_onIsolate_ok h
  exact hact

/-- What a call for the next native job answers on a machine. -/
theorem nextJob_run [Engine ε] {job : Option NativeJob} {e : ε}
    (h : Engine.nextJob m.isolate.engine = .ok job e) :
    (onIsolate (Isolate.onEngine Engine.nextJob) : Run ε κ ρ _) m =
      .ok job { m with isolate := { m.isolate with engine := e } } := by
  rw [onIsolate_run, Isolate.onEngine_run, h]

/-- What lasts of a value is the binding of its handle, if it has one. -/
theorem escaping_ok {v : Value} {kept : Option Binding}
    (hr : escaping v iso = .ok kept next) :
    next = iso ∧ ((v.handle? = none ∧ kept = none) ∨
      ∃ h b, v.handle? = some h ∧ iso.handles.get h = .ok b ∧ kept = some b) := by
  cases hv : v.handle? with
  | none =>
    rw [escaping, hv] at hr
    obtain ⟨rfl, rfl⟩ := EStateM.Result.ok.inj hr
    exact ⟨rfl, .inl ⟨rfl, rfl⟩⟩
  | some h =>
    rw [escaping, hv] at hr
    obtain ⟨b, mid, hb, hrest⟩ := bind_ok hr
    obtain ⟨hget, rfl⟩ := Isolate.binding_ok hb
    obtain ⟨rfl, rfl⟩ := EStateM.Result.ok.inj hrest
    exact ⟨rfl, .inr ⟨h, b, rfl, hget, rfl⟩⟩

theorem escaping_of_none {v : Value} (hv : v.handle? = none) :
    escaping v iso = .ok none iso := by
  rw [escaping, hv]
  rfl

theorem escaping_of_get {v : Value} {h : HandleId} {b : Binding}
    (hv : v.handle? = some h) (hget : iso.handles.get h = .ok b) : escaping v iso = .ok (some b) iso := by
  rw [escaping, hv]
  exact bind_run _ (Isolate.binding_run hget)

end Run

namespace Program

variable {ε κ ρ : Type} [Engine ε]

/-- What a checkpoint finds: nothing that is due, or a reaction, which has its scope and its argument then. -/
inductive Finds (m : Machine ε κ ρ) :
    Option (ScopeMark × NativeJob × Program κ ρ) → Machine ε κ ρ → Prop
  | nothing {e : ε} (hnext : Engine.nextJob m.isolate.engine = .ok none e) :
    Finds m none ⟨{ m.isolate with engine := e }, m.memory⟩
  | reaction {e : ε} {job : NativeJob} {mark : ScopeMark} {argument : Value}
    {opened iso : Isolate ε (Handler κ ρ)} (hnext : Engine.nextJob m.isolate.engine = .ok (some job) e)
    (hopen : Isolate.openScope { m.isolate with engine := e } = .ok mark opened)
    (hnative : Isolate.toNative job.argument opened = .ok argument iso) :
    Finds m (some (mark, job, (iso.functions[job.handler.index]?).elim (.done (.error .undefined)) (· argument)))
      ⟨iso, m.memory⟩

variable {m m' : Machine ε κ ρ} {mark : ScopeMark} {job : NativeJob} {completion : Completion}
  {opened iso settled closed : Isolate ε (Handler κ ρ)} {e : ε}

theorem due_ok {found : Option (ScopeMark × NativeJob × Program κ ρ)}
    (hr : due m = .ok found m') : Finds m found m' := by
  obtain ⟨job, m₁, hjob, hrest⟩ := bind_ok hr
  obtain ⟨iso, hnext, rfl⟩ := Run.exists_of_onIsolate_ok hjob
  obtain ⟨e, he, rfl⟩ := Isolate.onEngine_ok hnext
  cases job with
  | none =>
    obtain ⟨rfl, rfl⟩ := EStateM.Result.ok.inj hrest
    exact .nothing he
  | some job =>
    obtain ⟨mark, m₂, hmark, hbody⟩ := bind_ok hrest
    obtain ⟨opened, hopen, rfl⟩ := Run.exists_of_onIsolate_ok hmark
    obtain ⟨argument, m₃, hargument, hfind⟩ := bind_ok hbody
    obtain ⟨last, hnative, rfl⟩ := Run.exists_of_onIsolate_ok hargument
    obtain ⟨m₄, m₅, hget, hend⟩ := bind_ok hfind
    obtain ⟨rfl, rfl⟩ := EStateM.Result.ok.inj hget
    have hfound := Finds.reaction he hopen hnative
    cases hf : last.functions[job.handler.index]? with
    | none =>
      rw [hf] at hend hfound
      obtain ⟨rfl, rfl⟩ := EStateM.Result.ok.inj hend
      exact hfound
    | some handler =>
      rw [hf] at hend hfound
      obtain ⟨rfl, rfl⟩ := EStateM.Result.ok.inj hend
      exact hfound

/-- What a checkpoint finds if it asks for it. -/
theorem Finds.due_eq {found : Option (ScopeMark × NativeJob × Program κ ρ)} (h : Finds m found m') :
    due m = .ok found m' := by
  cases h with
  | nothing hnext => exact bind_run _ (Run.nextJob_run hnext)
  | @reaction e job mark argument opened iso hnext hopen hnative =>
    refine (bind_run _ (Run.nextJob_run hnext)).trans ((bind_run _ (Run.onIsolate_ok_run hopen m.memory)).trans ?_)
    refine (bind_run _ (Run.onIsolate_ok_run hnative m.memory)).trans ?_
    have hget : (get : Run ε κ ρ _) ⟨iso, m.memory⟩ = .ok ⟨iso, m.memory⟩ ⟨iso, m.memory⟩ := rfl
    refine (bind_run _ hget).trans ?_
    dsimp only
    cases iso.functions[job.handler.index]? <;> rfl

/-- A reaction does not begin without its argument. -/
theorem due_fault {fault : Fault} (hnext : Engine.nextJob m.isolate.engine = .ok (some job) e)
    (hopen : Isolate.openScope { m.isolate with engine := e } = .ok mark opened)
    (hnative : Isolate.toNative job.argument opened = .error fault iso) :
    due m = .error (.fault fault) ⟨iso, m.memory⟩ := by
  refine (bind_run _ (Run.nextJob_run hnext)).trans ?_
  refine (bind_run _ (Run.onIsolate_ok_run hopen m.memory)).trans ?_
  exact bind_error _ (Run.onIsolate_error_run hnative m.memory)

/-- The end of a reaction: its promise is settled, its scope closed, and the root of the promise given back. -/
theorem settle_run (hconclude : Run.conclude job.derived completion m.isolate = .ok () settled)
    (hclose : Isolate.closeScope mark settled = .ok () closed)
    (hrelease : Engine.release job.derived closed.engine = .ok () e) :
    settle mark job completion m = .ok () ⟨{ closed with engine := e }, m.memory⟩ := by
  have hback : Isolate.onEngine (Engine.release job.derived) closed =
      .ok () { closed with engine := e } := by rw [Isolate.onEngine_run, hrelease]
  refine (bind_run _ (Run.onIsolate_ok_run hconclude m.memory)).trans ?_
  exact (bind_run _ (Run.onIsolate_ok_run hclose m.memory)).trans (Run.onIsolate_ok_run hback m.memory)

theorem settle_ok (hr : settle mark job completion m = .ok () m') : ∃ settled closed e,
    Run.conclude job.derived completion m.isolate = .ok () settled ∧
      Isolate.closeScope mark settled = .ok () closed ∧
      Engine.release job.derived closed.engine = .ok () e ∧
      m' = ⟨{ closed with engine := e }, m.memory⟩ := by
  obtain ⟨⟨⟩, m₁, hsettled, hrest⟩ := bind_ok hr
  obtain ⟨settled, hconclude, rfl⟩ := Run.exists_of_onIsolate_ok hsettled
  obtain ⟨⟨⟩, m₂, hleave, hback⟩ := bind_ok hrest
  obtain ⟨closed, hclose, rfl⟩ := Run.exists_of_onIsolate_ok hleave
  obtain ⟨last, hlast, rfl⟩ := Run.exists_of_onIsolate_ok hback
  obtain ⟨e, hrelease, rfl⟩ := Isolate.onEngine_ok hlast
  exact ⟨settled, closed, e, hconclude, hclose, hrelease, rfl⟩

end Program

namespace Stage

variable {ε κ : Type} [Engine ε]

/-- One step leads from a stage to another. Each kind of step comes with the answers of the isolate by which
it goes. -/
inductive Goes : Stage ε κ Empty → Stage ε κ Empty → Prop
  /-- What has come to its end stays there. -/
  | stay {m : Machine ε κ Empty} {c : Completion} : Goes ⟨m, .done c, []⟩ ⟨m, .done c, []⟩
  | read {m : Machine ε κ Empty} {next : κ → Program κ Empty} {frames : List (Frame κ Empty)} :
    Goes ⟨m, .read next, frames⟩ ⟨m, next m.memory, frames⟩
  | update {m : Machine ε κ Empty} {change : κ → κ} {next : Program κ Empty}
    {frames : List (Frame κ Empty)} :
    Goes ⟨m, .update change next, frames⟩ ⟨⟨m.isolate, change m.memory⟩, next, frames⟩
  | call {m : Machine ε κ Empty} {c : Call} {next : c.Answer → Program κ Empty}
    {frames : List (Frame κ Empty)} {answer : c.Answer} {iso : Isolate ε (Handler κ Empty)}
    (hcall : c.run m.isolate = .ok answer iso) :
    Goes ⟨m, .call c next, frames⟩ ⟨⟨iso, m.memory⟩, next answer, frames⟩
  | register {m : Machine ε κ Empty} {handler : Handler κ Empty} {next : FunctionId → Program κ Empty}
    {frames : List (Frame κ Empty)} {id : FunctionId} {iso : Isolate ε (Handler κ Empty)}
    (hregister : Isolate.registerFunction handler m.isolate = .ok id iso) :
    Goes ⟨m, .register handler next, frames⟩ ⟨⟨iso, m.memory⟩, next id, frames⟩
  | enterScope {m : Machine ε κ Empty} {body : Program κ Empty} {next : Completion → Program κ Empty}
    {frames : List (Frame κ Empty)} {mark : ScopeMark} {iso : Isolate ε (Handler κ Empty)}
    (hopen : Isolate.openScope m.isolate = .ok mark iso) :
    Goes ⟨m, .scope body next, frames⟩ ⟨⟨iso, m.memory⟩, body, .scope mark next :: frames⟩
  | enterEscape {m : Machine ε κ Empty} {body : Program κ Empty} {next : Completion → Program κ Empty}
    {frames : List (Frame κ Empty)} {mark : ScopeMark} {iso : Isolate ε (Handler κ Empty)}
    (hopen : Isolate.openScope m.isolate = .ok mark iso) :
    Goes ⟨m, .escape body next, frames⟩ ⟨⟨iso, m.memory⟩, body, .escape mark next :: frames⟩
  | leaveScope {m : Machine ε κ Empty} {c : Completion} {mark : ScopeMark}
    {next : Completion → Program κ Empty} {frames : List (Frame κ Empty)}
    {iso : Isolate ε (Handler κ Empty)} (hclose : Isolate.closeScope mark m.isolate = .ok () iso) :
    Goes ⟨m, .done c, .scope mark next :: frames⟩ ⟨⟨iso, m.memory⟩, next c, frames⟩
  /-- A value that is no handle escapes as it is. -/
  | leaveEscape {m : Machine ε κ Empty} {c : Completion} {mark : ScopeMark}
    {next : Completion → Program κ Empty} {frames : List (Frame κ Empty)}
    {iso : Isolate ε (Handler κ Empty)} (hv : c.value.handle? = none)
    (hclose : Isolate.closeScope mark m.isolate = .ok () iso) :
    Goes ⟨m, .done c, .escape mark next :: frames⟩ ⟨⟨iso, m.memory⟩, next c, frames⟩
  /-- What a handle stands for gets another one outside. -/
  | escape {m : Machine ε κ Empty} {c : Completion} {mark : ScopeMark}
    {next : Completion → Program κ Empty} {frames : List (Frame κ Empty)} {h id : HandleId} {b : Binding}
    {closed iso : Isolate ε (Handler κ Empty)} (hv : c.value.handle? = some h)
    (hget : m.isolate.handles.get h = .ok b) (hclose : Isolate.closeScope mark m.isolate = .ok () closed)
    (hregister : Isolate.register b closed = .ok id iso) :
    Goes ⟨m, .done c, .escape mark next :: frames⟩
      ⟨⟨iso, m.memory⟩, next (c.replace (.handle id)), frames⟩
  | idle {m m' : Machine ε κ Empty} {next : ℕ → Program κ Empty} {frames : List (Frame κ Empty)}
    (hdue : Program.due m = .ok none m') : Goes ⟨m, .checkpoint next, frames⟩ ⟨m', next 0, frames⟩
  /-- The reaction begins. The checkpoint comes again after it. -/
  | react {m m' : Machine ε κ Empty} {next : ℕ → Program κ Empty} {frames : List (Frame κ Empty)}
    {mark : ScopeMark} {job : NativeJob} {body : Program κ Empty}
    (hdue : Program.due m = .ok (some (mark, job, body)) m') :
    Goes ⟨m, .checkpoint next, frames⟩ ⟨m', body, .reaction mark job next :: frames⟩
  | conclude {m : Machine ε κ Empty} {c : Completion} {mark : ScopeMark} {job : NativeJob}
    {next : ℕ → Program κ Empty} {frames : List (Frame κ Empty)}
    {settled closed : Isolate ε (Handler κ Empty)} {e : ε}
    (hconclude : Run.conclude job.derived c m.isolate = .ok () settled)
    (hclose : Isolate.closeScope mark settled = .ok () closed)
    (hrelease : Engine.release job.derived closed.engine = .ok () e) :
    Goes ⟨m, .done c, .reaction mark job next :: frames⟩
      ⟨⟨{ closed with engine := e }, m.memory⟩, .checkpoint fun ran => next (ran + 1), frames⟩

variable {s u : Stage ε κ Empty} {m m' : Machine ε κ Empty} {p : Program κ Empty}
  {frames rest : List (Frame κ Empty)}

theorem goes_of_leave {c : Completion} {frame : Frame κ Empty}
    (hr : Program.leave c frame frames m = .ok (p, rest) m') :
    Goes ⟨m, .done c, frame :: frames⟩ ⟨m', p, rest⟩ := by
  cases frame with
  | scope mark next =>
    obtain ⟨⟨⟩, m₁, hleave, hend⟩ := bind_ok hr
    obtain ⟨iso, hclose, rfl⟩ := Run.exists_of_onIsolate_ok hleave
    obtain ⟨⟨⟩, rfl⟩ := EStateM.Result.ok.inj hend
    exact .leaveScope hclose
  | escape mark next =>
    obtain ⟨kept, m₁, hkept, hrest⟩ := bind_ok hr
    obtain ⟨iso, hescaping, rfl⟩ := Run.exists_of_onIsolate_ok hkept
    obtain ⟨⟨⟩, m₂, hleave, hrebind⟩ := bind_ok hrest
    obtain ⟨closed, hclose, rfl⟩ := Run.exists_of_onIsolate_ok hleave
    obtain ⟨rfl, ⟨hv, rfl⟩ | ⟨h, b, hv, hget, rfl⟩⟩ := Run.escaping_ok hescaping
    · obtain ⟨⟨⟩, rfl⟩ := EStateM.Result.ok.inj hrebind
      exact .leaveEscape hv hclose
    · obtain ⟨id, m₃, hhandle, hend⟩ := bind_ok hrebind
      obtain ⟨last, hregister, rfl⟩ := Run.exists_of_onIsolate_ok hhandle
      obtain ⟨⟨⟩, rfl⟩ := EStateM.Result.ok.inj hend
      exact .escape hv hget hclose hregister
  | reaction mark job next =>
    obtain ⟨⟨⟩, m₁, hsettle, hend⟩ := bind_ok hr
    obtain ⟨⟨⟩, rfl⟩ := EStateM.Result.ok.inj hend
    obtain ⟨settled, closed, e, hconclude, hclose, hrelease, rfl⟩ := Program.settle_ok hsettle
    exact .conclude hconclude hclose hrelease

theorem goes_of_step (hs : s.step = .ok (p, frames) m) : s.Goes ⟨m, p, frames⟩ := by
  obtain ⟨m₀, p₀, frames₀⟩ := s
  cases p₀ with
  -- what is done leaves its frame
  | done completion =>
    cases frames₀ with
    | nil =>
      obtain ⟨⟨⟩, rfl⟩ := EStateM.Result.ok.inj hs
      exact .stay
    | cons frame frames₀ => exact goes_of_leave hs
  | read next =>
    obtain ⟨⟨⟩, rfl⟩ := EStateM.Result.ok.inj hs
    exact .read
  | update change next =>
    obtain ⟨⟨⟩, rfl⟩ := EStateM.Result.ok.inj hs
    exact .update
  | call c next =>
    obtain ⟨answer, m₁, hanswer, hend⟩ := bind_ok hs
    obtain ⟨iso, hcall, rfl⟩ := Run.exists_of_onIsolate_ok hanswer
    obtain ⟨⟨⟩, rfl⟩ := EStateM.Result.ok.inj hend
    exact .call hcall
  | scope body next =>
    obtain ⟨mark, m₁, hmark, hend⟩ := bind_ok hs
    obtain ⟨iso, hopen, rfl⟩ := Run.exists_of_onIsolate_ok hmark
    obtain ⟨⟨⟩, rfl⟩ := EStateM.Result.ok.inj hend
    exact .enterScope hopen
  | escape body next =>
    obtain ⟨mark, m₁, hmark, hend⟩ := bind_ok hs
    obtain ⟨iso, hopen, rfl⟩ := Run.exists_of_onIsolate_ok hmark
    obtain ⟨⟨⟩, rfl⟩ := EStateM.Result.ok.inj hend
    exact .enterEscape hopen
  | checkpoint next =>
    obtain ⟨found, m₁, hdue, hend⟩ := bind_ok hs
    cases found with
    | none =>
      obtain ⟨⟨⟩, rfl⟩ := EStateM.Result.ok.inj hend
      exact .idle hdue
    | some found =>
      obtain ⟨⟨⟩, rfl⟩ := EStateM.Result.ok.inj hend
      exact .react hdue
  | register handler next =>
    obtain ⟨id, m₁, hid, hend⟩ := bind_ok hs
    obtain ⟨iso, hregister, rfl⟩ := Run.exists_of_onIsolate_ok hid
    obtain ⟨⟨⟩, rfl⟩ := EStateM.Result.ok.inj hend
    exact .register hregister
  | fail fault => cases hs
  | outside move next => cases move

/-- With these answers it is the step that is taken. -/
theorem Goes.step_eq (h : s.Goes u) : s.step = .ok (u.program, u.frames) u.machine := by
  cases h with
  | stay | read | update => rfl
  | call hcall => exact bind_run _ (Run.onIsolate_ok_run hcall _)
  | register hregister => exact bind_run _ (Run.onIsolate_ok_run hregister _)
  | enterScope hopen => exact bind_run _ (Run.onIsolate_ok_run hopen _)
  | enterEscape hopen => exact bind_run _ (Run.onIsolate_ok_run hopen _)
  | leaveScope hclose => exact bind_run _ (Run.onIsolate_ok_run hclose _)
  | leaveEscape hv hclose =>
    refine (bind_run _ (Run.onIsolate_ok_run (Run.escaping_of_none hv) _)).trans ?_
    exact bind_run _ (Run.onIsolate_ok_run hclose _)
  | escape hv hget hclose hregister =>
    refine (bind_run _ (Run.onIsolate_ok_run (Run.escaping_of_get hv hget) _)).trans ?_
    refine (bind_run _ (Run.onIsolate_ok_run hclose _)).trans ?_
    exact bind_run _ (Run.onIsolate_ok_run hregister _)
  | idle hdue => exact bind_run _ hdue
  | react hdue => exact bind_run _ hdue
  | conclude hconclude hclose hrelease => exact bind_run _ (Program.settle_run hconclude hclose hrelease)

theorem step_eq_ok_iff : s.step = .ok (p, frames) m ↔ s.Goes ⟨m, p, frames⟩ :=
  ⟨goes_of_step, Goes.step_eq⟩

end Stage

end Promises
