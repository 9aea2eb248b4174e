import Promises.Proofs.Isolate.Parts
import Promises.Proofs.StringTable

namespace Promises

/-- An action that leaves the table as it is that `strings` finds. -/
structure Silent {e σ α : Type} (strings : σ → StringTable) (x : EStateM e σ α) : Prop where
  same : ∀ {s t : σ} {v : α}, x s = .ok v t → strings t = strings s

/-- An action that gives numbers to strings and does nothing else to the table that `strings` finds. -/
structure Interns {e σ α : Type} (strings : σ → StringTable) (x : EStateM e σ α) : Prop where
  later : ∀ {s t : σ} {v : α}, x s = .ok v t → (strings s).Later (strings t)

section

variable {e σ α β : Type} {strings : σ → StringTable}

namespace Silent

theorem pure (v : α) : Silent strings (pure v : EStateM e σ α) :=
  ⟨fun hr => congrArg strings (EStateM.Result.ok.inj hr).2.symm⟩

theorem get : Silent strings (get : EStateM e σ σ) :=
  ⟨fun hr => congrArg strings (EStateM.Result.ok.inj hr).2.symm⟩

theorem throw (error : e) : Silent strings (throw error : EStateM e σ α) := ⟨fun hr => by cases hr⟩

theorem bind {x : EStateM e σ α} {f : α → EStateM e σ β} (hx : Silent strings x)
    (hf : ∀ v, Silent strings (f v)) : Silent strings (x >>= f) := by
  refine ⟨fun {s t v} hr => ?_⟩
  obtain ⟨u, mid, hu, hrest⟩ := bind_ok hr
  exact ((hf u).same hrest).trans (hx.same hu)

theorem interns {x : EStateM e σ α} (h : Silent strings x) : Interns strings x := by
  refine ⟨fun {s t v} hr => ?_⟩
  rw [h.same hr]

end Silent

theorem Interns.bind {x : EStateM e σ α} {f : α → EStateM e σ β} (hx : Interns strings x)
    (hf : ∀ v, Interns strings (f v)) : Interns strings (x >>= f) := by
  refine ⟨fun {s t v} hr => ?_⟩
  obtain ⟨u, mid, hu, hrest⟩ := bind_ok hr
  exact (hx.later hu).trans ((hf u).later hrest)

end

namespace Isolate

variable {ε φ α : Type}

theorem silent_onEngine (act : Action ε α) : Silent strings (onEngine act : Action (Isolate ε φ) α) := by
  refine ⟨fun hr => ?_⟩
  obtain ⟨e, -, rfl⟩ := onEngine_ok hr
  rfl

theorem silent_onHandles (act : Action HandleTable α) :
    Silent strings (onHandles act : Action (Isolate ε φ) α) := by
  refine ⟨fun {iso next v} hr => ?_⟩
  rw [onHandles_run] at hr
  cases hact : act iso.handles with
  | error fault handles =>
    rw [hact] at hr
    cases hr
  | ok u handles =>
    rw [hact] at hr
    obtain ⟨-, rfl⟩ := EStateM.Result.ok.inj hr
    rfl

theorem silent_registerFunction (f : φ) :
    Silent strings (registerFunction f : Action (Isolate ε φ) FunctionId) := by
  refine ⟨fun hr => ?_⟩
  obtain ⟨-, rfl⟩ := EStateM.Result.ok.inj hr
  rfl

/-- The one action that does something to the table. -/
theorem interns_intern (s : String) : Interns strings (intern s : Action (Isolate ε φ) StringId) := by
  refine ⟨fun {iso next v} hr => ?_⟩
  obtain ⟨-, rfl⟩ := EStateM.Result.ok.inj hr
  exact .single ⟨s, rfl⟩

section

variable [Engine ε]

theorem silent_register (b : Binding) : Silent strings (register b : Action (Isolate ε φ) HandleId) :=
  .bind (silent_onEngine _) fun _ => silent_onHandles _

/-- The parts of calls, new strings apart, leave the table as it is. -/
theorem spreads_silent : Spreads fun α (x : Action (Isolate ε φ) α) => Silent strings x where
  returns := .pure
  faults := .throw
  looks := .get
  asks _ := silent_onEngine _
  binds _ _ := silent_onEngine _
  registers := silent_register
  follows := .bind

/-- The parts of calls give numbers to strings at most. -/
theorem spreads_interns : Spreads fun α (x : Action (Isolate ε φ) α) => Interns strings x where
  returns v := (Silent.pure v).interns
  faults fault := (Silent.throw fault).interns
  looks := Silent.get.interns
  asks _ := (silent_onEngine _).interns
  binds _ _ := (silent_onEngine _).interns
  registers b := (silent_register b).interns
  follows := .bind

theorem silent_releaseAll (popped : List Binding) :
    Silent strings (releaseAll popped : Action (Isolate ε φ) Unit) := by
  induction popped with
  | nil => exact .pure _
  | cons b popped ih => exact .bind (silent_onEngine _) fun _ => ih

theorem silent_closeScope (mark : ScopeMark) : Silent strings (closeScope mark : Action (Isolate ε φ) Unit) :=
  .bind (silent_onHandles _) fun outcome => .bind (spreads_ofMisuse spreads_silent outcome) fun popped =>
    silent_releaseAll popped.toList

theorem silent_call {call : Call} (hc : call.Silent) :
    Silent strings (call.run : Action (Isolate ε φ) call.Answer) := spreads_call_of_silent spreads_silent hc

/-- A call gives numbers to strings at most. -/
theorem interns_call (call : Call) : Interns strings (call.run : Action (Isolate ε φ) call.Answer) :=
  spreads_call spreads_interns interns_intern call

theorem interns_toNative (m : ManagedValue) : Interns strings (toNative m : Action (Isolate ε φ) Value) :=
  spreads_toNative spreads_interns interns_intern m

end

end Isolate

end Promises
