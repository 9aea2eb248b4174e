import Mathlib.Logic.Relation
import Promises.Proofs.Isolate.Parts

namespace Promises

/-- An isolate with the roots that have no entry in its table, and the scopes to be closed, the
innermost first. -/
structure Moment (ε φ : Type) where
  isolate : Isolate ε φ
  owed : List ObjectRef
  marks : List ScopeMark

namespace Moment

variable {ε φ α β : Type} [Engine ε]

inductive Step : Moment ε φ → Moment ε φ → Prop
  | engine {iso : Isolate ε φ} {owed : List ObjectRef} {marks : List ScopeMark} {α : Type}
    {act : Action ε α} {v : α} {e : ε} (hq : Quiet act) (hr : act iso.engine = .ok v e) :
    Step ⟨iso, owed, marks⟩ ⟨{ iso with engine := e }, owed, marks⟩
  | strings {iso : Isolate ε φ} {owed : List ObjectRef} {marks : List ScopeMark}
    (strings : StringTable) : Step ⟨iso, owed, marks⟩ ⟨{ iso with strings }, owed, marks⟩
  /-- What was registered stays where it is. -/
  | functions {iso : Isolate ε φ} {owed : List ObjectRef} {marks : List ScopeMark}
    {functions : Array φ} (hf : iso.functions.toList <+: functions.toList) :
    Step ⟨iso, owed, marks⟩ ⟨{ iso with functions }, owed, marks⟩
  /-- A root is registered before its entry is there. -/
  | retain {iso : Isolate ε φ} {owed : List ObjectRef} {marks : List ScopeMark} {ref : ObjectRef}
    {e : ε} (hr : Engine.retain ref iso.engine = .ok () e) :
    Step ⟨iso, owed, marks⟩ ⟨{ iso with engine := e }, ref :: owed, marks⟩
  | push {iso : Isolate ε φ} {owed : List ObjectRef} {marks : List ScopeMark} {b : Binding}
    (hroom : iso.handles.entries.size < HandleId.capacity) :
    Step ⟨iso, b.object :: owed, marks⟩ ⟨{ iso with handles := iso.handles.pushed b }, owed, marks⟩
  | release {iso : Isolate ε φ} {owed : List ObjectRef} {marks : List ScopeMark} {ref : ObjectRef}
    {e : ε} (hr : Engine.release ref iso.engine = .ok () e) :
    Step ⟨iso, ref :: owed, marks⟩ ⟨{ iso with engine := e }, owed, marks⟩
  /-- The promise of a job comes with a root. -/
  | take {iso : Isolate ε φ} {owed : List ObjectRef} {marks : List ScopeMark}
    {job : Option NativeJob} {e : ε} (hr : Engine.nextJob iso.engine = .ok job e) :
    Step ⟨iso, owed, marks⟩ ⟨{ iso with engine := e }, job.toList.map (·.derived) ++ owed, marks⟩
  | opened {iso : Isolate ε φ} {owed : List ObjectRef} {marks : List ScopeMark} :
    Step ⟨iso, owed, marks⟩
      ⟨{ iso with handles := iso.handles.openScope.2 }, owed, iso.handles.openScope.1 :: marks⟩
  /-- Entries go before their roots do. -/
  | closed {iso : Isolate ε φ} {owed : List ObjectRef} {marks : List ScopeMark} {mark : ScopeMark}
    {popped : Array Binding} {handles : HandleTable}
    (hc : iso.handles.closeScope mark = (.ok popped, handles)) :
    Step ⟨iso, owed, mark :: marks⟩
      ⟨{ iso with handles }, popped.toList.map (·.object) ++ owed, marks⟩

abbrev Steps : Moment ε φ → Moment ε φ → Prop := Relation.ReflTransGen Step

/-- A step within a scope. -/
def Inner (m n : Moment ε φ) : Prop := Step m n ∧ n.marks = m.marks

/-- Steps that open no scope and close none. -/
abbrev Inners : Moment ε φ → Moment ε φ → Prop := Relation.ReflTransGen Inner

theorem Steps.functions {m n : Moment ε φ} (h : Steps m n) :
    m.isolate.functions.toList <+: n.isolate.functions.toList := by
  induction h with
  | refl => exact List.prefix_rfl
  | tail _ hstep ih =>
    refine ih.trans ?_
    cases hstep with
    | functions hf => exact hf
    | _ => exact List.prefix_rfl

theorem Step.inners {m n : Moment ε φ} (h : Step m n) (hmarks : n.marks = m.marks) : Inners m n :=
  .single ⟨h, hmarks⟩

theorem Inners.steps {m n : Moment ε φ} (h : Inners m n) : Steps m n :=
  Relation.ReflTransGen.mono (fun _ _ hinner => hinner.1) m n h

/-- An action that goes by steps within its scope and leaves no root without an entry behind. -/
structure Carries (x : Action (Isolate ε φ) α) : Prop where
  inners : ∀ {iso next : Isolate ε φ} {v : α} (owed : List ObjectRef) (marks : List ScopeMark),
    x iso = .ok v next → Inners ⟨iso, owed, marks⟩ ⟨next, owed, marks⟩

theorem Carries.steps {x : Action (Isolate ε φ) α} (hx : Carries x) {iso next : Isolate ε φ} {v : α}
    (owed : List ObjectRef) (marks : List ScopeMark) (hr : x iso = .ok v next) :
    Steps ⟨iso, owed, marks⟩ ⟨next, owed, marks⟩ := (hx.inners owed marks hr).steps

namespace Carries

theorem of_unchanged {x : Action (Isolate ε φ) α}
    (h : ∀ {iso next : Isolate ε φ} {v : α}, x iso = .ok v next → next = iso) : Carries x := by
  refine ⟨fun {iso next v} owed marks hr => ?_⟩
  obtain rfl := h hr
  exact .refl

theorem pure (v : α) : Carries (pure v : Action (Isolate ε φ) α) :=
  of_unchanged fun hr => (EStateM.Result.ok.inj hr).2.symm

theorem get : Carries (get : Action (Isolate ε φ) (Isolate ε φ)) :=
  of_unchanged fun hr => (EStateM.Result.ok.inj hr).2.symm

theorem throw (fault : Fault) : Carries (throw fault : Action (Isolate ε φ) α) :=
  of_unchanged fun hr => by cases hr

theorem bind {x : Action (Isolate ε φ) α} {f : α → Action (Isolate ε φ) β} (hx : Carries x)
    (hf : ∀ v, Carries (f v)) : Carries (x >>= f) := by
  refine ⟨fun {iso next v} owed marks hr => ?_⟩
  obtain ⟨u, mid, hu, hrest⟩ := bind_ok hr
  exact (hx.inners owed marks hu).trans ((hf u).inners owed marks hrest)

end Carries

end Moment

namespace Isolate

open Moment

variable {ε φ α β : Type} [Engine ε]

theorem carries_quiet {act : Action ε α} (hq : Quiet act) :
    Carries (onEngine act : Action (Isolate ε φ) α) := by
  refine ⟨fun {iso next v} owed marks hr => ?_⟩
  obtain ⟨e, he, rfl⟩ := onEngine_ok hr
  exact (Step.engine hq he).inners rfl

theorem carries_intern (s : String) : Carries (intern s : Action (Isolate ε φ) StringId) := by
  refine ⟨fun {iso next v} owed marks hr => ?_⟩
  obtain ⟨-, rfl⟩ := EStateM.Result.ok.inj hr
  exact (Step.strings _).inners rfl

theorem carries_registerFunction (f : φ) :
    Carries (registerFunction f : Action (Isolate ε φ) FunctionId) := by
  refine ⟨fun {iso next v} owed marks hr => ?_⟩
  obtain ⟨-, rfl⟩ := EStateM.Result.ok.inj hr
  refine (Step.functions ?_).inners rfl
  rw [Array.toList_push]
  exact List.prefix_append _ _

/-- A new entry is on top of the others, and its root was registered. -/
theorem register_entry {iso next : Isolate ε φ} {b : Binding} {id : HandleId}
    (hr : register b iso = .ok id next) :
    ∃ e, Engine.retain b.object iso.engine = .ok () e ∧
      iso.handles.entries.size < HandleId.capacity ∧ id = iso.handles.nextId ∧
      next = { iso with engine := e, handles := iso.handles.pushed b } := by
  obtain ⟨⟨⟩, mid, hretain, hpush⟩ := bind_ok hr
  obtain ⟨e, he, rfl⟩ := onEngine_ok hretain
  rw [onHandles_run, HandleTable.push] at hpush
  by_cases hroom : iso.handles.entries.size < HandleId.capacity
  · rw [if_pos hroom] at hpush
    obtain ⟨rfl, rfl⟩ := EStateM.Result.ok.inj hpush
    exact ⟨e, he, hroom, rfl, rfl⟩
  · rw [if_neg hroom] at hpush
    cases hpush

/-- An entry takes over the root that was registered for it. -/
theorem carries_register (b : Binding) : Carries (register b : Action (Isolate ε φ) HandleId) := by
  refine ⟨fun {iso next id} owed marks hr => ?_⟩
  obtain ⟨e, he, hroom, -, rfl⟩ := register_entry hr
  exact ((Step.retain he).inners rfl).tail ⟨.push hroom, rfl⟩

theorem carries_bindingOf (id : IsolateId) (ref : ObjectRef) :
    Carries (onEngine (Engine.bindingOf id ref) : Action (Isolate ε φ) Binding) := by
  refine ⟨fun {iso next b} owed marks hr => ?_⟩
  obtain ⟨e, he, rfl⟩ := onEngine_ok hr
  obtain ⟨kind, e', hkind, hrest⟩ := bind_ok he
  obtain ⟨-, rfl⟩ := EStateM.Result.ok.inj hrest
  exact (Step.engine (.isPromise ref) hkind).inners rfl

theorem releaseAll_steps {iso next : Isolate ε φ} {popped : List Binding} (owed : List ObjectRef)
    (marks : List ScopeMark) (hr : releaseAll popped iso = .ok () next) :
    Steps ⟨iso, popped.map (·.object) ++ owed, marks⟩ ⟨next, owed, marks⟩ := by
  induction popped generalizing iso with
  | nil =>
    obtain ⟨-, rfl⟩ := EStateM.Result.ok.inj hr
    exact .refl
  | cons b popped ih =>
    obtain ⟨⟨⟩, mid, hb, hrest⟩ := bind_ok hr
    obtain ⟨e, he, rfl⟩ := onEngine_ok hb
    exact .head (.release he) (ih hrest)

theorem openScope_steps {iso next : Isolate ε φ} {mark : ScopeMark} (owed : List ObjectRef)
    (marks : List ScopeMark) (hr : openScope iso = .ok mark next) :
    Steps ⟨iso, owed, marks⟩ ⟨next, owed, mark :: marks⟩ := by
  obtain ⟨rfl, rfl⟩ := openScope_table hr
  exact .single .opened

theorem closeScope_steps {iso next : Isolate ε φ} {mark : ScopeMark} (owed : List ObjectRef)
    (marks : List ScopeMark) (hr : closeScope mark iso = .ok () next) :
    Steps ⟨iso, owed, mark :: marks⟩ ⟨next, owed, marks⟩ := by
  obtain ⟨popped, hclose, hrelease⟩ := closeScope_popped hr
  exact .head (.closed hclose) (releaseAll_steps owed marks hrelease)

/-- The parts of calls go by steps that leave no root behind without an entry. -/
theorem spreads_carries : Spreads fun α (x : Action (Isolate ε φ) α) => Carries x where
  returns := .pure
  faults := .throw
  looks := .get
  asks := carries_quiet
  binds := carries_bindingOf
  registers := carries_register
  follows := .bind

theorem carries_toNative (m : ManagedValue) :
    Carries (toNative m : Action (Isolate ε φ) Value) :=
  spreads_toNative spreads_carries carries_intern m

/-- Every call goes by steps that leave no root behind without an entry. -/
theorem carries_call (call : Call) : Carries (call.run : Action (Isolate ε φ) call.Answer) :=
  spreads_call spreads_carries carries_intern call

end Isolate

end Promises
