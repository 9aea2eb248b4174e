import Promises.Proofs.Shell.Kept

namespace Promises

namespace Shell

open Isolate Program

variable {iso next : Isolate Agent (Handler Memory Empty)} {m m' : Memory} {cp : Run Agent Memory Empty ℕ}
  {slot : ℕ} {h : HandleId} {b : Binding} {v : Value} {e : Agent}

theorem call_run {c : Call} {a : c.Answer} {script : c.Answer → Script} (hc : c.run iso = .ok a next) :
    runWith cp (.call c script) ⟨iso, m⟩ = runWith cp (script a) ⟨next, m⟩ :=
  bind_run _ (Run.onIsolate_ok_run hc m)

theorem call_error {c : Call} {script : c.Answer → Script} {fault : Fault}
    (hc : c.run iso = .error fault next) :
    runWith cp (.call c script) ⟨iso, m⟩ = .error (.fault fault) ⟨next, m⟩ :=
  bind_error _ (Run.onIsolate_error_run hc m)

theorem say_run (text : String) :
    runWith cp (say text) ⟨iso, m⟩ = .ok (.ok .undefined) ⟨iso, { m with report := .ok text }⟩ := rfl

theorem get_run (m : Memory) :
    (get : Run Agent Memory Empty _) ⟨iso, m⟩ = .ok ⟨iso, m⟩ ⟨iso, m⟩ := rfl

theorem withSlot_some {script : Value → Script} (hv : m.slots[slot]? = some v) :
    runWith cp (withSlot slot script) ⟨iso, m⟩ = runWith cp (script v) ⟨iso, m⟩ := by
  rw [withSlot, runWith, bind_run _ (get_run m)]
  dsimp only
  rw [hv]

theorem withSlot_none {script : Value → Script} (hv : m.slots[slot]? = none) :
    runWith cp (withSlot slot script) ⟨iso, m⟩ = runWith cp (refuse (.unknownSlot slot)) ⟨iso, m⟩ := by
  rw [withSlot, runWith, bind_run _ (get_run m)]
  dsimp only
  rw [hv]

theorem castPromise_run (hg : iso.handles.get h = .ok b) (hb : b.kind = .promise) :
    castPromise (.handle h) iso = .ok (some ⟨h⟩) iso := by
  have hpromise : b.isPromise = true := beq_iff_eq.2 hb
  rw [castPromise, Value.handle?_handle]
  refine (bind_run _ (binding_run hg)).trans ?_
  rw [if_pos hpromise]
  rfl

theorem withPromise_some {script : Promise → Script} (hv : m.slots[slot]? = some (.handle h))
    (hg : iso.handles.get h = .ok b) (hb : b.kind = .promise) :
    runWith cp (withPromise slot script) ⟨iso, m⟩ = runWith cp (script ⟨h⟩) ⟨iso, m⟩ := by
  have hcast : (Call.castPromise (.handle h)).run iso = .ok (some ⟨h⟩) iso := castPromise_run hg hb
  rw [withPromise, withSlot_some hv, call_run hcast]

theorem withResolver_some {script : Resolver → Script} (hv : m.slots[slot]? = some (.handle h))
    (hg : iso.handles.get h = .ok b) (hb : b.kind = .promise) :
    runWith cp (withResolver slot script) ⟨iso, m⟩ = runWith cp (script ⟨h⟩) ⟨iso, m⟩ := by
  have hcast : (Call.castResolver (.handle h)).run iso = .ok (some ⟨h⟩) iso :=
    bind_run _ (castPromise_run hg hb)
  rw [withResolver, withSlot_some hv, call_run hcast]

/-- The promises of a desk are those of the slots. -/
def Shows (d : Desk) (iso : Isolate Agent (Handler Memory Empty)) (m : Memory) : Prop :=
  ∀ i : ℕ, (m.slots[i]? = none ∧ d.promises[i]? = none) ∨ ∃ (h : HandleId) (b : Binding),
    m.slots[i]? = some (.handle h) ∧ iso.handles.get h = .ok b ∧ b.kind = .promise ∧
      d.promises[i]? = some b.object

/-- The value of an operand is what the desk says, with the text as it comes back. -/
theorem withOperand_run (iso : Isolate Agent (Handler Memory Empty)) (cp : Run Agent Memory Empty ℕ)
    (script : Value → Script) {d : Desk} (hd : Shows d iso m) (hs : iso.strings.Sound) {o : Operand}
    (hf : o.Fits) :
    (∃ failure, (∀ r, (d.through r).operand o = .error failure) ∧
      runWith cp (withOperand o script) ⟨iso, m⟩ = runWith cp (refuse failure) ⟨iso, m⟩) ∨
    ∃ v strings value, iso.strings.Grown strings ∧
      runWith cp (withOperand o script) ⟨iso, m⟩ = runWith cp (script v) ⟨{ iso with strings }, m⟩ ∧
      (d.through strings.reading).operand o = .ok value ∧
      ({ iso with strings } : Isolate Agent (Handler Memory Empty)).toManaged v = .ok value := by
  have hsame := StringTable.Grown.refl iso.strings
  have hreads := hs.reads
  cases o with
  | int n =>
    have hn : Value.int n = .ok (Value.ofInt32 n) := if_pos hf
    refine .inr ⟨Value.ofInt32 n, iso.strings, .int n, hsame, ?_, rfl, (Native.int hf).toManaged hreads⟩
    rw [withOperand, hn]
  | bool b => exact .inr ⟨_, iso.strings, _, hsame, rfl, rfl, (Native.bool b).toManaged hreads⟩
  | null => exact .inr ⟨_, iso.strings, _, hsame, rfl, rfl, Native.null.toManaged hreads⟩
  | undefined => exact .inr ⟨_, iso.strings, _, hsame, rfl, rfl, Native.undefined.toManaged hreads⟩
  | text s =>
    have hgrown := iso.strings.grown_intern s
    refine .inr ⟨_, _, _, hgrown, rfl, rfl, ?_⟩
    exact (Native.string (iso.strings.ids_intern s)).toManaged (hgrown.sound hs).reads
  | slot slot =>
    rcases hd slot with ⟨hv, hnone⟩ | ⟨h, b, hv, hg, hb, hsome⟩
    · refine .inl ⟨.unknownSlot slot, fun r => ?_, withSlot_none hv⟩
      simp only [Desk.operand, Desk.through, hnone]
    · refine .inr ⟨.handle h, iso.strings, .object b.object, hsame, withSlot_some hv, ?_, toManaged_handle hg⟩
      simp only [Desk.operand, Desk.through, hsome]

theorem ask_ok {α : Type} {request : Request Agent α} {answer : Except EngineError α}
    (hr : request.run iso.engine = .ok answer e) : ask request iso = .ok answer { iso with engine := e } := by
  rw [ask, onEngine_run, hr]

/-- A promise is settled with a value that goes to the engine. -/
theorem settleCall_run (iso : Isolate Agent (Handler Memory Empty)) (cp : Run Agent Memory Empty ℕ)
    (script : Option Bool → Script) {kind : ReactionKind} {value : ManagedValue}
    (hg : iso.handles.get h = .ok b) (hv : iso.toManaged v = .ok value) {answer : Except EngineError Bool}
    (hr : (Desk.settle kind b.object value).run iso.engine = .ok answer e) :
    runWith cp (settleCall kind ⟨h⟩ v script) ⟨iso, m⟩ =
      runWith cp (script answer.toOption) ⟨{ iso with engine := e }, m⟩ := by
  cases kind with
  | fulfill =>
    have hc : (Call.resolve ⟨h⟩ v).run iso = .ok answer.toOption { iso with engine := e } :=
      (bind_run _ (manage_run hv)).trans ((bind_run _ (binding_run hg)).trans (bind_run _ (ask_ok hr)))
    exact call_run hc
  | reject =>
    have hc : (Call.reject ⟨h⟩ v).run iso = .ok answer.toOption { iso with engine := e } :=
      (bind_run _ (manage_run hv)).trans ((bind_run _ (binding_run hg)).trans (bind_run _ (ask_ok hr)))
    exact call_run hc

theorem promiseRef_run (hg : iso.handles.get h = .ok b) (hb : b.kind = .promise) :
    promiseRef ⟨h⟩ iso = .ok b.object iso := by
  have hpromise : b.isPromise = true := beq_iff_eq.2 hb
  refine (bind_run _ (binding_run hg)).trans ?_
  rw [if_pos hpromise]
  rfl

theorem demand_run {α : Type} {query : PromiseQuery} {request : Request Agent α} {answer : α}
    (hr : request.run iso.engine = .ok (.ok answer) e) :
    demand query request iso = .ok answer { iso with engine := e } := bind_run _ (ask_ok hr)

/-- A request that may make an object, the way the calls of native code make it. -/
def made {β : Type} (request : Request Agent ObjectRef) (f : HandleId → β) :
    Action (Isolate Agent (Handler Memory Empty)) (Option β) := do
  match ← ask request with
  | .ok ref => return some (f (← wrap ref))
  | .error _ => return none

variable {β : Type} {request : Request Agent ObjectRef} {f : HandleId → β} {ref : ObjectRef}

theorem made_refused (iso : Isolate Agent (Handler Memory Empty)) {error : EngineError}
    (hr : request.run iso.engine = .ok (.error error) e) :
    made request f iso = .ok none { iso with engine := e } := bind_run _ (ask_ok hr)

theorem made_room (iso : Isolate Agent (Handler Memory Empty)) (hr : request.run iso.engine = .ok (.ok ref) e)
    (hroom : iso.handles.entries.size < HandleId.capacity) :
    made request f iso = .ok (some (f iso.handles.nextId))
      (({ iso with engine := e } : Isolate Agent (Handler Memory Empty)).entered
        (({ iso with engine := e } : Isolate Agent (Handler Memory Empty)).bound ref)) := by
  have hwrap : wrap ref ({ iso with engine := e } : Isolate Agent (Handler Memory Empty)) = _ :=
    (wrap_run ref _).trans (register_room _ hroom)
  exact (bind_run _ (ask_ok hr)).trans (bind_run _ hwrap)

theorem made_full (iso : Isolate Agent (Handler Memory Empty)) (hr : request.run iso.engine = .ok (.ok ref) e)
    (hfull : ¬ iso.handles.entries.size < HandleId.capacity) :
    made request f iso = .error .tableFull { iso with engine := e.retained ref } := by
  have hwrap : wrap ref ({ iso with engine := e } : Isolate Agent (Handler Memory Empty)) =
      .error .tableFull { iso with engine := e.retained ref } := by
    rw [wrap_run, register_run, if_neg hfull]
    rfl
  exact (bind_run _ (ask_ok hr)).trans (bind_error _ hwrap)

/-- A handler is attached to a promise by a request that may make another one. -/
theorem attachCall_run (iso : Isolate Agent (Handler Memory Empty)) (cp : Run Agent Memory Empty ℕ)
    (script : Option Promise → Script) (kind : ReactionKind) (handler : FunctionId)
    (hg : iso.handles.get h = .ok b) (hb : b.kind = .promise) :
    runWith cp (attachCall kind ⟨h⟩ handler script) ⟨iso, m⟩ =
      (do runWith cp (script (← Run.onIsolate (made (Desk.attach kind b.object handler) Promise.mk))))
        ⟨iso, m⟩ := by
  have hcall (f g : Option FunctionId) : (Call.addReactions ⟨h⟩ f g).run iso =
      made (Engine.addReactions b.object f g) Promise.mk iso := bind_run _ (promiseRef_run hg hb)
  have hrun (f g : Option FunctionId) : runWith cp (.call (.addReactions ⟨h⟩ f g) script) ⟨iso, m⟩ =
      (do runWith cp (script (← Run.onIsolate (made (Engine.addReactions b.object f g) Promise.mk))))
        ⟨iso, m⟩ := by
    have honIsolate : (Run.onIsolate (Call.addReactions ⟨h⟩ f g).run : Run Agent Memory Empty _) ⟨iso, m⟩ =
        Run.onIsolate (made (Engine.addReactions b.object f g) Promise.mk) ⟨iso, m⟩ := by
      rw [Run.onIsolate_run, Run.onIsolate_run, hcall]
    change (Run.onIsolate (Call.addReactions ⟨h⟩ f g).run >>= fun a => runWith cp (script a)) ⟨iso, m⟩ = _
    simp only [bind, EStateM.bind, honIsolate]
  cases kind with
  | fulfill => exact hrun (some handler) none
  | reject => exact hrun none (some handler)

/-- What is printed for a value on the native side is what the desk says. -/
theorem display_run {d : Desk} {value : ManagedValue} (hn : iso.Native value v)
    (hr : iso.strings.Reads d.reading) : display v iso = .ok (d.shown value iso.engine) iso := by
  cases hn with
  | undefined =>
    exact Native.display_word (Value.stringId?_tagged .undefined (by decide) _)
      (Value.handle?_tagged .undefined (by decide) _)
  | null =>
    exact Native.display_word (Value.stringId?_tagged .null (by decide) _)
      (Value.handle?_tagged .null (by decide) _)
  | bool b =>
    exact Native.display_word (Value.stringId?_tagged .bool (by decide) _)
      (Value.handle?_tagged .bool (by decide) _)
  | int hn => exact Native.display_word (Value.stringId?_ofInt32 _) (Value.handle?_ofInt32 _)
  | string hid => exact Native.display_string hid hr
  | @object h b hg hb =>
    have hpromise : iso.engine.heap.isPromise b.object = b.isPromise := by
      rw [Heap.isPromise, hb, Binding.isPromise]
      cases b.kind <;> rfl
    rw [Native.display_handle hg, Desk.shown, hpromise, Binding.isPromise]
    cases b.kind <;> rfl

theorem scope_run {body : Script} {c : Completion}
    (hb : runWith cp body ⟨Run.opened iso, m⟩ = .ok c ⟨next, m'⟩)
    (hh : next.handles = iso.handles.openScope.2) :
    runWith cp (.scope body finish) ⟨iso, m⟩ = .ok c ⟨{ next with handles := iso.handles }, m'⟩ :=
  bind_run _ (Run.inScope_idle hb hh)

theorem scope_single {body : Script} {c : Completion} (hf : iso.handles.Fitted)
    (hb : runWith cp body ⟨Run.opened iso, m⟩ = .ok c ⟨next, m'⟩)
    (hh : next.handles = iso.handles.openScope.2.pushed b) :
    ∃ table, iso.handles.Worn table ∧ runWith cp (.scope body finish) ⟨iso, m⟩ =
      .ok c ⟨{ next with handles := table, engine := next.engine.released b.object }, m'⟩ := by
  obtain ⟨table, hworn, hscope⟩ := Run.inScope_single hf hb hh
  exact ⟨table, hworn, bind_run _ hscope⟩

theorem scope_error {body : Script} {next : Completion → Script} {halt : Halt} {t : Shell}
    (hb : runWith cp body ⟨Run.opened iso, m⟩ = .error halt t) :
    runWith cp (.scope body next) ⟨iso, m⟩ = .error halt t :=
  bind_error _ (Run.inScope_error hb)

theorem escape_error {body : Script} {next : Completion → Script} {halt : Halt} {t : Shell}
    (hb : runWith cp body ⟨Run.opened iso, m⟩ = .error halt t) :
    runWith cp (.escape body next) ⟨iso, m⟩ = .error halt t :=
  bind_error _ (Run.inEscapableScope_error hb)

/-- A command that makes nothing binds no slot. -/
theorem escape_refused {body : Script}
    (hb : runWith cp body ⟨Run.opened iso, m⟩ = .ok (.error .undefined) ⟨next, m'⟩)
    (hh : next.handles = iso.handles.openScope.2) :
    runWith cp (.escape body store) ⟨iso, m⟩ =
      .ok (.error .undefined) ⟨{ next with handles := iso.handles }, m'⟩ := by
  have hword : Value.undefined.handle? = none := Value.handle?_tagged .undefined (by decide) 0
  exact bind_run _ (Run.inEscapableScope_word hb hh hword)

theorem store_run (hg : iso.handles.get h = .ok b) (hb : b.kind = .promise) :
    runWith cp (store (.ok (.handle h))) ⟨iso, m⟩ = .ok (.ok .undefined)
      ⟨iso, { m with
        slots := m.slots.push (.handle h)
        report := (Upshot.kept b.object).reply m.slots.size }⟩ := by
  have hdisplay : (Call.display (.handle h)).run iso = .ok s!"[object {ObjectKind.promise}]" iso :=
    hb ▸ Native.display_handle hg
  have hlast : (m.slots.push (.handle h)).size - 1 = m.slots.size := by
    rw [Array.size_push, Nat.add_sub_cancel]
  have hpush : (Run.onMemory fun m => { m with slots := m.slots.push (.handle h) } :
      Run Agent Memory Empty Unit) ⟨iso, m⟩ = .ok () ⟨iso, { m with slots := m.slots.push (.handle h) }⟩ := rfl
  rw [store, runWith, bind_run _ hpush, call_run hdisplay, runWith, bind_run _ (get_run _), say_run]
  dsimp only
  rw [hlast]
  rfl

/-- The memory after a slot was bound. -/
def Memory.bind (m : Memory) (h : HandleId) (ref : ObjectRef) : Memory :=
  { m with slots := m.slots.push (.handle h), report := (Upshot.kept ref).reply m.slots.size }

/-- What a scope gives that got no handle is bound to a new slot. -/
theorem escape_old {body : Script} (hf : iso.handles.Fitted)
    (hb : runWith cp body ⟨Run.opened iso, m⟩ = .ok (.ok (.handle h)) ⟨Run.opened iso, m⟩)
    (hg : iso.handles.get h = .ok b) (hkind : b.kind = .promise)
    (hroom : iso.handles.entries.size < HandleId.capacity) :
    runWith cp (.escape body store) ⟨iso, m⟩ =
      .ok (.ok .undefined) ⟨iso.entered b, m.bind iso.handles.nextId b.object⟩ := by
  have hclose := Isolate.closeScope_idle (Run.opened iso) (t := iso.handles) rfl
  have hscope := Run.inEscapableScope_handle hb (Value.handle?_handle h) hg hclose
  refine (bind_run _ (hscope.trans (Run.rebind_run _ hroom))).trans ?_
  exact store_run (HandleTable.get_nextId hf hroom) hkind

theorem escape_old_full {body : Script}
    (hb : runWith cp body ⟨Run.opened iso, m⟩ = .ok (.ok (.handle h)) ⟨Run.opened iso, m⟩)
    (hg : iso.handles.get h = .ok b) (hfull : ¬ iso.handles.entries.size < HandleId.capacity) :
    runWith cp (.escape body store) ⟨iso, m⟩ =
      .error (.fault .tableFull) ⟨{ iso with engine := iso.engine.retained b.object }, m⟩ := by
  have hclose := Isolate.closeScope_idle (Run.opened iso) (t := iso.handles) rfl
  have hscope := Run.inEscapableScope_handle hb (Value.handle?_handle h) hg hclose
  exact bind_error _ (hscope.trans (Run.rebind_full _ hfull))

/-- What a scope gives that got a handle for it is bound to a new slot. -/
theorem escape_new {body : Script} (hf : iso.handles.Fitted)
    (hb : runWith cp body ⟨Run.opened iso, m⟩ = .ok (.ok (.handle iso.handles.nextId))
      ⟨({ Run.opened iso with engine := e } : Isolate Agent (Handler Memory Empty)).entered b, m⟩)
    (hkind : b.kind = .promise) (hroots : e.Roomy 1)
    (hroom : iso.handles.entries.size < HandleId.capacity) :
    ∃ table, iso.handles.Worn table ∧ runWith cp (.escape body store) ⟨iso, m⟩ =
      .ok (.ok .undefined) ⟨{ iso with engine := e.retained b.object, handles := table.pushed b },
        m.bind table.nextId b.object⟩ := by
  let inner : Isolate Agent (Handler Memory Empty) :=
    ({ Run.opened iso with engine := e } : Isolate Agent (Handler Memory Empty)).entered b
  have hg : inner.handles.get iso.handles.nextId = .ok b :=
    HandleTable.get_nextId (t := iso.handles.openScope.2) hf hroom
  obtain ⟨table, hworn, hclose⟩ := Isolate.closeScope_single inner hf rfl
  have hback : (e.retained b.object).released b.object = e := Agent.released_retained (hroots b.object)
  have hclose : closeScope iso.handles.openScope.1 inner = .ok () { inner with handles := table, engine := e } := by
    rw [hclose]
    exact congrArg (fun engine => EStateM.Result.ok () { inner with handles := table, engine }) hback
  have hscope := Run.inEscapableScope_handle hb (Value.handle?_handle _) hg hclose
  have hroom' : table.entries.size < HandleId.capacity := by
    rw [hworn.entries]
    exact hroom
  refine ⟨table, hworn, (bind_run _ (hscope.trans (Run.rebind_run _ hroom'))).trans ?_⟩
  exact store_run (HandleTable.get_nextId hworn.under.fitted hroom') hkind

end Shell

end Promises
