import Promises.Proofs.Shell.Script

namespace Promises

namespace Shell

open Isolate Program

/-- The shell after a script that came to an upshot. -/
def After (s t : Shell) : Upshot → Prop
  | .failed _ => t.isolate.handles = s.isolate.handles ∧ t.memory.slots = s.memory.slots
  | .said _ => s.isolate.handles.Worn t.isolate.handles ∧ t.memory.slots = s.memory.slots
  | .kept ref => ∃ (table : HandleTable) (b : Binding), s.isolate.handles.Worn table ∧
      s.isolate.handles.entries.size < HandleId.capacity ∧ b.object = ref ∧ b.kind = .promise ∧
      t.isolate.handles = table.pushed b ∧ t.memory.slots = s.memory.slots.push (.handle table.nextId)

/-- What no script touches, after it was given the handler that it needs. -/
structure Beside (s t : Shell) : Prop where
  id : t.isolate.id = s.isolate.id
  config : t.isolate.config = s.isolate.config
  functions : t.isolate.functions = s.isolate.functions
  handlers : t.memory.handlers = s.memory.handlers
  strings : s.isolate.strings.Grown t.isolate.strings

/-- A script comes to what an action on the engine comes to, with strings read as they are known at the end. -/
def Realizes (s : Shell) (script : Script) (act : (String → String) → Action Agent Upshot) : Prop :=
  ∃ t, Beside s t ∧
    ((∃ c u, runWith (drain (fuel s) 0) script s = .ok c t ∧
        t.memory.report = u.reply s.memory.slots.size ∧
        act t.isolate.strings.reading s.isolate.engine = .ok u t.isolate.engine ∧ After s t u) ∨
      ∃ e, runWith (drain (fuel s) 0) script s = .error (.fault .tableFull) t ∧
        act t.isolate.strings.reading s.isolate.engine = .error .tableFull e)

section

variable {iso : Isolate Agent (Handler Memory Empty)} {m : Memory} {script : Script} {c : Completion}
  {act : (String → String) → Action Agent Upshot} {e : Agent} {handles : HandleTable} {strings : StringTable}

theorem realizes_said {text : String}
    (hrun : runWith (drain (fuel ⟨iso, m⟩) 0) script ⟨iso, m⟩ =
      .ok c ⟨{ iso with engine := e, handles, strings }, { m with report := .ok text }⟩)
    (hworn : iso.handles.Worn handles) (hgrown : iso.strings.Grown strings)
    (hact : act strings.reading iso.engine = .ok (.said text) e) : Realizes ⟨iso, m⟩ script act :=
  ⟨⟨{ iso with engine := e, handles, strings }, { m with report := .ok text }⟩,
    ⟨rfl, rfl, rfl, rfl, hgrown⟩, .inl ⟨c, .said text, hrun, rfl, hact, hworn, rfl⟩⟩

theorem realizes_failed {failure : Failure}
    (hrun : runWith (drain (fuel ⟨iso, m⟩) 0) script ⟨iso, m⟩ =
      .ok c ⟨{ iso with engine := e, strings }, { m with report := .error failure }⟩)
    (hgrown : iso.strings.Grown strings)
    (hact : act strings.reading iso.engine = .ok (.failed failure) e) : Realizes ⟨iso, m⟩ script act :=
  ⟨⟨{ iso with engine := e, strings }, { m with report := .error failure }⟩,
    ⟨rfl, rfl, rfl, rfl, hgrown⟩, .inl ⟨c, .failed failure, hrun, rfl, hact, rfl, rfl⟩⟩

theorem realizes_kept {table : HandleTable} {b : Binding}
    (hrun : runWith (drain (fuel ⟨iso, m⟩) 0) script ⟨iso, m⟩ =
      .ok c ⟨{ iso with engine := e, handles := table.pushed b }, m.bind table.nextId b.object⟩)
    (hworn : iso.handles.Worn table) (hroom : iso.handles.entries.size < HandleId.capacity)
    (hkind : b.kind = .promise) (hact : act iso.strings.reading iso.engine = .ok (.kept b.object) e) :
    Realizes ⟨iso, m⟩ script act :=
  ⟨⟨{ iso with engine := e, handles := table.pushed b }, m.bind table.nextId b.object⟩,
    ⟨rfl, rfl, rfl, rfl, .refl _⟩,
    .inl ⟨c, .kept b.object, hrun, rfl, hact, table, b, hworn, hroom, rfl, hkind, rfl, rfl⟩⟩

theorem realizes_full
    (hrun : runWith (drain (fuel ⟨iso, m⟩) 0) script ⟨iso, m⟩ =
      .error (.fault .tableFull) ⟨{ iso with engine := e, handles, strings }, m⟩)
    (hgrown : iso.strings.Grown strings) (hact : ∃ e, act strings.reading iso.engine = .error .tableFull e) :
    Realizes ⟨iso, m⟩ script act := by
  obtain ⟨e', he⟩ := hact
  exact ⟨⟨{ iso with engine := e, handles, strings }, m⟩, ⟨rfl, rfl, rfl, rfl, hgrown⟩, .inr ⟨e', hrun, he⟩⟩

variable {body : Script}

theorem realizes_scope_said {text : String}
    (hrun : runWith (drain (fuel ⟨iso, m⟩) 0) body ⟨Run.opened iso, m⟩ =
      .ok c ⟨{ Run.opened iso with engine := e, strings }, { m with report := .ok text }⟩)
    (hf : iso.handles.Fitted) (hgrown : iso.strings.Grown strings)
    (hact : act strings.reading iso.engine = .ok (.said text) e) :
    Realizes ⟨iso, m⟩ (.scope body finish) act := by
  have hscope := scope_run hrun rfl
  exact realizes_said hscope (.refl hf) hgrown hact

theorem realizes_scope_failed {failure : Failure}
    (hrun : runWith (drain (fuel ⟨iso, m⟩) 0) body ⟨Run.opened iso, m⟩ =
      .ok c ⟨{ Run.opened iso with engine := e, strings }, { m with report := .error failure }⟩)
    (hgrown : iso.strings.Grown strings)
    (hact : act strings.reading iso.engine = .ok (.failed failure) e) :
    Realizes ⟨iso, m⟩ (.scope body finish) act := by
  have hscope := scope_run hrun rfl
  exact realizes_failed hscope hgrown hact

theorem realizes_escape_failed {failure : Failure}
    (hrun : runWith (drain (fuel ⟨iso, m⟩) 0) body ⟨Run.opened iso, m⟩ =
      .ok (.error .undefined) ⟨{ Run.opened iso with engine := e, strings },
        { m with report := .error failure }⟩)
    (hgrown : iso.strings.Grown strings)
    (hact : act strings.reading iso.engine = .ok (.failed failure) e) :
    Realizes ⟨iso, m⟩ (.escape body store) act := by
  have hscope := escape_refused hrun rfl
  exact realizes_failed hscope hgrown hact

variable {d : Desk} {slot : ℕ}

/-- A desk of a shell between two commands. -/
structure Stands (d : Desk) (iso : Isolate Agent (Handler Memory Empty)) (m : Memory) : Prop where
  shows : Shows d iso m
  ready : Ready d iso
  live : ∀ ref ∈ d.promises, iso.engine.heap.kind? ref = some .promise

/-- A command that makes a promise for a new slot. -/
theorem realizes_made (hd : Stands d iso m) {β : Type} {request : Request Agent ObjectRef} {f : HandleId → β}
    (name : String) {answer : Except EngineError ObjectRef}
    (hanswer : request.run iso.engine = .ok answer e) (hroots : e.Roomy 1)
    (hkind : ∀ ref, answer = .ok ref → e.heap.kind? ref = some .promise)
    (hnone : ∀ next, made request f (Run.opened iso) = .ok none next →
      runWith (drain (fuel ⟨iso, m⟩) 0) body ⟨Run.opened iso, m⟩ =
        .ok (.error .undefined) ⟨next, { m with report := .error (.refused name) }⟩)
    (hsome : ∀ h next, made request f (Run.opened iso) = .ok (some (f h)) next →
      runWith (drain (fuel ⟨iso, m⟩) 0) body ⟨Run.opened iso, m⟩ = .ok (.ok (.handle h)) ⟨next, m⟩)
    (herror : ∀ fault next, made request f (Run.opened iso) = .error fault next →
      runWith (drain (fuel ⟨iso, m⟩) 0) body ⟨Run.opened iso, m⟩ = .error (.fault fault) ⟨next, m⟩)
    (hfailed : ∀ r error, answer = .error error → act r iso.engine = .ok (.failed (.refused name)) e)
    (hkept : ∀ r ref, answer = .ok ref → act r iso.engine = d.keep ref e) :
    Realizes ⟨iso, m⟩ (.escape body store) act := by
  cases answer with
  | error error =>
    exact realizes_escape_failed (hnone _ (made_refused (Run.opened iso) hanswer)) (.refl _)
      (hfailed _ error rfl)
  | ok ref =>
    -- what was made outlives the scope if the table has room for it
    have hpromise : e.heap.isPromise ref = true := Heap.isPromise_iff_kind?.2 (hkind ref rfl)
    by_cases hroom : iso.handles.entries.size < HandleId.capacity
    · have hbody := hsome _ _ (made_room (Run.opened iso) hanswer hroom)
      have hpromised : (({ Run.opened iso with engine := e } : Isolate Agent (Handler Memory Empty)).bound
          ref).kind = .promise := if_pos hpromise
      obtain ⟨table, hworn, hrun⟩ := escape_new hd.ready.fitted hbody hpromised hroots hroom
      exact realizes_kept hrun hworn hroom hpromised
        ((hkept _ ref rfl).trans (d.keep_room (hd.ready.room_eq_true hroom) ref e))
    · have hbody := herror _ _ (made_full (Run.opened iso) hanswer hroom)
      exact realizes_full (escape_error hbody) (.refl _)
        ⟨e, (hkept _ ref rfl).trans (d.keep_full (hd.ready.room_eq_false hroom) ref e)⟩

theorem realizes_new (hd : Stands d iso m) :
    Realizes ⟨iso, m⟩ Command.new.script fun r => (d.through r).perform .new := by
  obtain ⟨answer, e, hanswer, -, hkeeps, -⟩ := hd.ready.fit.newResolver
  have hone : iso.engine.Roomy 1 := hd.ready.roomy.mono (by omega)
  refine realizes_made (f := Resolver.mk) hd "new" hanswer (Agent.Roomy.keeps hone hkeeps) ?_
    (fun next h => ?_) (fun h next hc => ?_)
    (fun fault next hc => ?_) (fun r error h => ?_) fun r ref h => ?_
  · rintro ref rfl
    exact Agent.kind?_newResolver hd.ready.fit.sound hanswer
  · exact call_run (c := .newResolver) h
  · exact call_run (c := .newResolver) hc
  · exact call_error (c := .newResolver) hc
  · subst h
    exact bind_run _ hanswer
  · subst h
    exact bind_run _ hanswer

theorem withSlot_unknown {next : ObjectRef → Action Agent Upshot} (hnone : d.promises[slot]? = none) :
    d.withSlot slot next e = .ok (.failed (.unknownSlot slot)) e := by
  rw [Desk.withSlot, hnone]
  rfl

theorem withSlot_known {next : ObjectRef → Action Agent Upshot} {ref : ObjectRef}
    (hsome : d.promises[slot]? = some ref) : d.withSlot slot next e = next ref e := by
  rw [Desk.withSlot, hsome]

/-- What is said of a settlement. -/
def settled (kind : ReactionKind) : Option Bool → Script
  | some settled => say (toString settled)
  | none => refuse (.refused (settleName kind))

theorem realizes_settle (hd : Stands d iso m) (kind : ReactionKind) (slot : ℕ) {o : Operand} (hf : o.Fits) :
    Realizes ⟨iso, m⟩ (Command.settle kind slot o).script
      fun r => (d.through r).perform (.settle kind slot o) := by
  let body (p : Resolver) : Script := withOperand o fun v => settleCall kind p v (settled kind)
  change Realizes ⟨iso, m⟩ (.scope (withResolver slot body) finish) _
  rcases hd.shows slot with ⟨hv, hnone⟩ | ⟨h, b, hv, hg, hb, hsome⟩
  · exact realizes_scope_failed (withSlot_none hv) (.refl _) (withSlot_unknown hnone)
  let cp : Run Agent Memory Empty ℕ := drain (fuel ⟨iso, m⟩) 0
  have hresolver : runWith cp (withResolver slot body) ⟨Run.opened iso, m⟩ =
      runWith cp (body ⟨h⟩) ⟨Run.opened iso, m⟩ := withResolver_some hv hg hb
  -- the operand is read first, and may fail
  rcases withOperand_run (Run.opened iso) cp (fun v => settleCall kind ⟨h⟩ v (settled kind)) hd.shows
    hd.ready.strings hf with ⟨failure, hoperand, hrun⟩ | ⟨v, strings, value, hgrown, hrun, hoperand, hvalue⟩
  · refine realizes_scope_failed (hresolver.trans hrun) (.refl _)
      ((withSlot_known (d := d.through _) hsome).trans ?_)
    rw [hoperand]
    rfl
  have hadmits := Desk.admits_operand (d := d.through strings.reading) hd.live hf hoperand
  obtain ⟨answer, e, hanswer, -⟩ := Desk.safe_settle hd.ready.fit kind b.object hadmits
  have hsettle := settleCall_run (m := m) { Run.opened iso with strings } cp (settled kind) hg hvalue hanswer
  have hbody := hresolver.trans (hrun.trans hsettle)
  cases answer with
  | ok settled =>
    refine realizes_scope_said hbody hd.ready.fitted hgrown
      ((withSlot_known (d := d.through _) hsome).trans ?_)
    rw [hoperand]
    exact bind_run _ hanswer
  | error error =>
    refine realizes_scope_failed hbody hgrown ((withSlot_known (d := d.through _) hsome).trans ?_)
    rw [hoperand]
    exact bind_run _ hanswer

theorem realizes_state (hd : Stands d iso m) (slot : ℕ) :
    Realizes ⟨iso, m⟩ (Command.state slot).script fun r => (d.through r).perform (.state slot) := by
  rcases hd.shows slot with ⟨hv, hnone⟩ | ⟨h, b, hv, hg, hb, hsome⟩
  · exact realizes_failed (withSlot_none hv) (.refl _) (withSlot_unknown hnone)
  · obtain ⟨state, hstate⟩ := Agent.Fit.state (hd.live b.object (Array.mem_of_getElem? hsome))
    have hcall : (Call.state ⟨h⟩).run iso = .ok state { iso with engine := iso.engine } :=
      (bind_run _ (promiseRef_run hg hb)).trans (demand_run hstate)
    refine realizes_said ((withPromise_some hv hg hb).trans (call_run hcall)) (.refl hd.ready.fitted)
      (.refl _) ?_
    exact (withSlot_known (d := d.through _) hsome).trans (bind_run _ hstate)

theorem realizes_result (hd : Stands d iso m) (slot : ℕ) :
    Realizes ⟨iso, m⟩ (Command.result slot).script fun r => (d.through r).perform (.result slot) := by
  rcases hd.shows slot with ⟨hv, hnone⟩ | ⟨h, b, hv, hg, hb, hsome⟩
  · exact realizes_scope_failed (withSlot_none hv) (.refl _) (withSlot_unknown hnone)
  let cp : Run Agent Memory Empty ℕ := drain (fuel ⟨iso, m⟩) 0
  let body (p : Promise) : Script := .call (.result p) fun v => .call (.display v) say
  change Realizes ⟨iso, m⟩ (.scope (withPromise slot body) finish) _
  have hpromise : runWith cp (withPromise slot body) ⟨Run.opened iso, m⟩ =
      runWith cp (body ⟨h⟩) ⟨Run.opened iso, m⟩ := withPromise_some hv hg hb
  obtain ⟨value, hvalue, hadmits⟩ := hd.ready.fit.result (hd.live b.object (Array.mem_of_getElem? hsome))
  have hopened : (Run.opened iso).handles.get h = .ok b := hg
  have hcall : (Call.result ⟨h⟩).run (Run.opened iso) = toNative value (Run.opened iso) :=
    (bind_run _ (promiseRef_run hopened hb)).trans (bind_run _ (demand_run hvalue))
  have hdesk (r : String → String) : (d.through r).perform (.result slot) iso.engine =
      (d.through r).holding value (do return .said ((d.through r).shown value (← get))) iso.engine :=
    (withSlot_known (d := d.through r) hsome).trans (bind_run _ hvalue)
  by_cases hobject : ∃ ref, value = .object ref
  · obtain ⟨ref, rfl⟩ := hobject
    by_cases hroom : iso.handles.entries.size < HandleId.capacity
    · -- an object has a handle until the scope closes
      obtain ⟨hnative, hn⟩ := toNative_object (Run.opened iso) hd.ready.fitted (hadmits.live ref rfl) hroom
      have hdisplay := display_run (d := d.through iso.strings.reading) hn hd.ready.strings.reads
      have hbody := hpromise.trans ((call_run (hcall.trans hnative)).trans (call_run hdisplay))
      obtain ⟨table, hworn, hrun⟩ := scope_single hd.ready.fitted hbody rfl
      exact realizes_said hrun hworn (.refl _)
        ((hdesk _).trans (Desk.holding_object _ (hd.ready.room_eq_true hroom) rfl))
    · have hfull := hcall.trans (toNative_full (Run.opened iso) ref hroom)
      exact realizes_full (scope_error (hpromise.trans (call_error hfull))) (.refl _)
        ⟨_, (hdesk _).trans (Desk.holding_full _ (hd.ready.room_eq_false hroom) ref _ _)⟩
  · have hplain (ref : ObjectRef) : value ≠ .object ref := fun h => hobject ⟨ref, h⟩
    obtain ⟨v, strings, hnative, hn, hgrown⟩ := toNative_ne_object hplain (hadmits.fits trivial) (Run.opened iso)
    have hdisplay := display_run (d := d.through strings.reading) hn (hgrown.sound hd.ready.strings).reads
    have hbody := hpromise.trans ((call_run (hcall.trans hnative)).trans (call_run hdisplay))
    refine realizes_scope_said hbody hd.ready.fitted hgrown ((hdesk _).trans ?_)
    rw [Desk.holding_ne_object _ hplain]
    rfl

/-- The promise of a slot gets a slot of its own. -/
theorem realizes_promise (hd : Stands d iso m) (slot : ℕ) :
    Realizes ⟨iso, m⟩ (Command.promise slot).script fun r => (d.through r).perform (.promise slot) := by
  rcases hd.shows slot with ⟨hv, hnone⟩ | ⟨h, b, hv, hg, hb, hsome⟩
  · exact realizes_escape_failed (withSlot_none hv) (.refl _) (withSlot_unknown hnone)
  let cp : Run Agent Memory Empty ℕ := drain (fuel ⟨iso, m⟩) 0
  let body (p : Resolver) : Script := .call (.promiseOf p) fun p => .done (.ok p.toValue)
  change Realizes ⟨iso, m⟩ (.escape (withResolver slot body) store) _
  have hcall : (Call.promiseOf ⟨h⟩).run (Run.opened iso) = .ok ⟨h⟩ (Run.opened iso) := by
    have hpromise : b.isPromise = true := beq_iff_eq.2 hb
    have hopened : (Run.opened iso).handles.get h = .ok b := hg
    refine (bind_run _ (binding_run hopened)).trans ?_
    rw [if_pos hpromise]
    rfl
  have hresolver : runWith cp (withResolver slot body) ⟨Run.opened iso, m⟩ =
      runWith cp (body ⟨h⟩) ⟨Run.opened iso, m⟩ := withResolver_some hv hg hb
  have hbody := hresolver.trans (call_run hcall)
  have hdesk (r : String → String) : (d.through r).perform (.promise slot) iso.engine =
      (d.through r).keep b.object iso.engine := withSlot_known (d := d.through r) hsome
  by_cases hroom : iso.handles.entries.size < HandleId.capacity
  · exact realizes_kept (escape_old hd.ready.fitted hbody hg hb hroom) (.refl hd.ready.fitted) hroom hb
      ((hdesk _).trans (Desk.keep_room _ (hd.ready.room_eq_true hroom) b.object iso.engine))
  · exact realizes_full (escape_old_full hbody hg hroom) (.refl _)
      ⟨iso.engine, (hdesk _).trans (Desk.keep_full _ (hd.ready.room_eq_false hroom) b.object iso.engine)⟩

/-- What comes of a handler that is attached. -/
def attached (kind : ReactionKind) : Option Promise → Script
  | some derived => .done (.ok derived.toValue)
  | none => refuse (.refused (attachName kind))

/-- A handler that was registered is attached to the promise of a slot. -/
def attaching (kind : ReactionKind) (slot : ℕ) (handler : FunctionId) : Script :=
  .escape (withPromise slot fun p => attachCall kind p handler (attached kind)) store

theorem realizes_attach (hd : Stands d iso m) (kind : ReactionKind) (slot : ℕ) (op : Op) :
    Realizes ⟨iso, m⟩ (attaching kind slot (d.name op))
      fun r => (d.through r).perform (.attach kind slot op) := by
  rcases hd.shows slot with ⟨hv, hnone⟩ | ⟨h, b, hv, hg, hb, hsome⟩
  · exact realizes_escape_failed (withSlot_none hv) (.refl _) (withSlot_unknown hnone)
  let cp : Run Agent Memory Empty ℕ := drain (fuel ⟨iso, m⟩) 0
  let body (p : Promise) : Script := attachCall kind p (d.name op) (attached kind)
  change Realizes ⟨iso, m⟩ (.escape (withPromise slot body) store) _
  have hpromise : runWith cp (withPromise slot body) ⟨Run.opened iso, m⟩ =
      runWith cp (body ⟨h⟩) ⟨Run.opened iso, m⟩ := withPromise_some hv hg hb
  have hrun := hpromise.trans
    (attachCall_run (m := m) (Run.opened iso) cp (attached kind) kind (d.name op) hg hb)
  have hone : iso.engine.Roomy 1 := hd.ready.roomy.mono (by omega)
  obtain ⟨answer, e, hanswer, hkeeps, hkind⟩ := Desk.attach_run hd.ready.fit hone kind b.object (d.name op)
  refine realizes_made (f := Promise.mk) hd (attachName kind) hanswer (Agent.Roomy.keeps hone hkeeps)
    hkind (fun next h => ?_)
    (fun h next hc => ?_) (fun fault next hc => ?_) (fun r error h => ?_) fun r ref h => ?_
  · exact hrun.trans (bind_run _ (Run.onIsolate_ok_run h m))
  · exact hrun.trans (bind_run _ (Run.onIsolate_ok_run hc m))
  · exact hrun.trans (bind_error _ (Run.onIsolate_error_run hc m))
  · subst h
    exact (withSlot_known (d := d.through r) hsome).trans (bind_run _ hanswer)
  · subst h
    exact (withSlot_known (d := d.through r) hsome).trans (bind_run _ hanswer)

/-- A checkpoint is as on a desk. -/
theorem realizes_run (hd : Stands d iso m) :
    Realizes ⟨iso, m⟩ Command.run.script fun r => (d.through r).perform .run := by
  have hdesk (r : String → String) : (d.through r).perform .run iso.engine =
      (do return .said s!"ran {← (d.through r).serve (iso.engine.workload + 1) 0} reaction(s)" : Action Agent Upshot) iso.engine := rfl
  rcases drain_run hd.ready m (fuel ⟨iso, m⟩) 0 (Nat.lt_succ_self _) with
    ⟨n, e, handles, strings, hrun, hworn, hgrown, hserve⟩ | ⟨e, handles, strings, hrun, hgrown, hserve⟩
  · have hreads := (hgrown.sound hd.ready.strings).reads
    exact realizes_said (bind_run _ hrun) hworn hgrown ((hdesk _).trans (bind_run _ (hserve _ hreads)))
  · have hreads := (hgrown.sound hd.ready.strings).reads
    obtain ⟨e', he⟩ := hserve _ hreads
    exact realizes_full (bind_error _ hrun) hgrown ⟨e', (hdesk _).trans (bind_error _ he)⟩

/-- A command that makes one call and tells of it. -/
theorem realizes_told (hf : iso.handles.Fitted) {c : Call} {x : Action Agent c.Answer} {v : c.Answer}
    {text : c.Answer → String} (hcall : c.run iso = .ok v { iso with engine := e })
    (hx : x iso.engine = .ok v e) :
    Realizes ⟨iso, m⟩ (.call c fun v => say (text v)) fun _ => do return .said (text (← x)) :=
  realizes_said (call_run hcall) (.refl hf) (.refl _) (bind_run _ hx)

end

/-- The shell once it has a handler for an operation. -/
def registered (s : Shell) (op : Op) : Shell :=
  match s.memory.handlers.lookup op with
  | some _ => s
  | none => ⟨{ s.isolate with functions := s.isolate.functions.push op.handler },
      { s.memory with handlers := (op, ⟨s.isolate.functions.size⟩) :: s.memory.handlers }⟩

/-- The shell once it has the handler that a command asks for. -/
def prepared (s : Shell) : Command → Shell
  | .attach _ _ op => s.registered op
  | _ => s

/-- What a registration leaves as it is, and how the registry grows. -/
structure Enlisted (s t : Shell) : Prop where
  id : t.isolate.id = s.isolate.id
  config : t.isolate.config = s.isolate.config
  engine : t.isolate.engine = s.isolate.engine
  handles : t.isolate.handles = s.isolate.handles
  strings : t.isolate.strings = s.isolate.strings
  slots : t.memory.slots = s.memory.slots
  functions : s.isolate.functions.toList <+: t.isolate.functions.toList
  handlers : s.memory.handlers <:+ t.memory.handlers

theorem Enlisted.refl (s : Shell) : Enlisted s s :=
  ⟨rfl, rfl, rfl, rfl, rfl, rfl, List.prefix_rfl, List.suffix_rfl⟩

variable {s t : Shell} {c : Command} {op : Op}

theorem Enlisted.desk_eq (h : Enlisted s t) (ops : List Op) (r : String → String) :
    desk t ops r = desk s ops r := by
  rw [desk, h.handles, desk]

theorem enlisted_registered (s : Shell) (op : Op) : Enlisted s (s.registered op) := by
  rw [registered]
  split
  · exact .refl s
  · refine ⟨rfl, rfl, rfl, rfl, rfl, rfl, ?_, List.suffix_cons _ _⟩
    rw [Array.toList_push]
    exact List.prefix_append _ _

theorem enlisted_prepared (s : Shell) (c : Command) : Enlisted s (s.prepared c) := by
  cases c with
  | attach kind slot op => exact enlisted_registered s op
  | _ => exact .refl s

theorem mem_operations_registered_iff (s : Shell) (op other : Op) :
    other ∈ operations (s.registered op).memory.handlers ↔ other ∈ operations s.memory.handlers ∨ other = op := by
  cases hlookup : s.memory.handlers.lookup op with
  | some f =>
    have hmem : op ∈ operations s.memory.handlers := by
      by_contra hnot
      rw [(Registry.lookup_eq_none_iff _).2 hnot] at hlookup
      cases hlookup
    have hsame : s.registered op = s := by rw [registered, hlookup]
    rw [hsame]
    exact ⟨.inl, fun h => h.elim id fun h => h ▸ hmem⟩
  | none =>
    rw [registered, hlookup]
    dsimp only
    rw [Registry.operations_cons, List.mem_append, List.mem_singleton]

theorem mem_operations_registered (s : Shell) (op : Op) :
    op ∈ operations (s.registered op).memory.handlers :=
  (mem_operations_registered_iff s op op).2 (.inr rfl)

theorem Kept.registered (hk : Kept s) (op : Op) : Kept (s.registered op) := by
  rw [Shell.registered]
  split
  · exact hk
  · rename_i hnone
    refine ⟨hk.held.of_same rfl rfl, hk.fitted, hk.size, hk.slots, hk.strings,
      hk.registry.register hnone, hk.confined.mono fun id hid => ?_⟩
    rw [Array.size_push]
    exact Nat.lt_succ_of_lt hid

theorem Kept.prepared (hk : Kept s) (c : Command) : Kept (s.prepared c) := by
  cases c with
  | attach kind slot op => exact hk.registered op
  | _ => exact hk

/-- A handler is looked up or registered. -/
theorem withHandler_run (cp : Run Agent Memory Empty ℕ) (script : FunctionId → Script) {f : FunctionId}
    (hf : (s.registered op).memory.handlers.lookup op = some f) :
    runWith cp (withHandler op script) s = runWith cp (script f) (s.registered op) := by
  rw [withHandler, runWith, bind_run _ (get_run s.memory)]
  rw [registered] at hf ⊢
  cases hlookup : s.memory.handlers.lookup op with
  | some g =>
    simp only [hlookup] at hf ⊢
    obtain rfl := Option.some.inj hf
    rfl
  | none =>
    simp only [hlookup, List.lookup_cons_self] at hf ⊢
    obtain rfl := Option.some.inj hf
    rfl

theorem Kept.stands (hk : Kept s) (r : String → String) :
    Stands (desk s (operations s.memory.handlers) r) s.isolate s.memory :=
  ⟨hk.slot _ r, hk.ready r, hk.promises _ r⟩

theorem realizes_command (hk : Kept s) (hf : c.Fits) :
    ∃ script, runWith (drain (fuel s) 0) c.script s = runWith (drain (fuel s) 0) script (s.prepared c) ∧
      Realizes (s.prepared c) script fun r =>
        (desk (s.prepared c) (operations (s.prepared c).memory.handlers) r).perform c := by
  have hd := hk.stands s.isolate.strings.reading
  cases c with
  | new => exact ⟨_, rfl, realizes_new hd⟩
  | settle kind slot o => exact ⟨_, rfl, realizes_settle hd kind slot hf.2⟩
  | state slot => exact ⟨_, rfl, realizes_state hd slot⟩
  | result slot => exact ⟨_, rfl, realizes_result hd slot⟩
  | promise slot => exact ⟨_, rfl, realizes_promise hd slot⟩
  | attach kind slot op =>
    -- the handler of the operation is found in the registry, where it may be new
    have hlater := (hk.registered op).stands s.isolate.strings.reading
    have hlookup := (hk.registered op).registry.lookup_eq (mem_operations_registered s op)
    have hrun := withHandler_run (drain (fuel s) 0) (attaching kind slot) hlookup
    have hrealizes := realizes_attach hlater kind slot op
    exact ⟨_, hrun, hrealizes⟩
  | run =>
    have hrun := realizes_run hd
    exact ⟨Command.run.script, rfl, hrun⟩
  | gc =>
    have hcall : (Call.collectGarbage).run s.isolate = _ := onEngine_run _ s.isolate
    exact ⟨Command.gc.script, rfl, realizes_told hk.fitted hcall rfl⟩
  | stats =>
    have hcall : (Call.stats).run s.isolate = _ := onEngine_run _ s.isolate
    exact ⟨Command.stats.script, rfl, realizes_told hk.fitted hcall rfl⟩
  | terminate =>
    have hcall : (Call.terminate).run s.isolate = _ := onEngine_run _ s.isolate
    exact ⟨Command.terminate.script, rfl, realizes_told hk.fitted hcall rfl⟩
  | resume =>
    have hcall : (Call.cancelTermination).run s.isolate = _ := onEngine_run _ s.isolate
    exact ⟨Command.resume.script, rfl, realizes_told hk.fitted hcall rfl⟩
  | help => exact ⟨Command.help.script, rfl, realizes_said rfl (.refl hk.fitted) (.refl _) rfl⟩

/-- The desk at which a command is performed. -/
def deskOf (s t : Shell) : Desk := desk s (operations t.memory.handlers) t.isolate.strings.reading

/-- What a command does on a shell is what it does on the desk of the shell, once the handler is there that
it asks for. -/
theorem execute_run (hk : Kept s) (hf : c.Fits) :
    ∃ t, Beside (s.prepared c) t ∧
      ((∃ u, execute c s = .ok (u.reply s.memory.slots.size) t ∧
          (s.deskOf t).perform c s.isolate.engine = .ok u t.isolate.engine ∧ After (s.prepared c) t u) ∨
        ∃ e, execute c s = .error (.fault .tableFull) t ∧
          (s.deskOf t).perform c s.isolate.engine = .error .tableFull e) := by
  have hsame := enlisted_prepared s c
  obtain ⟨script, hscript, t, hbeside, hdone⟩ := realizes_command hk hf
  have hfuel : fuel (s.prepared c) = fuel s := by rw [fuel, hsame.engine, fuel]
  simp only [hsame.desk_eq, hsame.engine, hsame.slots, hfuel, ← hbeside.handlers, ← hscript] at hdone
  have hexecute : execute c s = (do
      discard (Program.run (fuel s) c.script)
      return (← get).memory.report : Run Agent Memory Empty _) s := rfl
  refine ⟨t, hbeside, hdone.imp ?_ ?_⟩
  · rintro ⟨completion, u, hrun, hreport, hperform, hafter⟩
    refine ⟨u, ?_, hperform, hafter⟩
    have hdiscard : (discard (Program.run (fuel s) c.script) : Run Agent Memory Empty PUnit) s = .ok () t :=
      bind_run _ hrun
    rw [← hreport]
    exact hexecute.trans (bind_run _ hdiscard)
  · rintro ⟨e, hrun, hperform⟩
    have hdiscard : (discard (Program.run (fuel s) c.script) : Run Agent Memory Empty PUnit) s =
        .error (.fault .tableFull) t := bind_error _ hrun
    exact ⟨e, hexecute.trans (bind_error _ hdiscard), hperform⟩

end Shell

end Promises
