import Promises.Proofs.Isolate.Checked

namespace Promises

namespace Call

/-- The checked constructors made the values that a call is given. -/
def Checked : Call → Prop
  | contents v | kindOf v | display v | castPromise v | castResolver v => v.Checked
  | newLocal v | resolve _ v | reject _ v => v.Checked
  | _ => True

/-- A value that a call answers with is as the checked constructors make it. -/
def Gives : (call : Call) → call.Answer → Prop
  | newObject, answer => ∀ v, answer = some v → v.Checked
  | string _, answer | newLocal _, answer | result _, answer => answer.Checked
  | _, _ => True

/-- The queries about the promise that a handle is bound to. -/
def queries (handle : HandleId) : List Call :=
  [state ⟨handle⟩, result ⟨handle⟩, hasHandler ⟨handle⟩, markHandled ⟨handle⟩, promiseOf ⟨handle⟩]

end Call

namespace Isolate

variable {φ : Type} {iso next : Isolate Agent φ} {narrow : Prop} {owed : List ObjectRef}

theorem contents_ok {v : Value} {answer : Option String} (hr : contents v iso = .ok answer next) :
    next = iso := (EStateM.Result.ok.inj hr).2.symm

theorem kindOf_ok {v : Value} {answer : Option ObjectKind}
    (hr : kindOf v iso = .ok answer next) : next = iso := by
  cases hv : v.handle? with
  | none =>
    rw [kindOf, hv] at hr
    exact (EStateM.Result.ok.inj hr).2.symm
  | some handle =>
    rw [kindOf, hv] at hr
    obtain ⟨b, mid, hb, hrest⟩ := bind_ok hr
    obtain ⟨-, rfl⟩ := binding_ok hb
    exact (EStateM.Result.ok.inj hrest).2.symm

theorem display_ok {v : Value} {answer : String} (hr : display v iso = .ok answer next) :
    next = iso := by
  obtain ⟨text, mid, ht, hlook⟩ := bind_ok hr
  obtain rfl := contents_ok ht
  cases text with
  | some s => exact (EStateM.Result.ok.inj hlook).2.symm
  | none =>
    obtain ⟨kind, mid, hk, hrest⟩ := bind_ok hlook
    obtain rfl := kindOf_ok hk
    cases kind <;> exact (EStateM.Result.ok.inj hrest).2.symm

theorem castPromise_ok {v : Value} {answer : Option Promise}
    (hr : castPromise v iso = .ok answer next) : next = iso := by
  cases hv : v.handle? with
  | none =>
    rw [castPromise, hv] at hr
    exact (EStateM.Result.ok.inj hr).2.symm
  | some handle =>
    rw [castPromise, hv] at hr
    obtain ⟨b, mid, hb, hrest⟩ := bind_ok hr
    obtain ⟨-, rfl⟩ := binding_ok hb
    exact (EStateM.Result.ok.inj hrest).2.symm

theorem castResolver_ok {v : Value} {answer : Option Resolver}
    (hr : castResolver v iso = .ok answer next) : next = iso := by
  obtain ⟨p, mid, hp, hrest⟩ := bind_ok hr
  obtain rfl := castPromise_ok hp
  exact (EStateM.Result.ok.inj hrest).2.symm

theorem manage_ok {v : Value} {m : ManagedValue} (hr : manage v iso = .ok m next) :
    iso.toManaged v = .ok m ∧ next = iso := Action.ofMisuse_ok hr

theorem promiseRef_ok {p : Promise} {ref : ObjectRef} (hr : promiseRef p iso = .ok ref next) :
    next = iso ∧ ∃ b, iso.handles.get p.handle = .ok b ∧ b.kind = .promise ∧ b.object = ref := by
  obtain ⟨b, mid, hb, hrest⟩ := bind_ok hr
  obtain ⟨hget, rfl⟩ := binding_ok hb
  by_cases hp : b.isPromise = true
  · rw [if_pos hp] at hrest
    obtain ⟨hv, ht⟩ := EStateM.Result.ok.inj hrest
    exact ⟨ht.symm, b, hget, eq_of_beq hp, hv⟩
  · rw [if_neg hp] at hrest
    cases hrest

namespace Held

theorem string (h : iso.Held narrow owed) {text : String} {v : Value}
    (hr : Isolate.string text iso = .ok v next) : next.Held narrow owed ∧ v.Checked := by
  obtain ⟨rfl, rfl⟩ := EStateM.Result.ok.inj hr
  exact ⟨h.strings _, .string _⟩

theorem newLocal (h : iso.Held narrow owed) {v answer : Value} (hv : narrow → v.Checked)
    (hr : Isolate.newLocal v iso = .ok answer next) :
    next.Held narrow owed ∧ (narrow → answer.Checked) := by
  cases hhandle : v.handle? with
  | none =>
    rw [Isolate.newLocal, hhandle] at hr
    obtain ⟨rfl, rfl⟩ := EStateM.Result.ok.inj hr
    exact ⟨h, hv⟩
  | some handle =>
    rw [Isolate.newLocal, hhandle] at hr
    obtain ⟨id, mid, hd, hrest⟩ := bind_ok hr
    obtain ⟨rfl, rfl⟩ := EStateM.Result.ok.inj hrest
    exact ⟨h.duplicate hd, fun _ => .handle id⟩

/-- What a request makes is wrapped before anything else is asked of the engine. -/
theorem wrapMade (h : iso.Held narrow owed) {β : Type} {request : Request Agent ObjectRef}
    {f : HandleId → β} {answer : Option β} (hs : iso.engine.Safe narrow request.run Agent.Made)
    (hr : (do
      match ← Isolate.ask request with
      | .ok ref => return some (f (← Isolate.wrap ref))
      | .error _ => return none : Action (Isolate Agent φ) (Option β)) iso = .ok answer next) :
    next.Held narrow owed ∧ ∀ v, answer = some v → ∃ id, v = f id := by
  obtain ⟨made, mid, ha, hwrap⟩ := bind_ok hr
  obtain ⟨hmid, hmade⟩ := h.ask hs ha
  -- the object has no root yet, but it is live until the engine is asked again
  cases made with
  | ok ref =>
    obtain ⟨id, last, hw, hrest⟩ := bind_ok hwrap
    obtain ⟨rfl, rfl⟩ := EStateM.Result.ok.inj hrest
    refine ⟨hmid.wrap (hmade ref rfl) hw, ?_⟩
    rintro v ⟨⟩
    exact ⟨id, rfl⟩
  | error e =>
    obtain ⟨rfl, rfl⟩ := EStateM.Result.ok.inj hwrap
    exact ⟨hmid, by simp⟩

theorem newObject (h : iso.Held narrow owed) {answer : Option Value}
    (hr : Isolate.newObject iso = .ok answer next) :
    next.Held narrow owed ∧ ∀ v, answer = some v → v.Checked := by
  obtain ⟨hnext, hid⟩ := h.wrapMade h.fit.newObject hr
  refine ⟨hnext, fun v hv => ?_⟩
  obtain ⟨id, rfl⟩ := hid v hv
  exact .handle id

theorem newResolver (h : iso.Held narrow owed) {answer : Option Resolver}
    (hr : Isolate.newResolver iso = .ok answer next) : next.Held narrow owed :=
  (h.wrapMade h.fit.newResolver hr).1

theorem addReactions (h : iso.Held narrow owed) {p : Promise} {f g : Option FunctionId}
    {answer : Option Promise} (hr : Isolate.addReactions p f g iso = .ok answer next) :
    next.Held narrow owed := by
  obtain ⟨ref, mid, hp, hrest⟩ := bind_ok hr
  obtain ⟨rfl, -⟩ := promiseRef_ok hp
  exact (h.wrapMade (h.fit.addReactions (h.room ref) f g) hrest).1

/-- A promise is settled with a value that was given. -/
theorem settle (h : iso.Held narrow owed) {r : Resolver} {v : Value} (hv : narrow → v.Checked)
    {request : ObjectRef → ManagedValue → Request Agent Bool} {answer : Option Bool}
    (hs : ∀ ref m, iso.engine.Admits narrow .reject m → iso.engine.Safe narrow (request ref m).run fun _ _ => True)
    (hr : (do
      let m ← Isolate.manage v
      let b ← Isolate.binding r.handle
      return (← Isolate.ask (request b.object m)).toOption :
        Action (Isolate Agent φ) (Option Bool)) iso = .ok answer next) : next.Held narrow owed := by
  obtain ⟨m, mid, hmanage, hbind⟩ := bind_ok hr
  obtain ⟨hm, rfl⟩ := manage_ok hmanage
  obtain ⟨b, mid, hb, hask⟩ := bind_ok hbind
  obtain ⟨-, rfl⟩ := binding_ok hb
  obtain ⟨settled, last, ha, hrest⟩ := bind_ok hask
  obtain ⟨-, rfl⟩ := EStateM.Result.ok.inj hrest
  exact (h.ask (hs b.object m (h.toManaged hv hm)) ha).1

theorem demand (h : iso.Held narrow owed) {α : Type} {query : PromiseQuery} {request : Request Agent α}
    {post : Except EngineError α → Agent → Prop} {answer : α}
    (hs : iso.engine.Safe narrow request.run post)
    (hr : Isolate.demand query request iso = .ok answer next) :
    next.Held narrow owed ∧ post (.ok answer) next.engine := by
  obtain ⟨result, mid, ha, hrest⟩ := bind_ok hr
  obtain ⟨hmid, hpost⟩ := h.ask hs ha
  cases result with
  | ok v =>
    obtain ⟨rfl, rfl⟩ := EStateM.Result.ok.inj hrest
    exact ⟨hmid, hpost⟩
  | error e => cases hrest

theorem promiseOf (h : iso.Held narrow owed) {r : Resolver} {answer : Promise}
    (hr : Isolate.promiseOf r iso = .ok answer next) : next.Held narrow owed := by
  obtain ⟨b, mid, hb, hask⟩ := bind_ok hr
  obtain ⟨-, rfl⟩ := binding_ok hb
  by_cases hp : b.isPromise = true
  · rw [if_pos hp] at hask
    obtain ⟨-, rfl⟩ := EStateM.Result.ok.inj hask
    exact h
  · -- a handle of something else: the engine says whose promise it settles
    rw [if_neg hp] at hask
    obtain ⟨ref, mid, hd, hwrap⟩ := bind_ok hask
    obtain ⟨hmid, hmade⟩ := h.demand (h.fit.promiseOf b.object) hd
    obtain ⟨id, last, hw, hrest⟩ := bind_ok hwrap
    obtain ⟨-, rfl⟩ := EStateM.Result.ok.inj hrest
    exact hmid.wrap (hmade ref rfl) hw

/-- The handle of a promise is bound to one. -/
theorem kind_of_get (h : iso.Held narrow owed) {handle : HandleId} {b : Binding}
    (hb : iso.handles.get handle = .ok b) (hp : b.kind = .promise) :
    iso.engine.heap.kind? b.object = some .promise :=
  (h.bound b (HandleTable.mem_of_get hb)).trans (congrArg some hp)

/-- A query about the object behind the handle of a promise. -/
theorem query (h : iso.Held narrow owed) {α : Type} {p : Promise} {q : PromiseQuery}
    {request : ObjectRef → Request Agent α} {post : Except EngineError α → Agent → Prop} {answer : α}
    (hs : ∀ ref, iso.engine.heap.kind? ref = some .promise → iso.engine.Safe narrow (request ref).run post)
    (hr : (do Isolate.demand q (request (← Isolate.promiseRef p)) :
      Action (Isolate Agent φ) α) iso = .ok answer next) :
    next.Held narrow owed ∧ post (.ok answer) next.engine := by
  obtain ⟨ref, mid, hp, hrest⟩ := bind_ok hr
  obtain ⟨rfl, b, hb, hkind, rfl⟩ := promiseRef_ok hp
  exact h.demand (hs b.object (h.kind_of_get hb hkind)) hrest

theorem state (h : iso.Held narrow owed) {p : Promise} {answer : PromiseState}
    (hr : Isolate.state p iso = .ok answer next) : next.Held narrow owed := by
  have hsafe (ref : ObjectRef) (hk : iso.engine.heap.kind? ref = some .promise) :
      iso.engine.Safe narrow (Engine.state ref : Request Agent PromiseState).run fun _ _ => True := by
    obtain ⟨s, hs⟩ := Agent.Fit.state hk
    exact h.fit.unchanged hs trivial
  exact (h.query hsafe hr).1

theorem hasHandler (h : iso.Held narrow owed) {p : Promise} {answer : Bool}
    (hr : Isolate.hasHandler p iso = .ok answer next) : next.Held narrow owed := by
  have hsafe (ref : ObjectRef) (hk : iso.engine.heap.kind? ref = some .promise) :
      iso.engine.Safe narrow (Engine.hasHandler ref : Request Agent Bool).run fun _ _ => True := by
    obtain ⟨s, hs⟩ := Agent.Fit.hasHandler hk
    exact h.fit.unchanged hs trivial
  exact (h.query hsafe hr).1

theorem markHandled (h : iso.Held narrow owed) {p : Promise} {answer : Unit}
    (hr : Isolate.markHandled p iso = .ok answer next) : next.Held narrow owed := by
  have hsafe (ref : ObjectRef) (hk : iso.engine.heap.kind? ref = some .promise) :
      iso.engine.Safe narrow (Engine.markHandled ref : Request Agent Unit).run fun _ _ => True := by
    obtain ⟨b, hb, hfit, hkeeps⟩ := h.fit.markHandled hk
    exact ⟨.ok (), b, hb, hfit, hkeeps, trivial⟩
  exact (h.query hsafe hr).1

theorem result (h : iso.Held narrow owed) {p : Promise} {answer : Value}
    (hr : Isolate.result p iso = .ok answer next) : next.Held narrow owed ∧ answer.Checked := by
  obtain ⟨ref, mid, hp, hdemand⟩ := bind_ok hr
  obtain ⟨rfl, b, hb, hkind, rfl⟩ := promiseRef_ok hp
  obtain ⟨m, last, hd, hnative⟩ := bind_ok hdemand
  obtain ⟨v, hv, hadmits⟩ := h.fit.result (h.kind_of_get hb hkind)
  have hsafe : mid.engine.Safe narrow (Engine.result b.object : Request Agent ManagedValue).run
      fun answer a => ∀ m, answer = .ok m → a.Admits narrow .reject m := by
    refine h.fit.unchanged hv ?_
    rintro _ ⟨⟩
    exact hadmits
  obtain ⟨hlast, hm⟩ := h.demand hsafe hd
  exact hlast.toNative (hm m rfl) hnative

/-- A call that comes to an end leaves the handles held, and its answer to checked values is as the
checked constructors make it. -/
theorem call (h : iso.Held narrow owed) {call : Call} (hc : narrow → call.Checked)
    {answer : call.Answer} (hr : call.run iso = .ok answer next) :
    next.Held narrow owed ∧ (narrow → call.Gives answer) := by
  cases call with
  | newResolver => exact ⟨h.newResolver hr, fun _ => trivial⟩
  | newObject =>
    obtain ⟨hnext, hv⟩ := h.newObject hr
    exact ⟨hnext, fun _ => hv⟩
  | string text =>
    obtain ⟨hnext, hv⟩ := h.string hr
    exact ⟨hnext, fun _ => hv⟩
  -- calls that only look at values leave the isolate as it is
  | contents v =>
    obtain rfl := contents_ok hr
    exact ⟨h, fun _ => trivial⟩
  | kindOf v =>
    obtain rfl := kindOf_ok hr
    exact ⟨h, fun _ => trivial⟩
  | display v =>
    obtain rfl := display_ok hr
    exact ⟨h, fun _ => trivial⟩
  | castPromise v =>
    obtain rfl := castPromise_ok hr
    exact ⟨h, fun _ => trivial⟩
  | castResolver v =>
    obtain rfl := castResolver_ok hr
    exact ⟨h, fun _ => trivial⟩
  | newLocal v => exact h.newLocal hc hr
  | resolve r v => exact ⟨h.settle hc (fun ref _ hm => h.fit.resolve ref hm) hr, fun _ => trivial⟩
  | reject r v => exact ⟨h.settle hc (fun ref _ hm => h.fit.reject ref hm) hr, fun _ => trivial⟩
  | promiseOf r => exact ⟨h.promiseOf hr, fun _ => trivial⟩
  | state p => exact ⟨h.state hr, fun _ => trivial⟩
  | result p =>
    obtain ⟨hnext, hv⟩ := h.result hr
    exact ⟨hnext, fun _ => hv⟩
  | hasHandler p => exact ⟨h.hasHandler hr, fun _ => trivial⟩
  | markHandled p => exact ⟨h.markHandled hr, fun _ => trivial⟩
  | addReactions p f g => exact ⟨h.addReactions hr, fun _ => trivial⟩
  -- calls of the engine leave the handles as they are
  | collectGarbage => exact ⟨(h.onEngine h.fit.collects hr).1, fun _ => trivial⟩
  | stats =>
    have hsafe : iso.engine.Safe narrow Engine.stats fun _ _ => True := h.fit.unchanged rfl trivial
    exact ⟨(h.onEngine hsafe hr).1, fun _ => trivial⟩
  | handleCount =>
    obtain ⟨-, rfl⟩ := EStateM.Result.ok.inj hr
    exact ⟨h, fun _ => trivial⟩
  | terminate =>
    have hsafe : iso.engine.Safe narrow Engine.terminate fun _ _ => True := h.fit.flags rfl
    exact ⟨(h.onEngine hsafe hr).1, fun _ => trivial⟩
  | cancelTermination =>
    have hsafe : iso.engine.Safe narrow Engine.cancelTermination fun _ _ => True := h.fit.flags rfl
    exact ⟨(h.onEngine hsafe hr).1, fun _ => trivial⟩
  | isTerminating =>
    have hsafe : iso.engine.Safe narrow Engine.isTerminating fun _ _ => True := h.fit.unchanged rfl trivial
    exact ⟨(h.onEngine hsafe hr).1, fun _ => trivial⟩

/-- A query about the object behind the live handle of a promise comes to an end. -/
theorem answers (h : iso.Held True owed) {handle : HandleId} {b : Binding}
    (hb : iso.handles.get handle = .ok b) (hp : b.kind = .promise)
    (hs : iso.handles.size < HandleId.capacity) :
    ∀ query ∈ Call.queries handle, ∃ answer next, query.run iso = .ok answer next := by
  have hkind := h.kind_of_get hb hp
  have hpromise : b.isPromise = true := beq_iff_eq.2 hp
  have hbinding : binding handle iso = .ok b iso := by
    change (Action.ofMisuse (iso.handles.get handle) : Action (Isolate Agent φ) Binding) iso = _
    rw [hb]
    rfl
  have href : promiseRef ⟨handle⟩ iso = .ok b.object iso := by
    rw [promiseRef, bind_run _ hbinding, if_pos hpromise]
    rfl
  have hdemand {α : Type} (q : PromiseQuery) {request : Request Agent α} {v : α} {e : Agent}
      (hrun : request.run iso.engine = .ok (.ok v) e) :
      Isolate.demand q request iso = .ok v { iso with engine := e } := by
    have hask : Isolate.ask request iso = .ok (.ok v) { iso with engine := e } := by
      rw [Isolate.ask, onEngine_run, hrun]
    rw [Isolate.demand, bind_run _ hask]
    rfl
  intro query hq
  simp only [Call.queries, List.mem_cons, List.not_mem_nil, or_false] at hq
  -- only a result needs room in the table, as it may be an object
  rcases hq with rfl | rfl | rfl | rfl | rfl
  · obtain ⟨s, hs⟩ := Agent.Fit.state hkind
    exact ⟨s, _, (bind_run _ href).trans (hdemand .state hs)⟩
  · obtain ⟨m, hm, hadmits⟩ := h.fit.result hkind
    obtain ⟨v, next, hv⟩ := toNative_total (hadmits.fits trivial) hs
    exact ⟨v, next, (bind_run _ href).trans
      ((bind_run _ (hdemand .result hm)).trans hv)⟩
  · obtain ⟨s, hs⟩ := Agent.Fit.hasHandler hkind
    exact ⟨s, _, (bind_run _ href).trans (hdemand .hasHandler hs)⟩
  · obtain ⟨e, he, -⟩ := h.fit.markHandled hkind
    exact ⟨(), _, (bind_run _ href).trans (hdemand .markHandled he)⟩
  · refine ⟨⟨handle⟩, iso, (bind_run _ hbinding).trans ?_⟩
    rw [if_pos hpromise]
    rfl

end Held

end Isolate

end Promises
