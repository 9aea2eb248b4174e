import Promises.Proofs.Isolate.Held

namespace Promises

/-- The calls of an engine that have nothing to do with roots. -/
inductive Quiet {ε : Type} [Engine ε] : {α : Type} → Action ε α → Prop
  | isPromise (ref : ObjectRef) : Quiet (Engine.isPromise ref)
  | newObject : Quiet (Engine.newObject : Request ε ObjectRef).run
  | state (ref : ObjectRef) : Quiet (Engine.state ref : Request ε PromiseState).run
  | result (ref : ObjectRef) : Quiet (Engine.result ref : Request ε ManagedValue).run
  | newResolver : Quiet (Engine.newResolver : Request ε ObjectRef).run
  | resolve (ref : ObjectRef) (v : ManagedValue) : Quiet (Engine.resolve ref v : Request ε Bool).run
  | reject (ref : ObjectRef) (v : ManagedValue) : Quiet (Engine.reject ref v : Request ε Bool).run
  | promiseOf (ref : ObjectRef) : Quiet (Engine.promiseOf ref : Request ε ObjectRef).run
  | addReactions (ref : ObjectRef) (f g : Option FunctionId) :
    Quiet (Engine.addReactions ref f g : Request ε ObjectRef).run
  | hasHandler (ref : ObjectRef) : Quiet (Engine.hasHandler ref : Request ε Bool).run
  | markHandled (ref : ObjectRef) : Quiet (Engine.markHandled ref : Request ε Unit).run
  | collectGarbage : Quiet Engine.collectGarbage
  | stats : Quiet Engine.stats
  | terminate : Quiet Engine.terminate
  | cancelTermination : Quiet Engine.cancelTermination
  | isTerminating : Quiet Engine.isTerminating

/-- The calls that number no string. -/
def Call.Silent : Call → Prop
  | string _ | result _ => False
  | _ => True

namespace Isolate

variable {ε φ α β : Type} [Engine ε]

/-- A property that the parts of calls have, and that spreads from actions to what follows them. -/
structure Spreads (P : (α : Type) → Action (Isolate ε φ) α → Prop) : Prop where
  returns : ∀ {α : Type} (v : α), P α (pure v)
  faults : ∀ {α : Type} (fault : Fault), P α (throw fault)
  looks : P (Isolate ε φ) get
  asks : ∀ {α : Type} {act : Action ε α}, Quiet act → P α (onEngine act)
  binds : ∀ (id : IsolateId) (ref : ObjectRef), P Binding (onEngine (Engine.bindingOf id ref))
  registers : ∀ b : Binding, P HandleId (register b)
  follows : ∀ {α β : Type} {x : Action (Isolate ε φ) α} {f : α → Action (Isolate ε φ) β},
    P α x → (∀ v, P β (f v)) → P β (x >>= f)

variable {P : (α : Type) → Action (Isolate ε φ) α → Prop} (h : Spreads P)

include h

theorem spreads_ofMisuse (outcome : Except Misuse α) : P α (Action.ofMisuse outcome) := by
  cases outcome with
  | ok v => exact h.returns v
  | error e => exact h.faults _

theorem spreads_demand {query : PromiseQuery} {request : Request ε α} (hq : Quiet request.run) :
    P α (demand query request) := by
  refine h.follows (h.asks hq) fun answer => ?_
  cases answer with
  | ok v => exact h.returns v
  | error e => exact h.faults _

theorem spreads_binding (handle : HandleId) : P Binding (binding handle) :=
  h.follows h.looks fun iso => spreads_ofMisuse h (iso.handles.get handle)

theorem spreads_wrap (ref : ObjectRef) : P HandleId (wrap ref) :=
  h.follows h.looks fun iso => h.follows (h.binds iso.id ref) h.registers

theorem spreads_duplicate (handle : HandleId) : P HandleId (duplicate handle) :=
  h.follows (spreads_binding h handle) fun b => h.registers (b.rebind b.object)

theorem spreads_manage (v : Value) : P ManagedValue (manage v) :=
  h.follows h.looks fun iso => spreads_ofMisuse h (iso.toManaged v)

theorem spreads_toNative (hn : ∀ s : String, P StringId (intern s)) (m : ManagedValue) :
    P Value (toNative m) := by
  cases m with
  | undefined => exact h.returns _
  | null => exact h.returns _
  | bool b => exact h.returns _
  | int n =>
    rw [toNative]
    cases Value.int n with
    | ok v => exact h.returns v
    | error fault => exact h.faults fault
  | string text => exact h.follows (hn text) fun id => h.returns _
  | object ref => exact h.follows (spreads_wrap h ref) fun id => h.returns _

theorem spreads_contents (v : Value) : P (Option String) (contents v) :=
  h.follows h.looks fun _ => h.returns _

theorem spreads_kindOf (v : Value) : P (Option ObjectKind) (kindOf v) := by
  rw [kindOf]
  cases v.handle? with
  | none => exact h.returns none
  | some handle => exact h.follows (spreads_binding h handle) fun b => h.returns _

theorem spreads_display (v : Value) : P String (display v) := by
  refine h.follows (spreads_contents h v) fun text => ?_
  cases text with
  | some s => exact h.returns _
  | none =>
    refine h.follows (spreads_kindOf h v) fun kind => ?_
    cases kind <;> exact h.returns _

theorem spreads_castPromise (v : Value) : P (Option Promise) (castPromise v) := by
  rw [castPromise]
  cases v.handle? with
  | none => exact h.returns none
  | some handle => exact h.follows (spreads_binding h handle) fun b => h.returns _

theorem spreads_castResolver (v : Value) : P (Option Resolver) (castResolver v) :=
  h.follows (spreads_castPromise h v) fun _ => h.returns _

theorem spreads_newLocal (v : Value) : P Value (newLocal v) := by
  rw [newLocal]
  cases v.handle? with
  | none => exact h.returns v
  | some handle => exact h.follows (spreads_duplicate h handle) fun id => h.returns _

/-- What a request makes gets a handle. -/
theorem spreads_wrapMade {request : Request ε ObjectRef} (hq : Quiet request.run) (f : HandleId → β) :
    P (Option β) (do
      match ← ask request with
      | .ok ref => return some (f (← wrap ref))
      | .error _ => return none) := by
  refine h.follows (h.asks hq) fun answer => ?_
  cases answer with
  | ok ref => exact h.follows (spreads_wrap h ref) fun id => h.returns _
  | error e => exact h.returns none

/-- A promise is settled through the handle of its resolver. -/
theorem spreads_settle (r : Resolver) (v : Value) {request : ObjectRef → ManagedValue → Request ε Bool}
    (hq : ∀ ref m, Quiet (request ref m).run) :
    P (Option Bool) (do
      let m ← manage v
      let b ← binding r.handle
      return (← ask (request b.object m)).toOption) :=
  h.follows (spreads_manage h v) fun m => h.follows (spreads_binding h r.handle) fun b =>
    h.follows (h.asks (hq b.object m)) fun _ => h.returns _

theorem spreads_promiseOf (r : Resolver) : P Promise (promiseOf r) := by
  refine h.follows (spreads_binding h r.handle) fun b => ?_
  split
  · exact h.returns _
  · exact h.follows (spreads_demand h (.promiseOf b.object)) fun ref =>
      h.follows (spreads_wrap h ref) fun _ => h.returns _

theorem spreads_promiseRef (p : Promise) : P ObjectRef (promiseRef p) := by
  refine h.follows (spreads_binding h p.handle) fun b => ?_
  split
  · exact h.returns _
  · exact h.faults _

theorem spreads_query (p : Promise) (query : PromiseQuery) {request : ObjectRef → Request ε α}
    (hq : ∀ ref, Quiet (request ref).run) :
    P α (do demand query (request (← promiseRef p))) :=
  h.follows (spreads_promiseRef h p) fun ref => spreads_demand h (hq ref)

/-- What holds of the parts holds of every call that numbers no string. -/
theorem spreads_call_of_silent {call : Call} (hc : call.Silent) : P call.Answer call.run := by
  cases call with
  | newResolver => exact spreads_wrapMade h .newResolver _
  | newObject => exact spreads_wrapMade h .newObject _
  | string text => exact hc.elim
  | contents v => exact spreads_contents h v
  | kindOf v => exact spreads_kindOf h v
  | display v => exact spreads_display h v
  | castPromise v => exact spreads_castPromise h v
  | castResolver v => exact spreads_castResolver h v
  | newLocal v => exact spreads_newLocal h v
  | resolve r v => exact spreads_settle h r v .resolve
  | reject r v => exact spreads_settle h r v .reject
  | promiseOf r => exact spreads_promiseOf h r
  | state p => exact spreads_query h p .state .state
  | result p => exact hc.elim
  | hasHandler p => exact spreads_query h p .hasHandler .hasHandler
  | markHandled p => exact spreads_query h p .markHandled .markHandled
  | addReactions p f g =>
    exact h.follows (spreads_promiseRef h p) fun ref => spreads_wrapMade h (.addReactions ref f g) _
  | collectGarbage => exact h.asks .collectGarbage
  | stats => exact h.asks .stats
  | handleCount => exact h.follows h.looks fun _ => h.returns _
  | terminate => exact h.asks .terminate
  | cancelTermination => exact h.asks .cancelTermination
  | isTerminating => exact h.asks .isTerminating

/-- What holds of new strings as well holds of every call. -/
theorem spreads_call (hn : ∀ s : String, P StringId (intern s)) (call : Call) : P call.Answer call.run := by
  cases call with
  | string text => exact h.follows (hn text) fun _ => h.returns _
  | result p =>
    exact h.follows (spreads_promiseRef h p) fun ref =>
      h.follows (spreads_demand h (.result ref)) fun m => spreads_toNative h hn m
  | _ => exact spreads_call_of_silent h trivial

end Isolate

end Promises
