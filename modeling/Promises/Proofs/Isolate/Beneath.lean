import Promises.Engine.Paired
import Promises.Proofs.Isolate.Held

namespace Promises

theorem Action.zoom_bind {σ τ α β : Type} {split : σ → τ × (τ → σ)}
    (hsplit : ∀ s t, split ((split s).2 t) = (t, (split s).2)) (x : Action τ α) (f : α → Action τ β) :
    Action.zoom split (x >>= f) = Action.zoom split x >>= fun v => Action.zoom split (f v) := by
  funext s
  simp only [bind, EStateM.bind, Action.zoom]
  cases x (split s).1 with
  | error fault t => rfl
  | ok v t =>
    simp only [hsplit]

namespace Isolate

variable {φ α β : Type}

/-- The isolate with pairs over its agent. -/
def withPairs (pairs : List (ObjectRef × ObjectRef)) : Isolate Agent φ → Isolate Paired φ
  | ⟨id, config, agent, handles, strings, functions⟩ =>
    ⟨id, config, ⟨agent, pairs⟩, handles, strings, functions⟩

/-- The isolate over the agent beneath. -/
def beneath : Isolate Paired φ → Isolate Agent φ × (Isolate Agent φ → Isolate Paired φ)
  | ⟨id, config, ⟨agent, pairs⟩, handles, strings, functions⟩ =>
    (⟨id, config, agent, handles, strings, functions⟩, withPairs pairs)

/-- What an isolate over the agent beneath does. -/
def onAgent (act : Action (Isolate Agent φ) α) : Action (Isolate Paired φ) α :=
  Action.zoom beneath act

/-- The outcome with pairs over the agent. -/
def raise (pairs : List (ObjectRef × ObjectRef)) :
    EStateM.Result Fault (Isolate Agent φ) α → EStateM.Result Fault (Isolate Paired φ) α
  | .ok v iso => .ok v (iso.withPairs pairs)
  | .error fault iso => .error fault (iso.withPairs pairs)

theorem onAgent_run (act : Action (Isolate Agent φ) α) (iso : Isolate Agent φ)
    (pairs : List (ObjectRef × ObjectRef)) :
    onAgent act (iso.withPairs pairs) = raise pairs (act iso) := by
  change Action.zoom beneath act (iso.withPairs pairs) = _
  simp only [Action.zoom, withPairs, beneath]
  cases act iso <;> rfl

theorem eq_onAgent {x : Action (Isolate Paired φ) α} {y : Action (Isolate Agent φ) α}
    (h : ∀ iso pairs, x (Isolate.withPairs pairs iso) = raise pairs (y iso)) : x = onAgent y := by
  funext iso
  have hiso : iso = withPairs iso.engine.promises (beneath iso).1 := rfl
  rw [hiso, h, onAgent_run]

theorem onAgent_ok {x : Action (Isolate Paired φ) α} {y : Action (Isolate Agent φ) α} (hx : x = onAgent y)
    {iso next : Isolate Agent φ} {v : α} (hy : y iso = .ok v next) (pairs : List (ObjectRef × ObjectRef)) :
    x (iso.withPairs pairs) = .ok v (next.withPairs pairs) := by
  rw [hx, onAgent_run, hy]
  rfl

theorem onAgent_error {x : Action (Isolate Paired φ) α} {y : Action (Isolate Agent φ) α} (hx : x = onAgent y)
    {iso next : Isolate Agent φ} {fault : Fault} (hy : y iso = .error fault next)
    (pairs : List (ObjectRef × ObjectRef)) :
    x (iso.withPairs pairs) = .error fault (next.withPairs pairs) := by
  rw [hx, onAgent_run, hy]
  rfl

theorem onAgent_bind (x : Action (Isolate Agent φ) α) (f : α → Action (Isolate Agent φ) β) :
    onAgent (x >>= f) = onAgent x >>= fun v => onAgent (f v) :=
  Action.zoom_bind (fun _ _ => rfl) x f

theorem onEngine_zoom (act : Action Agent α) :
    (onEngine (Action.zoom Paired.beneath act) : Action (Isolate Paired φ) α) =
      onAgent (onEngine act) := by
  refine eq_onAgent fun iso pairs => ?_
  have hengine : (withPairs pairs iso).engine = ⟨iso.engine, pairs⟩ := rfl
  rw [onEngine_run, onEngine_run, hengine]
  simp only [Action.zoom, Paired.beneath]
  cases act iso.engine <;> rfl

theorem onHandles_eq (act : Action HandleTable α) :
    (onHandles act : Action (Isolate Paired φ) α) = onAgent (onHandles act) := by
  refine eq_onAgent fun iso pairs => ?_
  have hhandles : (withPairs pairs iso).handles = iso.handles := rfl
  rw [onHandles_run, onHandles_run, hhandles]
  cases act iso.handles <;> rfl

theorem binding_eq (h : HandleId) :
    (binding h : Action (Isolate Paired φ) Binding) = onAgent (binding h) := by
  refine eq_onAgent fun iso pairs => ?_
  change Action.ofMisuse (iso.handles.get h) (withPairs pairs iso) =
    raise pairs (Action.ofMisuse (iso.handles.get h) iso)
  cases iso.handles.get h <;> rfl

theorem register_eq (b : Binding) :
    (register b : Action (Isolate Paired φ) HandleId) = onAgent (register b) := by
  rw [register, register, onAgent_bind, ← onHandles_eq, ← onEngine_zoom]
  rfl

theorem wrap_eq (ref : ObjectRef) :
    (wrap ref : Action (Isolate Paired φ) HandleId) = onAgent (wrap ref) := by
  refine eq_onAgent fun iso pairs => ?_
  rw [wrap_run, ← onAgent_run, ← register_eq]
  rfl

theorem releaseAll_eq (popped : List Binding) :
    (releaseAll popped : Action (Isolate Paired φ) Unit) = onAgent (releaseAll popped) := by
  induction popped with
  | nil => rfl
  | cons b popped ih =>
    have hrest : onAgent (releaseAll (b :: popped) : Action (Isolate Agent φ) Unit) =
        onAgent (onEngine (Engine.release b.object) >>= fun _ => releaseAll popped) := rfl
    rw [hrest, onAgent_bind, ← ih, ← onEngine_zoom]
    rfl

theorem closeScope_eq (mark : ScopeMark) :
    (closeScope mark : Action (Isolate Paired φ) Unit) = onAgent (closeScope mark) := by
  have hmisuse (outcome : Except Misuse (Array Binding)) :
      (Action.ofMisuse outcome : Action (Isolate Paired φ) (Array Binding)) =
        onAgent (Action.ofMisuse outcome) := by
    cases outcome <;> rfl
  simp only [closeScope, onAgent_bind, ← releaseAll_eq, ← hmisuse, ← onHandles_eq]

theorem ask_eq (request : Request Agent α) :
    (ask (Request.zoom Paired.beneath request) : Action (Isolate Paired φ) _) =
      onAgent (ask request) := onEngine_zoom request.run

theorem demand_eq (query : PromiseQuery) (request : Request Agent α) :
    (demand query (Request.zoom Paired.beneath request) : Action (Isolate Paired φ) α) =
      onAgent (demand query request) := by
  rw [demand, demand, onAgent_bind, ask_eq]
  refine bind_congr fun answer => ?_
  cases answer <;> rfl

theorem toNative_eq (m : ManagedValue) :
    (toNative m : Action (Isolate Paired φ) Value) = onAgent (toNative m) := by
  cases m with
  | int n =>
    rw [toNative, toNative]
    cases Value.int n <;> rfl
  | string text => rfl
  | object ref =>
    simp only [toNative, onAgent_bind, wrap_eq]
    rfl
  | _ => rfl

theorem promiseRef_eq (p : Promise) :
    (promiseRef p : Action (Isolate Paired φ) ObjectRef) = onAgent (promiseRef p) := by
  rw [promiseRef, promiseRef, onAgent_bind, binding_eq]
  refine bind_congr fun b => ?_
  split
  · rfl
  · rfl

theorem state_eq (p : Promise) :
    (state p : Action (Isolate Paired φ) PromiseState) = onAgent (state p) := by
  rw [state, state, onAgent_bind, promiseRef_eq]
  exact bind_congr fun ref => demand_eq _ _

theorem result_eq (p : Promise) :
    (result p : Action (Isolate Paired φ) Value) = onAgent (result p) := by
  simp only [result, onAgent_bind, promiseRef_eq, toNative_eq]
  refine bind_congr fun ref => ?_
  rw [← demand_eq]
  rfl

end Isolate

end Promises
