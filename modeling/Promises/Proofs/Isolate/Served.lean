import Promises.Proofs.Agent.Identity
import Promises.Proofs.Isolate.Calls

namespace Promises

open Agent (Rootings Serves)

namespace HandleTable

/-- The handle of a new entry stands for it. -/
theorem eq_of_get_pushed {t : HandleTable} {b c : Binding}
    (hs : t.entries.size < HandleId.capacity) (hg : (t.pushed b).get t.nextId = .ok c) : c = b := by
  have hindex : t.nextId.index.toNat = t.entries.size := by
    rw [nextId, BitVec.toNat_ofNat]
    exact Nat.mod_eq_of_lt hs
  have hentry : (t.pushed b).entries[t.nextId.index.toNat]? = some b := by
    rw [hindex]
    exact Array.getElem?_push_size
  unfold get at hg
  rw [hentry] at hg
  dsimp only at hg
  split at hg
  · split at hg
    · exact (Except.ok.inj hg).symm
    · cases hg
  · cases hg

end HandleTable

namespace Isolate

variable {φ : Type} {iso next : Isolate Agent φ}

theorem register_ok {b : Binding} {id : HandleId} (hr : register b iso = .ok id next) :
    iso.handles.entries.size < HandleId.capacity ∧ id = iso.handles.nextId ∧
      next = { iso with
        engine := iso.engine.retained b.object
        handles := iso.handles.pushed b } := by
  rw [register_run] at hr
  split at hr
  · rename_i hs
    obtain ⟨rfl, rfl⟩ := EStateM.Result.ok.inj hr
    exact ⟨hs, rfl, rfl⟩
  · cases hr

theorem register_rootings {b : Binding} {id : HandleId} (hr : register b iso = .ok id next) :
    Rootings iso.engine next.engine := by
  obtain ⟨-, -, rfl⟩ := register_ok hr
  exact .single (.retain _ _)

theorem wrap_rootings {ref : ObjectRef} {id : HandleId} (hr : wrap ref iso = .ok id next) :
    Rootings iso.engine next.engine := by
  rw [wrap_run] at hr
  exact register_rootings hr

theorem releaseAll_rootings {popped : List Binding} (hr : releaseAll popped iso = .ok () next) :
    Rootings iso.engine next.engine := by
  induction popped generalizing iso with
  | nil =>
    obtain ⟨-, rfl⟩ := EStateM.Result.ok.inj hr
    exact .refl
  | cons b popped ih =>
    obtain ⟨⟨⟩, mid, hb, hrest⟩ := bind_ok hr
    obtain ⟨-, rfl⟩ := EStateM.Result.ok.inj hb
    exact .head (.release _ _) (ih hrest)

theorem openScope_engine {mark : ScopeMark} (hr : openScope iso = .ok mark next) :
    next.engine = iso.engine := by
  rw [(openScope_table hr).2]

theorem closeScope_rootings {mark : ScopeMark} (hr : closeScope mark iso = .ok () next) :
    Rootings iso.engine next.engine := by
  obtain ⟨popped, -, hrelease⟩ := closeScope_popped hr
  have hroots := releaseAll_rootings hrelease
  exact hroots

/-- A value of the engine gets a handle, if it is an object. -/
theorem toNative_rootings {m : ManagedValue} {v : Value} (hr : toNative m iso = .ok v next) :
    Rootings iso.engine next.engine := by
  cases m with
  | object ref =>
    obtain ⟨id, mid, hw, hr⟩ := bind_ok hr
    obtain ⟨-, rfl⟩ := EStateM.Result.ok.inj hr
    exact wrap_rootings hw
  | int n =>
    rw [toNative_int] at hr
    cases hn : Value.int n with
    | error fault =>
      rw [hn] at hr
      cases hr
    | ok u =>
      rw [hn] at hr
      obtain ⟨-, rfl⟩ := EStateM.Result.ok.inj hr
      exact .refl
  | _ =>
    obtain ⟨-, rfl⟩ := EStateM.Result.ok.inj hr
    exact .refl

/-- A request that the agent serves, and what is done with its answer for handles. -/
theorem ask_serves {α β : Type} (c : Agent.Call) {f : Except EngineError α → Agent.Answer}
    (hc : c.isCalm = true) {request : Request Agent α} (hcall : c.run = f <$> request.run)
    {rest : Except EngineError α → Action (Isolate Agent φ) β} {v : β}
    (hrest : ∀ {answer mid}, rest answer mid = .ok v next → Rootings mid.engine next.engine)
    (hr : (ask request >>= rest) iso = .ok v next) : Serves iso.engine next.engine := by
  obtain ⟨answer, mid, ha, hr⟩ := bind_ok hr
  obtain ⟨e, he, rfl⟩ := onEngine_ok ha
  exact (Agent.serves_of_run c hc hcall he).rootings (hrest hr)

theorem wrapMade_rootings {β : Type} {f : HandleId → β} {answer : Except EngineError ObjectRef}
    {v : Option β}
    (hr : (match answer with
      | .ok ref => do return some (f (← wrap ref))
      | .error _ => return none : Action (Isolate Agent φ) (Option β)) iso = .ok v next) :
    Rootings iso.engine next.engine := by
  cases answer with
  | ok ref =>
    obtain ⟨id, mid, hw, hrest⟩ := bind_ok hr
    obtain ⟨-, rfl⟩ := EStateM.Result.ok.inj hrest
    exact wrap_rootings hw
  | error e =>
    obtain ⟨-, rfl⟩ := EStateM.Result.ok.inj hr
    exact .refl

theorem demand_serves {α : Type} (c : Agent.Call) {f : Except EngineError α → Agent.Answer}
    (hc : c.isCalm = true) {query : PromiseQuery} {request : Request Agent α}
    (hcall : c.run = f <$> request.run) {v : α}
    (hr : demand query request iso = .ok v next) : Serves iso.engine next.engine := by
  refine ask_serves c hc hcall (fun {answer mid} hrest => ?_) hr
  cases answer with
  | ok u =>
    obtain ⟨-, rfl⟩ := EStateM.Result.ok.inj hrest
    exact .refl
  | error e => cases hrest

/-- A query about the object behind the handle of a promise. -/
theorem query_serves {α : Type} (c : ObjectRef → Agent.Call)
    {f : Except EngineError α → Agent.Answer} (hc : ∀ ref, (c ref).isCalm = true)
    {query : PromiseQuery} {request : ObjectRef → Request Agent α}
    (hcall : ∀ ref, (c ref).run = f <$> (request ref).run) {p : Promise} {v : α}
    (hr : (do demand query (request (← promiseRef p)) : Action (Isolate Agent φ) α) iso =
      .ok v next) : Serves iso.engine next.engine := by
  obtain ⟨ref, mid, hp, hrest⟩ := bind_ok hr
  obtain ⟨rfl, -⟩ := promiseRef_ok hp
  exact demand_serves (c ref) (hc ref) (hcall ref) hrest

theorem onEngine_serves {α : Type} (c : Agent.Call) {f : α → Agent.Answer} (hc : c.isCalm = true)
    {act : Action Agent α} (hcall : c.run = f <$> act) {v : α}
    (hr : onEngine act iso = .ok v next) : Serves iso.engine next.engine := by
  obtain ⟨e, he, rfl⟩ := onEngine_ok hr
  exact Agent.serves_of_run c hc hcall he

/-- A call of native code that settles no promise. -/
theorem call_serves {call : Call} (hc : (∀ r v, call ≠ .resolve r v) ∧ ∀ r v, call ≠ .reject r v)
    {answer : call.Answer} (hr : call.run iso = .ok answer next) :
    Serves iso.engine next.engine := by
  cases call with
  | newResolver =>
    exact ask_serves (β := Option Resolver) .newResolver rfl rfl wrapMade_rootings hr
  | newObject =>
    exact ask_serves (β := Option Value) .newObject rfl rfl wrapMade_rootings hr
  -- these look at the isolate alone
  | string text =>
    obtain ⟨-, rfl⟩ := EStateM.Result.ok.inj hr
    exact Agent.serves_self _
  | contents v =>
    obtain rfl := contents_ok hr
    exact Agent.serves_self _
  | kindOf v =>
    obtain rfl := kindOf_ok hr
    exact Agent.serves_self _
  | display v =>
    obtain rfl := display_ok hr
    exact Agent.serves_self _
  | castPromise v =>
    obtain rfl := castPromise_ok hr
    exact Agent.serves_self _
  | castResolver v =>
    obtain rfl := castResolver_ok hr
    exact Agent.serves_self _
  | newLocal v =>
    cases hv : v.handle? with
    | none =>
      rw [Call.run, newLocal, hv] at hr
      obtain ⟨-, rfl⟩ := EStateM.Result.ok.inj hr
      exact Agent.serves_self _
    | some handle =>
      rw [Call.run, newLocal, hv] at hr
      obtain ⟨id, mid, hd, hrest⟩ := bind_ok hr
      obtain ⟨-, rfl⟩ := EStateM.Result.ok.inj hrest
      obtain ⟨b, first, hb, hregister⟩ := bind_ok hd
      obtain ⟨-, rfl⟩ := binding_ok hb
      exact (register_rootings hregister).serves
  | resolve r v => exact absurd rfl (hc.1 r v)
  | reject r v => exact absurd rfl (hc.2 r v)
  | promiseOf r =>
    obtain ⟨b, mid, hb, hask⟩ := bind_ok hr
    obtain ⟨-, rfl⟩ := binding_ok hb
    by_cases hp : b.isPromise = true
    · rw [if_pos hp] at hask
      obtain ⟨-, rfl⟩ := EStateM.Result.ok.inj hask
      exact Agent.serves_self _
    · rw [if_neg hp] at hask
      -- the promise is looked up in the engine, and a new handle gives it a root
      obtain ⟨ref, mid, hd, hwrap⟩ := bind_ok hask
      obtain ⟨id, last, hw, hrest⟩ := bind_ok hwrap
      obtain ⟨-, rfl⟩ := EStateM.Result.ok.inj hrest
      exact (demand_serves (.promiseOf b.object) rfl rfl hd).rootings (wrap_rootings hw)
  | state p => exact query_serves .state (fun _ => rfl) (fun _ => rfl) hr
  | result p =>
    obtain ⟨ref, mid, hp, hdemand⟩ := bind_ok hr
    obtain ⟨rfl, -⟩ := promiseRef_ok hp
    obtain ⟨m, last, hd, hnative⟩ := bind_ok hdemand
    exact (demand_serves (.result ref) rfl rfl hd).rootings (toNative_rootings hnative)
  | hasHandler p => exact query_serves .hasHandler (fun _ => rfl) (fun _ => rfl) hr
  | markHandled p => exact query_serves .markHandled (fun _ => rfl) (fun _ => rfl) hr
  | addReactions p f g =>
    obtain ⟨ref, mid, hp, hrest⟩ := bind_ok hr
    obtain ⟨rfl, -⟩ := promiseRef_ok hp
    exact ask_serves (β := Option Promise) (.addReactions ref f g) rfl rfl wrapMade_rootings hrest
  | collectGarbage => exact onEngine_serves .collectGarbage rfl rfl hr
  | stats => exact onEngine_serves .stats rfl rfl hr
  | handleCount =>
    obtain ⟨-, rfl⟩ := EStateM.Result.ok.inj hr
    exact Agent.serves_self _
  | terminate => exact onEngine_serves .terminate rfl rfl hr
  | cancelTermination => exact onEngine_serves .cancelTermination rfl rfl hr
  | isTerminating => exact onEngine_serves .isTerminating rfl rfl hr

/-- What a call that settles a promise asks of the agent. -/
theorem settle_ok (kind : ReactionKind) {r : Resolver} {v : Value}
    {request : ObjectRef → ManagedValue → Request Agent Bool} {answer : Option Bool}
    (hcall : ∀ ref m, (Agent.Call.settle kind ref m).run = .settled <$> (request ref m).run)
    (hr : (do
      let m ← manage v
      let b ← binding r.handle
      return (← ask (request b.object m)).toOption :
        Action (Isolate Agent φ) (Option Bool)) iso = .ok answer next) :
    ∃ m b result, iso.toManaged v = .ok m ∧ iso.handles.get r.handle = .ok b ∧
      (Agent.Call.settle kind b.object m).run iso.engine = .ok (.settled result) next.engine ∧
      answer = result.toOption := by
  obtain ⟨m, mid, hmanage, hbind⟩ := bind_ok hr
  obtain ⟨hm, rfl⟩ := manage_ok hmanage
  obtain ⟨b, mid, hb, hask⟩ := bind_ok hbind
  obtain ⟨hget, rfl⟩ := binding_ok hb
  obtain ⟨result, last, ha, hrest⟩ := bind_ok hask
  obtain ⟨rfl, rfl⟩ := EStateM.Result.ok.inj hrest
  obtain ⟨e, he, rfl⟩ := onEngine_ok ha
  refine ⟨m, b, result, hm, hget, ?_, rfl⟩
  rw [hcall, Action.map_run, he]

/-- What is accepted is accepted by the agent. -/
theorem settle_accepted (kind : ReactionKind) {r : Resolver} {v : Value}
    {request : ObjectRef → ManagedValue → Request Agent Bool}
    (hcall : ∀ ref m, (Agent.Call.settle kind ref m).run = .settled <$> (request ref m).run)
    (hr : (do
      let m ← manage v
      let b ← binding r.handle
      return (← ask (request b.object m)).toOption :
        Action (Isolate Agent φ) (Option Bool)) iso = .ok (some true) next) :
    ∃ m b, iso.toManaged v = .ok m ∧ iso.handles.get r.handle = .ok b ∧
      (Agent.Call.settle kind b.object m).run iso.engine = .ok (.settled (.ok true)) next.engine := by
  obtain ⟨m, b, result, hm, hget, hc, hresult⟩ := settle_ok kind hcall hr
  refine ⟨m, b, hm, hget, ?_⟩
  cases result with
  | error e => cases hresult
  | ok found =>
    rw [Option.some.inj hresult]
    exact hc

/-- What a registration asks of the agent, and what the handle that it answers with is bound to. -/
theorem addReactions_ok {p : Promise} {f g : Option FunctionId} {derived : Promise}
    (hr : addReactions p f g iso = .ok (some derived) next) :
    ∃ b d e, iso.handles.get p.handle = .ok b ∧
      (Agent.Call.addReactions b.object f g).run iso.engine = .ok (.object (.ok d)) e ∧
      Rootings e next.engine ∧
      ∀ c, next.handles.get derived.handle = .ok c → c.object = d := by
  obtain ⟨ref, mid, hp, hrest⟩ := bind_ok hr
  obtain ⟨rfl, b, hget, -, rfl⟩ := promiseRef_ok hp
  obtain ⟨answer, last, ha, hwrap⟩ := bind_ok hrest
  obtain ⟨e, he, rfl⟩ := onEngine_ok ha
  cases answer with
  | error e => cases hwrap
  | ok d =>
    obtain ⟨id, last, hw, hend⟩ := bind_ok hwrap
    obtain ⟨hderived, rfl⟩ := EStateM.Result.ok.inj hend
    obtain rfl := Option.some.inj hderived
    refine ⟨b, d, e, hget, ?_, wrap_rootings hw, fun c hc => ?_⟩
    · rw [Agent.Call.run, Action.map_run, he]
    · rw [wrap_run] at hw
      obtain ⟨hs, rfl, rfl⟩ := register_ok hw
      rw [HandleTable.eq_of_get_pushed hs hc]
      rfl

end Isolate

end Promises
