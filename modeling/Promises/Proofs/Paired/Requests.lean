import Promises.Proofs.Agent.Advance
import Promises.Proofs.Isolate.Beneath

namespace Promises

namespace Paired

variable {pairs : List (ObjectRef × ObjectRef)} {a : Agent} {r q : ObjectRef}

theorem promiseOf_run (hq : pairs.lookup r = some q) :
    promiseOf r (⟨a, pairs⟩ : Paired) = .ok (.ok q) ⟨a, pairs⟩ := by
  rw [promiseOf, Request.bind_run, Request.get_run]
  simp only [hq]
  rfl

theorem zoom_run {α : Type} {request : Request Agent α} {answer : Except EngineError α} {a' : Agent}
    (ha : request a = .ok answer a') :
    Request.zoom beneath request (⟨a, pairs⟩ : Paired) = .ok answer ⟨a', pairs⟩ := by
  have hrun : request.run a = .ok answer a' := ha
  simp only [Request.zoom, ExceptT.mk, Action.zoom, beneath, hrun]

/-- A request about the promise that goes with a resolver. -/
def through (request : ObjectRef → ManagedValue → Request Agent Bool) (resolver : ObjectRef)
    (value : ManagedValue) : Request Paired Bool := do
  Request.zoom beneath (request (← promiseOf resolver) value)

theorem through_run (hq : pairs.lookup r = some q) {request : ObjectRef → ManagedValue → Request Agent Bool}
    {value : ManagedValue} {answer : Except EngineError Bool} {a' : Agent}
    (ha : request q value a = .ok answer a') :
    through request r value (⟨a, pairs⟩ : Paired) = .ok answer ⟨a', pairs⟩ := by
  rw [through, Request.bind_run, promiseOf_run hq]
  exact zoom_run ha

theorem newObject_run (a : Agent) (pairs : List (ObjectRef × ObjectRef)) :
    (Engine.newObject : Request Paired ObjectRef) (⟨a, pairs⟩ : Paired) =
      if a.terminating then .ok (.error .terminated) ⟨a, pairs⟩
      else if a.makeRoom.heap.isFull then
        .ok (.error (.outOfMemory a.makeRoom.heap.limit)) ⟨a.makeRoom, pairs⟩
      else .ok (.ok (a.makeRoom.heap.place .plain).1) ⟨a.makeRoom.placed .plain, pairs⟩ := by
  have hrun := Agent.allocate_run .plain a
  split
  · rename_i ht
    rw [if_pos ht] at hrun
    exact zoom_run hrun
  · rename_i ht
    rw [if_neg ht] at hrun
    split
    · rename_i hf
      rw [if_pos hf] at hrun
      exact zoom_run hrun
    · rename_i hf
      rw [if_neg hf] at hrun
      exact zoom_run hrun

/-- A promise is made and rooted, and then an object, which is paired with it. -/
theorem newResolver_run (a : Agent) (pairs : List (ObjectRef × ObjectRef)) :
    newResolver (⟨a, pairs⟩ : Paired) =
      if a.terminating then .ok (.error .terminated) ⟨a, pairs⟩
      else if a.makeRoom.heap.isFull then
        .ok (.error (.outOfMemory a.makeRoom.heap.limit)) ⟨a.makeRoom, pairs⟩
      else if a.pinned.makeRoom.heap.isFull then
        .ok (.error (.outOfMemory a.pinned.makeRoom.heap.limit)) ⟨a.pinned.makeRoom, pairs⟩
      else
        .ok (.ok (a.pinned.makeRoom.heap.place .plain).1) ⟨a.pinned.makeRoom.placed .plain,
          ((a.pinned.makeRoom.heap.place .plain).1, a.newPromise) :: pairs⟩ := by
  have hpromise : Agent.newResolver a = _ := Agent.allocate_run (.promise .new) a
  rw [newResolver, Request.bind_run]
  by_cases ht : a.terminating = true
  · rw [if_pos ht] at hpromise ⊢
    rw [zoom_run hpromise]
  · rw [if_neg ht] at hpromise ⊢
    by_cases hf : a.makeRoom.heap.isFull = true
    · rw [if_pos hf] at hpromise ⊢
      rw [zoom_run hpromise]
    · rw [if_neg hf] at hpromise ⊢
      -- the promise is rooted before the plain object is made
      have hretain : (ExceptT.lift (Action.zoom beneath (Agent.retain a.newPromise)) :
          Request Paired Unit) ⟨a.makeRoom.placed (.promise .new), pairs⟩ =
            .ok (.ok ()) ⟨a.pinned, pairs⟩ := rfl
      have hrunning : ¬ a.pinned.terminating = true := by
        change ¬ a.makeRoom.terminating = true
        rw [(Agent.kept_makeRoom a).terminating]
        exact ht
      have hresolver : Agent.newObject a.pinned = _ := Agent.allocate_run .plain a.pinned
      rw [if_neg hrunning] at hresolver
      rw [zoom_run hpromise]
      change (ExceptT.lift (Action.zoom beneath (Agent.retain a.newPromise)) >>= _ :
        Request Paired ObjectRef) _ = _
      rw [Request.bind_run, hretain]
      dsimp only
      rw [Request.bind_run]
      by_cases hg : a.pinned.makeRoom.heap.isFull = true
      · rw [if_pos hg] at hresolver ⊢
        rw [zoom_run hresolver]
      · rw [if_neg hg] at hresolver ⊢
        rw [zoom_run hresolver]
        rfl

end Paired

namespace Isolate

variable {φ : Type} {s t : Isolate Agent φ} {pairs pairs' : List (ObjectRef × ObjectRef)} {b : Binding}

theorem ask_of_run {ε α : Type} {iso : Isolate ε φ} {request : Request ε α} {answer : Except EngineError α}
    {e : ε} (hr : request iso.engine = .ok answer e) :
    ask request iso = .ok answer { iso with engine := e } := by
  have hrun : request.run iso.engine = .ok answer e := hr
  rw [ask, onEngine_run, hrun]

theorem promiseRef_run (p : Promise) (hg : s.handles.get p.handle = .ok b) (hp : b.isPromise = true) :
    promiseRef p s = .ok b.object s := by
  refine (bind_run _ (binding_run hg)).trans ?_
  rw [if_pos hp]
  rfl

theorem query_run {α : Type} {query : PromiseQuery} {ref : ObjectRef} {record : PromiseRecord}
    (look : PromiseRecord → α) (hr : s.engine.heap.record? ref = .ok record) :
    demand query (do return look (← Agent.record ref) : Request Agent α) s = .ok (look record) s := by
  have hlook := Agent.look_run ref look s.engine
  rw [hr] at hlook
  exact bind_run _ (ask_of_run hlook)

theorem state_run (p : Promise) (hg : s.handles.get p.handle = .ok b) (hp : b.isPromise = true)
    {record : PromiseRecord} (hr : s.engine.heap.record? b.object = .ok record) :
    state p s = .ok record.state s :=
  (bind_run _ (promiseRef_run p hg hp)).trans (query_run _ hr)

theorem result_run (p : Promise) (hg : s.handles.get p.handle = .ok b) (hp : b.isPromise = true)
    {record : PromiseRecord} (hr : s.engine.heap.record? b.object = .ok record) :
    result p s = toNative record.result s :=
  (bind_run _ (promiseRef_run p hg hp)).trans (bind_run _ (query_run _ hr))

/-- What resolving and rejecting have in common. -/
def settleBy {ε : Type} (request : ObjectRef → ManagedValue → Request ε Bool) (r : Resolver) (v : Value) :
    Action (Isolate ε φ) (Option Bool) := do
  let m ← manage v
  let b ← binding r.handle
  return (← ask (request b.object m)).toOption

theorem settleBy_run {ε : Type} {iso : Isolate ε φ} {r : Resolver} {v : Value} {m : ManagedValue}
    {request : ObjectRef → ManagedValue → Request ε Bool} {answer : Except EngineError Bool} {e : ε}
    (hm : iso.toManaged v = .ok m) (hb : iso.handles.get r.handle = .ok b)
    (ha : request b.object m iso.engine = .ok answer e) :
    settleBy request r v iso = .ok answer.toOption { iso with engine := e } :=
  (bind_run _ (manage_run hm)).trans ((bind_run _ (binding_run hb)).trans (bind_run _ (ask_of_run ha)))

theorem settleBy_error {ε : Type} {iso : Isolate ε φ} {r : Resolver} {v : Value} {e : Misuse}
    (request : ObjectRef → ManagedValue → Request ε Bool) (hm : iso.toManaged v = .error e) :
    settleBy request r v iso = .error (.misuse e) iso := by
  have hmanage : manage v iso = .error (.misuse e) iso := by
    change (Action.ofMisuse (iso.toManaged v) : Action (Isolate ε φ) ManagedValue) iso = _
    rw [hm]
    rfl
  exact bind_error _ hmanage

theorem ask_paired {α : Type} {request : Request Paired α} {answer : Except EngineError α} {a : Agent}
    (hr : request (⟨t.engine, pairs⟩ : Paired) = .ok answer ⟨a, pairs'⟩) :
    ask request (t.withPairs pairs) =
      .ok answer (({ t with engine := a } : Isolate Agent φ).withPairs pairs') := ask_of_run hr

theorem promiseOf_paired {r q : ObjectRef} (hq : pairs.lookup r = some q) (query : PromiseQuery) :
    demand query (Engine.promiseOf r) (t.withPairs pairs) = .ok q (t.withPairs pairs) := by
  have hrun : (Engine.promiseOf r : Request Paired ObjectRef) (t.withPairs pairs).engine =
      .ok (.ok q) (t.withPairs pairs).engine := Paired.promiseOf_run hq
  exact bind_run _ (ask_of_run hrun)

end Isolate

end Promises
