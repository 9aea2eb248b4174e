import Promises.Proofs.Isolate.Ledger
import Promises.Proofs.Program.Moment

namespace Promises

namespace Stage

open EngineCall Moment

/-- The calls that the engine got on the way to a stage. -/
def calls {ε κ : Type} (s : Stage (Traced ε) κ Empty) : List EngineCall :=
  s.machine.isolate.engine.calls.toList

/-- On every way of a program over any engine, the roots of an object that were registered and came with
jobs, less those that were taken back, are its handles and the reactions under way that are to settle it.
Within a step the entry comes after its root and goes before it, so that at every point of the trace the
roots are the entries and what is owed besides, and are never negative. An isolate that ends with no
reaction under way has taken back every root, and none twice. The ways of a program are its runs, by
`run_ok_iff`. -/
theorem roots_accounted {ε κ : Type} [Engine ε] {id : IsolateId} {config : Config} {engine : ε}
    {iso : Isolate (Traced ε) (Handler κ Empty)}
    (hcreate : Isolate.create id config ⟨engine, #[]⟩ = .ok iso) (memory : κ)
    (program : Program κ Empty) {n : ℕ} {s : Stage (Traced ε) κ Empty}
    (hs : Leads n ⟨⟨iso, memory⟩, program, []⟩ s) :
    (∀ o, balance o s.calls =
      (s.machine.isolate.handles.entries.toList.map (·.object)).count o +
        (inFlight s.frames).count o) ∧
    (∀ made, made <+: s.calls →
      (∃ m, Steps ⟨iso, [], []⟩ m ∧ Steps m s.moment ∧ m.calls = made ∧ m.Accounts) ∧
        ∀ o, 0 ≤ balance o made) ∧
    (inFlight s.frames = [] → ∀ rest, s.machine.isolate.dispose = .ok () rest →
      (∀ o, balance o rest.engine.calls.toList = 0) ∧
        ∀ made, made <+: rest.engine.calls.toList → ∀ o, 0 ≤ balance o made) := by
  obtain ⟨hstart, hnone⟩ := accounts_created [] hcreate
  have hsteps : Steps ⟨iso, [], []⟩ s.moment := hs.steps
  have haccounts : s.moment.Accounts := hstart.steps hsteps
  -- at first there were no calls
  have hfirst (o : ObjectRef) (made : List EngineCall) (hmade : made <+: Moment.calls ⟨iso, [], []⟩) :
      0 ≤ balance o made := by
    rw [hnone] at hmade
    rw [List.prefix_nil.1 hmade]
    exact Int.le_refl 0
  have hsane := hstart.sane hfirst hsteps
  refine ⟨haccounts, fun made hmade => ⟨?_, fun o => hsane o made hmade⟩, ?_⟩
  · -- the calls that were made by then are those of an earlier moment
    rcases hsteps.passes hmade with hbefore | ⟨m, hm, hlater, hcalls⟩
    · have hmade : made = Moment.calls ⟨iso, [], []⟩ := by
        rw [hnone] at hbefore ⊢
        exact List.prefix_nil.1 hbefore
      exact ⟨⟨iso, [], []⟩, .refl, hsteps, hmade.symm, hstart⟩
    · exact ⟨m, hm, hlater, hcalls, hstart.steps hm⟩
  · intro hquiet rest hdispose
    -- to drop the isolate is to release what its entries hold
    obtain ⟨k, hk, hcalls, hreleases, hempty⟩ := dispose_steps haccounts hdispose
    have hended := hk.steps hreleases
    refine ⟨fun o => ?_, fun made hmade o => ?_⟩
    · refine (hended o).trans ?_
      rw [hempty, hquiet]
      rfl
    · apply hk.sane (fun o made hmade => ?_) hreleases o made hmade
      rw [hcalls] at hmade
      exact hsane o made hmade

/-- An engine that takes everything for a promise, hands out the jobs on a list and forgets the rest. -/
structure Careless where
  jobs : List NativeJob

instance : Engine Careless where
  isPromise _ := return true
  newObject := return ⟨0, 0⟩
  state _ := return .pending
  result _ := return .undefined
  newResolver := return ⟨0, 0⟩
  resolve _ _ := return true
  reject _ _ := return true
  promiseOf ref := return ref
  addReactions ref _ _ := return ref
  hasHandler _ := return false
  markHandled _ := return
  nextJob := modifyGet fun engine => (engine.jobs.head?, ⟨engine.jobs.tail⟩)
  retain _ := return
  release _ := return
  collectGarbage := return ⟨0, 0, 0⟩
  stats := return ⟨0, 0, 0, 0⟩
  terminate := return
  cancelTermination := return
  isTerminating := return false

/-- Lets an object escape from a scope and comes to a checkpoint. -/
def escaping : Program Unit Empty :=
  .escape (.call .newObject fun answer => .done (.ok (answer.getD .undefined)))
    fun _ => .checkpoint fun _ => .done (.ok .null)

/-- The escaped object has a root for its handle, one for the argument of a reaction and one that the job
of the reaction came with. In the end it has none. -/
theorem roots_accounted_careless : ∃ s t : Stage (Traced Careless) Unit Empty,
    balance ⟨0, 0⟩ s.calls = 3 ∧ inFlight s.frames = [⟨0, 0⟩] ∧ balance ⟨0, 0⟩ t.calls = 1 ∧
      ∃ rest, t.machine.isolate.dispose = .ok () rest ∧
        balance ⟨0, 0⟩ rest.engine.calls.toList = 0 := by
  let machine (jobs : List NativeJob) (calls : List EngineCall) (entries : Array Binding)
      (serials : Array (BitVec 16)) (scopes : List Nat) : Machine (Traced Careless) Unit Empty :=
    ⟨⟨⟨1⟩, .default, ⟨⟨jobs⟩, calls.toArray⟩, ⟨⟨1⟩, entries, serials, scopes⟩, .empty, #[]⟩, ()⟩
  let o : ObjectRef := ⟨0, 0⟩
  let b : Binding := ⟨⟨1⟩, o, .promise⟩
  let job : NativeJob := ⟨.fulfill, ⟨0⟩, .object o, o⟩
  let made : List EngineCall := [.newObject (.ok o), .isPromise o true, .retain o]
  let escaped := made ++ [.release o, .retain o]
  let taken := escaped ++ [.nextJob (some job), .isPromise o true, .retain o]
  let closed := taken ++ [.reject o .undefined (.ok true), .release o, .release o]
  let m₀ := machine [job] [] #[] #[] []
  let m₁ := machine [job] [] #[] #[] [0]
  let m₂ := machine [job] made #[b] #[0] [0]
  let m₃ := machine [job] escaped #[b] #[1] []
  let m₄ := machine [] taken #[b, b] #[1, 0] [1]
  let m₅ := machine [] closed #[b] #[1, 1] []
  let m₆ := machine [] (closed ++ [.nextJob none]) #[b] #[1, 1] []
  let last := machine [] (closed ++ [.nextJob none, .release o]) #[] #[2, 1] []
  -- the handler of the job is not there, so that the promise is rejected
  let s : Stage (Traced Careless) Unit Empty :=
    ⟨m₄, .done (.error .undefined), [.reaction ⟨1, 1⟩ job fun _ => .done (.ok .null)]⟩
  let t : Stage (Traced Careless) Unit Empty := ⟨m₆, .done (.ok .null), []⟩
  have hs : Leads 4 ⟨m₀, escaping, []⟩ s := by
    refine .step (m := m₁) rfl ?_
    refine .step (m := m₂) rfl ?_
    refine .step (m := m₃) rfl ?_
    exact .step rfl (.refl s)
  have ht : Leads 2 s t := by
    refine .step (m := m₅) rfl ?_
    exact .step rfl (.refl t)
  have hcreate : Isolate.create ⟨1⟩ .default m₀.isolate.engine = .ok m₀.isolate := rfl
  obtain ⟨hreacting, -, -⟩ := roots_accounted hcreate () escaping hs
  obtain ⟨hdone, -, hend⟩ := roots_accounted hcreate () escaping (hs.trans ht)
  have hdispose : m₆.isolate.dispose = .ok () last.isolate := rfl
  obtain ⟨hnone, -⟩ := hend rfl last.isolate hdispose
  exact ⟨s, t, hreacting o, rfl, hdone o, last.isolate, hdispose, hnone o⟩

end Stage

end Promises
