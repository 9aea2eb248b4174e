import Promises.Proofs.Program.Translation
import Promises.Proofs.Shell.Session

namespace Promises

namespace Shell

open Program

variable {s t : Shell} {c : Command} {slot : ℕ} {answer : Except Failure String}

theorem silent_withSlot {next : Value → Script} (h : ∀ v, (next v).Silent) : (withSlot slot next).Silent := by
  intro m
  dsimp only
  split
  · exact h _
  · exact trivial

theorem silent_withPromise {next : Promise → Script} (h : ∀ p, (next p).Silent) :
    (withPromise slot next).Silent := by
  refine silent_withSlot fun v => ⟨trivial, fun found => ?_⟩
  cases found with
  | none => exact trivial
  | some p => exact h p

theorem silent_withResolver {next : Resolver → Script} (h : ∀ r, (next r).Silent) :
    (withResolver slot next).Silent := by
  refine silent_withSlot fun v => ⟨trivial, fun found => ?_⟩
  cases found with
  | none => exact trivial
  | some r => exact h r

theorem silent_withOperand {o : Operand} (ho : ∀ text, o ≠ .text text) {next : Value → Script}
    (h : ∀ v, (next v).Silent) : (withOperand o next).Silent := by
  cases o with
  | int n =>
    rw [withOperand]
    cases Value.int n with
    | ok v => exact h v
    | error fault => exact trivial
  | text text => exact absurd rfl (ho text)
  | slot slot => exact silent_withSlot h
  | _ => exact h _

theorem silent_settled (kind : ReactionKind) (answer : Option Bool) : (settled kind answer).Silent := by
  cases answer <;> exact trivial

theorem silent_settleCall (kind : ReactionKind) (r : Resolver) (v : Value) :
    (settleCall kind r v (settled kind)).Silent := by
  cases kind <;> exact ⟨trivial, silent_settled _⟩

theorem silent_store (c : Completion) : (store c).Silent := by
  cases c with
  | ok v => exact ⟨trivial, fun _ _ => trivial⟩
  | error v => exact trivial

theorem silent_attaching (kind : ReactionKind) (slot : ℕ) (handler : FunctionId) :
    (attaching kind slot handler).Silent := by
  have hattached (derived : Option Promise) : (attached kind derived).Silent := by
    cases derived <;> exact trivial
  refine ⟨silent_withPromise fun p => ?_, silent_store⟩
  cases kind <;> exact ⟨trivial, hattached⟩

/-- The commands to which no string can be new. -/
def Command.isSilent : Command → Bool
  | .run | .result _ | .settle _ _ (.text _) => false
  | _ => true

theorem silent_script (hc : c.isSilent = true) : c.script.Silent := by
  cases c with
  | new =>
    refine ⟨⟨trivial, fun made => ?_⟩, silent_store⟩
    cases made <;> exact trivial
  | settle kind slot o =>
    have ho (text : String) : o ≠ .text text := by
      rintro rfl
      cases hc
    exact ⟨silent_withResolver fun r => silent_withOperand ho (silent_settleCall kind r), fun _ => trivial⟩
  | state slot => exact silent_withPromise fun p => ⟨trivial, fun _ => trivial⟩
  | promise slot => exact ⟨silent_withResolver fun r => ⟨trivial, fun _ => trivial⟩, silent_store⟩
  | attach kind slot op =>
    intro m
    dsimp only
    split
    · exact silent_attaching kind slot _
    · exact silent_attaching kind slot
  | run => cases hc
  | result slot => cases hc
  | help => exact trivial
  | _ => exact ⟨trivial, fun _ => trivial⟩

theorem execute_ok (hr : execute c s = .ok answer t) :
    ∃ completion, runWith (drain (fuel s) 0) c.script s = .ok completion t := by
  obtain ⟨before, mid, hget, hrest⟩ := bind_ok hr
  obtain ⟨rfl, rfl⟩ := EStateM.Result.ok.inj hget
  obtain ⟨⟨⟩, last, hscript, hreport⟩ := bind_ok hrest
  obtain ⟨after, last', hget, hend⟩ := bind_ok hreport
  obtain ⟨-, rfl⟩ := EStateM.Result.ok.inj hget
  obtain ⟨-, rfl⟩ := EStateM.Result.ok.inj hend
  obtain ⟨completion, last', hrun, hdiscard⟩ := bind_ok (f := fun _ => pure PUnit.unit) hscript
  obtain ⟨-, rfl⟩ := EStateM.Result.ok.inj hdiscard
  exact ⟨completion, hrun⟩

theorem strings_execute (hc : c.isSilent = true) (hr : execute c s = .ok answer t) :
    t.isolate.strings = s.isolate.strings := by
  obtain ⟨completion, hrun⟩ := execute_ok hr
  exact (silent_runWith _ (silent_script hc)).same hrun

variable {iso : Isolate Agent (Handler Memory Empty)} {m : Memory}

/-- The strings after a scope are those after what was done in it. -/
theorem strings_scope {body : Script} {cp : Run Agent Memory Empty ℕ} {completion : Completion}
    (hr : runWith cp (.scope body finish) ⟨iso, m⟩ = .ok completion t) :
    ∃ completion' u, runWith cp body ⟨Run.opened iso, m⟩ = .ok completion' u ∧
      t.isolate.strings = u.isolate.strings := by
  obtain ⟨inner, last, hscope, hend⟩ := bind_ok hr
  obtain ⟨-, rfl⟩ := EStateM.Result.ok.inj hend
  obtain ⟨mark, mid, hopen, hrest⟩ := bind_ok hscope
  obtain ⟨-, rfl⟩ := EStateM.Result.ok.inj ((Run.openScope_run iso m).symm.trans hopen)
  obtain ⟨completion', u, hbody, hclose⟩ := bind_ok hrest
  obtain ⟨⟨⟩, last', hclosed, hend⟩ := bind_ok hclose
  obtain ⟨-, rfl⟩ := EStateM.Result.ok.inj hend
  exact ⟨completion', u, hbody, (Run.silent_onIsolate (Isolate.silent_closeScope mark)).same hclosed⟩

/-- The handle of a slot, by the promise that it stands for. -/
theorem Kept.slot_of_some (hk : Kept s) {ref : ObjectRef}
    (hslot : (s.isolate.handles.entries.map (·.object))[slot]? = some ref) :
    ∃ (h : HandleId) (b : Binding), s.memory.slots[slot]? = some (.handle h) ∧
      s.isolate.handles.get h = .ok b ∧ b.kind = .promise ∧ b.object = ref := by
  rcases hk.slot [] id slot with ⟨-, hnone⟩ | ⟨h, b, hv, hg, hb, hsome⟩
  · cases hnone.symm.trans hslot
  · exact ⟨h, b, hv, hg, hb, Option.some.inj (hsome.symm.trans hslot)⟩

/-- A text with which the promise of a slot is settled is numbered, and no other string is. -/
theorem strings_settle (hk : Kept s) {kind : ReactionKind} {text : String} {ref : ObjectRef}
    (hslot : (s.isolate.handles.entries.map (·.object))[slot]? = some ref)
    (hr : execute (.settle kind slot (.text text)) s = .ok answer t) :
    t.isolate.strings = (s.isolate.strings.intern text).2 := by
  obtain ⟨iso, m⟩ := s
  obtain ⟨h, b, hv, hg, hb, -⟩ := hk.slot_of_some hslot
  obtain ⟨completion, hrun⟩ := execute_ok hr
  obtain ⟨completion', u, hbody, hstrings⟩ := strings_scope hrun
  have hopened : (Run.opened iso).handles.get h = .ok b := hg
  rw [withResolver_some hv hopened hb] at hbody
  have hcall : (Call.string text).run (Run.opened iso) =
      .ok _ { Run.opened iso with strings := (iso.strings.intern text).2 } := rfl
  rw [withOperand, call_run hcall] at hbody
  exact hstrings.trans ((silent_runWith _ (silent_settleCall kind ⟨h⟩ _)).same hbody)

/-- To look for the result of a promise that has none brings no string. -/
theorem strings_result (hk : Kept s)
    (hresult : ∀ ref, (s.isolate.handles.entries.map (·.object))[slot]? = some ref →
      (Engine.result ref : Request Agent ManagedValue).run s.isolate.engine = .ok (.ok .undefined) s.isolate.engine)
    (hr : execute (.result slot) s = .ok answer t) : t.isolate.strings = s.isolate.strings := by
  obtain ⟨iso, m⟩ := s
  obtain ⟨completion, hrun⟩ := execute_ok hr
  obtain ⟨completion', u, hbody, hstrings⟩ := strings_scope hrun
  rcases hk.slot [] id slot with ⟨hv, -⟩ | ⟨h, b, hv, hg, hb, hsome⟩
  · have hrefused : (refuse (.unknownSlot slot)).Silent := trivial
    rw [withPromise, withSlot_none hv] at hbody
    have hsame := (silent_runWith _ hrefused).same hbody
    exact hstrings.trans hsame
  · have hopened : (Run.opened iso).handles.get h = .ok b := hg
    have hdemand : Isolate.demand .result (Engine.result b.object) (Run.opened iso) =
        .ok .undefined (Run.opened iso) := demand_run (hresult b.object hsome)
    have hcall : (Call.result ⟨h⟩).run (Run.opened iso) = .ok .undefined (Run.opened iso) :=
      (bind_run _ (promiseRef_run hopened hb)).trans (bind_run _ hdemand)
    have hshown : (Program.call (.display .undefined) say : Script).Silent := ⟨trivial, fun _ => trivial⟩
    rw [withPromise_some hv hopened hb, call_run hcall] at hbody
    have hsame := (silent_runWith _ hshown).same hbody
    exact hstrings.trans hsame

/-- A checkpoint brings no string while nothing is due. -/
theorem strings_run {e : Agent} (hidle : Agent.nextJob s.isolate.engine = .ok none e)
    (hr : execute .run s = .ok answer t) : t.isolate.strings = s.isolate.strings := by
  obtain ⟨iso, m⟩ := s
  obtain ⟨completion, hrun⟩ := execute_ok hr
  have hdue : (Program.due : Run Agent Memory Empty _) ⟨iso, m⟩ = .ok none ⟨{ iso with engine := e }, m⟩ :=
    (Program.Finds.nothing hidle).due_eq
  have hdrain : (drain (fuel ⟨iso, m⟩) 0 : Run Agent Memory Empty ℕ) ⟨iso, m⟩ =
      .ok 0 ⟨{ iso with engine := e }, m⟩ := by
    rw [fuel, Program.drain_succ]
    exact bind_run _ hdue
  obtain ⟨n, mid, hn, hsay⟩ := bind_ok hrun
  obtain ⟨-, rfl⟩ := EStateM.Result.ok.inj (hdrain.symm.trans hn)
  have hsaid : (say s!"ran {n} reaction(s)").Silent := trivial
  have hsame := (silent_runWith _ hsaid).same hsay
  exact hsame

end Shell

end Promises
