import Promises.Proofs.Agent.Bound
import Promises.Proofs.Agent.Refusal
import Promises.Proofs.Agent.Safe
import Promises.Proofs.Shell.Desk
import Promises.Proofs.Shell.Grammar

namespace Promises

theorem Heap.workload_release (h : Heap) (ref : ObjectRef) : (h.release ref).2.workload = h.workload := by
  simp only [release, workload, update, Array.toList_modify]
  apply total_modify_of_weight
  intro slot
  obtain ⟨g, _ | ⟨_ | record, roots⟩⟩ := slot <;> split <;> try rfl
  -- the work of a slot does not depend on its roots
  all_goals
    rw [Option.map_some, Cell.released]
    split <;> rfl

namespace Agent

variable {a b : Agent} {ref : ObjectRef}

theorem workload_retained (a : Agent) (ref : ObjectRef) : (a.retained ref).workload = a.workload :=
  congrArg (· + a.queue.workload) (Heap.workload_retain a.heap ref)

theorem workload_released (a : Agent) (ref : ObjectRef) : (a.released ref).workload = a.workload :=
  congrArg (· + a.queue.workload) (Heap.workload_release a.heap ref)

/-- A reaction that is handed out is one less to come. -/
theorem workload_nextJob (ha : a.Sound) {native : NativeJob} (hr : nextJob a = .ok (some native) b) :
    b.workload < a.workload := by
  obtain ⟨n, hpops⟩ := ha.nextJob_eq_ok_iff.1 hr
  cases hpops with
  | handed _ hp => exact hp.workload_lt
  | more _ hp _ hpops =>
    have hfirst := hp.workload_lt
    have hrest := hpops.le_workload
    omega

/-- What a new resolver settles is a promise. -/
theorem kind?_newResolver (ha : a.Sound) (hr : newResolver a = .ok (.ok ref) b) :
    b.heap.kind? ref = some .promise := by
  obtain ⟨rfl, rfl⟩ := allocate_ok hr
  exact Heap.kind?_place_self (ha.idles (idles_makeRoom a)).shape (.promise .new)

/-- What a registration gives is a promise. -/
theorem kind?_addReactions (ha : a.Sound) {source : ObjectRef} {f g : Option FunctionId}
    (hr : addReactions source f g a = .ok (.ok ref) b) : b.heap.kind? ref = some .promise := by
  obtain ⟨record, -, rfl, hrecord, rfl⟩ := addReactions_ok ha hr
  rw [kind?_attaching hrecord]
  exact Heap.isPromise_iff_kind?.1 (isPromise_derivedRef ha source)

end Agent

namespace Shell

/-- An operation passes its argument on, or makes an integer that a native value can hold. -/
theorem Op.settlement_cases (op : Op) (value : ManagedValue) :
    (∃ kind, op.settlement value = (kind, value)) ∨
      ∃ n, (Value.ofInt? n).isSome = true ∧ op.settlement value = (.fulfill, .int (Int32.ofInt n)) := by
  have hinteger (n : Int) :
      (∃ kind, (if (Value.ofInt? n).isSome then (ReactionKind.fulfill, ManagedValue.int (Int32.ofInt n))
        else (.reject, value)) = (kind, value)) ∨
      ∃ m, (Value.ofInt? m).isSome = true ∧
        (if (Value.ofInt? n).isSome then (ReactionKind.fulfill, ManagedValue.int (Int32.ofInt n))
          else (.reject, value)) = (.fulfill, .int (Int32.ofInt m)) := by
    split
    · exact .inr ⟨n, ‹_›, rfl⟩
    · exact .inl ⟨.reject, rfl⟩
  cases op with
  | id => exact .inl ⟨.fulfill, rfl⟩
  | throw => exact .inl ⟨.reject, rfl⟩
  | add n =>
    cases value with
    | int i => exact hinteger (i.toInt + n.toInt)
    | _ => exact .inl ⟨.reject, rfl⟩
  | mul n =>
    cases value with
    | int i => exact hinteger (i.toInt * n.toInt)
    | _ => exact .inl ⟨.reject, rfl⟩

theorem fits_of_ofInt? {n : Int} (h : (Value.ofInt? n).isSome = true) :
    Value.fits (Int32.ofInt n) = true := by
  have hrange : Value.minInt.toInt ≤ n ∧ n ≤ Value.maxInt.toInt := by
    by_contra hout
    rw [Value.ofInt?, if_neg hout] at h
    cases h
  have hmin : Value.minInt.toInt = -1073741824 := by decide
  have hmax : Value.maxInt.toInt = 1073741823 := by decide
  have hn : (Int32.ofInt n).toInt = n := Int32.toInt_ofInt_of_le (by omega) (by omega)
  simp only [Value.fits, Bool.and_eq_true, decide_eq_true_eq, Int32.le_iff_toInt_le, hn]
  exact hrange

namespace Desk

section

variable {d : Desk} {known : FunctionId → Prop} {a b : Agent} {α β : Type}

/-- An action ends with an answer, a fit agent with known handlers and the roots that were gained, unless the
handle table has no room. -/
def Comes (d : Desk) (known : FunctionId → Prop) (a : Agent) (x : Action Agent α)
    (gained : α → List ObjectRef) (post : α → Agent → Prop) : Prop :=
  (∃ v b, x a = .ok v b ∧ b.Fit True ∧ b.Confined known ∧ Agent.Keeps (gained v) a b ∧ post v b) ∨
    d.room = false ∧ ∃ b, x a = .error .tableFull b

theorem Comes.pure (ha : a.Fit True) (hc : a.Confined known) {v : α} {gained : α → List ObjectRef}
    {post : α → Agent → Prop} (hg : gained v = []) (hp : post v a) :
    Comes d known a (pure v) gained post :=
  .inl ⟨v, a, rfl, ha, hc, hg ▸ Agent.keeps_self a, hp⟩

theorem Comes.of_safe {x : Action Agent α} {mid p : α → Agent → Prop} (hx : a.Safe True x mid)
    (hpost : ∀ v b, x a = .ok v b → b.Confined known ∧ p v b) :
    Comes d known a x (fun _ => []) p := by
  obtain ⟨v, b, hrun, hfit, hkeeps, -⟩ := hx
  exact .inl ⟨v, b, hrun, hfit, (hpost v b hrun).1, hkeeps, (hpost v b hrun).2⟩

theorem Comes.bind {x : Action Agent α} {k : α → Action Agent β} {more : β → List ObjectRef}
    {mid : α → Agent → Prop} {post : β → Agent → Prop} (hx : Comes d known a x (fun _ => []) mid)
    (hk : ∀ v b, b.Fit True → b.Confined known → Agent.Keeps [] a b → mid v b →
      Comes d known b (k v) more post) : Comes d known a (x >>= k) more post := by
  rcases hx with ⟨v, b, hrun, hfit, hc, hkeeps, hmid⟩ | ⟨hroom, b, hrun⟩
  · rcases hk v b hfit hc hkeeps hmid with ⟨w, c, hw, hfit, hc, hmore, hpost⟩ | ⟨hroom, c, hfull⟩
    · exact .inl ⟨w, c, (bind_run k hrun).trans hw, hfit, hc, hkeeps.trans hmore, hpost⟩
    · exact .inr ⟨hroom, c, (bind_run k hrun).trans hfull⟩
  · exact .inr ⟨hroom, b, bind_error k hrun⟩

theorem Comes.imp {x : Action Agent α} {gained more : α → List ObjectRef} {mid post : α → Agent → Prop}
    (hx : Comes d known a x gained mid) (hp : ∀ v b, mid v b → gained v = more v ∧ post v b) :
    Comes d known a x more post := by
  refine hx.imp_left ?_
  rintro ⟨v, b, hrun, hfit, hc, hkeeps, hmid⟩
  obtain ⟨hgained, hpost⟩ := hp v b hmid
  exact ⟨v, b, hrun, hfit, hc, hgained ▸ hkeeps, hpost⟩

theorem safe_settle (ha : a.Fit True) (kind : ReactionKind) (ref : ObjectRef) {value : ManagedValue}
    (hv : a.Admits True .reject value) : a.Safe True (settle kind ref value).run fun _ _ => True := by
  cases kind with
  | fulfill => exact ha.resolve ref hv
  | reject => exact ha.reject ref hv

theorem comes_settle (ha : a.Fit True) (hc : a.Confined known) (kind : ReactionKind) (ref : ObjectRef)
    {value : ManagedValue} (hv : a.Admits True .reject value) :
    Comes d known a (settle kind ref value).run (fun _ => []) fun _ _ => True :=
  .of_safe (safe_settle ha kind ref hv) fun _ _ hr =>
    ⟨hc.of_request (fun _ => Alongside.settle kind ref value a) hr, trivial⟩

/-- What an attached handler gives is a promise. -/
theorem attach_run (ha : a.Fit True) (hroom : a.Roomy 1) (kind : ReactionKind) (ref : ObjectRef)
    (handler : FunctionId) :
    ∃ answer b, (attach kind ref handler).run a = .ok answer b ∧ Agent.Keeps [] a b ∧
      ∀ derived, answer = .ok derived → b.heap.kind? derived = some .promise := by
  have hadd (f g : Option FunctionId) : ∃ answer b, Agent.addReactions ref f g a = .ok answer b ∧
      Agent.Keeps [] a b ∧ ∀ derived, answer = .ok derived → b.heap.kind? derived = some .promise := by
    obtain ⟨answer, b, hrun, -, hkeeps, -⟩ := ha.addReactions (hroom ref) f g
    refine ⟨answer, b, hrun, hkeeps, ?_⟩
    rintro derived rfl
    exact Agent.kind?_addReactions ha.sound hrun
  cases kind with
  | fulfill => exact hadd (some handler) none
  | reject => exact hadd none (some handler)

/-- What a settlement queues was waiting before. -/
theorem workload_settle {kind : ReactionKind} {ref : ObjectRef} {value : ManagedValue}
    {answer : Except EngineError Bool} (hr : (settle kind ref value).run a = .ok answer b) :
    b.workload ≤ a.workload := by
  have hboth (kind : ReactionKind) (hr : (if a.terminating then .ok (.error .terminated) a
      else Agent.passOn kind ref value a : EStateM.Result Fault Agent _) = .ok answer b) :
      b.workload ≤ a.workload := by
    split at hr
    · obtain ⟨-, rfl⟩ := EStateM.Result.ok.inj hr
      exact Nat.le_refl _
    · exact Agent.workload_passOn hr
  cases kind with
  | fulfill => exact hboth .fulfill ((Agent.resolve_run ref value a).symm.trans hr)
  | reject => exact hboth .reject ((Agent.reject_run ref value a).symm.trans hr)

/-- A handle for a while leaves no root. -/
theorem comes_holding (ha : a.Fit True) (hc : a.Confined known) (hr : a.Roomy 1) {value : ManagedValue}
    (hv : a.Admits True .reject value) {body : Action Agent α} {p : α → Prop}
    (hb : ∀ b, b.Fit True → b.Confined known → (∀ ref, b.heap.kind? ref = a.heap.kind? ref) →
      Comes d known b body (fun _ => []) fun v _ => p v) :
    Comes d known a (d.holding value body) (fun _ => []) fun v _ => p v := by
  cases value with
  | object ref =>
    rw [holding]
    split
    · have hretain : (Engine.retain ref : Action Agent Unit) a = .ok () (a.retained ref) := rfl
      have hlive : a.heap.isLive ref = true := hv.live ref rfl
      have hkind (q : ObjectRef) : (a.retained ref).heap.kind? q = a.heap.kind? q :=
        Heap.kind?_congr (Heap.object?_retain a.heap ref q)
      have hretained := Agent.keeps_retained hlive (hr ref)
      rcases hb (a.retained ref) (ha.retained ref) (hc.retained ref) hkind with
        ⟨v, b, hrun, hfit, hconfined, hkeeps, hpost⟩ | ⟨hroom, b, hrun⟩
      · refine .inl ⟨v, b.released ref, ?_, hfit.released ref, hconfined.released ref,
          (hretained.trans hkeeps).released, hpost⟩
        exact (bind_run _ hretain).trans (bind_run _ hrun)
      · exact .inr ⟨hroom, b, (bind_run _ hretain).trans (bind_error _ hrun)⟩
    · rename_i hroom
      exact .inr ⟨Bool.eq_false_iff.2 hroom, a, rfl⟩
  | _ => exact hb a ha hc fun _ => rfl

theorem admits_read (r : String → String) {kind : ReactionKind} {value : ManagedValue}
    (hv : a.Admits True kind value) : a.Admits True kind (value.read r) := by
  cases value with
  | string text => exact Agent.admits_of_no_object a kind trivial (by simp [ManagedValue.read])
  | _ => exact hv

/-- Operations make integers of 31 bits only. -/
theorem admits_settlement (op : Op) {value : ManagedValue} (hv : a.Admits True .reject value) :
    a.Admits True .reject (op.settlement value).2 := by
  rcases op.settlement_cases value with ⟨kind, h⟩ | ⟨n, hn, h⟩
  · rw [h]
    exact hv
  · rw [h]
    exact Agent.admits_of_no_object a .reject (fits_of_ofInt? hn) (by simp)

/-- A reaction that was handed out takes the root of its promise back. -/
theorem comes_react (ha : b.Fit True) (hc : b.Confined known) (hr : b.Roomy 1) {job : NativeJob}
    (hk : Agent.Keeps [job.derived] a b) (hv : b.Admits True .reject job.argument) :
    (∃ c, d.react job b = .ok () c ∧ c.Fit True ∧ c.Confined known ∧ Agent.Keeps [] a c) ∨
      d.room = false ∧ ∃ c, d.react job b = .error .tableFull c := by
  have hvalue : b.Admits True .reject (d.settlement job).2 := by
    unfold Desk.settlement
    cases d.op? job.handler with
    | none => exact Agent.admits_undefined b .reject
    | some op => exact admits_settlement op (admits_read d.reading hv)
  have hbody : Comes d known b (d.holding job.argument
      (discard (settle (d.settlement job).1 job.derived (d.settlement job).2).run)) (fun _ => [])
      fun _ _ => True := by
    refine comes_holding ha hc hr hv fun b' hfit hconfined hkind => ?_
    have hadmits := hvalue.mono fun ref _ _ => hkind ref
    refine (comes_settle hfit hconfined (d.settlement job).1 job.derived hadmits).bind ?_
    exact fun _ c hfit hconfined _ _ => .pure hfit hconfined rfl trivial
  rcases hbody with ⟨⟨⟩, c, hrun, hfit, hconfined, hkeeps, -⟩ | ⟨hroom, c, hrun⟩
  · exact .inl ⟨c.released job.derived, bind_run _ hrun, hfit.released _, hconfined.released _,
      (hk.trans hkeeps).released⟩
  · exact .inr ⟨hroom, c, bind_error _ hrun⟩

theorem workload_holding {value : ManagedValue} {body : Action Agent α} {v : α}
    (hb : ∀ a b, body a = .ok v b → b.workload ≤ a.workload) (hr : d.holding value body a = .ok v b) :
    b.workload ≤ a.workload := by
  cases value with
  | object ref =>
    rw [holding] at hr
    split at hr
    · obtain ⟨⟨⟩, mid, hretain, hrest⟩ := bind_ok hr
      obtain ⟨u, last, hbody, hrelease⟩ := bind_ok hrest
      obtain ⟨⟨⟩, final, hback, hend⟩ := bind_ok hrelease
      obtain ⟨-, rfl⟩ := EStateM.Result.ok.inj hretain
      obtain ⟨-, rfl⟩ := EStateM.Result.ok.inj hback
      obtain ⟨rfl, rfl⟩ := EStateM.Result.ok.inj hend
      calc (last.released ref).workload
          = last.workload := Agent.workload_released last ref
        _ ≤ (a.retained ref).workload := hb _ _ hbody
        _ = a.workload := Agent.workload_retained a ref
    · cases hr
  | _ => exact hb _ _ hr

/-- A reaction adds nothing to what there is to do. -/
theorem workload_react {job : NativeJob} (hr : d.react job a = .ok () b) : b.workload ≤ a.workload := by
  obtain ⟨⟨⟩, mid, hhold, hrelease⟩ := bind_ok hr
  obtain ⟨-, rfl⟩ := EStateM.Result.ok.inj hrelease
  refine (Agent.workload_released mid job.derived).le.trans (workload_holding (fun a b hbody => ?_) hhold)
  obtain ⟨answer, last, hsettle, hend⟩ := bind_ok hbody
  obtain ⟨-, rfl⟩ := EStateM.Result.ok.inj hend
  exact workload_settle hsettle

theorem comes_serve (ha : a.Fit True) (hc : a.Confined known) (hr : a.Roomy 2) (fuel ran : Nat) :
    Comes d known a (d.serve fuel ran) (fun _ => []) fun _ _ => True := by
  induction fuel generalizing a ran with
  | zero => exact .pure ha hc rfl trivial
  | succ fuel ih =>
    obtain ⟨job, b, hnext, hfit, hjob, hgains⟩ := ha.nextJob
    have hkeeps := hgains fun native _ => hr.mono (by omega) native.derived
    have hconfined := (hc.nextJob hnext).1
    cases job with
    | none =>
      have hserve : d.serve (fuel + 1) ran a = .ok ran b := bind_run _ hnext
      exact .inl ⟨ran, b, hserve, hfit, hconfined, hkeeps, trivial⟩
    | some job =>
      have hserve : d.serve (fuel + 1) ran a =
          (do
            d.react job
            d.serve fuel (ran + 1) : Action Agent Nat) b := bind_run _ hnext
      rw [Comes, hserve]
      rcases comes_react hfit hconfined (Agent.Roomy.keeps hr hkeeps) hkeeps (hjob job rfl).2.reject with
        ⟨c, hrun, hfit, hconfined, hkeeps⟩ | ⟨hroom, c, hrun⟩
      · rcases ih hfit hconfined (Agent.Roomy.keeps hr hkeeps) (ran + 1) with
          ⟨v, e, hrest, hfit, hconfined, hmore, -⟩ | ⟨hroom, e, hrest⟩
        · exact .inl ⟨v, e, (bind_run _ hrun).trans hrest, hfit, hconfined, hkeeps.trans hmore, trivial⟩
        · exact .inr ⟨hroom, e, (bind_run _ hrun).trans hrest⟩
      · exact .inr ⟨hroom, c, bind_error _ hrun⟩

theorem operand_error (d : Desk) {o : Operand} {failure : Failure} (hv : d.operand o = .error failure) :
    ∃ slot, failure = .unknownSlot slot := by
  cases o with
  | slot slot =>
    rw [operand] at hv
    cases hs : d.promises[slot]? with
    | none =>
      rw [hs] at hv
      exact ⟨slot, (Except.error.inj hv).symm⟩
    | some ref =>
      rw [hs] at hv
      cases hv
  | _ => cases hv

theorem admits_operand (hp : ∀ ref ∈ d.promises, a.heap.kind? ref = some .promise) {o : Operand}
    (ho : o.Fits) {value : ManagedValue} (hv : d.operand o = .ok value) : a.Admits True .reject value := by
  cases o with
  | int n =>
    obtain rfl := Except.ok.inj hv
    exact Agent.admits_of_no_object a .reject ho (by simp)
  | slot slot =>
    simp only [operand] at hv
    cases hs : d.promises[slot]? with
    | none => simp [hs] at hv
    | some ref =>
      rw [hs] at hv
      obtain rfl := Except.ok.inj hv
      have hkind := hp ref (Array.mem_of_getElem? hs)
      refine ⟨fun _ => trivial, ?_, by simp⟩
      rintro _ ⟨⟩
      exact Heap.isLive_iff_kind?.2 ⟨_, hkind⟩
  | _ =>
    obtain rfl := Except.ok.inj hv
    exact Agent.admits_of_no_object a .reject trivial (by simp)

/-- What holds of what a command came to. -/
structure Proper (u : Upshot) (a : Agent) : Prop where
  promises : ∀ ref ∈ u.promises, a.heap.kind? ref = some .promise
  isPromise : ∀ slot, u ≠ .failed (.notAPromise slot)

theorem proper_said (text : String) (a : Agent) : Proper (.said text) a := ⟨by simp [Upshot.promises], by simp⟩

theorem comes_said (ha : a.Fit True) (hc : a.Confined known) (text : String) :
    Comes d known a (pure (.said text)) Upshot.promises Proper := .pure ha hc rfl (proper_said text a)

theorem comes_failed (ha : a.Fit True) (hc : a.Confined known) {failure : Failure}
    (hf : ∀ slot, failure ≠ .notAPromise slot) :
    Comes d known a (pure (.failed failure)) Upshot.promises Proper :=
  .pure ha hc rfl ⟨by simp [Upshot.promises], by simpa using hf⟩

theorem comes_keep (ha : a.Fit True) (hc : a.Confined known) (hr : a.Roomy 1) {ref : ObjectRef}
    (hk : a.heap.kind? ref = some .promise) : Comes d known a (d.keep ref) Upshot.promises Proper := by
  rw [keep]
  split
  · have hlive : a.heap.isLive ref = true := Heap.isLive_iff_kind?.2 ⟨_, hk⟩
    refine .inl ⟨.kept ref, a.retained ref, rfl, ha.retained ref, hc.retained ref,
      Agent.keeps_retained hlive (hr ref), ?_, by simp⟩
    intro q hq
    obtain rfl := List.mem_singleton.1 hq
    exact (Heap.kind?_congr (Heap.object?_retain a.heap q q)).trans hk
  · rename_i hroom
    exact .inr ⟨Bool.eq_false_iff.2 hroom, a, rfl⟩

theorem comes_withSlot (ha : a.Fit True) (hc : a.Confined known)
    (hp : ∀ ref ∈ d.promises, a.heap.kind? ref = some .promise) (slot : Nat)
    {next : ObjectRef → Action Agent Upshot}
    (hn : ∀ ref, a.heap.kind? ref = some .promise → Comes d known a (next ref) Upshot.promises Proper) :
    Comes d known a (d.withSlot slot next) Upshot.promises Proper := by
  rw [withSlot]
  cases hs : d.promises[slot]? with
  | none => exact comes_failed ha hc (by simp)
  | some ref => exact hn ref (hp ref (Array.mem_of_getElem? hs))

/-- A promise that was made is kept. -/
theorem comes_made {x : Action Agent (Except EngineError ObjectRef)}
    {k : Except EngineError ObjectRef → Action Agent Upshot} {name : String} (hr : a.Roomy 1)
    (hx : a.Safe True x Agent.Made)
    (hmade : ∀ answer b, x a = .ok answer b →
      b.Confined known ∧ ∀ ref, answer = .ok ref → b.heap.kind? ref = some .promise)
    (hok : ∀ ref, k (.ok ref) = d.keep ref)
    (herror : ∀ error, k (.error error) = pure (.failed (.refused name))) :
    Comes d known a (x >>= k) Upshot.promises Proper := by
  refine (Comes.of_safe hx hmade).bind fun answer b hfit hconfined hkeeps hkind => ?_
  cases answer with
  | ok ref =>
    rw [hok]
    exact comes_keep hfit hconfined (Agent.Roomy.keeps hr hkeeps) (hkind ref rfl)
  | error error =>
    rw [herror]
    exact comes_failed hfit hconfined (by simp)

/-- Termination is asked for or called off. -/
theorem comes_flagged (ha : a.Fit True) (hc : a.Confined known) (terminating : Bool)
    {act : Action Agent Unit} (hact : act a = .ok () { a with terminating }) {text : String} :
    Comes d known a (do act; return .said text) Upshot.promises Proper := by
  refine (Comes.of_safe (p := fun _ _ => True) (ha.flags hact) fun _ b hr => ?_).bind
    fun _ b hfit hconfined _ _ => comes_said hfit hconfined text
  rw [hact] at hr
  obtain ⟨-, rfl⟩ := EStateM.Result.ok.inj hr
  exact ⟨hc.flagged terminating, trivial⟩

/-- On a fit agent every command comes to something proper, as long as there is room for another handle. -/
theorem comes_perform (ha : a.Fit True) (hc : a.Confined known) (hr : a.Roomy 2)
    (hp : ∀ ref ∈ d.promises, a.heap.kind? ref = some .promise) {c : Command} (hf : c.Fits)
    (hname : ∀ kind slot op, c = .attach kind slot op → known (d.name op)) :
    Comes d known a (d.perform c) Upshot.promises Proper := by
  have hroom : a.Roomy 1 := hr.mono (by omega)
  cases c with
  | new =>
    refine comes_made hroom ha.newResolver (fun answer b hr => ⟨?_, ?_⟩) (fun _ => rfl) fun _ => rfl
    · exact hc.of_request (fun f => a.newResolver_relabel f) hr
    · rintro ref rfl
      exact Agent.kind?_newResolver ha.sound hr
  | settle kind slot operand =>
    refine comes_withSlot ha hc hp slot fun ref _ => ?_
    cases hv : d.operand operand with
    | error failure =>
      obtain ⟨other, rfl⟩ := d.operand_error hv
      exact comes_failed ha hc (by simp)
    | ok value =>
      refine (comes_settle ha hc kind ref (admits_operand hp hf.2 hv)).bind
        fun answer b hfit hconfined _ _ => ?_
      cases answer with
      | ok settled => exact comes_said hfit hconfined _
      | error error => exact comes_failed hfit hconfined (by simp)
  | state slot =>
    refine comes_withSlot ha hc hp slot fun ref hk => ?_
    obtain ⟨state, hs⟩ := Agent.Fit.state hk
    exact .inl ⟨.said (toString state), a, bind_run _ hs, ha, hc, Agent.keeps_self a, proper_said _ a⟩
  | result slot =>
    refine comes_withSlot ha hc hp slot fun ref hk => ?_
    obtain ⟨value, hv, hadmits⟩ := ha.result hk
    -- an object that is shown has a handle meanwhile, so that the table may be full
    have hshow : Comes d known a (d.holding value (do return .said (d.shown value (← get))))
        Upshot.promises Proper := by
      refine (comes_holding (p := fun u => ∃ text, u = .said text) ha hc hroom hadmits ?_).imp ?_
      · exact fun b hfit hconfined _ => .inl ⟨_, b, rfl, hfit, hconfined, Agent.keeps_self b, _, rfl⟩
      · rintro _ b ⟨text, rfl⟩
        exact ⟨rfl, proper_said text b⟩
    rw [Comes, bind_run _ hv]
    exact hshow
  | promise slot => exact comes_withSlot ha hc hp slot fun ref hk => comes_keep ha hc hroom hk
  | attach kind slot op =>
    refine comes_withSlot ha hc hp slot fun ref _ => ?_
    have hknown := hname kind slot op rfl
    refine comes_made hroom ?_ (fun answer b hr => ?_) (fun _ => rfl) fun _ => rfl
    · cases kind with
      | fulfill => exact ha.addReactions (hroom ref) (some (d.name op)) none
      | reject => exact ha.addReactions (hroom ref) none (some (d.name op))
    · cases kind with
      | fulfill =>
        refine ⟨hc.addReactions (by simpa using hknown) (by simp) hr, ?_⟩
        rintro derived rfl
        exact Agent.kind?_addReactions ha.sound hr
      | reject =>
        refine ⟨hc.addReactions (by simp) (by simpa using hknown) hr, ?_⟩
        rintro derived rfl
        exact Agent.kind?_addReactions ha.sound hr
  | run =>
    -- the work that is left bounds the reactions that are run
    refine (comes_serve ha hc hr (a.workload + 1) 0).bind fun ran b hfit hconfined _ _ => ?_
    exact comes_said hfit hconfined _
  | gc =>
    refine (Comes.of_safe (p := fun _ _ => True) ha.collects fun c b hr => ?_).bind
      fun c b hfit hconfined _ _ => comes_said hfit hconfined _
    obtain ⟨-, rfl⟩ := EStateM.Result.ok.inj hr
    exact ⟨hc.collected, trivial⟩
  | stats => exact comes_said ha hc _
  | terminate => exact comes_flagged ha hc true rfl
  | resume => exact comes_flagged ha hc false rfl
  | help => exact comes_said ha hc _

variable {failure : Failure}

/-- What is kept has not failed. -/
theorem keep_ne_failed (ref : ObjectRef) : d.keep ref a ≠ .ok (.failed failure) b := by
  intro hr
  rw [keep] at hr
  split at hr
  · obtain ⟨⟨⟩, mid, -, hkept⟩ := bind_ok hr
    cases (EStateM.Result.ok.inj hkept).1
  · cases hr

theorem holding_failed {value : ManagedValue} {body : Action Agent Upshot}
    (hb : ∀ a b, body a ≠ .ok (.failed failure) b) : d.holding value body a ≠ .ok (.failed failure) b := by
  intro hr
  cases value with
  | object ref =>
    rw [holding] at hr
    split at hr
    · obtain ⟨⟨⟩, mid, -, hrest⟩ := bind_ok hr
      obtain ⟨u, last, hbody, hrelease⟩ := bind_ok hrest
      obtain ⟨⟨⟩, final, -, hend⟩ := bind_ok hrelease
      obtain ⟨rfl, -⟩ := EStateM.Result.ok.inj hend
      exact hb _ _ hbody
    · cases hr
  | _ => exact hb _ _ hr

theorem said_ne_failed {x : Action Agent α} {text : α → String} :
    (do return .said (text (← x)) : Action Agent Upshot) a ≠ .ok (.failed failure) b := by
  intro hr
  obtain ⟨v, mid, -, hsaid⟩ := bind_ok hr
  cases (EStateM.Result.ok.inj hsaid).1

theorem withSlot_failed {slot : Nat} {next : ObjectRef → Action Agent Upshot}
    (hr : d.withSlot slot next a = .ok (.failed failure) b)
    (hn : ∀ ref, next ref a = .ok (.failed failure) b → b = a) : b = a := by
  rw [withSlot] at hr
  cases hs : d.promises[slot]? with
  | none =>
    rw [hs] at hr
    exact (EStateM.Result.ok.inj hr).2.symm
  | some ref =>
    rw [hs] at hr
    exact hn ref hr

/-- A request that is refused before anything is done. -/
theorem refused_of_bind {answered : Type} {x : Action Agent (Except EngineError answered)}
    {k : Except EngineError answered → Action Agent Upshot}
    (hx : ∀ error b, x a = .ok (.error error) b → b = a)
    (hok : ∀ v b c, k (.ok v) b ≠ .ok (.failed failure) c)
    (herror : ∀ error b u c, k (.error error) b = .ok u c → c = b)
    (hr : (x >>= k) a = .ok (.failed failure) b) : b = a := by
  obtain ⟨answer, mid, hrun, hrest⟩ := bind_ok hr
  cases answer with
  | ok v => exact absurd hrest (hok v mid b)
  | error error =>
    obtain rfl := hx error mid hrun
    exact herror error _ _ b hrest

/-- A command that fails changes nothing. -/
theorem perform_failed (ha : a.Sound) (hroom : a.Roomy 1) {c : Command}
    (hr : d.perform c a = .ok (.failed failure) b) : b = a := by
  cases c with
  | new =>
    exact refused_of_bind (fun _ _ h => Agent.allocate_refused ha h) (fun ref _ _ => keep_ne_failed ref)
      (fun _ _ _ _ h => (EStateM.Result.ok.inj h).2.symm) hr
  | settle kind slot operand =>
    refine withSlot_failed hr fun ref hr => ?_
    cases hv : d.operand operand with
    | error failure =>
      rw [hv] at hr
      exact (EStateM.Result.ok.inj hr).2.symm
    | ok value =>
      rw [hv] at hr
      refine refused_of_bind (fun error b h => ?_) ?_ (fun _ _ _ _ h => (EStateM.Result.ok.inj h).2.symm) hr
      · cases kind with
        | fulfill => exact Agent.settlement_refused ha (Agent.resolve_run ref value a) h
        | reject => exact Agent.settlement_refused ha (Agent.reject_run ref value a) h
      · intro settled b c h
        cases (EStateM.Result.ok.inj h).1
  | state slot =>
    refine withSlot_failed hr fun ref hr => ?_
    refine refused_of_bind (fun error b h => ?_) ?_ ?_ hr
    · exact (EStateM.Result.ok.inj ((Agent.look_run ref _ a).symm.trans h)).2.symm
    · intro state b c h
      cases (EStateM.Result.ok.inj h).1
    · intro error b u c h
      cases h
  | result slot =>
    refine withSlot_failed hr fun ref hr => ?_
    refine refused_of_bind (fun error b h => ?_) ?_ ?_ hr
    · exact (EStateM.Result.ok.inj ((Agent.look_run ref _ a).symm.trans h)).2.symm
    · intro value b c
      refine holding_failed fun b c h => ?_
      cases (EStateM.Result.ok.inj h).1
    · intro error b u c h
      cases h
  | promise slot => exact withSlot_failed hr fun ref hr => absurd hr (keep_ne_failed ref)
  | attach kind slot op =>
    refine withSlot_failed hr fun ref hr => ?_
    refine refused_of_bind (fun error b h => ?_) (fun derived _ _ => keep_ne_failed derived)
      (fun _ _ _ _ h => (EStateM.Result.ok.inj h).2.symm) hr
    cases kind with
    | fulfill => exact Agent.addReactions_refused ha (hroom ref) h
    | reject => exact Agent.addReactions_refused ha (hroom ref) h
  -- the rest has something to say whatever happens
  | run =>
    have hserve : (do return .said s!"ran {← d.serve (a.workload + 1) 0} reaction(s)" : Action Agent Upshot) a =
        .ok (.failed failure) b := hr
    exact absurd hserve said_ne_failed
  | gc => exact absurd hr said_ne_failed
  | stats => exact absurd hr said_ne_failed
  | terminate => exact absurd hr said_ne_failed
  | resume => exact absurd hr said_ne_failed
  | help => cases (EStateM.Result.ok.inj hr).1

end

end Desk

end Shell

end Promises
