import Promises.Proofs.Program.Scoped
import Promises.Proofs.Program.Trail
import Promises.Proofs.Shell.Safe

namespace Promises

namespace Shell

open Isolate

variable {iso next : Isolate Agent (Handler Memory Empty)} {memory : Memory} {α β : Type}
  {r : String → String}

/-- Of the two ranges that are checked, the one of 31 bits decides. -/
theorem checked_eq (n : Int) (v : Value) :
    checked (int32? n) v =
      match Value.ofInt? n with
      | some w => .ok w
      | none => .error v := by
  have hmin : Value.minInt.toInt = -1073741824 := by decide
  have hmax : Value.maxInt.toInt = 1073741823 := by decide
  have hleast : Int32.minValue.toInt = -2147483648 := by decide
  have hgreatest : Int32.maxValue.toInt = 2147483647 := by decide
  rw [int32?, Value.ofInt?, hmin, hmax, hleast, hgreatest]
  by_cases hn : -2147483648 ≤ n ∧ n ≤ 2147483647
  · have hback : (Int32.ofInt n).toInt = n := Int32.toInt_ofInt_of_le (by omega) (by omega)
    have hfits : Value.fits (Int32.ofInt n) = true ↔ -1073741824 ≤ n ∧ n ≤ 1073741823 := by
      simp only [Value.fits, Bool.and_eq_true, decide_eq_true_eq, Int32.le_iff_toInt_le, hback, hmin, hmax]
    rw [if_pos hn, checked]
    by_cases hsmall : -1073741824 ≤ n ∧ n ≤ 1073741823
    · rw [if_pos (hfits.2 hsmall), if_pos hsmall]
    · rw [if_neg (mt hfits.1 hsmall), if_neg hsmall]
  · have hwide : ¬(-1073741824 ≤ n ∧ n ≤ 1073741823) := by omega
    rw [if_neg hn, if_neg hwide]
    rfl

/-- What is given is the exact sum or product, if it has 31 bits. -/
theorem Op.apply_eq (op : Op) (v : Value) :
    op.apply v =
      let integer (n : Int) : Completion :=
        match Value.ofInt? n with
        | some w => .ok w
        | none => .error v
      match op, v.int? with
      | .id, _ => .ok v
      | .throw, _ => .error v
      | .add n, some i => integer (i.toInt + n.toInt)
      | .mul n, some i => integer (i.toInt * n.toInt)
      | _, none => .error v := by
  cases op with
  | id | throw => rfl
  | add n | mul n =>
    cases hi : v.int? with
    | none => simp only [apply, hi]
    | some i => simp only [apply, hi, checkedAdd, checkedMul, checked_eq]

theorem eq_of_ofInt? {n : Int} {v : Value} (h : Value.ofInt? n = some v) : v = .ofInt32 (Int32.ofInt n) := by
  rw [Value.ofInt?] at h
  split at h
  · exact (Option.some.inj h).symm
  · cases h

/-- What an operation makes of a value on the native side goes back as what the desk says. -/
theorem apply_native (op : Op) {m : ManagedValue} {v : Value} (hn : iso.Native m v)
    (hr : iso.strings.Reads r) : ∃ value, iso.toManaged (op.apply v).value = .ok value ∧
      op.settlement (m.read r) = ((op.apply v).kind, value) := by
  have hback := hn.toManaged hr
  cases op with
  | id => exact ⟨m.read r, hback, rfl⟩
  | throw => exact ⟨m.read r, hback, rfl⟩
  | add n | mul n =>
    rcases hn.int?_eq with ⟨i, rfl, hi⟩ | ⟨hm, hi⟩
    · simp only [Op.apply_eq, Op.settlement, ManagedValue.read, hi]
      -- the sum or the product is an integer of its own, or the argument is thrown
      split
      · rename_i w hw
        obtain rfl := eq_of_ofInt? hw
        refine ⟨_, (Native.int (n := Int32.ofInt _) (fits_of_ofInt? (by rw [hw]; rfl))).toManaged hr, ?_⟩
        rw [hw]
        rfl
      · rename_i hw
        refine ⟨_, hback, ?_⟩
        rw [hw]
        rfl
    · simp only [Op.apply_eq, hi]
      refine ⟨m.read r, hback, ?_⟩
      cases m with
      | int i => exact absurd rfl (hm i)
      | _ => rfl

/-- The end of a reaction settles its promise by what its handler came to. -/
theorem conclude_settles {derived : ObjectRef} {c : Completion} {value : ManagedValue}
    (hv : iso.toManaged c.value = .ok value) {answer : Except EngineError Bool} {e : Agent}
    (h : (Desk.settle c.kind derived value).run iso.engine = .ok answer e) :
    Run.conclude derived c iso = .ok () { iso with engine := e } := by
  have hask {request : Request Agent Bool} (hrun : request.run iso.engine = .ok answer e) :
      (Isolate.ask request : Action (Isolate Agent (Handler Memory Empty)) _) iso =
        .ok answer { iso with engine := e } := by
    rw [Isolate.ask, onEngine_run, hrun]
  refine (bind_run _ (manage_run hv)).trans ?_
  cases c with
  | ok v => exact bind_run _ (hask h)
  | error v => exact bind_run _ (hask h)

variable {d : Desk} {job : NativeJob} {op : Op} {v : Value} {b : Agent}

/-- Once the argument of a reaction is there, its handler runs and its promise is settled. -/
theorem handled_run (hn : iso.Native job.argument v) (hs : iso.strings.Sound) (hfit : iso.engine.Fit True)
    (hv : iso.engine.Admits True .reject job.argument) (hop : d.op? job.handler = some op) :
    ∃ answer e, Run.conclude job.derived (op.apply v) iso = .ok () { iso with engine := e } ∧
      ∀ r, iso.strings.Reads r → (Desk.settle ((d.through r).settlement job).1 job.derived
        ((d.through r).settlement job).2).run iso.engine = .ok answer e := by
  obtain ⟨value, hvalue, hsettlement⟩ := apply_native op hn hs.reads
  have hadmits := Desk.admits_settlement op (Desk.admits_read iso.strings.reading hv)
  rw [hsettlement] at hadmits
  obtain ⟨answer, e, hrun, -⟩ := Desk.safe_settle hfit (op.apply v).kind job.derived hadmits
  refine ⟨answer, e, conclude_settles hvalue hrun, fun r hr => ?_⟩
  -- what goes back does not depend on how the strings are said to be read
  obtain ⟨value', hvalue', hsettlement'⟩ := apply_native op hn hr
  obtain rfl : value = value' := Except.ok.inj (hvalue.symm.trans hvalue')
  have hdesk : (d.through r).settlement job = ((op.apply v).kind, value) := by
    simp only [Desk.settlement, Desk.through, hop]
    exact hsettlement'
  rw [hdesk]
  exact hrun

/-- The isolate in which a reaction gets its argument. -/
abbrev begun (iso : Isolate Agent (Handler Memory Empty)) (b : Agent) : Isolate Agent (Handler Memory Empty) :=
  { iso with engine := b, handles := iso.handles.openScope.2 }

theorem due_run (hnext : Agent.nextJob iso.engine = .ok (some job) b)
    (hfunction : iso.functions[job.handler.index]? = some op.handler)
    (hnative : Isolate.toNative job.argument (begun iso b) = .ok v next) (hsame : next.functions = iso.functions) :
    (Program.due : Run Agent Memory Empty _) ⟨iso, memory⟩ =
      .ok (some (iso.handles.openScope.1, job, .done (op.apply v))) ⟨next, memory⟩ := by
  have hfinds := Program.Finds.reaction (m := ⟨iso, memory⟩) hnext rfl hnative
  rw [hsame, hfunction] at hfinds
  exact hfinds.due_eq

/-- What a reaction comes to on a desk where its argument is an object. -/
theorem react_object (hroom : d.room = true) {ref : ObjectRef} (href : job.argument = .object ref)
    {answer : Except EngineError Bool} {e : Agent}
    (h : (Desk.settle (d.settlement job).1 job.derived (d.settlement job).2).run (b.retained ref) =
      .ok answer e) : d.react job b = .ok () ((e.released ref).released job.derived) := by
  have hbody : (discard (Desk.settle (d.settlement job).1 job.derived (d.settlement job).2).run :
      Action Agent Unit) (b.retained ref) = .ok () e := bind_run _ h
  rw [Desk.react, href]
  exact bind_run _ (Desk.holding_object d hroom hbody)

theorem react_ne_object (hv : ∀ ref, job.argument ≠ .object ref) {answer : Except EngineError Bool} {e : Agent}
    (h : (Desk.settle (d.settlement job).1 job.derived (d.settlement job).2).run b = .ok answer e) :
    d.react job b = .ok () (e.released job.derived) := by
  have hbody : (discard (Desk.settle (d.settlement job).1 job.derived (d.settlement job).2).run :
      Action Agent Unit) b = .ok () e := bind_run _ h
  rw [Desk.react, Desk.holding_ne_object d hv]
  exact bind_run _ hbody

theorem settle_run {mark : ScopeMark} {c : Completion} {last : Isolate Agent (Handler Memory Empty)}
    (hconclude : Run.conclude job.derived c iso = .ok () next)
    (hclose : Isolate.closeScope mark next = .ok () last) :
    (Program.settle mark job c : Run Agent Memory Empty Unit) ⟨iso, memory⟩ =
      .ok () ⟨{ last with engine := last.engine.released job.derived }, memory⟩ :=
  Program.settle_run (m := ⟨iso, memory⟩) hconclude hclose rfl

/-- A reaction that was handed out: it ends with the scope closed that it ran in, or there is no room for the
handle of its argument. -/
theorem reaction_run (hf : iso.handles.Fitted) (hs : iso.strings.Sound)
    (hroom : d.room = decide (iso.handles.entries.size < HandleId.capacity))
    (hnext : Agent.nextJob iso.engine = .ok (some job) b) (hfit : b.Fit True)
    (hv : b.Admits True .reject job.argument) (hop : d.op? job.handler = some op)
    (hfunction : iso.functions[job.handler.index]? = some op.handler) (memory : Memory) :
    (∃ c mid e handles strings,
      (Program.due : Run Agent Memory Empty _) ⟨iso, memory⟩ =
        .ok (some (iso.handles.openScope.1, job, .done c)) ⟨mid, memory⟩ ∧
      (Program.settle iso.handles.openScope.1 job c : Run Agent Memory Empty Unit) ⟨mid, memory⟩ =
        .ok () ⟨{ iso with engine := e, handles, strings }, memory⟩ ∧
      iso.handles.Worn handles ∧ iso.strings.Grown strings ∧
      ∀ r, strings.Reads r → (d.through r).react job b = .ok () e) ∨
    ∃ e handles, (Program.due : Run Agent Memory Empty _) ⟨iso, memory⟩ =
        .error (.fault .tableFull) ⟨{ iso with engine := e, handles }, memory⟩ ∧
      ∀ r, ∃ e, (d.through r).react job b = .error .tableFull e := by
  by_cases hobject : ∃ ref, job.argument = .object ref
  · obtain ⟨ref, href⟩ := hobject
    by_cases hsize : iso.handles.entries.size < HandleId.capacity
    · left
      have hlive : b.heap.isLive ref = true := hv.live ref href
      -- the argument is given a handle, which goes again with the scope
      obtain ⟨hnative, hn⟩ := Isolate.toNative_object (begun iso b) hf hlive hsize
      have hadmits : (b.retained ref).Admits True .reject job.argument :=
        hv.mono fun q _ _ => Heap.kind?_congr (Heap.object?_retain b.heap ref q)
      rw [← href] at hnative hn
      obtain ⟨answer, e, hconclude, hdesk⟩ := handled_run hn hs (hfit.retained ref) hadmits hop
      obtain ⟨u, hworn, hclose⟩ := Isolate.closeScope_single (t := iso.handles)
        { (begun iso b).entered ((begun iso b).bound ref) with engine := e } hf rfl
      have hdeskroom : d.room = true := hroom.trans (decide_eq_true hsize)
      exact ⟨_, _, _, u, _, due_run hnext hfunction hnative rfl, settle_run hconclude hclose, hworn,
        .refl _, fun r hr => react_object (d := d.through r) hdeskroom href (hdesk r hr)⟩
    · right
      -- there is no room for the handle
      have hnative : Isolate.toNative job.argument (begun iso b) =
          .error .tableFull { begun iso b with engine := b.retained ref } := by
        rw [href]
        exact Isolate.toNative_full (begun iso b) ref hsize
      refine ⟨_, _, Program.due_fault hnext rfl hnative, fun r => ⟨b, ?_⟩⟩
      rw [Desk.react, href]
      exact bind_error _ (Desk.holding_full (d.through r) (hroom.trans (decide_eq_false hsize)) ref _ b)
  · left
    have hplain (ref : ObjectRef) : job.argument ≠ .object ref := fun h => hobject ⟨ref, h⟩
    obtain ⟨v, strings, hnative, hn, hgrown⟩ :=
      Isolate.toNative_ne_object hplain (hv.fits trivial) (begun iso b)
    obtain ⟨answer, e, hconclude, hdesk⟩ := handled_run hn (hgrown.sound hs) hfit hv hop
    have hclose := Isolate.closeScope_idle (t := iso.handles)
      { begun iso b with strings, engine := e } rfl
    exact ⟨_, _, _, iso.handles, strings, due_run hnext hfunction hnative rfl, settle_run hconclude hclose,
      .refl hf, hgrown, fun r hr => react_ne_object (d := d.through r) hplain (hdesk r hr)⟩

/-- What holds of the engine and of the tables before each reaction: the operation of each handler that may
come up is registered. -/
structure Ready (d : Desk) (iso : Isolate Agent (Handler Memory Empty)) : Prop where
  fit : iso.engine.Fit True
  confined : iso.engine.Confined (·.index < iso.functions.size)
  roomy : iso.engine.Roomy 2
  fitted : iso.handles.Fitted
  strings : iso.strings.Sound
  room : d.room = decide (iso.handles.entries.size < HandleId.capacity)
  operation : ∀ id : FunctionId, id.index < iso.functions.size →
    ∃ op, d.op? id = some op ∧ iso.functions[id.index]? = some op.handler

theorem Ready.room_eq_true (hr : Ready d iso) (hroom : iso.handles.entries.size < HandleId.capacity) :
    d.room = true := hr.room.trans (decide_eq_true hroom)

theorem Ready.room_eq_false (hr : Ready d iso) (hfull : ¬ iso.handles.entries.size < HandleId.capacity) :
    d.room = false := hr.room.trans (decide_eq_false hfull)

/-- A reaction leaves things ready for the next one. -/
theorem Ready.reacted (hr : Ready d iso) {e : Agent} {handles : HandleTable} {strings : StringTable}
    (hfit : b.Fit True) (hconfined : b.Confined (·.index < iso.functions.size))
    (hkeeps : Agent.Keeps [job.derived] iso.engine b) (hv : b.Admits True .reject job.argument)
    (hworn : iso.handles.Worn handles) (hgrown : iso.strings.Grown strings)
    (hreact : d.react job b = .ok () e) : Ready d { iso with engine := e, handles, strings } := by
  have hroom : d.room = decide (handles.entries.size < HandleId.capacity) := by
    rw [hworn.entries]
    exact hr.room
  have hone : b.Roomy 1 := Agent.Roomy.keeps hr.roomy hkeeps
  rcases Desk.comes_react (d := d) hfit hconfined hone hkeeps hv with
    ⟨c, hc, hcfit, hcconfined, hback⟩ | ⟨-, c, hc⟩
  · obtain ⟨-, rfl⟩ := EStateM.Result.ok.inj (hreact.symm.trans hc)
    exact ⟨hcfit, hcconfined, Agent.Roomy.keeps hr.roomy hback, hworn.under.fitted,
      hgrown.sound hr.strings, hroom, hr.operation⟩
  · cases hreact.symm.trans hc

theorem Ready.through (hr : Ready d iso) (r : String → String) : Ready (d.through r) iso :=
  ⟨hr.fit, hr.confined, hr.roomy, hr.fitted, hr.strings, hr.room, hr.operation⟩

/-- A checkpoint does to the engine what it does on a desk. It leaves no handles. -/
theorem drain_run (hr : Ready d iso) (memory : Memory) (fuel ran : ℕ) (hfuel : iso.engine.workload < fuel) :
    (∃ n e handles strings, (Program.drain fuel ran : Run Agent Memory Empty ℕ) ⟨iso, memory⟩ =
        .ok n ⟨{ iso with engine := e, handles, strings }, memory⟩ ∧
      iso.handles.Worn handles ∧ iso.strings.Grown strings ∧
      ∀ r, strings.Reads r → (d.through r).serve fuel ran iso.engine = .ok n e) ∨
    ∃ e handles strings, (Program.drain fuel ran : Run Agent Memory Empty ℕ) ⟨iso, memory⟩ =
        .error (.fault .tableFull) ⟨{ iso with engine := e, handles, strings }, memory⟩ ∧
      iso.strings.Grown strings ∧
      ∀ r, strings.Reads r → ∃ e, (d.through r).serve fuel ran iso.engine = .error .tableFull e := by
  induction fuel generalizing iso ran with
  | zero => exact absurd hfuel (Nat.not_lt_zero _)
  | succ fuel ih =>
    -- the induction is on the fuel, of which there is more than work left
    obtain ⟨native, b, hnext, hfit, hnative, hgains⟩ := hr.fit.nextJob
    have hkeeps := hgains fun job _ => hr.roomy.mono (by omega) job.derived
    obtain ⟨hconfined, hknown⟩ := hr.confined.nextJob hnext
    have hserve (r : String → String) : (d.through r).serve (fuel + 1) ran iso.engine = _ := bind_run _ hnext
    cases native with
    | none =>
      have hdue : (Program.due : Run Agent Memory Empty _) ⟨iso, memory⟩ =
          .ok none ⟨{ iso with engine := b }, memory⟩ :=
        (Program.Finds.nothing hnext).due_eq
      rw [Program.drain_succ]
      exact .inl ⟨ran, b, iso.handles, iso.strings, bind_run _ hdue, .refl hr.fitted, .refl _,
        fun r _ => hserve r⟩
    | some job =>
      obtain ⟨op, hop, hfunction⟩ := hr.operation job.handler (hknown job rfl)
      have hv := (hnative job rfl).2.reject
      rcases reaction_run hr.fitted hr.strings hr.room hnext hfit hv hop hfunction memory with
        ⟨c, mid, e, handles, strings, hdue, hsettle, hworn, hgrown, hreact⟩ | ⟨e, handles, hdue, hreact⟩
      · have hready := (hr.through strings.reading).reacted hfit hconfined hkeeps hv hworn hgrown
          (hreact _ (hgrown.sound hr.strings).reads)
        -- the handler of an operation is at its end at once
        have hbody : (Program.runWith (Program.drain fuel 0) (.done c) : Run Agent Memory Empty _)
            ⟨mid, memory⟩ = .ok c ⟨mid, memory⟩ := rfl
        have hless := Agent.workload_nextJob hr.fit.sound hnext
        have hmore := Desk.workload_react (hreact _ (hgrown.sound hr.strings).reads)
        -- what the reaction queued costs less than the job did
        have hleft : e.workload < fuel := by omega
        have hready : Ready d { iso with engine := e, handles, strings } := hready.through d.reading
        have hrun : (Program.drain (fuel + 1) ran : Run Agent Memory Empty ℕ) ⟨iso, memory⟩ =
            Program.drain fuel (ran + 1) ⟨{ iso with engine := e, handles, strings }, memory⟩ := by
          rw [Program.drain_succ]
          exact (bind_run _ hdue).trans ((bind_run _ hbody).trans (bind_run _ hsettle))
        have hdesk (r : String → String) (hreads : strings.Reads r) :
            (d.through r).serve (fuel + 1) ran iso.engine = (d.through r).serve fuel (ran + 1) e :=
          (hserve r).trans (bind_run _ (hreact r hreads))
        rcases ih hready (ran + 1) hleft with ⟨n, e', handles', strings', hrest, hworn', hgrown', hsame⟩ |
          ⟨e', handles', strings', hrest, hgrown', hsame⟩
        · exact .inl ⟨n, e', handles', strings', hrun.trans hrest, hworn.trans hworn', hgrown.trans hgrown',
            fun r hreads => (hdesk r (hgrown'.reads hready.strings hreads)).trans (hsame r hreads)⟩
        · refine .inr ⟨e', handles', strings', hrun.trans hrest, hgrown.trans hgrown', fun r hreads => ?_⟩
          obtain ⟨e'', he⟩ := hsame r hreads
          exact ⟨e'', (hdesk r (hgrown'.reads hready.strings hreads)).trans he⟩
      · right
        rw [Program.drain_succ]
        refine ⟨e, handles, iso.strings, bind_error _ hdue, .refl _, fun r _ => ?_⟩
        obtain ⟨e, he⟩ := hreact r
        exact ⟨e, (hserve r).trans (bind_error _ he)⟩

end Shell

end Promises
