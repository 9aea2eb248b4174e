import Promises.Proofs.Program.Handles
import Promises.Proofs.Program.Scopes
import Promises.Proofs.Value

namespace Promises

open HandleTable

namespace Isolate

variable {φ : Type} {iso : Isolate Agent φ}

theorem releaseAll_total (popped : List Binding) (iso : Isolate Agent φ) :
    ∃ next, releaseAll popped iso = .ok () next := by
  induction popped generalizing iso with
  | nil => exact ⟨iso, rfl⟩
  | cons b popped ih =>
    have hb : (onEngine (Engine.release b.object) : Action (Isolate Agent φ) Unit) iso =
        .ok () { iso with engine := iso.engine.released b.object } := rfl
    obtain ⟨next, hnext⟩ := ih { iso with engine := iso.engine.released b.object }
    exact ⟨next, (bind_run _ hb).trans hnext⟩

theorem closeScope_run {mark : ScopeMark} {popped : Array Binding} {handles : HandleTable}
    (hc : iso.handles.closeScope mark = (.ok popped, handles)) :
    closeScope mark iso = releaseAll popped.toList { iso with handles } := by
  have hclose : (onHandles (modifyGet (·.closeScope mark)) : Action (Isolate Agent φ) _) iso =
      .ok (.ok popped) { iso with handles } := by
    rw [onHandles_run]
    change (match EStateM.Result.ok (iso.handles.closeScope mark).1 (iso.handles.closeScope mark).2 with
      | .ok v handles => (.ok v { iso with handles } : EStateM.Result Fault (Isolate Agent φ) _)
      | .error fault handles => .error fault { iso with handles }) = _
    rw [hc]
  exact bind_run _ hclose

/-- An agent takes back any root, so that a scope that can be closed is. -/
theorem closeScope_total {mark : ScopeMark} {popped : Array Binding} {handles : HandleTable}
    (hc : iso.handles.closeScope mark = (.ok popped, handles)) :
    ∃ next, closeScope mark iso = .ok () next := by
  rw [closeScope_run hc]
  exact releaseAll_total popped.toList { iso with handles }

end Isolate

namespace Stage

section

variable {ε κ : Type} [Engine ε] {s u : Stage ε κ Empty} {m m' : Machine ε κ Empty}
  {p : Program κ Empty} {frames : List (Frame κ Empty)} {n : ℕ}

/-- A stage above further frames. -/
def onto {ε κ : Type} (s : Stage ε κ Empty) (below : List (Frame κ Empty)) : Stage ε κ Empty :=
  ⟨s.machine, s.program, s.frames ++ below⟩

/-- A step does not look at the frames below, unless it has come to its end. -/
theorem Goes.onto (below : List (Frame κ Empty)) (h : s.Goes u)
    (hd : ∀ c, s.program = .done c → s.frames ≠ []) : (s.onto below).Goes (u.onto below) := by
  cases h with
  | stay => exact absurd rfl (hd _ rfl)
  | read => exact .read
  | update => exact .update
  | call hcall => exact .call hcall
  | register hregister => exact .register hregister
  | enterScope hopen => exact .enterScope hopen
  | enterEscape hopen => exact .enterEscape hopen
  | leaveScope hclose => exact .leaveScope hclose
  | leaveEscape hv hclose => exact .leaveEscape hv hclose
  | escape hv hget hclose hregister => exact .escape hv hget hclose hregister
  | idle hdue => exact .idle hdue
  | react hdue => exact .react hdue
  | conclude hconclude hclose hrelease => exact .conclude hconclude hclose hrelease

theorem step_onto (below : List (Frame κ Empty)) (hs : s.step = .ok (p, frames) m)
    (hd : ∀ c, s.program = .done c → s.frames ≠ []) :
    (s.onto below).step = .ok (p, frames ++ below) m :=
  step_eq_ok_iff.2 ((step_eq_ok_iff.1 hs).onto below hd)

theorem Leads.onto (h : Leads n s u) (hu : u.frames ≠ []) (below : List (Frame κ Empty)) :
    Leads n (s.onto below) (u.onto below) := by
  induction h with
  | refl => exact .refl _
  | @step n s u m p frames hs hrest ih =>
    have hd (c : Completion) (hp : s.program = .done c) : s.frames ≠ [] := by
      intro hf
      -- what has come to its end stays there, without frames
      obtain ⟨m₀, p₀, frames₀⟩ := s
      obtain rfl : p₀ = .done c := hp
      obtain rfl : frames₀ = [] := hf
      exact hu (congrArg Stage.frames (Leads.step hs hrest).of_done)
    exact .step (step_onto below hs hd) (ih hu)

end

variable {κ : Type} {s w : Stage Agent κ Empty} {m m' : Machine Agent κ Empty}
  {body whole : Program κ Empty} {c c' : Completion} {n : ℕ} {added : List Binding}

theorem Holds.leads (h : s.Holds False) (hn : Leads n s w) : w.Holds False := by
  induction hn with
  | refl => exact h
  | step hs _ ih => exact ih (h.step False.elim hs)

/-- The heap of a machine. -/
def heap {κ : Type} (m : Machine Agent κ Empty) : Heap := m.isolate.engine.heap

/-- The roots after a program that ran a body in a scope: each object has those that it had, and one more
for each entry that was added. -/
structure Rooted {κ : Type} (s : Stage Agent κ Empty) (m' : Machine Agent κ Empty)
    (added : List Binding) : Prop where
  kept : ∀ q, (heap m').rootCount q = (heap s.machine).rootCount q + (added.map (·.object)).count q
  made : ∀ q, (heap s.machine).isLive q = false →
    (heap m').rootCount q = (added.map (·.object)).count q

theorem rooted_of_holds (hs : s.Holds False)
    (hend : (⟨m', .done c', s.frames⟩ : Stage Agent κ Empty).Holds False)
    (hentries : m'.isolate.handles.entries.toList = s.table.entries.toList ++ added) :
    s.Rooted m' added := by
  have hkept (q : ObjectRef) : (heap m').rootCount q =
      (heap s.machine).rootCount q + (added.map (·.object)).count q := by
    let held := (s.table.entries.toList.map (·.object)).count q
    calc (heap m').rootCount q
        = (m'.isolate.handles.entries.toList.map (·.object)).count q + (inFlight s.frames).count q :=
          hend.held.roots q
      _ = held + (added.map (·.object)).count q + (inFlight s.frames).count q := by
        rw [hentries, List.map_append, List.count_append]
      _ = held + (inFlight s.frames).count q + (added.map (·.object)).count q := by omega
      _ = (heap s.machine).rootCount q + (added.map (·.object)).count q :=
        congrArg (· + _) (hs.held.roots q).symm
  refine ⟨hkept, fun q hq => ?_⟩
  have hnone : (heap s.machine).rootCount q = 0 :=
    Heap.rootCount_of_dead (Heap.not_isLive_iff.1 hq)
  rw [hkept, hnone, Nat.zero_add]

theorem holds_after (hs : s.Holds False) {bottom : Frame κ Empty}
    (hn : Leads n ⟨s.machine, whole, []⟩ ⟨m, .done c, [bottom]⟩)
    (hleft : (⟨m, .done c, [bottom]⟩ : Stage Agent κ Empty).step = .ok (.done c', []) m') :
    (⟨m', .done c', s.frames⟩ : Stage Agent κ Empty).Holds False := by
  have hbody : Leads n ⟨s.machine, whole, s.frames⟩ ⟨m, .done c, bottom :: s.frames⟩ :=
    hn.onto (by simp) s.frames
  have hout : (⟨m, .done c, bottom :: s.frames⟩ : Stage Agent κ Empty).step =
      .ok (.done c', s.frames) m' := step_onto s.frames hleft (by simp)
  exact ((hs.of_program whole).leads hbody).leads (.step hout (.refl _))

/-- The object of a binding that escaped to a machine, with the handle that the program ended with. It is
as it was inside, and as long as the slot of its handle is not popped it survives every collection. -/
structure Survives {κ : Type} (s : Stage Agent κ Empty) (m m' : Machine Agent κ Empty)
    (c' : Completion) (b : Binding) : Prop where
  live : (heap m').isLive b.object = true
  same : (heap m').object? b.object = (heap m).object? b.object
  lasts : ∀ h, c'.value.handle? = some h → ∀ n p w, Leads n ⟨m', p, s.frames⟩ w →
    retirements h.index.toNat n ⟨m', p, s.frames⟩ = 0 →
      w.table.get h = .ok b ∧ (heap w.machine).isLive b.object = true ∧
        ∀ answer e, Engine.collectGarbage w.machine.isolate.engine = .ok answer e →
          e.heap.isLive b.object = true ∧ e.heap.object? b.object = (heap w.machine).object? b.object

/-- What has a live handle survives a collection. -/
theorem Holds.survives (hw : w.Holds False) {h : HandleId} {b : Binding} (hg : w.table.get h = .ok b) :
    (heap w.machine).isLive b.object = true ∧
      ∀ answer e, Engine.collectGarbage w.machine.isolate.engine = .ok answer e →
        e.heap.isLive b.object = true ∧ e.heap.object? b.object = (heap w.machine).object? b.object := by
  have hroot := hw.held.rooted_of_mem (mem_of_get hg)
  refine ⟨Heap.isLive_of_rootCount hroot, fun answer e hc => ?_⟩
  have hreaches : (heap w.machine).Reaches
      ((heap w.machine).roots ++ w.machine.isolate.engine.queue.references) b.object :=
    Heap.reaches_of_rootCount hroot
  obtain ⟨-, rfl⟩ := EStateM.Result.ok.inj hc
  exact ⟨Heap.isLive_collect_iff.2 hreaches, Heap.object?_collect_of_reaches hreaches⟩

/-- The object of an escaped binding does not change on the way out, though it may lose its last root
there for a moment. -/
theorem object?_of_left {mark : ScopeMark} {q : ObjectRef}
    (hleft : (⟨m, .done c, [.escape mark .done]⟩ : Stage Agent κ Empty).step = .ok (.done c', []) m') :
    (heap m').object? q = (heap m).object? q := by
  cases goes_of_step hleft with
  | leaveEscape hv hclose => exact (Isolate.closeScope_rootings hclose).object? q
  | escape hv hget hclose hregister =>
    have hclosed := (Isolate.closeScope_rootings hclose).object? q
    exact ((Isolate.register_rootings hregister).object? q).trans hclosed

theorem scope_rooted (hf : s.table.Fitted) (hs : s.Holds False)
    (hn : Leads n ⟨s.machine, .scope body .done, []⟩ ⟨m', .done c', []⟩) : s.Rooted m' [] := by
  obtain ⟨m, c, -, ⟨i, hbody⟩, hleft⟩ := (Wraps.scope : Wraps body _ _).passes hf hn
  exact rooted_of_holds hs (holds_after hs hbody hleft) (scope_restores hf hn).1.entries

theorem escape_survives (hf : s.table.Fitted) (hs : s.Holds False)
    (hn : Leads n ⟨s.machine, .escape body .done, []⟩ ⟨m', .done c', []⟩) :
    ∃ m c added, s.BodyEnds (.escape body .done) m c ∧ Escapes m c m' c' added ∧ s.Rooted m' added ∧
      ∀ b ∈ added, s.Survives m m' c' b := by
  obtain ⟨m, c, hin, ⟨i, hbody⟩, hleft⟩ := (Wraps.escape : Wraps body _ _).passes hf hn
  obtain ⟨added, hescapes, hrestores⟩ := escape_restores body hf hin hleft
  have hafter (p : Program κ Empty) : (⟨m', p, s.frames⟩ : Stage Agent κ Empty).Holds False :=
    (holds_after hs hbody hleft).of_program p
  refine ⟨m, c, added, ⟨i, _, hbody⟩, hescapes,
    rooted_of_holds hs (hafter (.done c')) hrestores.entries, ?_⟩
  cases hescapes with
  | value => exact fun b hb => nomatch hb
  | @handle h h' b hh hb hb' =>
    rintro _ (_ | ⟨_, ⟨⟩⟩)
    refine ⟨((hafter (.done c)).survives hb').1, object?_of_left hleft, ?_⟩
    intro found hfound n p w hw hkept
    have hvalue : (c.replace (.handle h')).value = .handle h' := by cases c <;> rfl
    rw [hvalue, Value.handle?_handle] at hfound
    obtain rfl := Option.some.inj hfound
    have hget := hw.get hkept hb'
    exact ⟨hget, ((hafter p).leads hw).survives hget⟩

theorem scope_returns (hf : s.table.Fitted) (hb : s.BodyEnds (.scope body .done) m c) :
    ∃ fuel m', (Program.scope body .done).run fuel s.machine = .ok c m' := by
  obtain ⟨hin, i, hbody⟩ := Wraps.scope.ended hf hb
  obtain ⟨popped, handles, htable⟩ := hin.under.closes
  obtain ⟨next, hnext⟩ := Isolate.closeScope_total htable
  have hleft : Goes ⟨m, .done c, [.scope s.table.openScope.1 .done]⟩ ⟨⟨next, m.memory⟩, .done c, []⟩ :=
    .leaveScope hnext
  obtain ⟨fuel, hrun⟩ := run_ok_iff.2 ⟨i + 1, hbody.trans (.step hleft.step_eq (.refl _))⟩
  exact ⟨fuel, ⟨next, m.memory⟩, hrun⟩

/-- What is a live handle can escape while the table has room. -/
theorem escape_returns (hf : s.table.Fitted) (hb : s.BodyEnds (.escape body .done) m c)
    (hlive : ∀ h, c.value.handle? = some h →
      (∃ b, m.isolate.handles.get h = .ok b) ∧ s.table.size < HandleId.capacity) :
    ∃ fuel c' m', (Program.escape body .done).run fuel s.machine = .ok c' m' := by
  obtain ⟨hin, i, hbody⟩ := Wraps.escape.ended hf hb
  obtain ⟨popped, handles, htable⟩ := hin.under.closes
  obtain ⟨next, hnext⟩ := Isolate.closeScope_total htable
  obtain ⟨c', m', hleft⟩ : ∃ c' m',
      Goes ⟨m, .done c, [.escape s.table.openScope.1 .done]⟩ ⟨m', .done c', []⟩ := by
    cases hv : c.value.handle? with
    | none => exact ⟨c, _, .leaveEscape hv hnext⟩
    | some h =>
      obtain ⟨⟨b, hget⟩, hroom⟩ := hlive h hv
      obtain ⟨_, hclosed, -⟩ := Isolate.closeScope_popped hnext
      obtain ⟨-, hentries, -⟩ := hin.closed rfl hclosed
      have hsize : next.handles.size < HandleId.capacity := by
        rw [HandleTable.size, ← Array.length_toList, hentries]
        exact hroom
      obtain ⟨id, last, hlast⟩ := Isolate.register_total b hsize
      exact ⟨_, _, .escape hv hget hnext hlast⟩
  obtain ⟨fuel, hrun⟩ := run_ok_iff.2 ⟨i + 1, hbody.trans (.step hleft.step_eq (.refl _))⟩
  exact ⟨fuel, c', m', hrun⟩

theorem run_scope {ε : Type} [Engine ε] (body : Program κ Empty) (fuel : ℕ) :
    ((Program.scope body .done).run fuel : Run ε κ Empty Completion) = Run.inScope (body.run fuel) :=
  bind_pure _

theorem run_escape {ε : Type} [Engine ε] (body : Program κ Empty) (fuel : ℕ) :
    ((Program.escape body .done).run fuel : Run ε κ Empty Completion) =
      Run.inEscapableScope (body.run fuel) :=
  bind_pure _

theorem fitted_created {ε : Type} {id : IsolateId} {config : Config} {engine : ε}
    {iso : Isolate ε (Handler κ Empty)} (hc : Isolate.create id config engine = .ok iso) :
    iso.handles.Fitted := by
  rw [Isolate.create_ok hc]
  exact Nat.le_refl 0

theorem fitted_new {id : IsolateId} {config : Config} {iso : Isolate Agent (Handler κ Empty)}
    (hnew : Isolate.new id config = .ok iso) : iso.handles.Fitted :=
  fitted_created (Isolate.create_of_new hnew)

/-- A scope leaves no trace outside. Wherever a program has come to, over any engine, a body that was run in
a scope leaves the table with the entries and the scopes that it had, the live handles with what they stood
for, and the handles that it got as no live ones. A body that was run in an escapable scope does so too, but
for one entry for what the handle that it ended with was bound to, and for its new handle; any other value
it gives unchanged.

Over an agent each object then has the roots that it had, and what escaped one more. What escaped is live
and as the body left it, and survives every collection for as long as its handle is not popped. A scope can
always be closed, and what is a live handle can escape while the table has room. -/
theorem scopes_transparent (body : Program κ Empty) :
    (∀ {ε : Type} [Engine ε] {id : IsolateId} {config : Config} {engine : ε}
      {iso : Isolate ε (Handler κ Empty)}, Isolate.create id config engine = .ok iso →
      ∀ (memory : κ) (program : Program κ Empty) {n : ℕ} {s : Stage ε κ Empty},
        Leads n ⟨⟨iso, memory⟩, program, []⟩ s →
        (∀ fuel c m', Run.inScope (body.run fuel) s.machine = .ok c m' →
          s.Restores (.scope body .done) m' [] ∧ ∃ m, s.BodyEnds (.scope body .done) m c) ∧
        (∀ fuel c' m', Run.inEscapableScope (body.run fuel) s.machine = .ok c' m' →
          ∃ m c added, s.BodyEnds (.escape body .done) m c ∧ Escapes m c m' c' added ∧
            s.Restores (.escape body .done) m' added)) ∧
    (∀ {id : IsolateId} {config : Config} {iso : Isolate Agent (Handler κ Empty)},
      Isolate.new id config = .ok iso →
      ∀ (memory : κ) (program : Program κ Empty) {n : ℕ} {s : Stage Agent κ Empty},
        Leads n ⟨⟨iso, memory⟩, program, []⟩ s →
        (∀ m c, s.BodyEnds (.scope body .done) m c →
          ∃ fuel m', Run.inScope (body.run fuel) s.machine = .ok c m') ∧
        (∀ fuel c m', Run.inScope (body.run fuel) s.machine = .ok c m' → s.Rooted m' []) ∧
        (∀ m c, s.BodyEnds (.escape body .done) m c →
          (∀ h, c.value.handle? = some h →
            (∃ b, m.isolate.handles.get h = .ok b) ∧ s.table.size < HandleId.capacity) →
          ∃ fuel c' m', Run.inEscapableScope (body.run fuel) s.machine = .ok c' m') ∧
        (∀ fuel c' m', Run.inEscapableScope (body.run fuel) s.machine = .ok c' m' →
          ∃ m c added, s.BodyEnds (.escape body .done) m c ∧ Escapes m c m' c' added ∧
            s.Rooted m' added ∧ ∀ b ∈ added, s.Survives m m' c' b)) := by
  constructor
  · -- over any engine, the handles alone are told
    intro ε _ id config engine iso hcreate memory program n s hs
    have hf : s.table.Fitted := hs.table.2 (fitted_created hcreate)
    refine ⟨fun fuel c m' hr => ?_, fun fuel c' m' hr => ?_⟩
    · rw [← run_scope] at hr
      obtain ⟨k, hk⟩ := run_ok_iff.1 ⟨fuel, hr⟩
      exact scope_restores hf hk
    · rw [← run_escape] at hr
      obtain ⟨k, hk⟩ := run_ok_iff.1 ⟨fuel, hr⟩
      obtain ⟨m, c, hin, ⟨i, hbody⟩, hleft⟩ := (Wraps.escape : Wraps body _ _).passes hf hk
      obtain ⟨added, hescapes, hrestores⟩ := escape_restores body hf hin hleft
      exact ⟨m, c, added, ⟨i, _, hbody⟩, hescapes, hrestores⟩
  · -- over an agent, the roots and what lives are told as well
    intro id config iso hnew memory program n s hs
    have hholds : s.Holds False := (holds_new hnew memory program).leads hs
    have hf : s.table.Fitted := hs.table.2 (fitted_new hnew)
    refine ⟨fun m c hb => ?_, fun fuel c m' hr => ?_, fun m c hb hlive => ?_, fun fuel c' m' hr => ?_⟩
    · obtain ⟨fuel, m', hr⟩ := scope_returns hf hb
      rw [run_scope] at hr
      exact ⟨fuel, m', hr⟩
    · rw [← run_scope] at hr
      obtain ⟨k, hk⟩ := run_ok_iff.1 ⟨fuel, hr⟩
      exact scope_rooted hf hholds hk
    · obtain ⟨fuel, c', m', hr⟩ := escape_returns hf hb hlive
      rw [run_escape] at hr
      exact ⟨fuel, c', m', hr⟩
    · rw [← run_escape] at hr
      obtain ⟨k, hk⟩ := run_ok_iff.1 ⟨fuel, hr⟩
      exact escape_survives hf hholds hk

/-- Ends with a promise that has one handle only, which is lost with the scope of the body. -/
def making : Program Unit Empty :=
  .call .newResolver fun answer =>
    match answer with
    | some resolver => .done (.ok resolver.toValue)
    | none => .done (.error .undefined)

/-- The promise has the root of its new handle and no other, and the handle that the body got for it is not
live any more. In a scope from which nothing escapes it loses its root. -/
theorem scopes_transparent_making : ∃ m₁ m₂ m' m'' : Machine Agent Unit Empty,
    m₂.isolate.handles.get ⟨1, 0, 0⟩ = .ok ⟨⟨1⟩, ⟨0, 0⟩, .promise⟩ ∧
      Run.inEscapableScope (making.run 1) m₁ = .ok (.ok (.handle ⟨1, 1, 0⟩)) m' ∧
      m'.isolate.handles.get ⟨1, 0, 0⟩ = .error (.invalidHandle ⟨1, 0, 0⟩) ∧
      (heap m').rootCount ⟨0, 0⟩ = 1 ∧ (heap m').isLive ⟨0, 0⟩ = true ∧
      Run.inScope (making.run 1) m₁ = .ok (.ok (.handle ⟨1, 0, 0⟩)) m'' ∧
      (heap m'').rootCount ⟨0, 0⟩ = 0 := by
  let b : Binding := ⟨⟨1⟩, ⟨0, 0⟩, .promise⟩
  let machine (slots : Array Slot) (table : HandleTable) : Machine Agent Unit Empty :=
    ⟨⟨⟨1⟩, .default, ⟨⟨slots, [], 65536, slots.size⟩, .empty, false⟩, table, .empty, #[]⟩, ()⟩
  let slot (roots : UInt32) : Slot := ⟨0, some ⟨.promise .new, roots⟩⟩
  let m₁ := machine #[] (.empty ⟨1⟩)
  let m₂ := machine #[slot 1] ⟨⟨1⟩, #[b], #[0], [0]⟩
  let m' := machine #[slot 1] ⟨⟨1⟩, #[b], #[1], []⟩
  let m'' := machine #[slot 0] ⟨⟨1⟩, #[], #[1], []⟩
  let s : Stage Agent Unit Empty := ⟨m₁, .done (.ok .null), []⟩
  let u : Stage Agent Unit Empty := ⟨m₂, .done (.ok (.handle ⟨1, 0, 0⟩)), [.escape ⟨1, 0⟩ .done]⟩
  have hnew : Isolate.new ⟨1⟩ .default = .ok m₁.isolate := rfl
  have hcreate : Isolate.create ⟨1⟩ .default m₁.isolate.engine = .ok m₁.isolate := rfl
  have hescape : Run.inEscapableScope (making.run 1) s.machine =
      .ok (.ok (.handle ⟨1, 1, 0⟩)) m' := rfl
  have hscope : Run.inScope (making.run 1) s.machine = .ok (.ok (.handle ⟨1, 0, 0⟩)) m'' := rfl
  have hin : Leads 2 ⟨m₁, .escape making .done, []⟩ u := .step rfl (.step rfl (.refl u))
  have hout : Leads 1 u ⟨m', .done (.ok (.handle ⟨1, 1, 0⟩)), []⟩ := .step rfl (.refl _)
  obtain ⟨htable, hroots⟩ := scopes_transparent making
  obtain ⟨-, hescapes⟩ := htable hcreate () s.program (.refl s)
  obtain ⟨_, _, added, -, -, hrestores⟩ := hescapes 1 _ m' hescape
  have hrejected : m'.isolate.handles.get ⟨1, 0, 0⟩ = .error (.invalidHandle ⟨1, 0, 0⟩) :=
    hrestores.rejected 2 u hin (by simp [u]) ⟨1, 0, 0⟩ b rfl (Nat.le_refl 0) 1 _ hout 0 s.program []
      ⟨m', s.program, []⟩ (.refl _) (by decide)
  obtain ⟨-, hscopes, -, hsurvives⟩ := hroots hnew () s.program (.refl s)
  obtain ⟨m, c, added, -, hadded, hrooted, hlive⟩ := hsurvives 1 _ m' hescape
  have hb : b ∈ added := by
    generalize hc : (.ok (.handle ⟨1, 1, 0⟩) : Completion) = c' at hadded
    cases hadded with
    | value hv =>
      subst hc
      exact absurd ((Value.handle?_handle ⟨1, 1, 0⟩).symm.trans hv) (by simp)
    | handle hh hget hget' =>
      -- there is no other entry
      obtain rfl := List.mem_singleton.1 (mem_of_get hget')
      exact List.mem_singleton_self _
  have hkept := (hscopes 1 _ m'' hscope).kept ⟨0, 0⟩
  exact ⟨m₁, m₂, m', m'', rfl, hescape, hrejected, rfl, (hlive b hb).live, hscope, hkept⟩

end Stage

end Promises
