import Promises.Proofs.Isolate.Interned
import Promises.Proofs.Isolate.Native
import Promises.Proofs.Isolate.Translation
import Promises.Proofs.Program.Escape

namespace Promises

/-- The strings of the isolate that a machine has. -/
def Machine.strings {ε κ ρ : Type} (m : Machine ε κ ρ) : StringTable := m.isolate.strings

namespace Run

variable {ε κ ρ α : Type}

theorem silent_onIsolate {act : Action (Isolate ε (Handler κ ρ)) α}
    (h : Silent Isolate.strings act) : Silent Machine.strings (onIsolate act) :=
  ⟨fun hr => h.same (onIsolate_ok hr)⟩

theorem silent_onMemory (change : κ → κ) : Silent Machine.strings (onMemory change : Run ε κ ρ Unit) := by
  refine ⟨fun hr => ?_⟩
  obtain ⟨-, rfl⟩ := EStateM.Result.ok.inj hr
  rfl

variable [Engine ε]

/-- What lasts of a value is found without a new string. -/
theorem silent_escaping (v : Value) :
    Silent Isolate.strings (escaping v : Action (Isolate ε (Handler κ ρ)) (Option Binding)) :=
  spreads_escaping Isolate.spreads_silent v

end Run

namespace Program

open Run (silent_onIsolate)

variable {ε κ : Type} [Engine ε]

/-- A program that lets no reactions run and makes no call that sees a new string. -/
def Silent : Program κ Empty → Prop
  | done _ => True
  | read next => ∀ memory, (next memory).Silent
  | update _ next => next.Silent
  | call c next => c.Silent ∧ ∀ answer, (next answer).Silent
  | scope body next | escape body next => body.Silent ∧ ∀ completion, (next completion).Silent
  | .checkpoint _ => False
  | register _ next => ∀ id, (next id).Silent
  | fail _ => True

/-- Such a program leaves the table of strings as it is. -/
theorem silent_runWith (checkpoint : Run ε κ Empty ℕ) {p : Program κ Empty} (h : p.Silent) :
    Promises.Silent Machine.strings (runWith checkpoint p) := by
  induction p with
  | done completion => exact .pure _
  | read next ih => exact .bind .get fun m => ih m.memory (h m.memory)
  | update change next ih => exact .bind (Run.silent_onMemory change) fun _ => ih h
  | call c next ih => exact .bind (silent_onIsolate (Isolate.silent_call h.1)) fun answer => ih answer (h.2 answer)
  | scope body next hbody hnext =>
    refine .bind ?_ fun completion => hnext completion (h.2 completion)
    refine .bind (silent_onIsolate (Isolate.silent_onHandles _)) fun mark => .bind (hbody h.1) fun _ => ?_
    exact .bind (silent_onIsolate (Isolate.silent_closeScope mark)) fun _ => .pure _
  | escape body next hbody hnext =>
    refine .bind ?_ fun completion => hnext completion (h.2 completion)
    refine .bind (silent_onIsolate (Isolate.silent_onHandles _)) fun mark => .bind (hbody h.1) fun completion => ?_
    refine .bind (silent_onIsolate (Run.silent_escaping completion.value)) fun kept => ?_
    refine .bind (silent_onIsolate (Isolate.silent_closeScope mark)) fun _ => ?_
    cases kept with
    | none => exact .pure _
    | some b => exact .bind (silent_onIsolate (Isolate.silent_register b)) fun _ => .pure _
  | checkpoint next ih => exact h.elim
  | register handler next _ hnext =>
    exact .bind (silent_onIsolate (Isolate.silent_registerFunction handler)) fun id => hnext id (h id)
  | fail fault => exact .throw _
  | outside move next ih => cases move

end Program

namespace Stage

variable {ε κ : Type} {n : ℕ}

theorem due_strings [Engine ε] {m m' : Machine ε κ Empty}
    {found : Option (ScopeMark × NativeJob × Program κ Empty)} (hr : Program.due m = .ok found m') :
    m.strings.Later m'.strings := by
  cases Program.due_ok hr with
  | nothing => exact .refl
  | reaction hnext hopen hnative =>
    exact ((Isolate.silent_onHandles _).interns.later hopen).trans ((Isolate.interns_toNative _).later hnative)

/-- Every step numbers strings at most. -/
theorem step_strings [Engine ε] {s : Stage ε κ Empty} {p : Program κ Empty} {frames : List (Frame κ Empty)}
    {m : Machine ε κ Empty} (hs : s.step = .ok (p, frames) m) :
    s.machine.strings.Later m.strings := by
  have hclosed {mark : ScopeMark} {iso closed : Isolate ε (Handler κ Empty)}
      (hclose : Isolate.closeScope mark iso = .ok () closed) : iso.strings.Later closed.strings :=
    (Isolate.silent_closeScope mark).interns.later hclose
  cases goes_of_step hs with
  | stay | read | update => exact .refl
  | call hcall => exact (Isolate.interns_call _).later hcall
  | register hregister => exact (Isolate.silent_registerFunction _).interns.later hregister
  | enterScope hopen => exact (Isolate.silent_onHandles _).interns.later hopen
  | enterEscape hopen => exact (Isolate.silent_onHandles _).interns.later hopen
  | leaveScope hclose => exact hclosed hclose
  | leaveEscape hv hclose => exact hclosed hclose
  | escape hv hget hclose hregister =>
    exact (hclosed hclose).trans ((Isolate.silent_register _).interns.later hregister)
  | idle hdue => exact due_strings hdue
  | react hdue => exact due_strings hdue
  | @conclude _ c _ job _ _ _ _ _ hconclude hclose hrelease =>
    have hsilent : Silent Isolate.strings
        (Run.conclude job.derived c : Action (Isolate ε (Handler κ Empty)) Unit) :=
      Run.spreads_conclude Isolate.spreads_silent job.derived c
    have hlast := hclosed hclose
    exact (hsilent.interns.later hconclude).trans hlast

theorem Leads.strings [Engine ε] {s t : Stage ε κ Empty} (h : Leads n s t) :
    s.machine.strings.Later t.machine.strings := by
  induction h with
  | refl => exact .refl
  | step hs _ ih => exact (step_strings hs).trans ih

/-- Wherever a program has come to, each string has one number. -/
theorem indexed_created [Engine ε] {id : IsolateId} {config : Config} {engine : ε}
    {iso : Isolate ε (Handler κ Empty)} (hc : Isolate.create id config engine = .ok iso) {memory : κ}
    {program : Program κ Empty} {s : Stage ε κ Empty} (hs : Leads n ⟨⟨iso, memory⟩, program, []⟩ s) :
    s.machine.strings.Indexed := by
  have hlater : iso.strings.Later s.machine.strings := hs.strings
  apply hlater.indexed
  rw [Isolate.create_ok hc]
  exact StringTable.indexed_empty

theorem translates_created [Engine ε] (ho : Engine.Obliging ε) {id : IsolateId} {config : Config}
    {engine : ε} {iso : Isolate ε (Handler κ Empty)} (hc : Isolate.create id config engine = .ok iso)
    {memory : κ} {program : Program κ Empty} {s : Stage ε κ Empty}
    (hs : Leads n ⟨⟨iso, memory⟩, program, []⟩ s) (hroom : s.table.size < HandleId.capacity) :
    s.machine.isolate.Translates :=
  Isolate.translates_obliging ho (hs.table.2 (fitted_created hc)) hroom (indexed_created hc hs)

/-- The further handle of an object of an agent is bound as the first one was: the kind of an object does not
change while it lives. -/
theorem Holds.rewraps {s : Stage Agent κ Empty} (hs : s.Holds False) (hf : s.table.Fitted)
    (hroom : s.table.size < HandleId.capacity) {h : HandleId} {b : Binding} (hg : s.table.get h = .ok b) :
    ∃ h' b' next, s.machine.isolate.Rewraps b h' b' next ∧ b'.kind = b.kind := by
  have hmem := HandleTable.mem_of_get hg
  have hlive := hs.held.isLive hmem
  obtain ⟨h', b', next, hwraps⟩ := Isolate.rewraps_obliging Agent.obliging hf hroom b
  obtain ⟨hrun, -⟩ := Isolate.toNative_object s.machine.isolate hf hlive hroom
  obtain ⟨hvalue, rfl⟩ := EStateM.Result.ok.inj (hwraps.run.symm.trans hrun)
  obtain rfl : h' = s.table.nextId := by
    have hhandle := congrArg Value.handle? hvalue
    rw [Value.handle?_handle, Value.handle?_handle] at hhandle
    exact Option.some.inj hhandle
  obtain rfl : b' = s.machine.isolate.bound b.object :=
    Except.ok.inj (hwraps.get.symm.trans (HandleTable.get_nextId hf hroom))
  have hkind : (heap s.machine).kind? b.object = some b.kind := hs.held.bound b hmem
  have hnew : (heap s.machine).kind? b.object = some (s.machine.isolate.bound b.object).kind :=
    Isolate.kind?_bound hlive
  exact ⟨_, _, _, hwraps, Option.some.inj (hnew.symm.trans hkind)⟩

/-- Values cross to the native side and back without loss. Wherever a program has come to with room for a
handle, over any engine that answers, an integer of more than 31 bits is the one value that does not cross.
Whatever else crosses comes back as it was, a string as long as its number, which has 32 bits, is its own. The
other way a word that is no handle comes back as that very word and leaves all as it was, as no string is
numbered twice, and a live handle comes back as a new one in the scope that is open, for the same object. On
the way to the engine nothing changes, and only the two tables reject a word.

Over an agent the new handle is of the kind of the first. -/
theorem translation_round_trips :
    (∀ {ε : Type} [Engine ε] {id : IsolateId} {config : Config} {engine : ε}
      {iso : Isolate ε (Handler κ Empty)}, Engine.Obliging ε → Isolate.create id config engine = .ok iso →
      ∀ (memory : κ) (program : Program κ Empty) {n : ℕ} {s : Stage ε κ Empty},
        Leads n ⟨⟨iso, memory⟩, program, []⟩ s → s.table.size < HandleId.capacity →
        s.machine.isolate.Translates) ∧
    (∀ {id : IsolateId} {config : Config} {iso : Isolate Agent (Handler κ Empty)},
      Isolate.new id config = .ok iso →
      ∀ (memory : κ) (program : Program κ Empty) {n : ℕ} {s : Stage Agent κ Empty},
        Leads n ⟨⟨iso, memory⟩, program, []⟩ s → s.table.size < HandleId.capacity →
        s.machine.isolate.Translates ∧
        ∀ h b, s.table.get h = .ok b →
          ∃ h' b' next, s.machine.isolate.Rewraps b h' b' next ∧ b'.kind = b.kind) := by
  constructor
  · intro ε _ id config engine iso ho hc memory program n s hs hroom
    exact translates_created ho hc hs hroom
  · intro id config iso hnew memory program n s hs hroom
    have hholds : s.Holds False := (holds_new hnew memory program).leads hs
    have hf : s.table.Fitted := hs.table.2 (fitted_new hnew)
    have hcreate : Isolate.create id config (.new config.heapLimit) = .ok iso := by
      unfold Isolate.new at hnew
      split at hnew
      · exact hnew
      · cases hnew
    exact ⟨translates_created Agent.obliging hcreate hs hroom,
      fun h b hg => hholds.rewraps hf hroom hg⟩

/-- With one string and one promise, which has one handle: the string comes back as it was, and the promise
with a second handle. -/
theorem translation_round_trips_naming : ∃ iso : Isolate Agent (Handler Unit Empty),
    Isolate.toNative (.string "err") iso = .ok (.string ⟨0⟩) iso ∧
      iso.handles.get ⟨1, 0, 0⟩ = .ok ⟨⟨1⟩, ⟨0, 0⟩, .promise⟩ ∧
      (∃ h' b' next, iso.Rewraps ⟨⟨1⟩, ⟨0, 0⟩, .promise⟩ h' b' next ∧ b'.kind = .promise) ∧
      Isolate.toNative (.int 1073741824) iso = .error .intOutOfRange iso := by
  let strings : StringTable := (StringTable.empty.intern "err").2
  let agent (slots : Array Slot) : Agent := ⟨⟨slots, [], 65536, slots.size⟩, .empty, false⟩
  let machine (slots : Array Slot) (table : HandleTable) (strings : StringTable) :
      Machine Agent Unit Empty := ⟨⟨⟨1⟩, .default, agent slots, table, strings, #[]⟩, ()⟩
  let m₁ := machine #[] (.empty ⟨1⟩) .empty
  let m₂ := machine #[⟨0, some ⟨.promise .new, 1⟩⟩] ⟨⟨1⟩, #[⟨⟨1⟩, ⟨0, 0⟩, .promise⟩], #[0], []⟩ strings
  let s : Stage Agent Unit Empty := ⟨m₂, .done (.ok (.handle ⟨1, 0, 0⟩)), []⟩
  have hnew : Isolate.new ⟨1⟩ .default = .ok m₁.isolate := rfl
  have hcreate : Isolate.create ⟨1⟩ .default m₁.isolate.engine = .ok m₁.isolate := rfl
  have hs : Leads 2 ⟨m₁, .call (.string "err") fun _ => making, []⟩ s :=
    .step rfl (.step rfl (.refl s))
  have hroom : s.table.size < HandleId.capacity := by decide
  obtain ⟨hany, hagent⟩ := translation_round_trips
  have htranslates := hany Agent.obliging hcreate () _ hs hroom
  have hname : strings.get? ⟨0⟩ = some "err" := by
    have hids : StringTable.empty.ids["err"]? = none := by simp [StringTable.empty]
    have hstrings : strings = ⟨#["err"], StringTable.empty.ids.insert "err" ⟨0⟩⟩ := by
      show (StringTable.empty.intern "err").2 = _
      rw [StringTable.intern_of_none hids]
      rfl
    rw [hstrings]
    rfl
  have hmanaged : m₂.isolate.toManaged (.string ⟨0⟩) = .ok (.string "err") := by
    have hstrings : m₂.isolate.strings = strings := rfl
    rw [Isolate.toManaged_of_stringId? _ (Value.stringId?_string ⟨0⟩), hstrings, hname]
  have hback := htranslates.words (.string ⟨0⟩) (.string "err") (.string ⟨0⟩) rfl hmanaged
  have hfault := (htranslates.faults (.int 1073741824) .intOutOfRange m₂.isolate).2
    ⟨rfl, rfl, 1073741824, rfl, by decide⟩
  have hkind := (hagent hnew () _ hs hroom).2 ⟨1, 0, 0⟩ ⟨⟨1⟩, ⟨0, 0⟩, .promise⟩ rfl
  exact ⟨m₂.isolate, hback, rfl, hkind, hfault⟩

end Stage

end Promises
