import Promises.Proofs.Paired.Requests
import Promises.Proofs.Program.Lifted
import Promises.Proofs.Program.Registration

namespace Promises

namespace StringTable

variable {t u : StringTable} {s : String} {id : StringId}

theorem Later.grown (h : t.Later u) : t.Grown u := by
  induction h with
  | refl => exact .refl t
  | tail _ hstep ih =>
    obtain ⟨s, rfl⟩ := hstep
    exact ih.trans (grown_intern _ s)

/-- A string that a number leads to has a number of its own. -/
theorem Indexed.tells_of_get? (ht : t.Indexed) (hs : t.get? id = some s) : t.Tells s := by
  intro i hi
  have hplace : i = id.number.toNat := ht.once i id.number.toNat s hi hs
  rw [hplace]
  exact id.number.toNat_lt

/-- So has any string while there are numbers left. -/
theorem tells_intern (t : StringTable) (s : String) (hsize : t.size < UInt32.size) :
    (t.intern s).2.Tells s := by
  intro i hi
  have hlt : i < (t.intern s).2.size := (Array.getElem?_eq_some_iff.1 hi).1
  have hle := size_intern_le t s
  omega

end StringTable

namespace Isolate

variable {ε φ : Type} {iso later : Isolate ε φ} {v : Value} {value : ManagedValue}

/-- A word that stands for a string has the number of one. -/
theorem get?_of_toManaged {text : String} (hv : iso.toManaged v = .ok (.string text)) :
    ∃ id, iso.strings.get? id = some text := by
  cases hs : v.stringId? with
  | some id =>
    rw [toManaged_of_stringId? iso hs] at hv
    cases hget : iso.strings.get? id with
    | none =>
      rw [hget] at hv
      cases hv
    | some found =>
      rw [hget] at hv
      obtain rfl : found = text := ManagedValue.string.inj (Except.ok.inj hv)
      exact ⟨id, hget⟩
  | none =>
    -- no other word stands for a string
    cases hh : v.handle? with
    | some h =>
      rw [toManaged_of_handle? iso hh] at hv
      cases hg : iso.handles.get h with
      | error e =>
        rw [hg] at hv
        cases hv
      | ok b =>
        rw [hg] at hv
        cases hv
    | none =>
      simp only [toManaged, hs, hh] at hv
      repeat' split at hv
      all_goals cases hv

/-- The strings of what a word stood for have numbers of their own, however many were seen since. -/
theorem tells_of_toManaged (ht : later.strings.Indexed) (hstrings : iso.strings.Later later.strings)
    (hv : iso.toManaged v = .ok value) {text : String} (htext : value = .string text) :
    (later.strings.intern text).2.Tells text := by
  rw [htext] at hv
  obtain ⟨id, hid⟩ := get?_of_toManaged hv
  have hkept : later.strings.get? id = some text := (StringTable.Later.grown hstrings).get? hid
  exact (ht.intern text).tells_of_get? ((later.strings.grown_intern text).get? hkept)

/-- A value other than an integer that is too wide has a word, which stands for it. -/
theorem toNative_returns [Engine ε] (ho : Engine.Obliging ε) (hf : iso.handles.Fitted)
    (hroom : iso.handles.entries.size < HandleId.capacity) (ht : iso.strings.Indexed)
    (hshort : ∀ n, value = .int n → Value.Short n)
    (htells : ∀ text, value = .string text → (iso.strings.intern text).2.Tells text) :
    ∃ w next, toNative value iso = .ok w next ∧ next.toManaged w = .ok value := by
  obtain ⟨w, next, hrun, hback⟩ := returns_obliging ho hf hroom ht hshort
  refine ⟨w, next, hrun, hback.2 ?_⟩
  rintro text rfl
  obtain ⟨-, rfl⟩ := EStateM.Result.ok.inj ((toNative_string text iso).symm.trans hrun)
  exact htells text rfl

end Isolate

namespace Stage

open Agent History

variable {κ : Type} {s t u : Stage Agent κ Empty} {value : ManagedValue} {n : ℕ}

/-- A promise has come to a value. -/
def Settled (s : Stage Agent κ Empty) (ref : ObjectRef) (kind : ReactionKind) (value : ManagedValue) : Prop :=
  ∃ record, s.agent.heap.record? ref = .ok record ∧ record.status = .settled kind value

/-- Whoever asks for the value gets a word for it. -/
structure GivesBack (s : Stage Agent κ Empty) (value : ManagedValue) : Prop where
  /-- The result of a promise that has come to it. -/
  result : ∀ (p : Promise) (b : Binding) (kind : ReactionKind), s.table.get p.handle = .ok b →
    b.isPromise = true → s.Settled b.object kind value →
    ∃ w next, (Call.result p).run s.machine.isolate = .ok w next ∧ next.toManaged w = .ok value
  /-- The argument of the next reaction of a checkpoint. -/
  delivery : ∀ (job : NativeJob) (e : Agent), Agent.nextJob s.agent = .ok (some job) e →
    job.argument = value →
    ∃ mark w m, Program.due s.machine = .ok (some (mark, job, reaction m job w)) m ∧
      m.isolate.toManaged w = .ok value

/-- Whoever asks for the value runs into the programming error of an integer that is too wide. -/
structure Chokes (s : Stage Agent κ Empty) (value : ManagedValue) : Prop where
  result : ∀ (p : Promise) (b : Binding) (kind : ReactionKind), s.table.get p.handle = .ok b →
    b.isPromise = true → s.Settled b.object kind value →
    ∃ next, (Call.result p).run s.machine.isolate = .error .intOutOfRange next
  delivery : ∀ (job : NativeJob) (e : Agent), Agent.nextJob s.agent = .ok (some job) e →
    job.argument = value → ∃ m, Program.due s.machine = .error (.fault .intOutOfRange) m

/-- The result of a settled promise is the word of what it has come to. -/
theorem Settled.result_eq {p : Promise} {b : Binding} {kind : ReactionKind}
    (hs : s.Settled b.object kind value) (hg : s.table.get p.handle = .ok b) (hb : b.isPromise = true) :
    (Call.result p).run s.machine.isolate = Isolate.toNative value s.machine.isolate := by
  obtain ⟨record, hr, hstatus⟩ := hs
  have hresult : record.result = value := by
    rw [PromiseRecord.result, hstatus, PromiseStatus.result_settled]
  have hrun := Isolate.result_run p hg hb hr
  rw [hresult] at hrun
  exact hrun

theorem due_of_toNative {job : NativeJob} {e : Agent} (hn : Agent.nextJob s.agent = .ok (some job) e)
    {w : Value} {next : Isolate Agent (Handler κ Empty)}
    (hw : Isolate.toNative job.argument (s.delivering e) = .ok w next) :
    Program.due s.machine = .ok (some (s.table.openScope.1, job, reaction ⟨next, s.machine.memory⟩ job w))
      ⟨next, s.machine.memory⟩ := by
  have hopen : Isolate.openScope { s.machine.isolate with engine := e } =
      .ok s.table.openScope.1 (s.delivering e) := rfl
  rw [reaction_eq]
  exact (Program.Finds.reaction hn hopen hw).due_eq

theorem due_of_fault {job : NativeJob} {e : Agent} (hn : Agent.nextJob s.agent = .ok (some job) e)
    {fault : Fault} {next : Isolate Agent (Handler κ Empty)}
    (hw : Isolate.toNative job.argument (s.delivering e) = .error fault next) :
    Program.due s.machine = .error (.fault fault) ⟨next, s.machine.memory⟩ := by
  have hopen : Isolate.openScope { s.machine.isolate with engine := e } =
      .ok s.table.openScope.1 (s.delivering e) := rfl
  exact Program.due_fault hn hopen hw

theorem gives_back (hf : s.table.Fitted) (hroom : s.table.size < HandleId.capacity)
    (ht : s.machine.strings.Indexed) (hshort : ∀ n, value = .int n → Value.Short n)
    (htells : ∀ text, value = .string text → (s.machine.strings.intern text).2.Tells text) :
    s.GivesBack value where
  result p b kind hg hb hsettled := by
    rw [hsettled.result_eq hg hb]
    exact Isolate.toNative_returns Agent.obliging hf hroom ht hshort htells
  delivery job e hn hargument := by
    subst hargument
    -- the scope of the reaction has opened, and there is as much room as before
    have hopened : (s.delivering e).handles.Fitted := hf
    have hgiven : ∃ w next, Isolate.toNative job.argument (s.delivering e) = .ok w next ∧
        next.toManaged w = .ok job.argument :=
      Isolate.toNative_returns Agent.obliging hopened hroom ht hshort htells
    obtain ⟨w, next, hrun, hback⟩ := hgiven
    exact ⟨_, w, _, due_of_toNative hn hrun, hback⟩

theorem chokes_of_wide (s : Stage Agent κ Empty) {n : Int32} (hn : ¬Value.Short n) : s.Chokes (.int n) where
  result p b kind hg hb hsettled := by
    rw [hsettled.result_eq hg hb]
    exact ⟨_, Isolate.toNative_wide hn _⟩
  delivery job e hnext hargument := by
    apply Exists.intro
    apply due_of_fault hnext
    rw [hargument]
    exact Isolate.toNative_wide hn _

/-- With the next step the program resolves or rejects a promise with a word, which is accepted. -/
inductive Accepts (s : Stage Agent κ Empty) (r : Resolver) (v : Value) :
    ReactionKind → Stage Agent κ Empty → Prop
  | resolve {next : Option Bool → Program κ Empty} {iso : Isolate Agent (Handler κ Empty)}
    (hp : s.program = .call (.resolve r v) next)
    (hr : (Call.resolve r v).run s.machine.isolate = .ok (some true) iso) :
    Accepts s r v .fulfill ⟨⟨iso, s.machine.memory⟩, next (some true), s.frames⟩
  | reject {next : Option Bool → Program κ Empty} {iso : Isolate Agent (Handler κ Empty)}
    (hp : s.program = .call (.reject r v) next)
    (hr : (Call.reject r v).run s.machine.isolate = .ok (some true) iso) :
    Accepts s r v .reject ⟨⟨iso, s.machine.memory⟩, next (some true), s.frames⟩

variable {r : Resolver} {v : Value} {kind : ReactionKind}

theorem Accepts.step (ha : s.Accepts r v kind u) : s.step = .ok (u.program, u.frames) u.machine := by
  obtain ⟨m, p, frames⟩ := s
  cases ha with
  | resolve hp hr =>
    obtain rfl : p = _ := hp
    exact (Goes.call hr).step_eq
  | reject hp hr =>
    obtain rfl : p = _ := hp
    exact (Goes.call hr).step_eq

/-- What is accepted stands for a value, which is passed on to the promise of the resolver. -/
theorem Accepts.settle (ha : s.Accepts r v kind u) : ∃ value b,
    s.machine.isolate.toManaged v = .ok value ∧ s.table.get r.handle = .ok b ∧
      (Agent.Call.settle kind b.object value).run s.agent = .ok (.settled (.ok true)) u.agent := by
  cases ha with
  | resolve hp hr => exact Isolate.settle_accepted .fulfill (fun _ _ => rfl) hr
  | reject hp hr => exact Isolate.settle_accepted .reject (fun _ _ => rfl) hr

/-- What is no promise to be followed is what the promise comes to at once. -/
theorem Accepts.settled (ha : s.Accepts r v kind u) (hs : s.agent.Sound) {b : Binding}
    (hv : s.machine.isolate.toManaged v = .ok value) (hb : s.table.get r.handle = .ok b)
    (hplain : kind = .reject ∨ ∀ ref, value = .object ref → s.agent.heap.isPromise ref = false) :
    u.Settled b.object kind value := by
  obtain ⟨value', b', hv', hb', hc⟩ := ha.settle
  obtain rfl : value' = value := Except.ok.inj (hv'.symm.trans hv)
  obtain rfl : b' = b := Except.ok.inj (hb'.symm.trans hb)
  obtain ⟨record, hr, -, hu⟩ := settle_call_accepted hs hc
  obtain ⟨new, hnew, -, hstatus⟩ := record?_resolving hr (s.agent.heap.resolution b'.object kind value')
  refine ⟨new, ?_, hstatus _ _ (resolution_of_plain (Heap.isPromise_of_record? hr) hplain)⟩
  rw [hu]
  exact hnew

/-- A settled promise keeps what it has come to for as long as it lives. -/
theorem Settled.lasts {h : History} (hl : Lifted h u) {ref : ObjectRef} (hu : u.Settled ref kind value)
    {after : List (Stage Agent κ Empty)} (ht : Trail u after t)
    (hlive : ∀ w ∈ after, w.agent.heap.isLive ref = true) (hlast : t.agent.heap.isLive ref = true) :
    t.Settled ref kind value := by
  obtain ⟨record, hr, hstatus⟩ := hu
  obtain ⟨h', hl', hmoves, hnumber⟩ := hl.trail ht
  rw [← hl.agent] at hr
  rw [← hl'.agent] at hlast
  -- the object that lives at the end is the one that lived at the beginning
  have hborn : h'.number ref < h.born := by
    rw [hnumber ref hlive]
    exact hl.sound.number_lt ref (Heap.isLive_of_record? hr)
  have hkind := (Moves.kind? hl.sound hmoves hlast hborn).2
  rw [Heap.isPromise_iff_kind?.1 (Heap.isPromise_of_record? hr)] at hkind
  obtain ⟨new, hnew⟩ := Heap.isPromise_iff.1 (Heap.isPromise_iff_kind?.2 hkind)
  obtain ⟨-, old, hold, hadvances⟩ := (hmoves.leads hl.sound).kept ref new hnew hborn
  obtain rfl : old = record := Except.ok.inj (hold.symm.trans hr)
  refine ⟨new, ?_, ?_⟩
  · rw [← hl'.agent]
    exact hnew
  · have hpending : old.status ≠ .pending := by
      rw [hstatus]
      exact PromiseStatus.settled_ne_pending kind value
    rw [hadvances.status hpending, hstatus]

/-- What is accepted can be given back. A word with which a program resolves or rejects a promise, and which
is accepted, stands for a value. If that is no promise to be followed, the promise comes to it at once and
keeps it for as long as it lives. Wherever the program comes to afterwards with room for a handle, every
promise that has come to the value, in this or another way, has a result, and a handler that is due to run
with it gets an argument, which is a word for the same value. Whatever else promises come to is given back
so too while there are numbers for strings.

This holds of all values but one kind: an integer of more than 31 bits is accepted, and whoever asks for it
afterwards runs into a programming error. -/
theorem accepted_given_back {id : IsolateId} {config : Config} {iso : Isolate Agent (Handler κ Empty)}
    (hnew : Isolate.new id config = .ok iso) (memory : κ) (program : Program κ Empty)
    (hs : Leads n ⟨⟨iso, memory⟩, program, []⟩ s) (ha : s.Accepts r v kind u) :
    ∃ value b, s.machine.isolate.toManaged v = .ok value ∧ s.table.get r.handle = .ok b ∧
      ∀ {after : List (Stage Agent κ Empty)} {t : Stage Agent κ Empty}, Trail u after t →
        ((kind = .reject ∨ ∀ ref, value = .object ref → s.agent.heap.isPromise ref = false) →
          (∀ w ∈ after ++ [t], w.agent.heap.isLive b.object = true) → t.Settled b.object kind value) ∧
        (t.table.size < HandleId.capacity →
          ((∀ n, value = .int n → Value.Short n) → t.GivesBack value) ∧
          (t.machine.strings.size < UInt32.size → ∀ other : ManagedValue,
            (∀ n, other = .int n → Value.Short n) → t.GivesBack other)) ∧
        ∀ n, value = .int n → ¬Value.Short n → t.Chokes value := by
  have hlast : Leads (n + 1) ⟨⟨iso, memory⟩, program, []⟩ u := hs.trans (.step ha.step (.refl u))
  obtain ⟨value, b, hv, hb, -⟩ := ha.settle
  refine ⟨value, b, hv, hb, fun {after t} ht => ⟨fun hplain hlive => ?_, fun hroom => ?_, ?_⟩⟩
  · obtain ⟨path, -, hpath⟩ := hlast.trail
    obtain ⟨h, hl, -⟩ := (lifted_new hnew memory program).trail hpath
    have hholds : s.Holds False := (holds_new hnew memory program).leads hs
    have hsettled : u.Settled b.object kind value := ha.settled hholds.held.fit.sound hv hb hplain
    exact hsettled.lasts hl ht (fun w hw => hlive w (List.mem_append_left _ hw))
      (hlive t (List.mem_append_right _ List.mem_cons_self))
  · have hway : Leads (n + 1 + after.length) ⟨⟨iso, memory⟩, program, []⟩ t := hlast.trans ht.leads
    have hfitted : t.table.Fitted := hway.table.2 (fitted_new hnew)
    have hindexed := indexed_created (Isolate.create_of_new hnew) hway
    -- the string of the word was known when it was accepted, and goes on to be
    have hsince : s.machine.strings.Later t.machine.strings := by
      have hrest : Leads (1 + after.length) s t := (Leads.step ha.step (.refl u)).trans ht.leads
      exact hrest.strings
    refine ⟨fun hshort => gives_back hfitted hroom hindexed hshort ?_, fun hsize other hshort => ?_⟩
    · intro text htext
      exact Isolate.tells_of_toManaged hindexed hsince hv htext
    · apply gives_back hfitted hroom hindexed hshort
      intro text _
      exact t.machine.strings.tells_intern text hsize
  · rintro n rfl hn
    exact t.chokes_of_wide hn

/-- Gives a promise a handler, resolves it with a word, and lets the handler run. -/
def storing (v : Value) : Program Unit Empty :=
  .call .newResolver fun answer =>
    match answer with
    | some r =>
      .register (fun argument => .done (.ok argument)) fun handler =>
        .call (.addReactions ⟨r.handle⟩ (some handler) none) fun _ =>
          .call (.resolve r v) fun _ => .checkpoint fun _ => .done (.ok .null)
    | none => .done (.error .undefined)

namespace Storing

open Handing (fulfilled)

def handler : Handler Unit Empty := fun argument => .done (.ok argument)

def resolver : Resolver := ⟨⟨1, 0, 0⟩⟩

/-- Before the promise is resolved. -/
def waiting (v : Value) : Stage Agent Unit Empty :=
  ⟨Handing.machine
    [(⟨.pending, false, true, #[⟨.derive (some ⟨0⟩) ⟨1, 0⟩, .derive none ⟨1, 0⟩⟩]⟩, 1), (.new, 1)] [] []
    #[handler], .call (.resolve resolver v) fun _ => .checkpoint fun _ => .done (.ok .null), []⟩

/-- After it has come to an integer. -/
def settled (n : Int32) : Stage Agent Unit Empty :=
  ⟨Handing.machine [(fulfilled (.int n) true, 1), (.new, 1)] [.react .fulfill (.derive (some ⟨0⟩) ⟨1, 0⟩) (.int n)] []
    #[handler], .checkpoint fun _ => .done (.ok .null), []⟩

def native (n : Int32) : NativeJob := ⟨.fulfill, ⟨0⟩, .int n, ⟨1, 0⟩⟩

theorem way (v : Value) : Leads 3 ⟨Handing.machine [] [] [] #[], storing v, []⟩ (waiting v) := by
  let made := Handing.machine [(.new, 1)] [] [] #[]
  let registered := Handing.machine [(.new, 1)] [] [] #[handler]
  refine .step (m := made) rfl ?_
  refine .step (m := registered) rfl ?_
  exact .step (m := (waiting v).machine) rfl (.refl _)

theorem toManaged_waiting (n : Int32) :
    (waiting (.ofInt32 n)).machine.isolate.toManaged (.ofInt32 n) = .ok (.int n) :=
  Isolate.toManaged_ofInt32 _ n

theorem accepts (n : Int32) : (waiting (.ofInt32 n)).Accepts resolver (.ofInt32 n) .fulfill (settled n) := by
  have hmanage : Isolate.manage (.ofInt32 n) (waiting (.ofInt32 n)).machine.isolate =
      .ok (.int n) (waiting (.ofInt32 n)).machine.isolate := by
    rw [Isolate.manage_eq, toManaged_waiting]
  have hrun : (Call.resolve resolver (.ofInt32 n)).run (waiting (.ofInt32 n)).machine.isolate =
      .ok (some true) (settled n).machine.isolate := (bind_run _ hmanage).trans rfl
  let next : Option Bool → Program Unit Empty := fun _ => .checkpoint fun _ => .done (.ok .null)
  exact @Accepts.resolve _ (waiting (.ofInt32 n)) _ _ next _ rfl hrun

theorem nextJob_settled (n : Int32) :
    ∃ e, Agent.nextJob (settled n).agent = .ok (some (native n)) e := by
  rw [Agent.nextJob]
  exact ⟨_, rfl⟩

end Storing

open Storing

/-- The widest integer there is comes back from its promise and goes to the handler. -/
theorem accepted_given_back_widest :
    (waiting (.ofInt32 1073741823)).Accepts resolver (.ofInt32 1073741823) .fulfill (settled 1073741823) ∧
      (∃ w next, (Call.result ⟨⟨1, 0, 0⟩⟩).run (settled 1073741823).machine.isolate = .ok w next ∧
        next.toManaged w = .ok (.int 1073741823)) ∧
      ∃ mark w m, Program.due (settled 1073741823).machine =
        .ok (some (mark, native 1073741823, reaction m (native 1073741823) w)) m ∧
        m.isolate.toManaged w = .ok (.int 1073741823) := by
  have hnew : Isolate.new ⟨1⟩ .default = .ok (Handing.machine [] [] [] #[]).isolate := rfl
  obtain ⟨value, b, hv, hb, hlater⟩ := accepted_given_back hnew () _ (way _) (accepts 1073741823)
  obtain rfl : value = .int 1073741823 := Except.ok.inj (hv.symm.trans (toManaged_waiting _))
  obtain rfl : b = ⟨⟨1⟩, ⟨0, 0⟩, .promise⟩ := (Except.ok.inj hb).symm
  obtain ⟨hsettled, hback, -⟩ := hlater (.refl _)
  have hplain : ∀ ref, ManagedValue.int 1073741823 = .object ref →
      (waiting (.ofInt32 1073741823)).agent.heap.isPromise ref = false := nofun
  have hgives := (hback (by decide)).1 fun n hn => by
    obtain rfl : (1073741823 : Int32) = n := ManagedValue.int.inj hn
    decide
  obtain ⟨e, hnext⟩ := nextJob_settled 1073741823
  refine ⟨accepts _, hgives.result ⟨⟨1, 0, 0⟩⟩ ⟨⟨1⟩, ⟨0, 0⟩, .promise⟩ .fulfill rfl rfl ?_,
    hgives.delivery _ e hnext rfl⟩
  refine hsettled (.inr hplain) fun w hw => ?_
  rw [List.mem_singleton.1 hw]
  rfl

/-- The next integer is accepted all the same, and then neither comes back nor goes to the handler. -/
theorem wide_accepted_never_back :
    ∃ (iso : Isolate Agent (Handler Unit Empty)) (program : Program Unit Empty) (s u : Stage Agent Unit Empty),
      Isolate.new ⟨1⟩ .default = .ok iso ∧ Leads 3 ⟨⟨iso, ()⟩, program, []⟩ s ∧
        s.Accepts resolver (.ofInt32 1073741824) .fulfill u ∧ u.table.size < HandleId.capacity ∧
        s.machine.isolate.toManaged (.ofInt32 1073741824) = .ok (.int 1073741824) ∧
        u.Settled ⟨0, 0⟩ .fulfill (.int 1073741824) ∧
        (∃ next, (Call.result ⟨⟨1, 0, 0⟩⟩).run u.machine.isolate = .error .intOutOfRange next) ∧
        ∃ m, Program.due u.machine = .error (.fault .intOutOfRange) m := by
  have hchokes : (settled 1073741824).Chokes (.int 1073741824) := chokes_of_wide _ (by decide)
  have hsettled : (settled 1073741824).Settled ⟨0, 0⟩ .fulfill (.int 1073741824) := ⟨_, rfl, rfl⟩
  obtain ⟨e, hnext⟩ := nextJob_settled 1073741824
  exact ⟨_, _, _, _, rfl, way _, accepts _, by decide, toManaged_waiting _, hsettled,
    hchokes.result ⟨⟨1, 0, 0⟩⟩ ⟨⟨1⟩, ⟨0, 0⟩, .promise⟩ .fulfill rfl rfl hsettled,
    hchokes.delivery _ e hnext rfl⟩

end Stage

end Promises
