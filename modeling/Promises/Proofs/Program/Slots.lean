import Promises.Proofs.Handle.Table
import Promises.Proofs.Program.Moment

namespace Promises

open Moment HandleTable

namespace Isolate

variable {ε φ α : Type} [Engine ε] {iso next : Isolate ε φ}

/-- Within a scope the table only grows. -/
theorem grown_of_carries {x : Action (Isolate ε φ) α} (hx : Carries x) {v : α}
    (hr : x iso = .ok v next) : iso.handles.Grown next.handles := by
  have hgrown {m n : Moment ε φ} (hs : Inners m n) : m.isolate.handles.Grown n.isolate.handles := by
    induction hs with
    | refl => exact .refl _
    | @tail k n _ hlast ih =>
      refine ih.trans ?_
      obtain ⟨hstep, hmarks⟩ := hlast
      cases hstep with
      | @push iso owed marks b hroom => exact grown_pushed iso.handles b
      | opened => exact absurd hmarks (List.cons_ne_self _ _)
      | closed hc => exact absurd hmarks.symm (List.cons_ne_self _ _)
      | _ => exact .refl _
  exact hgrown (hx.inners [] [] hr)

end Isolate

theorem Run.conclude_handles {ε κ ρ : Type} [Engine ε] {iso next : Isolate ε (Handler κ ρ)}
    {derived : ObjectRef} {completion : Completion}
    (hr : Run.conclude derived completion iso = .ok () next) : next.handles = iso.handles := by
  obtain ⟨value, mid, hmanage, hsettle⟩ := bind_ok hr
  obtain ⟨-, rfl⟩ := Action.ofMisuse_ok hmanage
  cases completion with
  | ok v =>
    obtain ⟨answer, last, hask, hrest⟩ := bind_ok hsettle
    obtain ⟨e, -, rfl⟩ := Isolate.onEngine_ok hask
    obtain ⟨-, rfl⟩ := EStateM.Result.ok.inj hrest
    rfl
  | error v =>
    obtain ⟨answer, last, hask, hrest⟩ := bind_ok hsettle
    obtain ⟨e, -, rfl⟩ := Isolate.onEngine_ok hask
    obtain ⟨-, rfl⟩ := EStateM.Result.ok.inj hrest
    rfl

namespace Stage

variable {ε κ : Type} [Engine ε] {s t : Stage ε κ Empty} {m m' : Machine ε κ Empty}

/-- The handle table of a stage. -/
def table {ε κ : Type} (s : Stage ε κ Empty) : HandleTable := s.machine.isolate.handles

/-- What a step does to the table and to the frames. -/
inductive Shifts (s : Stage ε κ Empty) (u : HandleTable) : List (Frame κ Empty) → Prop
  | grown (hd : ∀ c, s.program = .done c → s.frames = []) (hg : s.table.Grown u) :
    Shifts s u s.frames
  | opened {frame : Frame κ Empty} (hd : ∀ c, s.program ≠ .done c)
    (hm : frame.mark = s.table.openScope.1) (hg : s.table.openScope.2.Grown u) :
    Shifts s u (frame :: s.frames)
  | closed {c : Completion} {frame : Frame κ Empty} {frames : List (Frame κ Empty)}
    {popped : Array Binding} {mid : HandleTable} (hp : s.program = .done c)
    (hf : s.frames = frame :: frames)
    (hc : s.table.closeScope frame.mark = (.ok popped, mid)) (hg : mid.Grown u) : Shifts s u frames

theorem due_shifts (frames : List (Frame κ Empty)) (next : ℕ → Program κ Empty)
    {found : Option (ScopeMark × NativeJob × Program κ Empty)}
    (hr : Program.due m = .ok found m') :
    (⟨m, .checkpoint next, frames⟩ : Stage ε κ Empty).Shifts m'.isolate.handles
      ((found.map fun f => .reaction f.1 f.2.1 next).toList ++ frames) := by
  cases Program.due_ok hr with
  | nothing hnext => exact .grown (fun c hc => by cases hc) (.refl _)
  | @reaction e job mark argument opened iso hnext hopen hnative =>
    obtain ⟨hmark, rfl⟩ := Isolate.openScope_table hopen
    have hargument := Isolate.grown_of_carries (Isolate.carries_toNative job.argument) hnative
    exact .opened (fun c hc => by cases hc) hmark hargument

/-- Only a body that ends in a frame pops anything, which is what lies above the mark of the frame. It may leave
one entry. -/
theorem step_shifts {p : Program κ Empty} {frames : List (Frame κ Empty)}
    (hs : s.step = .ok (p, frames) m) : s.Shifts m.isolate.handles frames := by
  cases goes_of_step hs with
  | stay => exact .grown (fun _ _ => rfl) (.refl _)
  | read | update => exact .grown (fun _ hd => by cases hd) (.refl _)
  | @call _ c _ _ _ _ hcall =>
    exact .grown (fun _ hd => by cases hd) (Isolate.grown_of_carries (Isolate.carries_call c) hcall)
  | @register _ handler _ _ _ _ hregister =>
    have hgrown := Isolate.grown_of_carries (Isolate.carries_registerFunction handler) hregister
    exact .grown (fun _ hd => by cases hd) hgrown
  | enterScope hopen =>
    obtain ⟨hmark, rfl⟩ := Isolate.openScope_table hopen
    exact .opened (fun _ hd => by cases hd) hmark (.refl _)
  | enterEscape hopen =>
    obtain ⟨hmark, rfl⟩ := Isolate.openScope_table hopen
    exact .opened (fun _ hd => by cases hd) hmark (.refl _)
  | leaveScope hclose =>
    obtain ⟨popped, htable, -⟩ := Isolate.closeScope_popped hclose
    exact .closed rfl rfl htable (.refl _)
  | leaveEscape hv hclose =>
    obtain ⟨popped, htable, -⟩ := Isolate.closeScope_popped hclose
    exact .closed rfl rfl htable (.refl _)
  -- the scope of the frame is closed before the value gets an entry below it
  | @escape _ _ _ _ _ _ _ b _ _ hv hget hclose hregister =>
    obtain ⟨popped, htable, -⟩ := Isolate.closeScope_popped hclose
    exact .closed rfl rfl htable (Isolate.grown_of_carries (Isolate.carries_register b) hregister)
  | idle hdue => exact due_shifts _ _ hdue
  | react hdue => exact due_shifts _ _ hdue
  | conclude hconclude hclose hrelease =>
    obtain ⟨popped, htable, -⟩ := Isolate.closeScope_popped hclose
    rw [Run.conclude_handles hconclude] at htable
    exact .closed rfl rfl htable (.refl _)

/-- The next step pops the entry of a slot. -/
def retires {ε κ : Type} (slot : ℕ) (s : Stage ε κ Empty) : Bool :=
  match s.program, s.frames with
  | .done _, frame :: _ => frame.mark.start ≤ slot && slot < s.table.entries.size
  | _, _ => false

/-- How many of the next `n` steps pop the entry of a slot. -/
def retirements (slot : ℕ) : ℕ → Stage ε κ Empty → ℕ
  | 0, _ => 0
  | n + 1, s => (s.retires slot).toNat +
    match s.step with
    | .ok (p, frames) m => retirements slot n ⟨m, p, frames⟩
    | .error _ _ => 0

variable {slot n k : ℕ} {p : Program κ Empty} {frames : List (Frame κ Empty)} {serial : BitVec 16}
  {b : Binding}

omit [Engine ε] in
theorem retires_of_done {c : Completion} {frame : Frame κ Empty} (hp : s.program = .done c)
    (hf : s.frames = frame :: frames) :
    s.retires slot = (frame.mark.start ≤ slot && slot < s.table.entries.size) := by
  rw [retires, hp, hf]

omit [Engine ε] in
theorem not_retires (hd : ∀ c, s.program = .done c → s.frames = []) : s.retires slot = false := by
  unfold retires
  split
  · rename_i c frame frames hp hf
    rw [hd c hp] at hf
    cases hf
  · rfl

theorem retirements_succ (hs : s.step = .ok (p, frames) m) :
    retirements slot (n + 1) s = (s.retires slot).toNat + retirements slot n ⟨m, p, frames⟩ := by
  rw [retirements, hs]

theorem retirements_add (h : Leads n s t) :
    retirements slot (n + k) s = retirements slot n s + retirements slot k t := by
  induction h with
  | refl s =>
    rw [Nat.zero_add]
    exact (Nat.zero_add _).symm
  | @step n s u m p frames hs _ ih =>
    rw [Nat.add_right_comm, retirements_succ hs, retirements_succ hs, ih, Nat.add_assoc]

/-- A slot moves on by one serial where its entry is popped. -/
theorem serial_step (hs : s.step = .ok (p, frames) m) (hi : s.table.serials[slot]? = some serial) :
    m.isolate.handles.serials[slot]? = some (serial + BitVec.ofNat 16 (s.retires slot).toNat) := by
  have hkept : serial + BitVec.ofNat 16 false.toNat = serial := BitVec.add_zero serial
  have hshifts := step_shifts hs
  generalize m.isolate.handles = u at hshifts
  cases hshifts with
  | grown hd hg =>
    rw [not_retires hd, hkept]
    exact hg.serials slot serial hi
  | opened hd hm hg =>
    rw [not_retires fun c hc => absurd hc (hd c), hkept]
    exact hg.serials slot serial hi
  | @closed c frame _ popped mid hp hf hc hg =>
    have hclosed := serial_closed hc hi
    rw [retires_of_done hp hf, ← Bool.decide_and]
    by_cases hslot : frame.mark.start ≤ slot ∧ slot < s.table.entries.size
    · rw [if_pos hslot] at hclosed
      rw [decide_eq_true hslot]
      exact hg.serials slot _ hclosed
    · rw [if_neg hslot] at hclosed
      rw [decide_eq_false hslot, hkept]
      exact hg.serials slot _ hclosed

/-- An entry stays where it is until it is popped. -/
theorem entry_step (hs : s.step = .ok (p, frames) m) (hr : s.retires slot = false)
    (hi : s.table.entries[slot]? = some b) : m.isolate.handles.entries[slot]? = some b := by
  have hshifts := step_shifts hs
  generalize m.isolate.handles = u at hshifts
  cases hshifts with
  | grown hd hg => exact entry_of_prefix hg.entries hi
  | opened hd hm hg => exact entry_of_prefix hg.entries hi
  | @closed c frame _ popped mid hp hf hc hg =>
    have hlt : slot < s.table.entries.size := (Array.getElem?_eq_some_iff.1 hi).1
    rw [retires_of_done hp hf, ← Bool.decide_and, decide_eq_false_iff_not] at hr
    have hlow : slot < frame.mark.start := by
      by_contra hn
      exact hr ⟨Nat.le_of_not_lt hn, hlt⟩
    exact entry_of_prefix hg.entries (entry_closed hc hi hlow)

theorem table_step (hs : s.step = .ok (p, frames) m) :
    m.isolate.handles.isolate = s.table.isolate ∧ (s.table.Fitted → m.isolate.handles.Fitted) := by
  have hshifts := step_shifts hs
  generalize m.isolate.handles = u at hshifts
  cases hshifts with
  | grown hd hg => exact ⟨hg.isolate, hg.fitted⟩
  | opened hd hm hg => exact ⟨hg.isolate, hg.fitted⟩
  | closed hp hf hc hg =>
    obtain ⟨-, hisolate, -, -⟩ := closeScope_ok hc
    exact ⟨hg.isolate.trans hisolate, fun hfit => hg.fitted (fitted_closed hfit hc)⟩

/-- The serial of a slot counts the entries that were popped from it. -/
theorem Leads.serials (h : Leads n s t) (hi : s.table.serials[slot]? = some serial) :
    t.table.serials[slot]? = some (serial + BitVec.ofNat 16 (retirements slot n s)) := by
  induction h generalizing serial with
  | refl s =>
    rw [hi]
    exact congrArg some (BitVec.add_zero serial).symm
  | @step n s u m p frames hs _ ih =>
    rw [ih (serial_step hs hi), retirements_succ hs, BitVec.ofNat_add, BitVec.add_assoc]

theorem Leads.entry (h : Leads n s t) (hr : retirements slot n s = 0)
    (hi : s.table.entries[slot]? = some b) : t.table.entries[slot]? = some b := by
  induction h with
  | refl => exact hi
  | @step n s u m p frames hs _ ih =>
    rw [retirements_succ hs] at hr
    have hnow : s.retires slot = false := by
      cases hnow : s.retires slot with
      | false => rfl
      | true =>
        rw [hnow, Bool.toNat_true] at hr
        omega
    have hlater : retirements slot n ⟨m, p, frames⟩ = 0 := by omega
    exact ih hlater (entry_step hs hnow hi)

theorem Leads.table (h : Leads n s t) :
    t.table.isolate = s.table.isolate ∧ (s.table.Fitted → t.table.Fitted) := by
  induction h with
  | refl => exact ⟨rfl, id⟩
  | step hs _ ih =>
    obtain ⟨hisolate, hfitted⟩ := table_step hs
    exact ⟨ih.1.trans hisolate, fun hf => ih.2 (hfitted hf)⟩

/-- A handle stands for what it stood for as long as its slot is not popped. -/
theorem Leads.get {h : HandleId} (hn : Leads n s t) (hr : retirements h.index.toNat n s = 0)
    (hg : s.table.get h = .ok b) : t.table.get h = .ok b := by
  obtain ⟨htag, hentry, hserial⟩ := get_eq_ok_iff.1 hg
  refine get_eq_ok_iff.2 ⟨?_, hn.entry hr hentry, ?_⟩
  · rw [hn.table.1]
    exact htag
  · rw [hn.serials hserial, hr]
    exact congrArg some (BitVec.add_zero h.serial)

end Stage

end Promises
