import Promises.Proofs.Program.Translation

namespace Promises

namespace Stage

variable {κ : Type} {s t u : Stage Agent κ Empty} {job : NativeJob} {w : Value}

/-- What is run for a job with an argument. -/
def reaction (m : Machine Agent κ Empty) (job : NativeJob) (argument : Value) : Program κ Empty :=
  match m.isolate.functions[job.handler.index]? with
  | some handler => handler argument
  | none => .done (.error .undefined)

theorem reaction_eq (m : Machine Agent κ Empty) (job : NativeJob) (argument : Value) :
    reaction m job argument =
      (m.isolate.functions[job.handler.index]?).elim (.done (.error .undefined)) (· argument) := by
  rw [reaction]
  cases m.isolate.functions[job.handler.index]? <;> rfl

/-- The isolate in which the argument of a job is given to the native side. -/
def delivering (s : Stage Agent κ Empty) (e : Agent) : Isolate Agent (Handler κ Empty) :=
  { s.machine.isolate with engine := e, handles := s.machine.isolate.handles.openScope.2 }

/-- With the next step the reaction of a job begins. The argument of the job gets a word in the scope of the
reaction, and the body at hand is that of the handler of the job with this word. -/
structure Starts (s : Stage Agent κ Empty) (job : NativeJob) (w : Value) (u : Stage Agent κ Empty) :
    Prop where
  step : s.step = .ok (u.program, u.frames) u.machine
  argument : ∃ e, Agent.nextJob s.agent = .ok (some job) e ∧
    Isolate.toNative job.argument (s.delivering e) = .ok w u.machine.isolate
  body : u.program = reaction u.machine job w
  frames : ∃ mark next, u.frames = .reaction mark job next :: s.frames

/-- Whatever begins starts so. -/
theorem starts_of_begins {p : Program κ Empty} {frames : List (Frame κ Empty)} {m : Machine Agent κ Empty}
    (hs : s.step = .ok (p, frames) m) (hb : s.begins? = some job) : ∃ w, s.Starts job w ⟨m, p, frames⟩ := by
  cases goes_of_step hs with
  | idle hdue => cases (begins?_of_due hdue).symm.trans hb
  | @react _ _ _ _ mark found body hdue =>
    obtain rfl : found = job := Option.some.inj ((begins?_of_due hdue).symm.trans hb)
    cases Program.due_ok hdue with
    | @reaction e _ _ argument opened iso hnext hopen hnative =>
      obtain ⟨-, rfl⟩ := Isolate.openScope_table hopen
      exact ⟨argument, hs, ⟨e, hnext, hnative⟩, (reaction_eq ⟨iso, _⟩ found argument).symm, _, _, rfl⟩
  | _ => cases hb

/-- A handler that was registered before is the one that is run. -/
theorem Starts.program_eq {n : ℕ} (h : t.Starts job w u) (hn : Leads n s t)
    {body : Handler κ Empty} (hbody : s.machine.isolate.functions[job.handler.index]? = some body) :
    u.program = body w := by
  obtain ⟨more, hmore⟩ := (hn.trans (.step h.step (.refl u))).functions
  have hkept : u.machine.isolate.functions[job.handler.index]? = some body := by
    rw [← Array.getElem?_toList] at hbody ⊢
    rw [← hmore, List.getElem?_append_left (List.getElem?_eq_some_iff.1 hbody).1]
    exact hbody
  rw [h.body, reaction, hkept]

/-- The word stands for the argument of the job, as long as there are numbers for strings. -/
theorem Starts.toManaged (h : s.Starts job w u) (hf : s.table.Fitted) (ht : s.machine.strings.Indexed)
    (hsize : u.machine.strings.size ≤ UInt32.size) :
    u.machine.isolate.toManaged w = .ok job.argument := by
  obtain ⟨e, -, hnative⟩ := h.argument
  have hopened : (s.delivering e).handles.Fitted := hf
  refine Isolate.toManaged_of_toNative hopened ht hnative fun text _ i hi => ?_
  exact Nat.lt_of_lt_of_le (Array.getElem?_eq_some_iff.1 hi).1 hsize

/-- Each reaction that begins on a way starts at one of its steps. -/
theorem Trail.starts {path : List (Stage Agent κ Empty)} (h : Trail s path u) (ht : t ∈ path)
    (hb : t.begins? = some job) : ∃ w v, t.Starts job w v := by
  obtain ⟨before, after, rfl⟩ := List.append_of_mem ht
  obtain ⟨-, m, p, frames, hs, -⟩ := h.split
  obtain ⟨w, hw⟩ := starts_of_begins hs hb
  exact ⟨w, _, hw⟩

/-- On the way of a program from the stage `s`, a reaction that begins runs the function that was registered
for its handler, with a word that stands for its argument. -/
theorem Trail.starts_registered {id : IsolateId} {config : Config} {iso : Isolate Agent (Handler κ Empty)}
    (hnew : Isolate.new id config = .ok iso) {memory : κ} {program : Program κ Empty}
    {before after : List (Stage Agent κ Empty)}
    (hway : Trail ⟨⟨iso, memory⟩, program, []⟩ (before ++ s :: after) u) (hj : job ∈ begun after) :
    ∃ earlier v later w t, after = earlier ++ v :: later ∧ v.Starts job w t ∧
      (∀ body, s.machine.isolate.functions[job.handler.index]? = some body → t.program = body w) ∧
      (t.machine.strings.size ≤ UInt32.size → t.machine.isolate.toManaged w = .ok job.argument) := by
  obtain ⟨v, hv, hb⟩ := List.mem_filterMap.1 hj
  obtain ⟨earlier, later, rfl⟩ := List.append_of_mem hv
  obtain ⟨hbefore, m, p, frames, hs, hafter⟩ := hway.split
  obtain ⟨hearlier, m', p', frames', hs', -⟩ := hafter.split
  obtain ⟨w, hw⟩ := starts_of_begins hs' hb
  -- the way from the start over `s` to where the reaction begins
  have hrest : Leads (earlier.length + 1) s v := .step hs hearlier.leads
  have hall := hbefore.leads.trans hrest
  exact ⟨earlier, v, later, w, _, rfl, hw, fun body hbody => hw.program_eq hrest hbody,
    hw.toManaged (hall.table.2 (fitted_new hnew)) (indexed_created (Isolate.create_of_new hnew) hall)⟩

end Stage

end Promises
