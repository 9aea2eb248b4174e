import Promises.Proofs.Isolate.Moment
import Promises.Proofs.Program.Trail

namespace Promises

open Moment

namespace Run

variable {ε κ ρ : Type} [Engine ε] {P : (α : Type) → Action (Isolate ε (Handler κ ρ)) α → Prop}

/-- What lasts of a value is looked up and nothing else. -/
theorem spreads_escaping (h : Isolate.Spreads P) (v : Value) : P (Option Binding) (escaping v) := by
  rw [escaping]
  cases v.handle? with
  | none => exact h.returns none
  | some handle => exact h.follows (Isolate.spreads_binding h handle) fun b => h.returns _

theorem spreads_conclude (h : Isolate.Spreads P) (derived : ObjectRef) (completion : Completion) :
    P Unit (conclude derived completion) := by
  refine h.follows (Isolate.spreads_manage h completion.value) fun value => ?_
  cases completion with
  | ok v => exact h.follows (h.asks (.resolve derived value)) fun _ => h.returns _
  | error v => exact h.follows (h.asks (.reject derived value)) fun _ => h.returns _

theorem carries_conclude (derived : ObjectRef) (completion : Completion) :
    Carries (conclude derived completion : Action (Isolate ε (Handler κ ρ)) Unit) :=
  spreads_conclude Isolate.spreads_carries derived completion

end Run

namespace Frame

variable {κ ρ : Type}

/-- The scope that is closed when the body ends. -/
def mark : Frame κ ρ → ScopeMark
  | .scope mark _ | .escape mark _ | .reaction mark _ _ => mark

end Frame

namespace Stage

variable {ε κ : Type} [Engine ε] {s t : Stage ε κ Empty} {m m' : Machine ε κ Empty}

/-- The scopes that the frames are to close. -/
def marks {κ ρ : Type} (frames : List (Frame κ ρ)) : List ScopeMark := frames.map Frame.mark

/-- A stage as its isolate is in between. -/
def moment (s : Stage ε κ Empty) : Moment ε (Handler κ Empty) :=
  ⟨s.machine.isolate, inFlight s.frames, marks s.frames⟩

theorem due_steps {found : Option (ScopeMark × NativeJob × Program κ Empty)} (owed : List ObjectRef)
    (scopes : List ScopeMark) (hr : Program.due m = .ok found m') :
    Steps ⟨m.isolate, owed, scopes⟩
      ⟨m'.isolate, (found.map (·.2.1.derived)).toList ++ owed, (found.map (·.1)).toList ++ scopes⟩ := by
  cases Program.due_ok hr with
  | nothing hnext => exact .single (.take hnext)
  | @reaction e job mark argument opened iso hnext hopen hnative =>
    have htake : Steps ⟨m.isolate, owed, scopes⟩ ⟨{ m.isolate with engine := e }, job.derived :: owed, scopes⟩ :=
      .single (.take hnext)
    have hopened := Isolate.openScope_steps (job.derived :: owed) scopes hopen
    have hargument := (Isolate.carries_toNative job.argument).steps (job.derived :: owed) (mark :: scopes) hnative
    exact (htake.trans hopened).trans hargument

/-- Every step of a program goes by small steps. -/
theorem step_steps {p : Program κ Empty} {frames : List (Frame κ Empty)}
    (hs : s.step = .ok (p, frames) m) : Steps s.moment (⟨m, p, frames⟩ : Stage ε κ Empty).moment := by
  cases goes_of_step hs with
  | stay | read | update => exact .refl
  | @call _ c _ _ _ _ hcall => exact (Isolate.carries_call c).steps _ _ hcall
  | @register _ handler _ _ _ _ hregister =>
    exact (Isolate.carries_registerFunction handler).steps _ _ hregister
  | enterScope hopen => exact Isolate.openScope_steps _ _ hopen
  | enterEscape hopen => exact Isolate.openScope_steps _ _ hopen
  | leaveScope hclose => exact Isolate.closeScope_steps _ _ hclose
  | leaveEscape hv hclose => exact Isolate.closeScope_steps _ _ hclose
  | @escape _ _ _ _ frames _ _ b _ _ hv hget hclose hregister =>
    have hclosed := Isolate.closeScope_steps (inFlight frames) (marks frames) hclose
    exact hclosed.trans ((Isolate.carries_register b).steps _ _ hregister)
  | idle hdue => exact due_steps _ _ hdue
  | react hdue => exact due_steps _ _ hdue
  | @conclude _ c mark job _ frames _ _ _ hconclude hclose hrelease =>
    -- a reaction gives its root back last
    have hconcluded := (Run.carries_conclude job.derived c).steps (job.derived :: inFlight frames)
      (mark :: marks frames) hconclude
    have hclosed := Isolate.closeScope_steps (job.derived :: inFlight frames) (marks frames) hclose
    exact (hconcluded.trans hclosed).tail (.release hrelease)

theorem Leads.steps {n : Nat} (h : Leads n s t) : Steps s.moment t.moment := by
  induction h with
  | refl => exact .refl
  | step hs _ ih => exact (step_steps hs).trans ih

/-- The functions that a program has registered stay registered. -/
theorem Leads.functions {n : Nat} (h : Leads n s t) :
    s.machine.isolate.functions.toList <+: t.machine.isolate.functions.toList := h.steps.functions

end Stage

end Promises
