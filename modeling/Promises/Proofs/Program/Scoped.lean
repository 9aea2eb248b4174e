import Promises.Proofs.Isolate.Native
import Promises.Proofs.Program.Step

namespace Promises

open Isolate

namespace Run

variable {κ ρ α : Type} {iso next : Isolate Agent (Handler κ ρ)} {memory memory' : κ} {v : α}
  {b : Binding}

/-- The isolate in which the body of a scope begins. -/
abbrev opened (iso : Isolate Agent (Handler κ ρ)) : Isolate Agent (Handler κ ρ) :=
  { iso with handles := iso.handles.openScope.2 }

theorem openScope_run (iso : Isolate Agent (Handler κ ρ)) (memory : κ) :
    (onIsolate openScope : Run Agent κ ρ ScopeMark) ⟨iso, memory⟩ =
      .ok iso.handles.openScope.1 ⟨opened iso, memory⟩ := rfl

variable {body : Run Agent κ ρ α}

theorem inScope_error {halt : Halt} {m : Machine Agent κ ρ}
    (hb : body ⟨opened iso, memory⟩ = .error halt m) : inScope body ⟨iso, memory⟩ = .error halt m :=
  (bind_run _ (openScope_run iso memory)).trans (bind_error _ hb)

/-- A body that got no handle. -/
theorem inScope_idle (hb : body ⟨opened iso, memory⟩ = .ok v ⟨next, memory'⟩)
    (hh : next.handles = iso.handles.openScope.2) :
    inScope body ⟨iso, memory⟩ = .ok v ⟨{ next with handles := iso.handles }, memory'⟩ := by
  have hclose := onIsolate_ok_run (closeScope_idle next hh) memory'
  exact (bind_run _ (openScope_run iso memory)).trans ((bind_run _ hb).trans (bind_run _ hclose))

/-- A body that got one handle. -/
theorem inScope_single (hf : iso.handles.Fitted) (hb : body ⟨opened iso, memory⟩ = .ok v ⟨next, memory'⟩)
    (hh : next.handles = iso.handles.openScope.2.pushed b) :
    ∃ u, iso.handles.Worn u ∧ inScope body ⟨iso, memory⟩ =
      .ok v ⟨{ next with handles := u, engine := next.engine.released b.object }, memory'⟩ := by
  obtain ⟨u, hworn, hclose⟩ := closeScope_single next hf hh
  have hclose := onIsolate_ok_run hclose memory'
  exact ⟨u, hworn, (bind_run _ (openScope_run iso memory)).trans ((bind_run _ hb).trans (bind_run _ hclose))⟩

variable {body : Run Agent κ ρ Completion} {c : Completion}

theorem inEscapableScope_error {halt : Halt} {m : Machine Agent κ ρ}
    (hb : body ⟨opened iso, memory⟩ = .error halt m) :
    inEscapableScope body ⟨iso, memory⟩ = .error halt m :=
  (bind_run _ (openScope_run iso memory)).trans (bind_error _ hb)

/-- What is no handle is given as it is. -/
theorem inEscapableScope_word (hb : body ⟨opened iso, memory⟩ = .ok c ⟨next, memory'⟩)
    (hh : next.handles = iso.handles.openScope.2) (hc : c.value.handle? = none) :
    inEscapableScope body ⟨iso, memory⟩ = .ok c ⟨{ next with handles := iso.handles }, memory'⟩ := by
  have hkept : escaping c.value next = .ok none next := escaping_of_none hc
  have hclose := onIsolate_ok_run (closeScope_idle next hh) memory'
  refine (bind_run _ (openScope_run iso memory)).trans ((bind_run _ hb).trans ?_)
  exact (bind_run _ (onIsolate_ok_run hkept memory')).trans (bind_run _ hclose)

/-- What a scope gives once it is closed. -/
theorem inEscapableScope_handle {h : HandleId} {table : HandleTable} {e : Agent}
    (hb : body ⟨opened iso, memory⟩ = .ok c ⟨next, memory'⟩) (hc : c.value.handle? = some h)
    (hg : next.handles.get h = .ok b)
    (hclose : closeScope iso.handles.openScope.1 next = .ok () { next with handles := table, engine := e }) :
    inEscapableScope body ⟨iso, memory⟩ =
      (do return c.replace (.handle (← onIsolate (register b))) : Run Agent κ ρ Completion)
        ⟨{ next with handles := table, engine := e }, memory'⟩ := by
  have hkept := escaping_of_get hc hg
  refine (bind_run _ (openScope_run iso memory)).trans ((bind_run _ hb).trans ?_)
  exact (bind_run _ (onIsolate_ok_run hkept memory')).trans (bind_run _ (onIsolate_ok_run hclose memory'))

/-- A new entry for what a scope gives. -/
theorem rebind_run (c : Completion) (hroom : next.handles.entries.size < HandleId.capacity) :
    (do return c.replace (.handle (← onIsolate (register b))) : Run Agent κ ρ Completion) ⟨next, memory⟩ =
      .ok (c.replace (.handle next.handles.nextId)) ⟨next.entered b, memory⟩ :=
  bind_run _ (onIsolate_ok_run (register_room b hroom) memory)

theorem rebind_full (c : Completion) (hfull : ¬ next.handles.entries.size < HandleId.capacity) :
    (do return c.replace (.handle (← onIsolate (register b))) : Run Agent κ ρ Completion) ⟨next, memory⟩ =
      .error (.fault .tableFull) ⟨{ next with engine := next.engine.retained b.object }, memory⟩ := by
  have hregister : register b next =
      .error .tableFull { next with engine := next.engine.retained b.object } := by
    rw [register_run, if_neg hfull]
  exact bind_error _ (onIsolate_error_run hregister memory)

end Run

end Promises
