import Mathlib.Data.List.Infix
import Promises.Engine.Traced
import Promises.Proofs.Isolate.Moment

/-! The roots that an isolate has in its engine, read off the calls that it made. Whatever the engine
answers, they are the entries of the handle table and what is owed besides. -/

namespace Promises

namespace EngineCall

/-- A root is registered for an object. -/
def retains (o : ObjectRef) : EngineCall → Bool
  | retain ref => ref == o
  | _ => false

/-- A job is handed out, with a root for the promise that it is to settle. -/
def hands (o : ObjectRef) : EngineCall → Bool
  | nextJob (some job) => job.derived == o
  | _ => false

/-- A root of an object is taken back. -/
def releases (o : ObjectRef) : EngineCall → Bool
  | release ref => ref == o
  | _ => false

/-- The roots that an object got by some calls, less those that it lost. -/
def balance (o : ObjectRef) (calls : List EngineCall) : ℤ :=
  calls.countP (retains o) + calls.countP (hands o) - calls.countP (releases o)

theorem balance_nil (o : ObjectRef) : balance o [] = 0 := rfl

theorem balance_append (o : ObjectRef) (calls more : List EngineCall) :
    balance o (calls ++ more) = balance o calls + balance o more := by
  simp only [balance, List.countP_append]
  omega

theorem balance_retain (o ref : ObjectRef) : balance o [retain ref] = [ref].count o := by
  simp [balance, retains, hands, releases, List.count_singleton, List.countP_singleton]

theorem balance_release (o ref : ObjectRef) : balance o [release ref] = -[ref].count o := by
  simp [balance, retains, hands, releases, List.count_singleton, List.countP_singleton]

theorem balance_nextJob (o : ObjectRef) (job : Option NativeJob) :
    balance o [nextJob job] = (job.toList.map (·.derived)).count o := by
  cases job <;>
    simp [balance, retains, hands, releases, List.count_singleton, List.countP_singleton]

end EngineCall

namespace Traced

variable {ε α : Type} {t u : Traced ε}

theorem beneath_ok {act : Action ε α} {v : α} (hr : Action.zoom beneath act t = .ok v u) :
    u.calls = t.calls := by
  simp only [Action.zoom, beneath] at hr
  cases hact : act t.engine with
  | ok w e =>
    rw [hact] at hr
    obtain ⟨-, rfl⟩ := EStateM.Result.ok.inj hr
    rfl
  | error fault e =>
    rw [hact] at hr
    cases hr

theorem noting_ok {note : α → EngineCall} {act : Action ε α} {v : α}
    (hr : noting note act t = .ok v u) : u.calls.toList = t.calls.toList ++ [note v] := by
  obtain ⟨w, mid, hact, hrest⟩ := bind_ok hr
  obtain ⟨⟨⟩, last, hpush, hend⟩ := bind_ok hrest
  obtain ⟨rfl, rfl⟩ := EStateM.Result.ok.inj hend
  obtain ⟨-, rfl⟩ := EStateM.Result.ok.inj hpush
  rw [Array.toList_push, beneath_ok hact]

/-- What has nothing to do with roots leaves a note that weighs nothing, or none. -/
theorem quiet_ok [Engine ε] {act : Action (Traced ε) α} (hq : Quiet act) {v : α}
    (hr : act t = .ok v u) :
    ∃ more, u.calls.toList = t.calls.toList ++ more ∧ more.length ≤ 1 ∧
      ∀ o, EngineCall.balance o more = 0 := by
  have hnoted {β : Type} {note : β → EngineCall} {act : Action ε β} {v : β}
      (hr : noting note act t = .ok v u) (hn : ∀ o, EngineCall.balance o [note v] = 0) :
      ∃ more, u.calls.toList = t.calls.toList ++ more ∧ more.length ≤ 1 ∧
        ∀ o, EngineCall.balance o more = 0 :=
    ⟨[note v], noting_ok hr, Nat.le_refl 1, hn⟩
  cases hq with
  | stats =>
    refine ⟨[], ?_, Nat.zero_le 1, EngineCall.balance_nil⟩
    rw [beneath_ok hr, List.append_nil]
  | _ => exact hnoted hr fun o => rfl

end Traced

namespace Moment

open EngineCall

variable {ε φ : Type} [Engine ε] {m n : Moment (Traced ε) φ}

/-- The calls that were made so far. -/
def calls {ε φ : Type} (m : Moment (Traced ε) φ) : List EngineCall := m.isolate.engine.calls.toList

/-- How many entries are bound to an object. -/
def held {ε φ : Type} (m : Moment ε φ) (o : ObjectRef) : ℕ :=
  (m.isolate.handles.entries.toList.map (·.object)).count o

/-- The roots of an object by the calls are its entries and what is owed besides. -/
def Accounts {ε φ : Type} (m : Moment (Traced ε) φ) : Prop :=
  ∀ o, balance o m.calls = m.held o + m.owed.count o

/-- A small step makes one call at most, and what the call weighs comes to the entries and to what is
owed. -/
theorem Step.noted (hs : Step m n) :
    ∃ more, n.calls = m.calls ++ more ∧ more.length ≤ 1 ∧
      ∀ o, balance o more + m.held o + m.owed.count o = n.held o + n.owed.count o := by
  have hcons (o ref : ObjectRef) (owed : List ObjectRef) :
      (ref :: owed).count o = [ref].count o + owed.count o := by
    rw [← List.singleton_append, List.count_append]
  -- a call leaves the entries as they are, and a change of the entries makes no call
  have hcall {iso : Isolate (Traced ε) φ} {e : Traced ε} {more : List EngineCall}
      {owed owing : List ObjectRef} {marks : List ScopeMark}
      (hcalls : e.calls.toList = iso.engine.calls.toList ++ more) (hlength : more.length ≤ 1)
      (howing : ∀ o, (owing.count o : ℤ) = owed.count o + balance o more) :
      ∃ more, calls ⟨{ iso with engine := e }, owing, marks⟩ = calls ⟨iso, owed, marks⟩ ++ more ∧
        more.length ≤ 1 ∧ ∀ o, balance o more + held ⟨iso, owed, marks⟩ o + owed.count o =
          held ⟨{ iso with engine := e }, owing, marks⟩ o + owing.count o := by
    refine ⟨more, hcalls, hlength, fun o => ?_⟩
    have hheld : held ⟨{ iso with engine := e }, owing, marks⟩ o = held ⟨iso, owed, marks⟩ o := rfl
    rw [hheld, howing]
    omega
  have hsilent (hcalls : n.calls = m.calls)
      (hpass : ∀ o, m.held o + m.owed.count o = n.held o + n.owed.count o) :
      ∃ more, n.calls = m.calls ++ more ∧ more.length ≤ 1 ∧
        ∀ o, balance o more + m.held o + m.owed.count o = n.held o + n.owed.count o := by
    refine ⟨[], by rw [hcalls, List.append_nil], Nat.zero_le 1, fun o => ?_⟩
    have hpassed := hpass o
    rw [balance_nil]
    omega
  cases hs with
  | engine hq hr =>
    obtain ⟨more, hcalls, hlength, hmore⟩ := Traced.quiet_ok hq hr
    apply hcall hcalls hlength
    intro o
    rw [hmore]
    omega
  | strings strings => exact hsilent rfl fun o => rfl
  | functions functions => exact hsilent rfl fun o => rfl
  | @retain iso owed marks ref e hr =>
    apply hcall (Traced.noting_ok hr) (Nat.le_refl 1)
    intro o
    rw [balance_retain, hcons]
    omega
  | @push iso owed marks b hroom =>
    apply hsilent rfl
    intro o
    have hentries : (iso.handles.pushed b).entries.toList = iso.handles.entries.toList ++ [b] :=
      Array.toList_push
    simp only [held, hentries, List.map_append, List.count_append, List.map_singleton,
      hcons o b.object owed]
    omega
  | @release iso owed marks ref e hr =>
    apply hcall (Traced.noting_ok hr) (Nat.le_refl 1)
    intro o
    rw [balance_release, hcons]
    omega
  | @take iso owed marks job e hr =>
    apply hcall (Traced.noting_ok hr) (Nat.le_refl 1)
    intro o
    rw [balance_nextJob, List.count_append]
    omega
  | opened => exact hsilent rfl fun o => rfl
  | @closed iso owed marks mark popped handles hc =>
    apply hsilent rfl
    intro o
    have hsplit := HandleTable.entries_of_closeScope hc
    simp only [held, hsplit, List.map_append, List.count_append]
    omega

theorem Accounts.steps (h : m.Accounts) (hs : Steps m n) : n.Accounts := by
  induction hs with
  | refl => exact h
  | @tail k n _ hlast ih =>
    obtain ⟨more, hcalls, -, hmore⟩ := hlast.noted
    intro o
    calc balance o n.calls
        = balance o k.calls + balance o more := by rw [hcalls, balance_append]
      _ = k.held o + k.owed.count o + balance o more := by rw [ih o]
      _ = n.held o + n.owed.count o := by
        rw [← hmore o]
        omega

/-- Small steps pass every point of the trace of calls. -/
theorem Steps.passes (hs : Steps m n) {made : List EngineCall} (hmade : made <+: n.calls) :
    made <+: m.calls ∨ ∃ k, Steps m k ∧ Steps k n ∧ k.calls = made := by
  induction hs with
  | refl => exact .inl hmade
  | @tail k n hk hlast ih =>
    obtain ⟨more, hcalls, hlength, -⟩ := hlast.noted
    by_cases hall : made = n.calls
    · exact .inr ⟨n, hk.tail hlast, .refl, hall.symm⟩
    · -- a prefix of the calls that is not all of them has no part in the last one
      have hshorter : made.length ≠ n.calls.length := fun he => hall (hmade.eq_of_length he)
      have hle := hmade.length_le
      have hgrown : n.calls.length = k.calls.length + more.length := by
        rw [hcalls, List.length_append]
      have hshort : made.length ≤ k.calls.length := by omega
      have hbefore : k.calls <+: n.calls := by
        rw [hcalls]
        exact List.prefix_append k.calls more
      rcases ih (List.prefix_of_prefix_length_le hmade hbefore hshort) with hfirst | ⟨i, hi, hik, hpass⟩
      · exact .inl hfirst
      · exact .inr ⟨i, hi, hik.tail hlast, hpass⟩

/-- So the balance was never negative, if it was not in the beginning. -/
theorem Accounts.sane (h : m.Accounts) (hfirst : ∀ o made, made <+: m.calls → 0 ≤ balance o made)
    (hs : Steps m n) (o : ObjectRef) (made : List EngineCall) (hmade : made <+: n.calls) :
    0 ≤ balance o made := by
  rcases hs.passes hmade with hbefore | ⟨k, hk, -, rfl⟩
  · exact hfirst o made hbefore
  · rw [h.steps hk o]
    omega

omit [Engine ε] in
theorem accounts_created {id : IsolateId} {config : Config} {engine : ε}
    {iso : Isolate (Traced ε) φ} (marks : List ScopeMark)
    (hc : Isolate.create id config ⟨engine, #[]⟩ = .ok iso) :
    Accounts ⟨iso, [], marks⟩ ∧ calls ⟨iso, [], marks⟩ = [] := by
  obtain rfl := Isolate.create_ok hc
  exact ⟨fun o => rfl, rfl⟩

/-- An isolate that ends pops all its entries before their roots go, and keeps what was owed besides. -/
theorem dispose_steps {iso next : Isolate (Traced ε) φ} {owed : List ObjectRef}
    {marks : List ScopeMark} (h : Accounts ⟨iso, owed, marks⟩)
    (hr : Isolate.dispose iso = .ok () next) :
    ∃ k, k.Accounts ∧ k.calls = calls ⟨iso, owed, marks⟩ ∧ Steps k ⟨next, owed, []⟩ ∧
      ∀ o, held ⟨next, owed, []⟩ o = 0 := by
  obtain ⟨popped, mid, hdrain, hrelease⟩ := bind_ok hr
  rw [Isolate.onHandles_run] at hdrain
  have hpopped : popped = iso.handles.entries.reverse := (EStateM.Result.ok.inj hdrain).1.symm
  have hmid : mid = { iso with handles := iso.handles.drain.2 } :=
    (EStateM.Result.ok.inj hdrain).2.symm
  subst hpopped hmid
  have hempty : iso.handles.drain.2.entries.toList = [] := by
    simp [HandleTable.drain, HandleTable.shrink]
  have hreleases := Isolate.releaseAll_steps owed [] hrelease
  refine ⟨⟨{ iso with handles := iso.handles.drain.2 },
    iso.handles.entries.reverse.toList.map (·.object) ++ owed, []⟩, fun o => ?_, rfl, hreleases,
    fun o => ?_⟩
  · refine (h o).trans ?_
    simp only [held, hempty, Array.toList_reverse, List.map_reverse, List.count_append,
      List.count_reverse]
    simp
  · simp only [held, Isolate.releaseAll_handles hrelease, hempty]
    rfl

end Moment

end Promises
