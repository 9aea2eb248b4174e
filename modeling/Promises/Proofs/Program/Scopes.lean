import Promises.Proofs.Isolate.Served
import Promises.Proofs.Program.Slots

namespace Promises

namespace Stage

open HandleTable

variable {ε κ : Type} [Engine ε] {s u w : Stage ε κ Empty} {m m' : Machine ε κ Empty}
  {body whole p : Program κ Empty} {frames : List (Frame κ Empty)} {bottom : Frame κ Empty}
  {t : HandleTable} {c c' : Completion} {n : ℕ}

/-- A stage within the scope of the outermost frame, which was opened on a table. -/
structure Inside (t : HandleTable) (bottom : Frame κ Empty) (u : Stage ε κ Empty) : Prop where
  frames : ∃ inner, u.frames = inner ++ [bottom]
  mark : bottom.mark = t.openScope.1
  under : t.Under u.table (marks u.frames)

theorem Inside.step (h : Inside t bottom u) (hs : u.step = .ok (p, frames) m) :
    Inside t bottom ⟨m, p, frames⟩ ∨ ∃ c, u.program = .done c ∧ u.frames = [bottom] ∧ frames = [] := by
  obtain ⟨inner, hframes⟩ := h.frames
  have hunder := h.under
  have hshifts := step_shifts hs
  cases hshifts with
  | grown hd hg => exact .inl ⟨⟨inner, hframes⟩, h.mark, hunder.grown hg⟩
  | @opened frame hd hm hg =>
    have hopened := hunder.opened.grown hg
    rw [← hm] at hopened
    exact .inl ⟨⟨frame :: inner, congrArg (frame :: ·) hframes⟩, h.mark, hopened⟩
  | @closed c frame _ popped mid hp hf hc hg =>
    rw [hf] at hframes hunder
    cases inner with
    | nil =>
      obtain ⟨rfl, rfl⟩ := List.cons.inj hframes
      exact .inr ⟨c, hp, hf, rfl⟩
    | cons first inner =>
      obtain ⟨rfl, rfl⟩ := List.cons.inj hframes
      exact .inl ⟨⟨inner, rfl⟩, h.mark, (hunder.closed hc).grown hg⟩

/-- A way from within a scope stays there, or comes by the end of the body. -/
theorem Inside.leads (h : Inside t bottom u) (hn : Leads n u w) :
    Inside t bottom w ∨ ∃ i j m c m' p, n = i + (1 + j) ∧ Leads i u ⟨m, .done c, [bottom]⟩ ∧
      Inside t bottom ⟨m, .done c, [bottom]⟩ ∧
      (⟨m, .done c, [bottom]⟩ : Stage ε κ Empty).step = .ok (p, []) m' ∧ Leads j ⟨m', p, []⟩ w := by
  induction hn with
  | refl => exact .inl h
  | @step n u w m' p frames hs hrest ih =>
    rcases h.step hs with hin | ⟨c, hp, hf, rfl⟩
    · rcases ih hin with hin | ⟨i, j, m, c, m', p, rfl, hi, hend, hleft, hj⟩
      · exact .inl hin
      · exact .inr ⟨i + 1, j, m, c, m', p, Nat.add_right_comm i (1 + j) 1, .step hs hi, hend, hleft, hj⟩
    · obtain ⟨m, q, frames⟩ := u
      obtain rfl : q = .done c := hp
      obtain rfl : frames = [bottom] := hf
      exact .inr ⟨0, n, m, c, m', p, by omega, .refl _, h, hs, hrest⟩

/-- A slot that is filled within a scope is popped on the way out, at the latest when the scope closes. -/
theorem Inside.retirements_pos (h : Inside t bottom u) {slot : ℕ} (hslot : t.entries.size ≤ slot)
    {b : Binding} (hb : u.table.entries[slot]? = some b) (hi : Leads n u ⟨m, .done c, [bottom]⟩)
    (hleft : (⟨m, .done c, [bottom]⟩ : Stage ε κ Empty).step = .ok (p, []) m') :
    0 < retirements slot (n + 1) u := by
  rw [retirements_add hi, retirements_succ hleft]
  by_cases hkept : retirements slot n u = 0
  · have hentry := hi.entry hkept hb
    have hlt : slot < m.isolate.handles.entries.size := (Array.getElem?_eq_some_iff.1 hentry).1
    have hstart : bottom.mark.start ≤ slot := by
      rw [h.mark]
      exact hslot
    have hretires : (⟨m, .done c, [bottom]⟩ : Stage ε κ Empty).retires slot = true := by
      rw [retires_of_done rfl rfl]
      exact Bool.and_eq_true_iff.2 ⟨decide_eq_true hstart, decide_eq_true hlt⟩
    rw [hretires, Bool.toNat_true]
    omega
  · omega

/-- The programs that run a body in a scope, with the frames that wait for it. -/
inductive Wraps (body : Program κ Empty) :
    Program κ Empty → (ScopeMark → Frame κ Empty) → Prop
  | scope : Wraps body (.scope body .done) (.scope · .done)
  | escape : Wraps body (.escape body .done) (.escape · .done)

variable {frame : ScopeMark → Frame κ Empty}

theorem Wraps.enters (hw : Wraps body whole frame) (hf : m.isolate.handles.Fitted) :
    ∃ m₁, (⟨m, whole, []⟩ : Stage ε κ Empty).step =
        .ok (body, [frame m.isolate.handles.openScope.1]) m₁ ∧
      Inside m.isolate.handles (frame m.isolate.handles.openScope.1)
        ⟨m₁, body, [frame m.isolate.handles.openScope.1]⟩ := by
  have hunder := (Under.refl hf).opened
  cases hw with
  | scope => exact ⟨_, rfl, ⟨[], rfl⟩, rfl, hunder⟩
  | escape => exact ⟨_, rfl, ⟨[], rfl⟩, rfl, hunder⟩

theorem Wraps.ends (hw : Wraps body whole frame) {mark : ScopeMark}
    (hs : (⟨m, .done c, [frame mark]⟩ : Stage ε κ Empty).step = .ok (p, frames) m') :
    ∃ c', p = .done c' := by
  cases hw with
  | scope =>
    cases goes_of_step hs with
    | leaveScope => exact ⟨c, rfl⟩
  | escape =>
    cases goes_of_step hs with
    | leaveEscape => exact ⟨c, rfl⟩
    | escape => exact ⟨_, rfl⟩

/-- The end of a body in its scope: the one frame that is left waits for it. -/
def BodyEnds {ε κ : Type} [Engine ε] (s : Stage ε κ Empty) (whole : Program κ Empty)
    (m : Machine ε κ Empty) (c : Completion) : Prop :=
  ∃ n frame, Leads n ⟨s.machine, whole, []⟩ ⟨m, .done c, [frame]⟩

/-- A way into a scope and out of it comes by the end of the body. -/
theorem Wraps.leaves (hw : Wraps body whole frame) (hf : s.table.Fitted) (hn : Leads n ⟨s.machine, whole, []⟩ w)
    (hn0 : n ≠ 0) :
    Inside s.table (frame s.table.openScope.1) w ∨
      ∃ m c m' c', Inside s.table (frame s.table.openScope.1) ⟨m, .done c, [frame s.table.openScope.1]⟩ ∧
        (∃ i, Leads i ⟨s.machine, whole, []⟩ ⟨m, .done c, [frame s.table.openScope.1]⟩) ∧
        (⟨m, .done c, [frame s.table.openScope.1]⟩ : Stage ε κ Empty).step = .ok (.done c', []) m' ∧
        w = ⟨m', .done c', []⟩ := by
  obtain ⟨m₁, hfirst, hin⟩ := hw.enters (m := s.machine) hf
  obtain ⟨n, rfl⟩ := Nat.exists_eq_succ_of_ne_zero hn0
  have hone : Leads 1 ⟨s.machine, whole, []⟩ ⟨m₁, body, [frame s.table.openScope.1]⟩ :=
    .step hfirst (.refl _)
  have hrest : Leads n ⟨m₁, body, [frame s.table.openScope.1]⟩ w := by
    apply hone.rest
    rw [Nat.add_comm]
    exact hn
  rcases hin.leads hrest with hinside | ⟨i, j, m, c, m', p, -, hi, hend, hleft, hj⟩
  · exact .inl hinside
  · obtain ⟨c', rfl⟩ := hw.ends hleft
    exact .inr ⟨m, c, m', c', hend, ⟨1 + i, hone.trans hi⟩, hleft, hj.of_done⟩

/-- The table after a program that ran a body in a scope: it is as it was but for what was added, and no
handle that was got inside is live until the serials of its slot come round. -/
structure Restores {ε κ : Type} [Engine ε] (s : Stage ε κ Empty) (whole : Program κ Empty)
    (m' : Machine ε κ Empty) (added : List Binding) : Prop where
  entries : m'.isolate.handles.entries.toList = s.table.entries.toList ++ added
  scopes : m'.isolate.handles.scopes = s.table.scopes
  valid : ∀ h b, s.table.get h = .ok b → m'.isolate.handles.get h = .ok b
  rejected : ∀ i u, Leads i ⟨s.machine, whole, []⟩ u → u.frames ≠ [] →
    ∀ h b, u.table.get h = .ok b → s.table.size ≤ h.index.toNat →
      ∀ j c, Leads j u ⟨m', .done c, []⟩ → ∀ k p frames w, Leads k ⟨m', p, frames⟩ w →
        retirements h.index.toNat j u + retirements h.index.toNat k ⟨m', p, frames⟩ < 65536 →
          w.table.get h = .error (.invalidHandle h)

theorem Wraps.rejected (hw : Wraps body whole frame) (hf : s.table.Fitted) {i j k : ℕ}
    (hi : Leads i ⟨s.machine, whole, []⟩ u) (hu : u.frames ≠ []) {h : HandleId} {b : Binding}
    (hg : u.table.get h = .ok b) (hnew : s.table.size ≤ h.index.toNat)
    (hj : Leads j u ⟨m', .done c, []⟩) (hk : Leads k ⟨m', p, frames⟩ w)
    (hround : retirements h.index.toNat j u + retirements h.index.toNat k ⟨m', p, frames⟩ < 65536) :
    w.table.get h = .error (.invalidHandle h) := by
  have hi0 : i ≠ 0 := by
    rintro rfl
    cases hi
    exact hu rfl
  have hin : Inside s.table (frame s.table.openScope.1) u := by
    rcases hw.leaves hf hi hi0 with hin | ⟨_, _, _, _, -, -, -, rfl⟩
    · exact hin
    · exact absurd rfl hu
  obtain ⟨htag, hentry, hserial⟩ := get_eq_ok_iff.1 hg
  have hpos : 0 < retirements h.index.toNat j u := by
    rcases hin.leads hj with hend | ⟨i, r, m, c, m₃, p, rfl, hbody, -, hleft, -⟩
    · obtain ⟨inner, hframes⟩ := hend.frames
      exact absurd hframes.symm (by simp)
    · have hout : Leads (i + 1) u ⟨m₃, p, []⟩ := hbody.trans (.step hleft (.refl _))
      rw [← Nat.add_assoc, retirements_add hout]
      have hslot := hin.retirements_pos hnew hentry hbody hleft
      omega
  -- the machine at the end of the scope is where the ways inside and after it meet
  have hmid : m'.isolate.handles.serials[h.index.toNat]? =
      some (h.serial + BitVec.ofNat 16 (retirements h.index.toNat j u)) := hj.serials hserial
  have hlast : w.table.serials[h.index.toNat]? =
      some (h.serial + BitVec.ofNat 16 (retirements h.index.toNat j u) +
        BitVec.ofNat 16 (retirements h.index.toNat k ⟨m', p, frames⟩)) := hk.serials hmid
  rw [BitVec.add_assoc, ← BitVec.ofNat_add] at hlast
  refine get_eq_invalid ?_ hlast (by omega) hround
  have hmeet : m'.isolate.handles.isolate = u.table.isolate := hj.table.1
  rw [hk.table.1, htag]
  exact congrArg IsolateId.tag hmeet.symm

/-- What a body lets escape from its scope: nothing if it ends with a value that is no handle, and else
another entry for what the handle is bound to, with a handle of its own. -/
inductive Escapes {ε κ : Type} (m : Machine ε κ Empty) (c : Completion) (m' : Machine ε κ Empty) :
    Completion → List Binding → Prop
  | value (hv : c.value.handle? = none) : Escapes m c m' c []
  | handle {h h' : HandleId} {b : Binding} (hh : c.value.handle? = some h)
    (hb : m.isolate.handles.get h = .ok b) (hb' : m'.isolate.handles.get h' = .ok b) :
    Escapes m c m' (c.replace (.handle h')) [b]

/-- A run of a program that runs a body in a scope comes to an end by the end of the body. -/
theorem Wraps.passes (hw : Wraps body whole frame) (hf : s.table.Fitted)
    (hn : Leads n ⟨s.machine, whole, []⟩ ⟨m', .done c', []⟩) :
    ∃ m c, Inside s.table (frame s.table.openScope.1) ⟨m, .done c, [frame s.table.openScope.1]⟩ ∧
      (∃ i, Leads i ⟨s.machine, whole, []⟩ ⟨m, .done c, [frame s.table.openScope.1]⟩) ∧
      (⟨m, .done c, [frame s.table.openScope.1]⟩ : Stage ε κ Empty).step = .ok (.done c', []) m' := by
  have hn0 : n ≠ 0 := by
    rintro rfl
    cases hw <;> cases hn
  rcases hw.leaves hf hn hn0 with hin | ⟨m, c, m₃, c₃, hin, hbody, hleft, hsame⟩
  · obtain ⟨inner, hframes⟩ := hin.frames
    exact absurd hframes.symm (by simp)
  · cases hsame
    exact ⟨m, c, hin, hbody, hleft⟩

theorem Wraps.ended (hw : Wraps body whole frame) (hf : s.table.Fitted) (hb : s.BodyEnds whole m c) :
    Inside s.table (frame s.table.openScope.1) ⟨m, .done c, [frame s.table.openScope.1]⟩ ∧
      ∃ i, Leads i ⟨s.machine, whole, []⟩ ⟨m, .done c, [frame s.table.openScope.1]⟩ := by
  obtain ⟨n, last, hn⟩ := hb
  have hn0 : n ≠ 0 := by
    rintro rfl
    cases hw <;> cases hn
  rcases hw.leaves hf hn hn0 with hin | ⟨_, _, _, _, -, -, -, hsame⟩
  · obtain ⟨inner, hframes⟩ := hin.frames
    have hlast : [last] = inner ++ [frame s.table.openScope.1] := hframes
    cases inner with
    | nil =>
      obtain ⟨rfl, -⟩ := List.cons.inj hlast
      exact ⟨hin, n, hn⟩
    | cons first inner => simp at hlast
  · cases hsame

omit [Engine ε] in
/-- The table when the scope of a body is closed. -/
theorem Inside.closed {mark : ScopeMark} (hin : Inside t bottom ⟨m, .done c, [bottom]⟩)
    (hmark : bottom.mark = mark) {popped : Array Binding} {v : HandleTable}
    (hc : m.isolate.handles.closeScope mark = (.ok popped, v)) :
    t.Under v [] ∧ v.entries.toList = t.entries.toList ∧ v.scopes = t.scopes := by
  subst hmark
  have hunder : t.Under m.isolate.handles [bottom.mark] := hin.under
  have hstart : bottom.mark.start = t.entries.size := by rw [hin.mark]; rfl
  exact ⟨hunder.closed hc, hunder.emptied hstart hc⟩

theorem scope_restores (hf : s.table.Fitted)
    (hn : Leads n ⟨s.machine, .scope body .done, []⟩ ⟨m', .done c', []⟩) :
    s.Restores (.scope body .done) m' [] ∧ ∃ m, s.BodyEnds (.scope body .done) m c' := by
  obtain ⟨m, c, hin, ⟨i, hbody⟩, hleft⟩ := (Wraps.scope : Wraps body _ _).passes hf hn
  cases goes_of_step hleft with
  | leaveScope hclose =>
    obtain ⟨popped, htable, -⟩ := Isolate.closeScope_popped hclose
    obtain ⟨hunder, hentries, hscopes⟩ := hin.closed rfl htable
    refine ⟨⟨?_, hscopes, fun h b hg => hunder.get hg, ?_⟩, m, i, _, hbody⟩
    · rw [hentries, List.append_nil]
    · intro i u hi hu h b hg hnew j c hj k p frames w hk hround
      exact Wraps.scope.rejected hf hi hu hg hnew hj hk hround

theorem escape_restores (body : Program κ Empty) (hf : s.table.Fitted) {mark : ScopeMark}
    (hin : Inside s.table (.escape mark .done) ⟨m, .done c, [.escape mark .done]⟩)
    (hleft : (⟨m, .done c, [.escape mark .done]⟩ : Stage ε κ Empty).step = .ok (.done c', []) m') :
    ∃ added, Escapes m c m' c' added ∧ s.Restores (.escape body .done) m' added := by
  have hrejected {added : List Binding}
      (hentries : m'.isolate.handles.entries.toList = s.table.entries.toList ++ added)
      (hscopes : m'.isolate.handles.scopes = s.table.scopes)
      (hunder : s.table.Under m'.isolate.handles []) : s.Restores (.escape body .done) m' added := by
    refine ⟨hentries, hscopes, fun h b hg => hunder.get hg, ?_⟩
    intro i u hi hu h b hg hnew j c hj k p frames w hk hround
    exact Wraps.escape.rejected hf hi hu hg hnew hj hk hround
  cases goes_of_step hleft with
  | leaveEscape hv hclose =>
    obtain ⟨popped, htable, -⟩ := Isolate.closeScope_popped hclose
    obtain ⟨hunder, hentries, hscopes⟩ := hin.closed rfl htable
    refine ⟨[], .value hv, hrejected ?_ hscopes hunder⟩
    rw [hentries, List.append_nil]
  | @escape _ _ _ _ _ h h' b closed iso hv hget hclose hregister =>
    obtain ⟨popped, htable, -⟩ := Isolate.closeScope_popped hclose
    obtain ⟨hunder, hentries, hscopes⟩ := hin.closed rfl htable
    obtain ⟨e, -, hroom, rfl, rfl⟩ := Isolate.register_entry hregister
    refine ⟨[b], .handle hv hget (get_nextId hunder.fitted hroom), hrejected ?_ hscopes ?_⟩
    · rw [pushed, Array.toList_push, hentries]
    · exact hunder.grown (grown_pushed _ b)

end Stage

end Promises
