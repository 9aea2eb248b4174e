import Promises.Proofs.Shell.Session

namespace Promises

namespace Shell

/-- The new name of a handler, where operations are registered in another order. -/
def rename (old new : List Op) (id : FunctionId) : FunctionId :=
  match old[id.index]? with
  | some op => ⟨new.idxOf op⟩
  | none => ⟨new.length⟩

section

variable {old new old' new' : List Op} {op : Op} {id : FunctionId}

theorem rename_of_some (h : old[id.index]? = some op) : rename old new id = ⟨new.idxOf op⟩ := by
  rw [rename, h]

/-- The operation of a handler is the same by its new name. -/
theorem getElem?_rename (hknown : ∀ op ∈ old, op ∈ new) (id : FunctionId) :
    new[(rename old new id).index]? = old[id.index]? := by
  cases hold : old[id.index]? with
  | none =>
    rw [rename, hold]
    exact List.getElem?_eq_none (Nat.le_refl _)
  | some op =>
    rw [rename_of_some hold]
    exact List.getElem?_idxOf (hknown op (List.mem_of_getElem? hold))

theorem rename_idxOf (hop : op ∈ old) : rename old new ⟨old.idxOf op⟩ = ⟨new.idxOf op⟩ :=
  rename_of_some (List.getElem?_idxOf hop)

/-- Operations that are registered later do not change the names. -/
theorem rename_grown (hold : old <+: old') (hnew : new <+: new') (hknown : ∀ op ∈ old, op ∈ new)
    (hid : id.index < old.length) : rename old' new' id = rename old new id := by
  obtain ⟨more, rfl⟩ := hold
  obtain ⟨further, rfl⟩ := hnew
  have hop : old[id.index]? = some old[id.index] := List.getElem?_eq_getElem hid
  have hmem : old[id.index] ∈ new := hknown _ (List.getElem_mem hid)
  rw [rename_of_some hop, rename_of_some ((List.getElem?_append_left hid).trans hop),
    List.idxOf_append_of_mem hmem]

/-- Nor are there other names as long as nothing else was done. -/
theorem rename_eq_self (hp : old <+: new) (hnodup : new.Nodup) (hid : id.index < old.length) :
    rename old new id = id := by
  obtain ⟨more, rfl⟩ := hp
  have hop : old[id.index]? = some old[id.index] := List.getElem?_eq_getElem hid
  have hmem : old[id.index] ∈ old := List.getElem_mem hid
  have hold : old.Nodup := (List.nodup_append.1 hnodup).1
  rw [rename_of_some hop, List.idxOf_append_of_mem hmem, hold.idxOf_getElem]

end

theorem prefix_operations {handlers more : List (Op × FunctionId)} (h : handlers <:+ more) :
    operations handlers <+: operations more := by
  rw [operations, operations, List.reverse_prefix]
  exact h.map Prod.fst

variable {s t s' t' : Shell} {c : Command}

theorem mem_operations_prepared_iff (s : Shell) (c : Command) (op : Op) :
    op ∈ operations (s.prepared c).memory.handlers ↔
      op ∈ operations s.memory.handlers ∨ ∃ kind slot, c = .attach kind slot op := by
  cases c with
  | attach kind slot other =>
    refine (mem_operations_registered_iff s other op).trans (or_congr_right ⟨?_, ?_⟩)
    · rintro rfl
      exact ⟨kind, slot, rfl⟩
    · rintro ⟨_, _, ⟨⟩⟩
      rfl
  | _ => exact ⟨.inl, fun h => h.resolve_right nofun⟩

/-- The promises of the slots after a script. -/
theorem After.promises {v : Upshot} (hf : s.isolate.handles.Fitted) (h : After s t v) :
    t.isolate.handles.entries.map (·.object) =
      s.isolate.handles.entries.map (·.object) ++ v.promises.toArray := by
  rcases h.cases hf with ⟨hnone, hworn, -⟩ | ⟨table, b, hone, hworn, -, -, hhandles, -⟩
  · rw [hnone, hworn.entries, Array.append_empty]
  · rw [hone, hhandles, HandleTable.pushed, Array.map_push, hworn.entries]
    rfl

/-- The other shell knows of the same promises in the same slots, and of all the operations, by names of its
own. -/
structure Twin (s t : Shell) : Prop where
  left : Kept s
  right : Kept t
  promises : t.isolate.handles.entries.map (·.object) = s.isolate.handles.entries.map (·.object)
  known : ∀ op ∈ operations s.memory.handlers, op ∈ operations t.memory.handlers
  engine : t.isolate.engine =
    s.isolate.engine.relabel (rename (operations s.memory.handlers) (operations t.memory.handlers))

namespace Twin

theorem size_eq (h : Twin s t) : t.isolate.handles.entries.size = s.isolate.handles.entries.size := by
  have hsize := congrArg Array.size h.promises
  rwa [Array.size_map, Array.size_map] at hsize

theorem slots_eq (h : Twin s t) : t.memory.slots.size = s.memory.slots.size :=
  h.right.size.symm.trans (h.size_eq.trans h.left.size)

theorem known_prepared (h : Twin s t) (c : Command) :
    ∀ op ∈ operations (s.prepared c).memory.handlers, op ∈ operations (t.prepared c).memory.handlers := by
  intro op hop
  refine (mem_operations_prepared_iff t c op).2 ?_
  exact ((mem_operations_prepared_iff s c op).1 hop).imp_left (h.known op)

/-- The names are the same ones after a registration. -/
theorem engine_prepared (h : Twin s t) (c : Command) :
    t.isolate.engine = s.isolate.engine.relabel
      (rename (operations (s.prepared c).memory.handlers) (operations (t.prepared c).memory.handlers)) := by
  refine h.engine.trans (h.left.confined _ _ fun id hid => ?_)
  rw [h.left.registry.size_eq] at hid
  exact (rename_grown (prefix_operations (enlisted_prepared s c).handlers)
    (prefix_operations (enlisted_prepared t c).handlers) h.known hid).symm

/-- A command is performed on both as on one, as long as there are numbers for all strings. -/
theorem perform (h : Twin s t) (hb : Beside (s.prepared c) s') (hb' : Beside (t.prepared c) t')
    (hs : s'.isolate.strings.size ≤ UInt32.size) (ht : t'.isolate.strings.size ≤ UInt32.size) :
    (t.deskOf t').perform c t.isolate.engine =
      mapResult id (Agent.relabel (rename (operations s'.memory.handlers) (operations t'.memory.handlers)))
        ((s.deskOf s').perform c s.isolate.engine) := by
  have hsound := hb.strings.sound (h.left.prepared c).strings
  have hsound' := hb'.strings.sound (h.right.prepared c).strings
  have hknown := h.known_prepared c
  have hengine := h.engine_prepared c
  rw [← hb.handlers, ← hb'.handlers] at hknown hengine
  have hrenamed : Desk.Renamed (rename (operations s'.memory.handlers) (operations t'.memory.handlers))
      (s.deskOf s') (t.deskOf t') := by
    refine ⟨h.promises, ?_, ?_, getElem?_rename hknown⟩
    · simp only [deskOf, desk, h.size_eq]
    · simp only [deskOf, desk, hsound.reading_eq hs, hsound'.reading_eq ht]
  have hname (kind : ReactionKind) (slot : ℕ) (op : Op) (hc : c = .attach kind slot op) :
      (t.deskOf t').name op = rename (operations s'.memory.handlers) (operations t'.memory.handlers)
        ((s.deskOf s').name op) := by
    have hop := (mem_operations_prepared_iff s c op).2 (.inr ⟨kind, slot, hc⟩)
    rw [← hb.handlers] at hop
    exact (rename_idxOf hop).symm
  rw [hengine]
  exact hrenamed.perform hname s.isolate.engine

/-- What was performed on both leaves two that differ in names again. -/
theorem performed (h : Twin s t) {v : Upshot} (hs : Performed s s' c v) (ht : Performed t t' c v)
    (hengine : t'.isolate.engine = s'.isolate.engine.relabel
      (rename (operations s'.memory.handlers) (operations t'.memory.handlers))) : Twin s' t' := by
  have hknown := h.known_prepared c
  rw [← hs.beside.handlers, ← ht.beside.handlers] at hknown
  refine ⟨hs.kept, ht.kept, ?_, hknown, hengine⟩
  rw [ht.after.promises (h.right.prepared c).fitted, hs.after.promises (h.left.prepared c).fitted,
    (enlisted_prepared t c).handles, (enlisted_prepared s c).handles, h.promises]

/-- A line is answered by both as by one. -/
theorem exec (h : Twin s t) (line : String) (hs : (session s [line]).2.isolate.strings.size ≤ UInt32.size)
    (ht : (session t [line]).2.isolate.strings.size ≤ UInt32.size) :
    (∃ answer s' t', Shell.exec line s = .ok answer s' ∧ Shell.exec line t = .ok answer t' ∧ Twin s' t') ∨
      ∃ halt s' t', Shell.exec line s = .error halt s' ∧ Shell.exec line t = .error halt t' := by
  rcases exec_cases line with ⟨answer, -, hline⟩ | ⟨c, hf, hline⟩
  · exact .inl ⟨answer, s, t, hline s, hline t, h⟩
  rcases execute_cases h.left hf with ⟨v, s', hrun, hdone⟩ | ⟨s', e, hrun, hb, hfull, -⟩
  · have hexec := exec_run hline hrun
    rw [session_ok hexec] at hs
    rcases execute_cases h.right hf with ⟨w, t', hrun', hdone'⟩ | ⟨t', e, hrun', hb', hfull, -⟩
    · have hexec' := exec_run hline hrun'
      rw [session_ok hexec'] at ht
      have hsame := h.perform hdone.beside hdone'.beside hs ht
      rw [hdone.perform, hdone'.perform] at hsame
      obtain ⟨rfl, hengine⟩ := EStateM.Result.ok.inj hsame
      rw [h.slots_eq] at hexec'
      exact .inl ⟨_, s', t', hexec, hexec', h.performed hdone hdone' hengine⟩
    · rw [session_error (exec_error hline hrun')] at ht
      have hsame := h.perform hdone.beside hb' hs ht
      rw [hdone.perform, hfull] at hsame
      cases hsame
  · have hexec := exec_error hline hrun
    rw [session_error hexec] at hs
    rcases execute_cases h.right hf with ⟨w, t', hrun', hdone'⟩ | ⟨t', e', hrun', hb', hfull', -⟩
    · rw [session_ok (exec_run hline hrun')] at ht
      have hsame := h.perform hb hdone'.beside hs ht
      rw [hfull, hdone'.perform] at hsame
      cases hsame
    · exact .inr ⟨_, s', t', hexec, exec_error hline hrun'⟩

end Twin

theorem strings_session (hk : Kept s) (lines : List String) :
    s.isolate.strings.size ≤ (session s lines).2.isolate.strings.size := by
  induction lines generalizing s with
  | nil => exact Nat.le_refl _
  | cons line lines ih =>
    rcases exec_kept hk line with ⟨answer, t, hrun, hkept, hlasting, -⟩ | ⟨t, hrun, hgrown, -⟩
    · rw [session_ok hrun]
      exact hlasting.strings.size_le.trans (ih hkept)
    · rw [session_error hrun]
      exact hgrown.size_le

/-- The first line of a session has seen no more strings than the session. -/
theorem strings_session_cons (hk : Kept s) (line : String) (lines : List String) :
    (session s [line]).2.isolate.strings.size ≤ (session s (line :: lines)).2.isolate.strings.size := by
  rcases exec_kept hk line with ⟨answer, t, hrun, hkept, -⟩ | ⟨t, hrun, -⟩
  · rw [session_ok hrun, session_ok hrun]
    exact strings_session hkept lines
  · rw [session_error hrun, session_error hrun]

/-- Lines are answered by both as by one, as long as there are numbers for all strings. -/
theorem Twin.session (h : Twin s t) (lines : List String)
    (hs : (Shell.session s lines).2.isolate.strings.size ≤ UInt32.size)
    (ht : (Shell.session t lines).2.isolate.strings.size ≤ UInt32.size) :
    (Shell.session t lines).1 = (Shell.session s lines).1 := by
  induction lines generalizing s t with
  | nil => rfl
  | cons line lines ih =>
    rcases h.exec line ((strings_session_cons h.left line lines).trans hs)
        ((strings_session_cons h.right line lines).trans ht) with
      ⟨answer, s', t', hrun, hrun', htwin⟩ | ⟨halt, s', t', hrun, hrun'⟩
    · rw [session_ok hrun] at hs ⊢
      rw [session_ok hrun'] at ht ⊢
      rw [ih htwin hs ht]
    · rw [session_error hrun, session_error hrun']

/-- A command that fails leaves everything but what is noted of strings and handlers. -/
theorem Performed.unchanged (hk : Kept s) {failure : Failure} (h : Performed s t c (.failed failure)) :
    t.isolate.engine = s.isolate.engine ∧ t.isolate.handles = s.isolate.handles ∧
      t.memory.slots = s.memory.slots := by
  have hsame := enlisted_prepared s c
  obtain ⟨hhandles, hslots⟩ := h.after
  exact ⟨Desk.perform_failed hk.held.fit.sound hk.held.room h.perform, hhandles.trans hsame.handles,
    hslots.trans hsame.slots⟩

/-- The shell after a failed line differs in names from the shell before. -/
theorem twin_of_unchanged (hs : Kept s) (ht : Kept t) (hl : Lasting s t)
    (he : t.isolate.engine = s.isolate.engine) (hh : t.isolate.handles = s.isolate.handles) : Twin s t := by
  have hprefix := prefix_operations hl.handlers
  refine ⟨hs, ht, congrArg (·.entries.map (·.object)) hh, fun op hop => hprefix.subset hop, ?_⟩
  calc t.isolate.engine
      = s.isolate.engine.relabel (fun id => id) := by rw [he, Agent.relabel_id]
    _ = s.isolate.engine.relabel _ := hs.confined _ _ fun id hid => by
      rw [hs.registry.size_eq] at hid
      exact (rename_eq_self hprefix ht.registry.nodup hid).symm

/-- A line that fails changes nothing. The engine, with its heap, its queue and its flag, is the same as before,
and so are the handles and the slots; only strings and handlers may have been noted. So all lines that come
later are answered as if the line had not been entered. The numbers of strings have 32 bits, so that this
goes for sessions that see no more strings than that. -/
theorem failed_line_changes_nothing {config : Config} {first : Shell} (hnew : Shell.new config = .ok first)
    (hs : Reaches first s) {line : String} {failure : Failure} (hrun : exec line s = .ok (.error failure) t) :
    t.isolate.engine = s.isolate.engine ∧ t.isolate.handles = s.isolate.handles ∧
      t.memory.slots = s.memory.slots ∧ Lasting s t ∧
      ∀ lines, (session s lines).2.isolate.strings.size ≤ UInt32.size →
        (session t lines).2.isolate.strings.size ≤ UInt32.size → (session t lines).1 = (session s lines).1 := by
  obtain ⟨hk, -⟩ := hs.kept (kept_new hnew)
  obtain ⟨hkept, hlasting⟩ := Enters.kept ⟨line, _, hrun⟩ hk
  have hunchanged : t.isolate.engine = s.isolate.engine ∧ t.isolate.handles = s.isolate.handles ∧
      t.memory.slots = s.memory.slots := by
    rcases exec_cases line with ⟨answer, -, hline⟩ | ⟨c, hf, hline⟩
    · obtain ⟨-, rfl⟩ := EStateM.Result.ok.inj (hrun.symm.trans (hline s))
      exact ⟨rfl, rfl, rfl⟩
    · rcases execute_cases hk hf with ⟨v, t', hexecute, hdone⟩ | ⟨t', e, hexecute, -⟩
      · obtain ⟨hanswer, rfl⟩ := EStateM.Result.ok.inj (hrun.symm.trans (exec_run hline hexecute))
        cases v with
        | failed _ => exact hdone.unchanged hk
        | said text => cases hanswer
        | kept ref => cases hanswer
      · cases hrun.symm.trans (exec_error hline hexecute)
  obtain ⟨hengine, hhandles, hslots⟩ := hunchanged
  exact ⟨hengine, hhandles, hslots, hlasting,
    fun lines => (twin_of_unchanged hk hkept hlasting hengine hhandles).session lines⟩

/-- What a line is answered, by a session of that line. -/
theorem exec_of_session {line : String} {answer : Except Failure (Option String)}
    (h : (session s [line]).1.map (·.toOption) = [some answer]) :
    exec line s = .ok answer (session s [line]).2 := by
  cases hr : exec line s with
  | ok other t =>
    rw [session_ok hr] at h ⊢
    obtain rfl : other = answer := Option.some.inj (List.cons.inj h).1
    rfl
  | error halt t =>
    rw [session_error hr] at h
    cases (List.cons.inj h).1

/-- A session after which a reaction is refused. -/
def refusing : List String := ["new", "terminate"]

/-- A session that registers handlers. -/
def registering : List String :=
  ["resume", "then $0 mul 2", "then $0 add 1", "resolve $0 21", "run", "result $1", "result $2"]

/-- The refused reaction has registered its handler, so that the handlers of the reactions to come have other
names, and they do the same. -/
theorem failed_line_changes_nothing_refused :
    ∃ first s t, Shell.new .default = .ok first ∧ s = (session first refusing).2 ∧
      exec "then $0 add 1" s = .ok (.error (.refused "then")) t ∧ t.isolate.engine = s.isolate.engine ∧
      t.isolate.handles = s.isolate.handles ∧ t.memory.slots = s.memory.slots ∧
      s.isolate.functions.size = 0 ∧ t.isolate.functions.size = 1 ∧
      (session t registering).1 = (session s registering).1 ∧
      (session s registering).1.map (·.toOption) = [some (.ok (some "running")),
        some (.ok (some "$1 = [object Promise]")), some (.ok (some "$2 = [object Promise]")),
        some (.ok (some "true")), some (.ok (some "ran 2 reaction(s)")), some (.ok (some "42")),
        some (.ok (some "22"))] := by
  have hvalid : Config.default.isValid = true := rfl
  obtain ⟨first, hnew⟩ := new_total hvalid (by decide)
  obtain rfl := new_eq hnew
  have hok : (session (fresh .default) refusing).1.all (·.isOk) = true := by decide +kernel
  have hanswer : (session (session (fresh .default) refusing).2 ["then $0 add 1"]).1.map (·.toOption) =
      [some (.error (.refused "then"))] := by decide +kernel
  have hrun := exec_of_session hanswer
  obtain ⟨hengine, hhandles, hslots, -, hlater⟩ := failed_line_changes_nothing hnew (reaches_session hok) hrun
  have hleft : (session (session (fresh .default) refusing).2 registering).2.isolate.strings.size ≤
      UInt32.size := by decide +kernel
  have hright : (session (session (session (fresh .default) refusing).2 ["then $0 add 1"]).2
      registering).2.isolate.strings.size ≤ UInt32.size := by decide +kernel
  exact ⟨_, _, _, hnew, rfl, hrun, hengine, hhandles, hslots, by decide +kernel, by decide +kernel,
    hlater registering hleft hright, by decide +kernel⟩

end Shell

end Promises
