import Mathlib.Logic.Relation
import Promises.Proofs.Shell.Execute

namespace Promises

namespace Shell

/-- A failure of a line that has no command. -/
def Failure.OfText (failure : Failure) : Prop :=
  (∃ text, failure = .malformed text) ∨ ∃ n, failure = .intRange n

theorem except_bind_error {ε α β : Type} {x : Except ε α} {f : α → Except ε β} {e : ε}
    (h : (x >>= f) = .error e) : x = .error e ∨ ∃ a, x = .ok a ∧ f a = .error e := by
  cases x with
  | error e' =>
    obtain rfl : e' = e := Except.error.inj h
    exact .inl rfl
  | ok a => exact .inr ⟨a, rfl, h⟩

theorem smallInt_error {cs : List Char} {failure : Failure} (h : smallInt cs = .error failure) :
    failure.OfText := by
  unfold smallInt at h
  split at h
  · split at h
    · cases h
    · exact .inr ⟨_, (Except.error.inj h).symm⟩
  · exact .inl ⟨_, (Except.error.inj h).symm⟩

theorem operand_error {cs : List Char} {failure : Failure} (h : operand cs = .error failure) :
    failure.OfText := by
  have hmalformed (h : (.error (.malformed (String.ofList cs)) : Except Failure Operand) = .error failure) :
      failure.OfText := .inl ⟨_, (Except.error.inj h).symm⟩
  rw [operand_eq] at h
  split at h
  · cases h
  · split at h
    · cases hn : smallInt cs with
      | ok n =>
        rw [hn] at h
        cases h
      | error e =>
        rw [hn] at h
        obtain rfl := Except.error.inj h
        exact smallInt_error hn
    · split at h
      · cases h
      · split at h
        · split at h
          · cases h
          · exact hmalformed h
        · exact hmalformed h

theorem mapM_smallInt_error {argument : Option (List Char)} {failure : Failure}
    (h : argument.mapM smallInt = .error failure) : failure.OfText := by
  cases argument with
  | none => cases h
  | some cs =>
    rcases except_bind_error h with hn | ⟨n, -, hn⟩
    · exact smallInt_error hn
    · cases hn

theorem parse_error {line : List Char} {failure : Failure} (h : parse line = .error failure) :
    failure.OfText := by
  unfold parse at h
  cases hform : form? line with
  | none =>
    rw [hform] at h
    exact .inl ⟨_, (Except.error.inj h).symm⟩
  | some form =>
    rw [hform] at h
    cases form with
    | word word => cases h
    | settle kind digits text =>
      rcases except_bind_error h with hs | ⟨slot, -, h⟩
      · exact .inl ⟨_, part_eq_error hs⟩
      · rcases except_bind_error h with ho | ⟨o, -, h⟩
        · exact operand_error ho
        · cases h
    | query query digits =>
      rcases except_bind_error h with hs | ⟨slot, -, h⟩
      · exact .inl ⟨_, part_eq_error hs⟩
      · cases h
    | attach kind digits name argument =>
      rcases except_bind_error h with hs | ⟨slot, -, h⟩
      · exact .inl ⟨_, part_eq_error hs⟩
      · rcases except_bind_error h with ha | ⟨n, -, h⟩
        · exact mapM_smallInt_error ha
        · rcases except_bind_error h with ho | ⟨op, -, h⟩
          · exact .inl ⟨_, part_eq_error ho⟩
          · cases h

variable {s t u : Shell} {c : Command}

/-- What was bound to a slot stays bound to it, and nothing that was noted elsewhere is lost. -/
structure Lasting (s t : Shell) : Prop where
  id : t.isolate.id = s.isolate.id
  config : t.isolate.config = s.isolate.config
  slots : s.memory.slots.toList <+: t.memory.slots.toList
  get : ∀ (h : HandleId) (b : Binding), s.isolate.handles.get h = .ok b → t.isolate.handles.get h = .ok b
  functions : s.isolate.functions.toList <+: t.isolate.functions.toList
  handlers : s.memory.handlers <:+ t.memory.handlers
  strings : s.isolate.strings.Grown t.isolate.strings

theorem Lasting.refl (s : Shell) : Lasting s s :=
  ⟨rfl, rfl, List.prefix_rfl, fun _ _ h => h, List.prefix_rfl, List.suffix_rfl, .refl _⟩

theorem Lasting.trans (h : Lasting s t) (h' : Lasting t u) : Lasting s u where
  id := h'.id.trans h.id
  config := h'.config.trans h.config
  slots := h.slots.trans h'.slots
  get handle b hg := h'.get handle b (h.get handle b hg)
  functions := h.functions.trans h'.functions
  handlers := h.handlers.trans h'.handlers
  strings := h.strings.trans h'.strings

/-- The handles and slots after a script: as before, or with a promise for a new slot. -/
theorem After.cases {v : Upshot} (hf : s.isolate.handles.Fitted) (h : After s t v) :
    (v.promises = [] ∧ s.isolate.handles.Worn t.isolate.handles ∧ t.memory.slots = s.memory.slots) ∨
      ∃ table b, v.promises = [b.object] ∧ s.isolate.handles.Worn table ∧
        s.isolate.handles.entries.size < HandleId.capacity ∧ b.kind = .promise ∧
        t.isolate.handles = table.pushed b ∧ t.memory.slots = s.memory.slots.push (.handle table.nextId) := by
  cases v with
  | failed failure =>
    obtain ⟨hhandles, hslots⟩ := h
    refine .inl ⟨rfl, ?_, hslots⟩
    rw [hhandles]
    exact .refl hf
  | said text => exact .inl ⟨rfl, h.1, h.2⟩
  | kept ref =>
    obtain ⟨table, b, hworn, hroom, rfl, hkind, hhandles, hslots⟩ := h
    exact .inr ⟨table, b, rfl, hworn, hroom, hkind, hhandles, hslots⟩

theorem lasting_after {v : Upshot} (hf : s.isolate.handles.Fitted) (hb : Beside s t) (h : After s t v) :
    Lasting s t := by
  have hfunctions : s.isolate.functions.toList <+: t.isolate.functions.toList := hb.functions ▸ List.prefix_rfl
  have hhandlers : s.memory.handlers <:+ t.memory.handlers := hb.handlers ▸ List.suffix_rfl
  rcases h.cases hf with ⟨-, hworn, hslots⟩ | ⟨table, b, -, hworn, -, -, hhandles, hslots⟩
  · refine ⟨hb.id, hb.config, ?_, fun handle b hg => hworn.under.get hg, hfunctions, hhandlers, hb.strings⟩
    rw [hslots]
  · refine ⟨hb.id, hb.config, ?_, fun handle b hg => ?_, hfunctions, hhandlers, hb.strings⟩
    · rw [hslots, Array.toList_push]
      exact List.prefix_append _ _
    · rw [hhandles]
      exact (HandleTable.grown_pushed table _).get (hworn.under.get hg)

/-- A script keeps what holds between commands. -/
theorem Kept.after (hk : Kept s) {v : Upshot} (hb : Beside s t) (h : After s t v)
    (hfit : t.isolate.engine.Fit True) (hconfined : t.isolate.engine.Confined (·.index < s.isolate.functions.size))
    (hkeeps : Agent.Keeps v.promises s.isolate.engine t.isolate.engine)
    (hproper : Desk.Proper v t.isolate.engine) : Kept t := by
  have hheld := hk.held.toOwes.engine hfit hkeeps
  have hlasting := lasting_after hk.fitted hb h
  have hregistry : Registry t.isolate.functions t.memory.handlers := by
    rw [hb.functions, hb.handlers]
    exact hk.registry
  have hconfined : t.isolate.engine.Confined (·.index < t.isolate.functions.size) := by
    rw [hb.functions]
    exact hconfined
  rcases h.cases hk.fitted with ⟨hnone, hworn, hslots⟩ | ⟨table, b, hone, hworn, hroom, hkind, hhandles, hslots⟩
  · -- no slot was bound, and the entries are those of before
    refine ⟨⟨⟨hfit, ?_, ?_, ?_⟩, .nil⟩, hworn.under.fitted, ?_, ?_, hb.strings.sound hk.strings, hregistry,
      hconfined⟩
    · rw [hworn.entries]
      exact hheld.few
    · rw [hworn.entries]
      exact hheld.bound
    · rw [hnone] at hheld
      rw [hworn.entries]
      exact hheld.roots
    · rw [hslots, ← hk.size, HandleTable.size, hworn.entries, HandleTable.size]
    · intro i v hv
      rw [hslots] at hv
      obtain ⟨handle, b, rfl, hi, hg, hkind⟩ := hk.slots i v hv
      exact ⟨handle, b, rfl, hi, hlasting.get handle b hg, hkind⟩
  · -- a slot was bound, whose entry lies on top
    have hentries : t.isolate.handles.entries.toList = s.isolate.handles.entries.toList ++ [b] := by
      rw [hhandles, HandleTable.pushed, Array.toList_push, hworn.entries]
    have hplace : table.entries.size < HandleId.capacity := by
      rw [hworn.entries]
      exact hroom
    have hfitted : t.isolate.handles.Fitted := by
      rw [hhandles]
      exact (HandleTable.grown_pushed table b).fitted hworn.under.fitted
    have hsize : t.isolate.handles.size = t.memory.slots.size := by
      rw [hslots, Array.size_push, ← hk.size, HandleTable.size, ← Array.length_toList, hentries,
        List.length_append, List.length_singleton, Array.length_toList, HandleTable.size]
    refine ⟨⟨⟨hfit, ?_, ?_, fun q => ?_⟩, .nil⟩, hfitted, hsize, ?_, hb.strings.sound hk.strings, hregistry,
      hconfined⟩
    · rw [hhandles, HandleTable.pushed, Array.size_push]
      exact hplace
    · intro c hc
      rw [hentries, List.mem_append, List.mem_singleton] at hc
      rcases hc with hc | rfl
      · exact hheld.bound c hc
      · rw [hkind]
        exact hproper.promises _ (hone ▸ List.mem_singleton_self _)
    · have hroots := hheld.roots q
      rw [hone, List.append_nil] at hroots
      rw [hentries, List.map_append, List.count_append, List.map_singleton]
      exact hroots
    · intro i v hv
      rw [hslots, Array.getElem?_push] at hv
      split at hv
      · rename_i hi
        obtain rfl := Option.some.inj hv
        refine ⟨table.nextId, b, rfl, ?_, ?_, hkind⟩
        · rw [HandleTable.index_nextId hplace, hi, hworn.entries, ← hk.size, HandleTable.size]
        · rw [hhandles]
          exact HandleTable.get_nextId hworn.under.fitted hplace
      · obtain ⟨handle, c, rfl, hi, hg, hc⟩ := hk.slots i v hv
        exact ⟨handle, c, rfl, hi, hlasting.get handle c hg, hc⟩

/-- What a command comes to, and what the shell is after it. -/
structure Performed (s t : Shell) (c : Command) (v : Upshot) : Prop where
  beside : Beside (s.prepared c) t
  perform : (s.deskOf t).perform c s.isolate.engine = .ok v t.isolate.engine
  after : After (s.prepared c) t v
  kept : Kept t
  proper : Desk.Proper v t.isolate.engine

/-- A command is performed, unless the handle table has no room for another handle. -/
theorem execute_cases (hk : Kept s) (hf : c.Fits) :
    (∃ v t, execute c s = .ok (v.reply s.memory.slots.size) t ∧ Performed s t c v) ∨
      ∃ t e, execute c s = .error (.fault .tableFull) t ∧ Beside (s.prepared c) t ∧
        (s.deskOf t).perform c s.isolate.engine = .error .tableFull e ∧
        HandleId.capacity ≤ s.memory.slots.size := by
  have hprepared := hk.prepared c
  have hsame := enlisted_prepared s c
  obtain ⟨t, hb, hdone⟩ := execute_run hk hf
  have hconfined : s.isolate.engine.Confined (·.index < t.isolate.functions.size) := by
    rw [hb.functions, ← hsame.engine]
    exact hprepared.confined
  -- the handler that a command names was registered before
  have hname (kind : ReactionKind) (slot : ℕ) (op : Op) (hc : c = .attach kind slot op) :
      ((s.deskOf t).name op).index < t.isolate.functions.size := by
    subst hc
    have hmem : op ∈ operations t.memory.handlers := hb.handlers ▸ mem_operations_registered s op
    have hsize : t.isolate.functions.size = (operations t.memory.handlers).length := by
      rw [hb.functions, hb.handlers]
      exact hprepared.registry.size_eq
    rw [hsize]
    exact List.idxOf_lt_length_of_mem hmem
  have hcomes := Desk.comes_perform (d := s.deskOf t) hk.held.fit hconfined hk.held.roomy (hk.promises _ _) hf hname
  -- the desk comes to one end, which is that of the command
  rcases hdone with ⟨v, hrun, hperform, hafter⟩ | ⟨e, hrun, hperform⟩
  · rcases hcomes with ⟨w, b, hw, hfit, hknown, hkeeps, hproper⟩ | ⟨-, b, hw⟩
    · obtain ⟨rfl, rfl⟩ := EStateM.Result.ok.inj (hperform.symm.trans hw)
      rw [← hsame.engine] at hkeeps
      rw [hb.functions] at hknown
      exact .inl ⟨v, t, hrun, hb, hperform, hafter,
        hprepared.after hb hafter hfit hknown hkeeps hproper, hproper⟩
    · cases hperform.symm.trans hw
  · rcases hcomes with ⟨w, b, hw, -⟩ | ⟨hroom, -⟩
    · cases hperform.symm.trans hw
    · have hfull : ¬ s.isolate.handles.entries.size < HandleId.capacity := of_decide_eq_false hroom
      rw [← hk.size]
      exact .inr ⟨t, e, hrun, hb, hperform, Nat.le_of_not_lt hfull⟩

theorem Performed.lasting (hk : Kept s) {v : Upshot} (h : Performed s t c v) : Lasting s t := by
  have hsame := enlisted_prepared s c
  have hlater := lasting_after (hk.prepared c).fitted h.beside h.after
  refine ⟨hlater.id.trans hsame.id, hlater.config.trans hsame.config, ?_, fun handle b hg => ?_,
    hsame.functions.trans hlater.functions, hsame.handlers.trans hlater.handlers, ?_⟩
  · rw [← hsame.slots]
    exact hlater.slots
  · rw [← hsame.handles] at hg
    exact hlater.get handle b hg
  · rw [← hsame.strings]
    exact hlater.strings

/-- A line is answered as it stands, or it has a command. -/
theorem exec_cases (line : String) :
    (∃ answer : Except Failure (Option String), (∀ failure, answer = .error failure → failure.OfText) ∧
        ∀ s, exec line s = .ok answer s) ∨
      ∃ c : Command, c.Fits ∧
        ∀ s, exec line s = (do return (← execute c).map some : Run Agent Memory Empty _) s := by
  obtain ⟨act, hact⟩ : ∃ act, exec line = act := ⟨_, rfl⟩
  rw [hact]
  unfold exec at hact
  split at hact
  · exact .inl ⟨.ok none, nofun, fun s => hact ▸ rfl⟩
  · exact .inl ⟨.ok none, nofun, fun s => hact ▸ rfl⟩
  · split at hact
    · rename_i c hparse
      exact .inr ⟨c, (parse_eq_ok_iff.1 hparse).1, fun s => hact ▸ rfl⟩
    · rename_i failure hparse
      refine .inl ⟨.error failure, ?_, fun s => hact ▸ rfl⟩
      rintro _ ⟨⟩
      exact parse_error hparse

/-- What a line that has a command is answered. -/
theorem exec_run {line : String} (hline : ∀ s, exec line s =
    (do return (← execute c).map some : Run Agent Memory Empty _) s) {answer : Except Failure String}
    (hr : execute c s = .ok answer t) : exec line s = .ok (answer.map some) t :=
  (hline s).trans (bind_run _ hr)

theorem exec_error {line : String} (hline : ∀ s, exec line s =
    (do return (← execute c).map some : Run Agent Memory Empty _) s) {halt : Halt}
    (hr : execute c s = .error halt t) : exec line s = .error halt t :=
  (hline s).trans (bind_error _ hr)

/-- A line is answered, unless the handle table has no room for another handle. It keeps what holds between
commands, and what was bound to a slot. -/
theorem exec_kept (hk : Kept s) (line : String) :
    (∃ answer t, exec line s = .ok answer t ∧ Kept t ∧ Lasting s t ∧
        ∀ slot, answer ≠ .error (.notAPromise slot)) ∨
      ∃ t, exec line s = .error (.fault .tableFull) t ∧ s.isolate.strings.Grown t.isolate.strings ∧
        HandleId.capacity ≤ s.memory.slots.size := by
  rcases exec_cases line with ⟨answer, htext, hline⟩ | ⟨c, hf, hline⟩
  · refine .inl ⟨answer, s, hline s, hk, .refl s, ?_⟩
    rintro slot rfl
    rcases htext _ rfl with ⟨text, h⟩ | ⟨n, h⟩
    · cases h
    · cases h
  · rcases execute_cases hk hf with ⟨v, t, hrun, hdone⟩ | ⟨t, e, hrun, hb, -, hfull⟩
    · refine .inl ⟨_, t, exec_run hline hrun, hdone.kept, hdone.lasting hk, fun slot => ?_⟩
      cases v with
      | failed failure =>
        intro h
        exact hdone.proper.isPromise slot (congrArg Upshot.failed (Except.error.inj h))
      | said text => exact nofun
      | kept ref => exact nofun
    · exact .inr ⟨t, exec_error hline hrun, (enlisted_prepared s c).strings ▸ hb.strings, hfull⟩

/-- A line after which a shell goes on. -/
def Enters (s t : Shell) : Prop := ∃ line answer, exec line s = .ok answer t

/-- The shells that lines lead to. -/
abbrev Reaches : Shell → Shell → Prop := Relation.ReflTransGen Enters

theorem Enters.kept (h : Enters s t) (hk : Kept s) : Kept t ∧ Lasting s t := by
  obtain ⟨line, answer, hrun⟩ := h
  rcases exec_kept hk line with ⟨answer', t', hrun', hkept, hlasting, -⟩ | ⟨t', hrun', -, -⟩
  · obtain ⟨-, rfl⟩ := EStateM.Result.ok.inj (hrun.symm.trans hrun')
    exact ⟨hkept, hlasting⟩
  · cases hrun.symm.trans hrun'

theorem Reaches.kept (h : Reaches s t) (hk : Kept s) : Kept t ∧ Lasting s t := by
  induction h with
  | refl => exact ⟨hk, .refl s⟩
  | tail _ henters ih =>
    obtain ⟨hkept, hlasting⟩ := henters.kept ih.1
    exact ⟨hkept, ih.2.trans hlasting⟩

/-- What lines are answered that are executed one after the other, up to one that halts, and the shell that is
left. -/
def session (s : Shell) : List String → List (Except Halt (Except Failure (Option String))) × Shell
  | [] => ([], s)
  | line :: lines =>
    match exec line s with
    | .ok answer t =>
      let (answers, u) := session t lines
      (.ok answer :: answers, u)
    | .error halt t => ([.error halt], t)

theorem session_ok {line : String} {lines : List String} {answer : Except Failure (Option String)}
    (hr : exec line s = .ok answer t) :
    session s (line :: lines) = (.ok answer :: (session t lines).1, (session t lines).2) := by
  rw [session, hr]

theorem session_error {line : String} {lines : List String} {halt : Halt} (hr : exec line s = .error halt t) :
    session s (line :: lines) = ([.error halt], t) := by
  rw [session, hr]

/-- A session that does not halt leads to the shell that it leaves. -/
theorem reaches_session {lines : List String} (hok : ((session s lines).1.all (·.isOk)) = true) :
    Reaches s (session s lines).2 := by
  induction lines generalizing s with
  | nil => exact .refl
  | cons line lines ih =>
    cases hr : exec line s with
    | ok answer t =>
      rw [session_ok hr] at hok ⊢
      exact .head ⟨line, answer, hr⟩ (ih hok)
    | error halt t =>
      rw [session_error hr] at hok
      cases hok

/-- What can be relied on between the lines of a session. -/
structure Orderly (s : Shell) : Prop where
  /-- There are as many handles as slots. -/
  count : s.isolate.handles.size = s.memory.slots.size
  /-- A slot has a handle of a live promise. -/
  slots : ∀ (i : ℕ) (v : Value), s.memory.slots[i]? = some v → ∃ (h : HandleId) (b : Binding),
    v = .handle h ∧ s.isolate.handles.get h = .ok b ∧ b.kind = .promise ∧
      s.isolate.engine.heap.isPromise b.object = true
  /-- Integers that are stored have 31 bits. -/
  narrow : ∀ (kind : ReactionKind) (n : Int32), s.isolate.engine.Stores kind (.int n) → Value.fits n = true
  /-- The handlers of queued reactions are registered. -/
  queued : ∀ (kind : ReactionKind) (id : FunctionId) (derived : ObjectRef) (argument : ManagedValue),
    .react kind (.derive (some id) derived) argument ∈ s.isolate.engine.queue.toList →
      id.index < s.isolate.functions.size
  /-- So are the handlers of the reactions that wait for a promise. -/
  waiting : ∀ (ref : ObjectRef) (record : PromiseRecord) (pair : ReactionPair) (kind : ReactionKind)
    (id : FunctionId) (derived : ObjectRef), s.isolate.engine.heap.record? ref = .ok record →
      pair ∈ record.reactions → pair.due kind = .derive (some id) derived →
        id.index < s.isolate.functions.size

theorem Kept.orderly (hk : Kept s) : Orderly s where
  count := hk.size
  slots i v hv := by
    obtain ⟨h, b, rfl, -, hg, hb⟩ := hk.slots i v hv
    exact ⟨h, b, rfl, hg, hb, Heap.isPromise_iff_kind?.2 (hk.held.kind_of_get hg hb)⟩
  narrow kind n hs := (hk.held.fit.stored kind (.int n) hs).fits trivial
  queued kind id derived argument hq := hk.confined.queued hq
  waiting ref record pair kind id derived hr hp hd := hk.confined.stored hr hp hd

/-- A shell never leaks a handle and never meets a programming error. It can be made of a configuration that
is valid and whose handle table can be had. Whatever lines were executed since, no line halts it while there
is a slot left, or finds that a slot has no promise. A slot has the same handle for ever, and the handle
stands for the same promise. -/
theorem sessions_orderly {config : Config} (hvalid : config.validate = .ok config)
    (hcapacity : config.handleCapacity ≤ HandleTable.maxReserve) :
    ∃ first, Shell.new config = .ok first ∧ ∀ s, Reaches first s → Orderly s ∧
      (∀ line, s.memory.slots.size < HandleId.capacity → ∃ answer t, exec line s = .ok answer t) ∧
      (∀ line answer t, exec line s = .ok answer t → ∀ slot, answer ≠ .error (.notAPromise slot)) ∧
      ∀ t, Reaches s t → ∀ (i : ℕ) (h : HandleId) (b : Binding), s.memory.slots[i]? = some (.handle h) →
        s.isolate.handles.get h = .ok b →
          t.memory.slots[i]? = some (.handle h) ∧ t.isolate.handles.get h = .ok b := by
  have hisValid : config.isValid = true := by
    by_contra hbad
    rw [Config.validate, if_neg hbad] at hvalid
    cases hvalid
  obtain ⟨first, hnew⟩ := new_total hisValid hcapacity
  refine ⟨first, hnew, fun s hs => ?_⟩
  obtain ⟨hk, -⟩ := hs.kept (kept_new hnew)
  refine ⟨hk.orderly, fun line hroom => ?_, fun line answer t hrun => ?_, fun t ht i h b hslot hget => ?_⟩
  · rcases exec_kept hk line with ⟨answer, t, hrun, -⟩ | ⟨t, -, -, hfull⟩
    · exact ⟨answer, t, hrun⟩
    · omega
  · rcases exec_kept hk line with ⟨answer', t', hrun', -, -, hpromise⟩ | ⟨t', hrun', -⟩
    · obtain ⟨rfl, rfl⟩ := EStateM.Result.ok.inj (hrun.symm.trans hrun')
      exact hpromise
    · cases hrun.symm.trans hrun'
  · obtain ⟨-, hlasting⟩ := ht.kept hk
    refine ⟨?_, hlasting.get h b hget⟩
    obtain ⟨rest, hrest⟩ := hlasting.slots
    rw [← Array.getElem?_toList] at hslot ⊢
    rw [← hrest, List.getElem?_append_left (List.getElem?_eq_some_iff.1 hslot).1]
    exact hslot

/-- A session with a sum that has no 31 bits, and with a line that cannot be executed. -/
def overflow : List String := ["new", "then $0 add 1", "resolve $0 1073741823", "run", "then $2 id"]

/-- The sum is not stored: the handler throws its argument. The two slots have the only handles, and there is
room for further lines. -/
theorem sessions_orderly_overflow :
    ∃ first s, Shell.new .default = .ok first ∧ Reaches first s ∧ Orderly s ∧ s.isolate.handles.size = 2 ∧
      (session first overflow).1.map (·.toOption) = [some (.ok (some "$0 = [object Promise]")),
        some (.ok (some "$1 = [object Promise]")), some (.ok (some "true")),
        some (.ok (some "ran 1 reaction(s)")), some (.error (.unknownSlot 2))] ∧
      s = (session first overflow).2 ∧ ∃ answer t, exec "result $1" s = .ok answer t := by
  have hvalid : Config.default.validate = .ok .default := rfl
  have hcapacity : Config.default.handleCapacity ≤ HandleTable.maxReserve := by decide
  obtain ⟨first, hnew, hsessions⟩ := sessions_orderly hvalid hcapacity
  obtain rfl := new_eq hnew
  have hok : (session (fresh .default) overflow).1.all (·.isOk) = true := by decide +kernel
  have hslots : (session (fresh .default) overflow).2.memory.slots.size = 2 := by decide +kernel
  have hanswers : (session (fresh .default) overflow).1.map (·.toOption) =
      [some (.ok (some "$0 = [object Promise]")), some (.ok (some "$1 = [object Promise]")),
        some (.ok (some "true")), some (.ok (some "ran 1 reaction(s)")), some (.error (.unknownSlot 2))] := by
    decide +kernel
  have hreaches := reaches_session hok
  obtain ⟨horderly, hnext, -⟩ := hsessions _ hreaches
  have hroom : (session (fresh .default) overflow).2.memory.slots.size < HandleId.capacity := by
    rw [hslots]
    decide
  exact ⟨_, _, hnew, hreaches, horderly, horderly.count.trans hslots, hanswers, rfl, hnext _ hroom⟩

end Shell

end Promises
