import Promises.Proofs.Shell.Silent
import Promises.Proofs.Shell.Strand
import Promises.Proofs.Shell.Unchanged

namespace Promises

namespace Shell

inductive Phase
  | empty
  /-- The first promise is pending, and these links were attached. -/
  | waiting (links : List Link)
  /-- The first promise was settled so. -/
  | settled (o : Fate) (links : List Link)

namespace Phase

def links : Phase → List Link
  | empty => []
  | waiting links | settled _ links => links

/-- How many links act, as far as they were attached. -/
def acting : Phase → ℕ
  | empty | waiting _ => 0
  | settled o links => Shell.acting links o

end Phase

/-- The commands that look at the promises, let their reactions run or have garbage collected. One that binds a
promise to a further slot is none of these. -/
def Command.isIdle : Command → Bool
  | .state _ | .result _ | .run | .gc | .stats | .help => true
  | _ => false

/-- The commands that go on with a chain. Each link is attached to the last slot. -/
inductive Phase.Next : Phase → Command → Phase → Prop
  | idle {phase : Phase} {c : Command} (hc : c.isIdle = true) : Next phase c phase
  | new : Next empty .new (waiting [])
  | settle {links : List Link} {kind : ReactionKind} {o : Operand} {d : Datum} (hd : o.datum? = some d) :
      Next (waiting links) (.settle kind 0 o) (settled (kind, d) links)
  | attach {links : List Link} (l : Link) :
      Next (waiting links) (.attach l.kind links.length l.op) (waiting (links ++ [l]))
  | follow {o : Fate} {links : List Link} (l : Link) :
      Next (settled o links) (.attach l.kind links.length l.op) (settled o (links ++ [l]))

variable {s t : Shell} {c : Command} {u : Upshot} {limit n : ℕ} {qs : List ObjectRef} {phase next : Phase}
  {ties : List Tie} {a b : Agent} {d : Desk} {p q ref : ObjectRef} {slot : ℕ} {datum : Datum} {o : Fate}

/-- The slots of a shell have these promises, and its heap has nothing else. -/
structure Holding (limit : ℕ) (qs : List ObjectRef) (s : Shell) : Prop where
  kept : Kept s
  promises : s.isolate.handles.entries.map (·.object) = qs.toArray
  nodup : qs.Nodup
  awake : s.isolate.engine.terminating = false
  limit : s.isolate.engine.heap.limit = limit
  live : s.isolate.engine.heap.live ≤ qs.length

/-- The handlers of a strand are registered for its operations. -/
def Known (s : Shell) (ties : List Tie) : Prop :=
  ∀ t ∈ ties, (operations s.memory.handlers)[t.handler.index]? = some t.link.op

/-- Whether a value stays what it is, whatever strings are yet to come. -/
structure Datum.Lasts (strings : StringTable) (d : Datum) : Prop where
  small : ∀ n : Int, d = .int n → -2 ^ 30 ≤ n ∧ n < 2 ^ 30
  text : ∀ text : String, d = .text text → ∃ id, strings.ids[text]? = some id ∧ strings.get? id = some text

/-- The strand of a shell in a phase, with so many links that have still to act. Until the first promise is
settled no string was seen. -/
inductive Bears (s : Shell) : Phase → ℕ → List ObjectRef → Prop
  | empty (hq : s.isolate.engine.queue.toList = []) (hs : s.isolate.strings.size = 0) : Bears s .empty 0 []
  | waiting {p : ObjectRef} {ties : List Tie} (hw : Waits s.isolate.engine p ties)
      (hq : s.isolate.engine.queue.toList = []) (hs : s.isolate.strings.size = 0) (hk : Known s ties) :
      Bears s (.waiting (Shell.links ties)) 0 (refs p ties)
  | settled {o : Fate} {p : ObjectRef} {ties : List Tie} {n : ℕ} (hr : Runs s.isolate.engine o p ties n)
      (ho : o.2.Lasts s.isolate.strings) (hk : Known s ties) :
      Bears s (.settled o (Shell.links ties)) n (refs p ties)

/-- Promises that have no results. -/
def Blank (qs : List ObjectRef) (a : Agent) : Prop :=
  ∀ q ∈ qs, ∃ record, a.heap.record? q = .ok record ∧ record.result = .undefined

/-- What holds of a shell in a phase. -/
def Abides (limit : ℕ) (phase : Phase) (n : ℕ) (s : Shell) : Prop :=
  ∃ qs, Holding limit qs s ∧ Bears s phase n qs

theorem Datum.Lasts.stays {strings : StringTable} (h : datum.Lasts strings) : datum.Stays strings.reading := by
  refine ⟨h.small, fun text ht => ?_⟩
  obtain ⟨id, hid, hget⟩ := h.text text ht
  rw [StringTable.reading, hid, Option.bind_some, hget]
  rfl

theorem Datum.Lasts.grown {strings more : StringTable} (h : datum.Lasts strings) (hg : strings.Grown more) :
    datum.Lasts more := by
  refine ⟨h.small, fun text ht => ?_⟩
  obtain ⟨id, hid, hget⟩ := h.text text ht
  exact ⟨id, hg.ids text id hid, hg.get? hget⟩

theorem Known.lasting (h : Known s ties) (hl : Lasting s t) : Known t ties := by
  intro tie htie
  obtain ⟨more, hmore⟩ := prefix_operations hl.handlers
  have hlt := (List.getElem?_eq_some_iff.1 (h tie htie)).1
  rw [← hmore, List.getElem?_append_left hlt]
  exact h tie htie

/-- A command that binds no slot, or one for a promise that was not there before. -/
theorem Holding.performed (h : Holding limit qs s) (hd : Performed s t c u)
    (hfresh : ∀ ref ∈ u.promises, s.isolate.engine.heap.isLive ref = false)
    (hawake : t.isolate.engine.terminating = s.isolate.engine.terminating)
    (hlimit : t.isolate.engine.heap.limit = s.isolate.engine.heap.limit)
    (hlive : t.isolate.engine.heap.live ≤ s.isolate.engine.heap.live + u.promises.length) :
    Holding limit (qs ++ u.promises) t := by
  have hpromises := hd.after.promises (h.kept.prepared c).fitted
  rw [(enlisted_prepared s c).handles, h.promises, List.append_toArray] at hpromises
  have hone : u.promises.Nodup := by
    cases u with
    | kept ref => exact List.nodup_singleton ref
    | _ => exact List.nodup_nil
  refine ⟨hd.kept, hpromises, List.nodup_append.2 ⟨h.nodup, hone, ?_⟩, hawake.trans h.awake,
    hlimit.trans h.limit, ?_⟩
  · rintro q hq ref href rfl
    -- what a slot has is live
    have hkind := h.kept.promises [] id q (by rw [desk, h.promises]; exact List.mem_toArray.2 hq)
    have hlive := Heap.isLive_of_isPromise (Heap.isPromise_iff_kind?.2 hkind)
    cases hlive.symm.trans (hfresh q href)
  · rw [List.length_append]
    exact hlive.trans (Nat.add_le_add_right h.live _)

theorem Holding.rests (h : Holding limit qs s) (hd : Performed s t c u) (hnone : u.promises = [])
    (hawake : t.isolate.engine.terminating = s.isolate.engine.terminating)
    (hlimit : t.isolate.engine.heap.limit = s.isolate.engine.heap.limit)
    (hlive : t.isolate.engine.heap.live ≤ s.isolate.engine.heap.live) : Holding limit qs t := by
  have hh := h.performed hd (fun ref href => by rw [hnone] at href; cases href) hawake hlimit
    (hlive.trans (Nat.le_add_right _ _))
  rwa [hnone, List.append_nil] at hh

/-- A strand is as before if its promises are, and no string was seen while they have no results. -/
theorem Bears.same (h : Bears s phase n qs) (hsame : Same qs s.isolate.engine t.isolate.engine)
    (hq : t.isolate.engine.queue.toList = s.isolate.engine.queue.toList) (hl : Lasting s t)
    (hquiet : Blank qs s.isolate.engine → t.isolate.strings = s.isolate.strings) : Bears t phase n qs := by
  cases h with
  | empty hidle hs =>
    have hblank : Blank [] s.isolate.engine := fun q hq => by cases hq
    exact .empty (hq.trans hidle) (hquiet hblank ▸ hs)
  | waiting hw hidle hs hk =>
    exact .waiting (hw.same hsame) (hq.trans hidle) (hquiet (fun _ hq => hw.result hq) ▸ hs) (hk.lasting hl)
  | settled hr ho hk => exact .settled (hr.same hq hsame) (ho.grown hl.strings) (hk.lasting hl)

/-- A promise of a chain has a record, and no object as its result. -/
theorem Bears.result (h : Bears s phase n qs) (hq : q ∈ qs) :
    ∃ record, s.isolate.engine.heap.record? q = .ok record ∧ (∀ ref, record.result ≠ .object ref) := by
  cases h with
  | empty => cases hq
  | waiting hw =>
    obtain ⟨record, hr, hresult⟩ := hw.result hq
    refine ⟨record, hr, fun ref => ?_⟩
    rw [hresult]
    exact ManagedValue.noConfusion
  | settled hr => exact hr.result hq

theorem nextJob_of_idle (ha : a.Sound) (hq : a.queue.toList = []) : Agent.nextJob a = .ok none a := by
  rw [Agent.nextJob_eq ha, JobQueue.pop?_eq_none_iff.2 hq]
  split <;> rfl

namespace Desk

theorem perform_state {record : PromiseRecord} (hslot : d.promises[slot]? = some ref)
    (hr : a.heap.record? ref = .ok record) : d.perform (.state slot) a = .ok (.said (toString record.state)) a := by
  have hlook : (Engine.state ref : Request Agent PromiseState).run a = .ok (.ok record.state) a := by
    refine (Agent.look_run ref (·.state) a).trans ?_
    rw [hr]
    rfl
  exact (withSlot_known hslot).trans (bind_run _ hlook)

theorem result_run {record : PromiseRecord} (hr : a.heap.record? ref = .ok record) :
    (Engine.result ref : Request Agent ManagedValue).run a = .ok (.ok record.result) a := by
  refine (Agent.look_run ref (·.result) a).trans ?_
  rw [hr]
  rfl

theorem perform_result {record : PromiseRecord} (hslot : d.promises[slot]? = some ref)
    (hr : a.heap.record? ref = .ok record) (hplain : ∀ ref, record.result ≠ .object ref) :
    d.perform (.result slot) a = .ok (.said (d.shown record.result a)) a := by
  have hshow := holding_ne_object d hplain (do return Upshot.said (d.shown record.result (← get)))
  exact (withSlot_known hslot).trans ((bind_run _ (result_run hr)).trans (congrFun hshow a))

/-- Nothing is run at a checkpoint while no job waits. -/
theorem perform_run_of_idle (ha : a.Sound) (hq : a.queue.toList = []) :
    d.perform .run a = .ok (.said s!"ran {0} reaction(s)") a := by
  have hserve : d.serve (a.workload + 1) 0 a = .ok 0 a := bind_run _ (nextJob_of_idle ha hq)
  exact bind_run _ hserve

theorem keep_ok (h : d.keep ref a = .ok u b) : u = .kept ref ∧ b = a.retained ref := by
  cases hroom : d.room with
  | true =>
    rw [keep_room d hroom] at h
    obtain ⟨rfl, rfl⟩ := EStateM.Result.ok.inj h
    exact ⟨rfl, rfl⟩
  | false =>
    rw [keep_full d hroom] at h
    cases h

/-- The value of an operand is no object. -/
theorem operand_managed {o : Operand} (hd : o.datum? = some datum) : ∃ v : Datum, d.operand o = .ok v.managed := by
  cases o with
  | int n =>
    refine ⟨.int n.toInt, ?_⟩
    show Except.ok (ManagedValue.int n) = .ok (.int (Int32.ofInt n.toInt))
    rw [Int32.ofInt_toInt]
  | bool b => exact ⟨.bool b, rfl⟩
  | null => exact ⟨.null, rfl⟩
  | undefined => exact ⟨.undefined, rfl⟩
  | text s => exact ⟨.text (d.reading s), rfl⟩
  | slot slot => cases hd

/-- A pending promise is settled with the value of an operand. -/
theorem perform_settle (ha : a.Sound) (ht : a.terminating = false) {record : PromiseRecord}
    (hslot : d.promises[slot]? = some p) (hr : a.heap.record? p = .ok record)
    (hl : record.alreadyResolved = false) {o : Operand} (ho : d.operand o = .ok datum.managed)
    (kind : ReactionKind) : d.perform (.settle kind slot o) a =
      .ok (.said (toString true)) (a.settling p record kind datum.managed) := by
  have hrun := settle_run_of_pending ha ht hr hl (kind, datum)
  refine (withSlot_known hslot).trans ?_
  rw [ho]
  exact bind_run _ hrun

end Desk

/-- With room in the heap a new promise is made. -/
theorem newResolver_run_of_room (ht : a.terminating = false) (hroom : a.heap.isFull = false) :
    Agent.newResolver a = .ok (.ok (a.heap.place (.promise .new)).1) (a.placed (.promise .new)) := by
  have hmade : a.makeRoom = a := makeRoom_of_room hroom
  rw [Agent.newResolver, Agent.allocate_run, hmade, ht, hroom, if_neg Bool.false_ne_true, if_neg Bool.false_ne_true]

theorem Hitched.retained {source : ObjectRef} {tie : Tie} (h : Hitched a b source tie) (ref : ObjectRef) :
    Hitched a (b.retained ref) source tie := by
  have hsame (q : ObjectRef) : (b.retained ref).heap.record? q = b.heap.record? q :=
    Heap.record?_congr (Heap.object?_retain b.heap ref q)
  refine ⟨h.fresh, (hsame _).trans h.target, fun q record hq hr => (hsame q).trans (h.other q record hq hr),
    fun record hr hs => ?_, fun record kind value hr hs => ?_, h.limit, h.live, h.terminating⟩
  · rw [hsame]
    exact h.pending record hr hs
  · rw [hsame]
    exact h.settled record kind value hr hs

/-- The outcome has come to the last promise of a chain, if the first one is settled. -/
def Concluded (limit : ℕ) : Phase → Shell → Prop
  | .empty, _ | .waiting _, _ => True
  | .settled o links, s => ∃ p ties, links = Shell.links ties ∧ Holding limit (refs p ties) s ∧
      Over s.isolate.engine o p ties ∧ o.2.Lasts s.isolate.strings

/-- A command that goes on with a chain was answered: so many reactions ran with it, and so many links have
still to act. After a checkpoint there are none. -/
structure Entered (limit : ℕ) (s t : Shell) (c : Command) (phase : Phase) (ran left : ℕ) : Prop where
  answer : ∃ answer, execute c s = .ok answer t ∧ (c = .run → answer = .ok s!"ran {ran} reaction(s)")
  abides : Abides limit phase left t
  ran : c ≠ .run → ran = 0
  concluded : c = .run → left = 0 ∧ Concluded limit phase t

theorem Entered.of_ne_run (hrun : c ≠ .run) {answer : Except Failure String} (hexecute : execute c s = .ok answer t)
    (ha : Abides limit phase n t) : Entered limit s t c phase 0 n :=
  ⟨⟨answer, hexecute, fun h => absurd h hrun⟩, ha, fun _ => rfl, fun h => absurd h hrun⟩

theorem Entered.of_run (hexecute : execute .run s = .ok (.ok s!"ran {n} reaction(s)") t)
    (ha : Abides limit phase 0 t) (hc : Concluded limit phase t) : Entered limit s t .run phase n 0 :=
  ⟨⟨_, hexecute, fun _ => rfl⟩, ha, fun h => absurd rfl h, fun _ => ⟨rfl, hc⟩⟩

/-- A command is performed if the desk does not want for room. -/
theorem performed_of_perform (hk : Kept s) (hf : c.Fits)
    (h : ∀ t, Beside (s.prepared c) t → ∃ u e, (s.deskOf t).perform c s.isolate.engine = .ok u e) :
    ∃ u t, execute c s = .ok (u.reply s.memory.slots.size) t ∧ Performed s t c u := by
  rcases execute_cases hk hf with hdone | ⟨t, e, -, hb, hfull, -⟩
  · exact hdone
  · obtain ⟨u, e', hperform⟩ := h t hb
    cases hperform.symm.trans hfull

theorem Holding.slots_size (hh : Holding limit qs s) : s.memory.slots.size = qs.length := by
  have hsize := congrArg Array.size hh.promises
  rw [Array.size_map, List.size_toArray] at hsize
  exact hh.kept.size.symm.trans hsize

theorem Holding.getElem? (hh : Holding limit qs s) (t : Shell) (slot : ℕ) :
    (s.deskOf t).promises[slot]? = qs[slot]? := by
  rw [deskOf, desk, hh.promises, List.getElem?_toArray]

/-- The handle of a slot has the number of the slot, so that there are no more slots than handles. -/
theorem Holding.length_le (hh : Holding limit qs s) : qs.length ≤ HandleId.capacity := by
  by_contra hmore
  have hslot : HandleId.capacity < s.memory.slots.size := by
    rw [hh.slots_size]
    exact Nat.lt_of_not_le hmore
  obtain ⟨h, b, -, hindex, -⟩ := hh.kept.slots _ _ (Array.getElem?_eq_getElem hslot)
  exact absurd (hindex ▸ h.index.isLt) (Nat.lt_irrefl _)

theorem Holding.room (hh : Holding limit qs s) (h : qs.length < limit) :
    s.isolate.engine.heap.isFull = false := by
  have hlive := hh.live
  have hlimit := hh.limit
  rw [Heap.isFull, decide_eq_false_iff_not]
  omega

/-- The slots hold their promises. -/
theorem Holding.roots (hh : Holding limit qs s) : ∀ q ∈ qs, s.isolate.engine.heap.rootCount q ≠ 0 := by
  intro q hq
  refine hh.kept.held.rootCount_ne_zero (.inl ?_)
  rw [← Array.toList_map, hh.promises]
  exact hq

/-- What an agent has in common with another one that nothing was done to, or had its garbage collected. -/
structure Rests (qs : List ObjectRef) (a b : Agent) : Prop where
  same : Same qs a b
  terminating : b.terminating = a.terminating
  limit : b.heap.limit = a.heap.limit
  live : b.heap.live ≤ a.heap.live
  queue : b.queue = a.queue

/-- A command that looks leaves the agent as it is, and `gc` leaves what is rooted. -/
theorem Bears.looks (h : Bears s phase n qs) (hh : Holding limit qs s) (hc : c.isIdle = true) (hrun : c ≠ .run)
    (t : Shell) : ∃ u e, (s.deskOf t).perform c s.isolate.engine = .ok u e ∧ u.promises = [] ∧
      (e = s.isolate.engine ∨ e = s.isolate.engine.collected) := by
  have hrecord {slot : ℕ} {ref : ObjectRef} (hslot : (s.deskOf t).promises[slot]? = some ref) :
      ∃ record, s.isolate.engine.heap.record? ref = .ok record ∧ ∀ other, record.result ≠ .object other := by
    rw [hh.getElem?] at hslot
    exact h.result (List.mem_of_getElem? hslot)
  cases c with
  | state slot =>
    cases hslot : (s.deskOf t).promises[slot]? with
    | none => exact ⟨_, _, withSlot_unknown hslot, rfl, .inl rfl⟩
    | some ref =>
      obtain ⟨record, hr, -⟩ := hrecord hslot
      exact ⟨_, _, Desk.perform_state hslot hr, rfl, .inl rfl⟩
  | result slot =>
    cases hslot : (s.deskOf t).promises[slot]? with
    | none => exact ⟨_, _, withSlot_unknown hslot, rfl, .inl rfl⟩
    | some ref =>
      obtain ⟨record, hr, hplain⟩ := hrecord hslot
      exact ⟨_, _, Desk.perform_result hslot hr hplain, rfl, .inl rfl⟩
  | run => exact absurd rfl hrun
  | gc => exact ⟨_, _, rfl, rfl, .inr rfl⟩
  | stats => exact ⟨_, _, rfl, rfl, .inl rfl⟩
  | help => exact ⟨_, _, rfl, rfl, .inl rfl⟩
  | _ => cases hc

/-- Nothing but a checkpoint sees a string while the promises have no results. -/
theorem Holding.quiet (hh : Holding limit qs s) (hc : c.isIdle = true) (hrun : c ≠ .run)
    (hblank : Blank qs s.isolate.engine) {answer : Except Failure String} (hr : execute c s = .ok answer t) :
    t.isolate.strings = s.isolate.strings := by
  cases c with
  | result slot =>
    refine strings_result hh.kept (fun ref hslot => ?_) hr
    rw [hh.promises, List.getElem?_toArray] at hslot
    obtain ⟨record, hrecord, hundefined⟩ := hblank ref (List.mem_of_getElem? hslot)
    rw [Desk.result_run hrecord, hundefined]
  | run => exact absurd rfl hrun
  | state | gc | stats | help => exact strings_execute rfl hr
  | _ => cases hc

/-- What is looked at stays, and so does the strand while garbage is collected. -/
theorem Abides.idle (h : Abides limit phase n s) (hf : c.Fits) (hc : c.isIdle = true) (hrun : c ≠ .run) :
    ∃ t, Entered limit s t c phase 0 n := by
  obtain ⟨qs, hh, hb⟩ := h
  obtain ⟨u, t, hexecute, hd⟩ := performed_of_perform hh.kept hf fun t _ => by
    obtain ⟨u, e, hperform, -⟩ := hb.looks hh hc hrun t
    exact ⟨u, e, hperform⟩
  obtain ⟨u', e, hperform, hnone, he⟩ := hb.looks hh hc hrun t
  obtain ⟨rfl, rfl⟩ := EStateM.Result.ok.inj (hd.perform.symm.trans hperform)
  have hrests : Rests qs s.isolate.engine t.isolate.engine := by
    rcases he with he | he <;> rw [he]
    · exact ⟨fun _ _ _ h => h, rfl, rfl, Nat.le_refl _, rfl⟩
    · exact ⟨same_collected hh.roots, rfl, rfl, Heap.live_collect_le _ _, rfl⟩
  have hholding := hh.rests hd hnone hrests.terminating hrests.limit hrests.live
  have hqueue := congrArg JobQueue.toList hrests.queue
  have hbears := hb.same hrests.same hqueue (hd.lasting hh.kept) fun hblank => hh.quiet hc hrun hblank hexecute
  exact ⟨t, .of_ne_run hrun hexecute ⟨qs, hholding, hbears⟩⟩

/-- A checkpoint does nothing while no job waits. -/
theorem Bears.run_idle (h : Bears s phase 0 qs) (hh : Holding limit qs s)
    (hq : s.isolate.engine.queue.toList = []) :
    ∃ t, execute .run s = .ok (.ok s!"ran {0} reaction(s)") t ∧ Holding limit qs t ∧ Bears t phase 0 qs := by
  have hsound := hh.kept.held.fit.sound
  have hperform (t : Shell) := Desk.perform_run_of_idle (d := s.deskOf t) hsound hq
  obtain ⟨u, t, hexecute, hd⟩ := performed_of_perform (c := .run) hh.kept trivial fun t _ => ⟨_, _, hperform t⟩
  obtain ⟨rfl, he⟩ := EStateM.Result.ok.inj (hd.perform.symm.trans (hperform t))
  have hnext := nextJob_of_idle hsound hq
  refine ⟨t, hexecute, hh.rests hd rfl ?_ ?_ ?_,
    h.same ?_ ?_ (hd.lasting hh.kept) fun _ => strings_run hnext hexecute⟩
  all_goals rw [he]
  exact fun _ _ _ h => h

/-- A checkpoint takes the outcome to the last promise. -/
theorem Runs.run (hr : Runs s.isolate.engine o p ties n) (hh : Holding limit (refs p ties) s) (hk : Known s ties)
    (ho : o.2.Lasts s.isolate.strings) :
    ∃ t, execute .run s = .ok (.ok s!"ran {n} reaction(s)") t ∧ Holding limit (refs p ties) t ∧ Lasting s t ∧
      Over t.isolate.engine o p ties := by
  have hperform (t : Shell) (hb : Beside (s.prepared .run) t) :
      ∃ b, (s.deskOf t).perform .run s.isolate.engine = .ok (.said s!"ran {n} reaction(s)") b ∧ Over b o p ties ∧
        Beyond (ties.map (·.target)) s.isolate.engine b := by
    have hknown (tie : Tie) (htie : tie ∈ ties) : (s.deskOf t).op? tie.handler = some tie.link.op := by
      show (operations t.memory.handlers)[tie.handler.index]? = _
      rw [hb.handlers]
      exact hk tie htie
    have hstays : o.2.Stays (s.deskOf t).reading := (ho.grown hb.strings).stays
    obtain ⟨b, hserve, hover, hbeyond⟩ := hr.serve hh.kept.held.fit.sound hh.awake hh.nodup hknown hstays 0
      (Nat.lt_succ_self s.isolate.engine.workload)
    rw [Nat.zero_add] at hserve
    exact ⟨b, bind_run _ hserve, hover, hbeyond⟩
  obtain ⟨u, t, hexecute, hd⟩ := performed_of_perform (c := .run) hh.kept trivial fun t hb => by
    obtain ⟨b, hb, -⟩ := hperform t hb
    exact ⟨_, b, hb⟩
  obtain ⟨b, hb, hover, hbeyond⟩ := hperform t hd.beside
  obtain ⟨rfl, rfl⟩ := EStateM.Result.ok.inj (hd.perform.symm.trans hb)
  exact ⟨t, hexecute, hh.rests hd rfl hbeyond.terminating hbeyond.limit hbeyond.live.le,
    hd.lasting hh.kept, hover⟩

/-- A checkpoint runs the reactions of the links that have still to act. -/
theorem Abides.run (h : Abides limit phase n s) : ∃ t, Entered limit s t .run phase n 0 := by
  obtain ⟨qs, hh, hb⟩ := h
  cases hb with
  | empty hq hs =>
    obtain ⟨t, hexecute, hholding, hbears⟩ := (Bears.empty hq hs).run_idle hh hq
    exact ⟨t, .of_run hexecute ⟨_, hholding, hbears⟩ trivial⟩
  | waiting hw hq hs hk =>
    obtain ⟨t, hexecute, hholding, hbears⟩ := (Bears.waiting hw hq hs hk).run_idle hh hq
    exact ⟨t, .of_run hexecute ⟨_, hholding, hbears⟩ trivial⟩
  | settled hr ho hk =>
    obtain ⟨t, hexecute, hholding, hl, hover⟩ := hr.run hh hk ho
    have hlasts := ho.grown hl.strings
    have hbears := Bears.settled hover.runs hlasts (hk.lasting hl)
    exact ⟨t, .of_run hexecute ⟨_, hholding, hbears⟩ ⟨_, _, rfl, hholding, hover, hlasts⟩⟩

/-- The first promise of a chain. -/
theorem Abides.new (h : Abides limit .empty n s) (hroom : 0 < limit) :
    ∃ t, Entered limit s t .new (.waiting []) 0 n := by
  obtain ⟨qs, hh, hb⟩ := h
  cases hb with
  | empty hidle hs =>
  rcases execute_cases (c := .new) hh.kept trivial with ⟨u, t, hexecute, hd⟩ | ⟨t, e, -, -, -, hfull⟩
  · have hsound := hh.kept.held.fit.sound
    have hspace := hh.room hroom
    have hmade := newResolver_run_of_room hh.awake hspace
    have hkeep : (s.deskOf t).perform .new s.isolate.engine = (s.deskOf t).keep _ _ := bind_run _ hmade
    obtain ⟨rfl, he⟩ := Desk.keep_ok (hkeep.symm.trans hd.perform)
    have hfresh := Agent.not_isLive_place_makeRoom hsound (.promise .new)
    rw [makeRoom_of_room hspace] at hfresh
    have hrecord : t.isolate.engine.heap.record? (s.isolate.engine.heap.place (.promise .new)).1 = .ok .new := by
      rw [he]
      exact (Heap.record?_congr (Heap.object?_retain _ _ _)).trans (Heap.record?_place_fst hsound.shape .new)
    have hstrings := strings_execute rfl hexecute
    have hwaits : Waits t.isolate.engine (s.isolate.engine.heap.place (.promise .new)).1 [] := hrecord
    have hbears : Bears t (.waiting []) 0 [(s.isolate.engine.heap.place (.promise .new)).1] := by
      have hqueue : t.isolate.engine.queue.toList = [] := by
        rw [he]
        exact hidle
      have hnone : Known t [] := fun tie htie => by cases htie
      exact .waiting hwaits hqueue (hstrings ▸ hs) hnone
    have hholding := hh.performed hd (fun ref href => List.mem_singleton.1 href ▸ hfresh) (by rw [he]; rfl)
      (by rw [he]; exact Heap.limit_place _ _) (by rw [he]; exact (Heap.live_place _ _).le)
    exact ⟨t, .of_ne_run (fun h => by cases h) hexecute ⟨_, hholding, hbears⟩⟩
  · rw [hh.slots_size] at hfull
    exact absurd hfull (by decide)

theorem refs_append (p : ObjectRef) (ties : List Tie) (tie : Tie) :
    refs p (ties ++ [tie]) = refs p ties ++ [tie.target] := by
  rw [refs, refs, List.map_append, List.cons_append]
  rfl

theorem Known.append (h : Known s ties) (hl : Lasting s t) {tie : Tie}
    (htie : (operations t.memory.handlers)[tie.handler.index]? = some tie.link.op) : Known t (ties ++ [tie]) := by
  intro tie' hmem
  rcases List.mem_append.1 hmem with hold | hnew
  · exact h.lasting hl tie' hold
  · obtain rfl := List.mem_singleton.1 hnew
    exact htie

/-- What is asked for when a command was not answered: more handles than there are. -/
def Overfull (s : Shell) (c : Command) (phase : Phase) : Prop :=
  HandleId.capacity ≤ phase.links.length ∧ ∃ t, execute c s = .error (.fault .tableFull) t

/-- A link is attached to the promise of the last slot, unless there are handles for no more promises. -/
theorem Holding.attach (hh : Holding limit (refs p ties) s) (l : Link) {record : PromiseRecord}
    (hr : s.isolate.engine.heap.record? (tip p ties) = .ok record)
    (hroom : (links ties ++ [l]).length < limit) (hf : (Command.attach l.kind (links ties).length l.op).Fits) :
    (∃ answer t tie, execute (.attach l.kind (links ties).length l.op) s = .ok answer t ∧ tie.link = l ∧
        Lasting s t ∧ t.isolate.strings = s.isolate.strings ∧
        (operations t.memory.handlers)[tie.handler.index]? = some l.op ∧
        Hitched s.isolate.engine t.isolate.engine (tip p ties) tie ∧ Holding limit (refs p (ties ++ [tie])) t) ∨
      HandleId.capacity ≤ (links ties ++ [l]).length ∧
        ∃ t, execute (.attach l.kind (links ties).length l.op) s = .error (.fault .tableFull) t := by
  have hlength : (refs p ties).length = (links ties ++ [l]).length := by
    rw [refs, List.length_cons, List.length_append, List.length_map, List.length_map]
    rfl
  have hslot (t : Shell) : (s.deskOf t).promises[(links ties).length]? = some (tip p ties) := by
    rw [hh.getElem?, List.length_map]
    exact getElem?_refs p ties
  rcases execute_cases hh.kept hf with ⟨u, t, hexecute, hd⟩ | ⟨t, e, hexecute, -, -, hfull⟩
  · have hspace := hh.room (hlength ▸ hroom)
    obtain ⟨b, hrun, hhitched⟩ := attach_run_of_room hh.kept.held.fit.sound hh.awake hspace hr l
      ((s.deskOf t).name l.op)
    have hkeep : (s.deskOf t).perform (.attach l.kind (links ties).length l.op) s.isolate.engine =
        (s.deskOf t).keep _ b := (withSlot_known (hslot t)).trans (bind_run _ hrun)
    obtain ⟨rfl, he⟩ := Desk.keep_ok (hkeep.symm.trans hd.perform)
    -- the root for the new slot is all that the registration does not do
    have hhitched := hhitched.retained (s.isolate.engine.derivedRef (tip p ties))
    rw [← he] at hhitched
    have hop : l.op ∈ operations t.memory.handlers := hd.beside.handlers ▸ mem_operations_registered s l.op
    have hholding := hh.performed hd (fun ref href => List.mem_singleton.1 href ▸ hhitched.fresh)
      hhitched.terminating hhitched.limit hhitched.live.le
    refine .inl ⟨_, t, _, hexecute, rfl, hd.lasting hh.kept, strings_execute rfl hexecute,
      List.getElem?_idxOf hop, hhitched, ?_⟩
    rw [refs_append]
    exact hholding
  · rw [hh.slots_size, hlength] at hfull
    exact .inr ⟨hfull, t, hexecute⟩

/-- A link is attached to a chain that waits. -/
theorem Abides.attach {links : List Link} (h : Abides limit (.waiting links) n s) (l : Link)
    (hf : (Command.attach l.kind links.length l.op).Fits) (hroom : (links ++ [l]).length < limit) :
    (∃ t, Entered limit s t (.attach l.kind links.length l.op) (.waiting (links ++ [l])) 0 n) ∨
      Overfull s (.attach l.kind links.length l.op) (.waiting (links ++ [l])) := by
  obtain ⟨qs, hh, hb⟩ := h
  cases hb with
  | @waiting p ties hw hidle hs hk =>
  rcases hh.attach l hw.tip hroom hf with
    ⟨answer, t, tie, hexecute, rfl, hl, hstrings, hop, hhitched, hholding⟩ | hfull
  · have hqueue := (hhitched.pending .new hw.tip rfl).2
    have hbears : Bears t (.waiting (Shell.links (ties ++ [tie]))) 0 (refs p (ties ++ [tie])) :=
      .waiting (hw.hitched hh.nodup hhitched) (hqueue.trans hidle) (hstrings ▸ hs) (hk.append hl hop)
    rw [Shell.links, List.map_append] at hbears
    exact .inl ⟨t, .of_ne_run (fun h => by cases h) hexecute ⟨_, hholding, hbears⟩⟩
  · exact .inr hfull

/-- A link is attached to a chain whose first promise is settled, and will act if it is the way for it. -/
theorem Abides.follow {o : Fate} {links : List Link} (h : Abides limit (.settled o links) n s) (l : Link)
    (hf : (Command.attach l.kind links.length l.op).Fits) (hroom : (links ++ [l]).length < limit) :
    (∃ t, Entered limit s t (.attach l.kind links.length l.op) (.settled o (links ++ [l])) 0
        (n + Shell.acting [l] (folded links o))) ∨
      Overfull s (.attach l.kind links.length l.op) (.settled o (links ++ [l])) := by
  obtain ⟨qs, hh, hb⟩ := h
  have hresult {q : ObjectRef} (hq : q ∈ qs) := hb.result hq
  cases hb with
  | @settled o p ties n hr ho hk =>
  obtain ⟨record, hrecord, -⟩ := hresult (tip_mem p ties)
  rcases hh.attach l hrecord hroom hf with
    ⟨answer, t, tie, hexecute, rfl, hl, hstrings, hop, hhitched, hholding⟩ | hfull
  · have hbears : Bears t (.settled o (Shell.links (ties ++ [tie]))) _ (refs p (ties ++ [tie])) :=
      .settled (hr.hitched hh.nodup hhitched) (hstrings ▸ ho) (hk.append hl hop)
    rw [Shell.links, List.map_append] at hbears
    exact .inl ⟨t, .of_ne_run (fun h => by cases h) hexecute ⟨_, hholding, hbears⟩⟩
  · exact .inr hfull

/-- The value with which the first promise was settled stays what it is. -/
theorem lasts_settle (hh : Holding limit qs s) (hslot : qs[slot]? = some p) (hs : s.isolate.strings.size = 0)
    {kind : ReactionKind} {o : Operand} (ho : o.Fits) (hd : o.datum? = some datum) {answer : Except Failure String}
    (hr : execute (.settle kind slot o) s = .ok answer t) (hsound : t.isolate.strings.Sound) :
    datum.Lasts t.isolate.strings := by
  refine ⟨fun i hi => ?_, ?_⟩
  · have hread (text : String) (h : datum = .text text) : text = text := rfl
    exact (ho.stays hd hread).small i hi
  · rintro text rfl
    obtain rfl : o = .text text := by
      cases o with
      | text _ =>
        obtain rfl := Datum.text.inj (Option.some.inj hd)
        rfl
      | _ => cases hd
    have hpromise : (s.isolate.handles.entries.map (·.object))[slot]? = some p := by
      rw [hh.promises, List.getElem?_toArray]
      exact hslot
    -- the text is the first string of the table, so that no other one has its number
    have hstrings := strings_settle hh.kept hpromise hr
    have hid := s.isolate.strings.ids_intern text
    have hsize : (s.isolate.strings.intern text).2.size ≤ 1 := by
      have hone := s.isolate.strings.size_intern_le text
      omega
    rw [hstrings] at hsound ⊢
    exact ⟨_, hid, hsound.get? (hsize.trans (by decide)) text _ hid⟩

/-- The first promise of a chain is settled. -/
theorem Abides.settle {links : List Link} (h : Abides limit (.waiting links) n s) {kind : ReactionKind} {o : Operand}
    (hd : o.datum? = some datum) (hf : (Command.settle kind 0 o).Fits) :
    ∃ t, Entered limit s t (.settle kind 0 o) (.settled (kind, datum) links) 0
      (Shell.acting links (kind, datum)) := by
  obtain ⟨qs, hh, hb⟩ := h
  cases hb with
  | @waiting p ties hw hidle hs hk =>
  have hsound := hh.kept.held.fit.sound
  have hslot : (refs p ties)[0]? = some p := rfl
  obtain ⟨record, hr, -, hl, hruns⟩ := hw.settling hidle hh.nodup (kind, datum)
  have hperform (t : Shell) (v : Datum) (hv : (s.deskOf t).operand o = .ok v.managed) :=
    Desk.perform_settle hsound hh.awake ((hh.getElem? t 0).trans hslot) hr hl hv kind
  obtain ⟨u, t, hexecute, hdone⟩ := performed_of_perform hh.kept hf fun t _ => by
    obtain ⟨v, hv⟩ := Desk.operand_managed (d := s.deskOf t) hd
    exact ⟨_, _, hperform t v hv⟩
  -- on any desk the promise is settled with something, and on that of the shell with the value itself
  have hlasts := lasts_settle hh hslot hs hf.2 hd hexecute hdone.kept.strings
  have hvalue : (s.deskOf t).operand o = .ok datum.managed := Desk.operand_of_datum? hd hlasts.stays
  obtain ⟨rfl, he⟩ := EStateM.Result.ok.inj (hdone.perform.symm.trans (hperform t datum hvalue))
  rw [← he] at hruns
  have hbears := Bears.settled hruns hlasts (hk.lasting (hdone.lasting hh.kept))
  have hholding : Holding limit (refs p ties) t := by
    refine hh.rests hdone rfl ?_ ?_ ?_ <;> rw [he]
    · rfl
    · rfl
    · exact Nat.le_refl _
  exact ⟨t, .of_ne_run (fun h => by cases h) hexecute ⟨_, hholding, hbears⟩⟩

/-- A command that goes on with a chain is answered, unless more handles are asked for than there are. The
reactions that it runs and those that have still to be run make up for the links that act. -/
theorem Abides.step (h : Abides limit phase n s) (hf : c.Fits) (hnext : phase.Next c next)
    (hroom : next.links.length < limit) :
    (∃ t ran left, Entered limit s t c next ran left ∧ ran + left + phase.acting = n + next.acting) ∨
      Overfull s c next := by
  -- no command but a run lowers the number of reactions that are to be run
  cases hnext with
  | idle hc =>
    by_cases hrun : c = .run
    · subst hrun
      obtain ⟨t, ht⟩ := h.run
      exact .inl ⟨t, n, 0, ht, rfl⟩
    · obtain ⟨t, ht⟩ := h.idle hf hc hrun
      exact .inl ⟨t, 0, n, ht, by rw [Nat.zero_add]⟩
  | new =>
    obtain ⟨t, ht⟩ := h.new (Nat.zero_lt_of_lt hroom)
    exact .inl ⟨t, 0, n, ht, by rw [Nat.zero_add]; rfl⟩
  | @settle links kind o d hd =>
    obtain ⟨t, ht⟩ := h.settle hd hf
    have hn : n = 0 := by
      obtain ⟨qs, -, hb⟩ := h
      cases hb
      rfl
    subst hn
    refine .inl ⟨t, 0, _, ht, ?_⟩
    simp only [Phase.acting]
    omega
  | attach l =>
    rcases h.attach l hf hroom with ⟨t, ht⟩ | hfull
    · exact .inl ⟨t, 0, n, ht, by rw [Nat.zero_add]; rfl⟩
    · exact .inr hfull
  | @follow o links l =>
    rcases h.follow l hf hroom with ⟨t, ht⟩ | hfull
    · refine .inl ⟨t, 0, _, ht, ?_⟩
      have hcount := acting_append links [l] o
      simp only [Phase.acting]
      omega
    · exact .inr hfull

end Shell

end Promises
