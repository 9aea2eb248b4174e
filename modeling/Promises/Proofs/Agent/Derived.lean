import Promises.Proofs.Agent.Identity
import Promises.Proofs.Agent.Safe

namespace Promises

namespace Agent

variable {a b c : Agent}

theorem record?_resolving_of_ne {ref q : ObjectRef} (hq : q ≠ ref) (record : PromiseRecord)
    (r : Resolution) : (a.resolving ref record r).heap.record? q = a.heap.record? q := by
  cases r <;> exact Heap.record?_setRecord_of_ne hq _

/-- A job that sets a latch passes an outcome on to the promise, or adopts one for it. -/
theorem Effect.latches {job : Job} (he : Effect a job b) {q : ObjectRef} {old new : PromiseRecord}
    (ho : a.heap.record? q = .ok old) (hn : b.heap.record? q = .ok new)
    (hclear : old.alreadyResolved = false) (hset : new.alreadyResolved = true) :
    ∃ kind value, job = .react kind (.derive none q) value ∨
      job = .react kind (.adopt q) value := by
  have hstuck (h : new.alreadyResolved = old.alreadyResolved) :
      ∃ kind value, job = .react kind (.derive none q) value ∨
        job = .react kind (.adopt q) value := by
    rw [hset, hclear] at h
    cases h
  have hsame (h : a.heap.record? q = .ok new) : new.alreadyResolved = old.alreadyResolved := by
    rw [Except.ok.inj (h.symm.trans ho)]
  cases he with
  | dropped => exact hstuck (hsame hn)
  | attached hr => exact hstuck (eq_of_attaching _ hr ho hn rfl rfl)
  | handed kind handler derived =>
    exact hstuck (hsame ((Heap.record?_congr (Heap.object?_retain a.heap derived q)).symm.trans hn))
  | @passed kind derived argument =>
    by_cases hq : q = derived
    · exact ⟨kind, argument, Or.inl (hq ▸ rfl)⟩
    · rw [record?_resolving_of_ne hq] at hn
      exact hstuck (hsame hn)
  | @adopted kind follower argument =>
    by_cases hq : q = follower
    · exact ⟨kind, argument, Or.inr (hq ▸ rfl)⟩
    · exact hstuck (hsame ((Heap.record?_setRecord_of_ne hq _).symm.trans hn))

end Agent

open Agent

namespace History

variable {s t u : History} {x : Birth} {ended : Prop}

theorem Calm.ran_eq (hc : Calm s t) : t.ran = s.ran ∧ t.handed = s.handed := by
  cases hc <;> exact ⟨rfl, rfl⟩

theorem Calms.ran_eq (hc : Calms s t) : t.ran = s.ran ∧ t.handed = s.handed := by
  induction hc with
  | refl => exact ⟨rfl, rfl⟩
  | tail _ hc ih => exact ⟨hc.ran_eq.1.trans ih.1, hc.ran_eq.2.trans ih.2⟩

/-- No latch is set. -/
theorem Calm.latch (hs : s.Sound) (hc : Calm s t) {q : ObjectRef} {old new : PromiseRecord}
    (ho : s.agent.heap.record? q = .ok old) (hn : t.agent.heap.record? q = .ok new) :
    new.alreadyResolved = old.alreadyResolved := by
  cases hc with
  | idle hi =>
    obtain ⟨record, hr, he, -⟩ := hi.record?_inv hn
    obtain rfl : record = old := Except.ok.inj (hr.symm.trans ho)
    rw [he]
  | @place object =>
    have hsame := (Heap.record?_place hs.agent.shape object ho).symm.trans hn
    rw [Except.ok.inj hsame]
  | register hr => exact eq_of_attaching _ hr ho hn rfl rfl

/-- What holds of the derived promise `x`, as long as it is there and no client settles it. It is
latched only if its outcome was passed on, or if the reaction that runs its handler has `ended`. -/
structure Derived (s : History) (x : Birth) (ended : Prop) : Prop where
  born : x.number < s.born
  handed : ended → ∃ kind handler value,
    ⟨x.number, .react kind (.derive (some handler) x.ref) value⟩ ∈ s.ran
  latched : ∀ record, s.agent.heap.record? x.ref = .ok record → s.number x.ref = x.number →
    record.alreadyResolved = true →
    ended ∨ ∃ kind value, ⟨x.number, .react kind (.derive none x.ref) value⟩ ∈ s.ran
  passed : ∀ kind value, ⟨x.number, .react kind (.derive none x.ref) value⟩ ∈ s.ran →
    ∀ status, s.Shows x status → status = .settled kind value

/-- A settled promise stays settled. -/
theorem Leads.settled (hl : Leads s t) (hb : x.number < s.born) {kind : ReactionKind}
    {value : ManagedValue} (h : ∀ status, s.Shows x status → status = .settled kind value)
    {status : PromiseStatus} (ht : t.Shows x status) : status = .settled kind value := by
  obtain ⟨new, hr, hn, rfl⟩ := ht
  obtain ⟨hsame, old, ho, ha⟩ := hl.kept x.ref new hr (hn ▸ hb)
  have hold := h old.status ⟨old, ho, hsame.trans hn, rfl⟩
  rw [ha.status (hold ▸ PromiseStatus.settled_ne_pending kind value), hold]

theorem Derived.calm (hs : s.Sound) (hc : Calm s t) (h : s.Derived x ended) :
    t.Derived x ended := by
  have hl := hc.move.leads hs
  obtain ⟨hran, -⟩ := hc.ran_eq
  refine ⟨Nat.lt_of_lt_of_le h.born hl.born_le, ?_, ?_, ?_⟩
  · rw [hran]
    exact h.handed
  · intro new hr hn hlatch
    obtain ⟨hsame, old, ho, -⟩ := hl.kept x.ref new hr (hn ▸ h.born)
    rw [hran]
    exact h.latched old ho (hsame.trans hn) (hc.latch hs ho hr ▸ hlatch)
  · intro kind value he status
    rw [hran] at he
    exact hl.settled h.born (h.passed kind value he)

theorem Derived.calms (hs : s.Sound) (hc : Calms s t) (h : s.Derived x ended) :
    t.Derived x ended := by
  induction hc with
  | refl => exact h
  | tail hu hc ih => exact ih.calm (Moves.sound hs (Calms.moves hu)) hc

/-- The reaction that is run next for a derived promise is the first one. -/
theorem Balanced.first_reaction (hb : s.Balanced) {job : Job} {queue : JobQueue} {n : Nat}
    (hp : s.agent.queue.pop? = some (job, queue)) (hj : (s.entry job).reacts true n = true) :
    ∀ e ∈ s.ran, e.reacts true n = false := by
  have hwaits : 0 < (s.agent.queue.toList.map s.entry).countP (Entry.reacts true n) := by
    rw [JobQueue.toList_of_pop?_eq_some hp]
    exact List.countP_pos_iff.2 ⟨_, List.mem_cons_self, hj⟩
  have hle : s.queued.countP (Entry.reacts true n) ≤ 1 :=
    Nat.le_trans (Nat.le_add_left _ _) (hb.derived_le n)
  rw [hb.logged, List.countP_append] at hle
  have hzero : s.ran.countP (Entry.reacts true n) = 0 := by omega
  intro e he
  exact Bool.eq_false_iff.2 (List.countP_eq_zero.1 hzero e he)

/-- A derived promise is not latched before its reaction was run. -/
theorem Derived.unlatched (h : s.Derived x ended)
    (hran : ∀ e ∈ s.ran, e.reacts true x.number = false) {record : PromiseRecord}
    (hr : s.agent.heap.record? x.ref = .ok record) (hn : s.number x.ref = x.number) :
    record.alreadyResolved = false := by
  have hnever {kind : ReactionKind} {handler : Option FunctionId} {value : ManagedValue}
      (he : ⟨x.number, .react kind (.derive handler x.ref) value⟩ ∈ s.ran) : False := by
    have hreacts := hran _ he
    rw [Entry.reacts_derive] at hreacts
    cases hreacts
  by_contra hl
  rw [Bool.not_eq_false] at hl
  rcases h.latched record hr hn hl with hended | ⟨kind, value, he⟩
  · obtain ⟨kind, handler, value, he⟩ := h.handed hended
    exact hnever he
  · exact hnever he

/-- A promise for which the next job is to adopt is latched. -/
theorem Balanced.latched_of_pop (hb : s.Balanced) {kind : ReactionKind} {p : ObjectRef}
    {value : ManagedValue} {queue : JobQueue} {record : PromiseRecord}
    (hp : s.agent.queue.pop? = some (.react kind (.adopt p) value, queue))
    (hr : s.agent.heap.record? p = .ok record) : record.alreadyResolved = true := by
  by_contra hl
  exact (hb.follows_of_pop hp).1 (hb.unlatched p record hr (Bool.eq_false_iff.2 hl))

theorem Derived.job (hs : s.Sound) (hb : s.Balanced) (hf : s.agent.Fit False)
    (h : s.Derived x ended) {job : Job} {queue : JobQueue}
    (hp : s.agent.queue.pop? = some (job, queue)) :
    ((s.worked job job.native?).after (s.agent.queue.length - 1)
      (({ s.agent with queue } : Agent).working job)).Derived x ended := by
  have hm : Move s _ := .job hp
  have hl := hm.leads hs
  have heffect := effect_working { s.agent with queue } job
  refine ⟨h.born, fun hended => ?_, fun new hr hn hlatch => ?_, fun kind value he status ht => ?_⟩
  · obtain ⟨kind, handler, value, he⟩ := h.handed hended
    exact ⟨kind, handler, value, List.mem_append_left _ he⟩
  · obtain ⟨-, old, ho, -⟩ := hl.kept x.ref new hr (hn ▸ h.born)
    have hn : s.number x.ref = x.number := hn
    cases hold : old.alreadyResolved with
    | true =>
      refine (h.latched old ho hn hold).imp_right ?_
      rintro ⟨kind, value, he⟩
      exact ⟨kind, value, List.mem_append_left _ he⟩
    | false =>
      obtain ⟨kind, value, rfl | rfl⟩ := heffect.latches ho hr hold hlatch
      · -- the job that was just run
        refine Or.inr ⟨kind, value, List.mem_append_right _ (List.mem_singleton.2 ?_)⟩
        exact congrArg (Entry.mk · _) hn.symm
      · -- what adopts an outcome was latched when it began to wait
        rw [hb.latched_of_pop hp ho] at hold
        cases hold
  · rcases List.mem_append.1 he with he | he
    · exact hl.settled h.born (h.passed kind value he) ht
    · -- the outcome was just passed on
      obtain ⟨hnumber, rfl⟩ := Entry.mk.inj (List.mem_singleton.1 he)
      obtain ⟨old, (ho : s.agent.heap.record? x.ref = .ok old)⟩ := hs.agent.target_record hp
      have hreacts : (s.entry (.react kind (.derive none x.ref) value)).reacts true x.number = true := by
        rw [hnumber]
        exact Entry.reacts_derive ..
      have hclear := h.unlatched (hb.first_reaction hp hreacts) ho hnumber.symm
      -- a reason is not followed, and no promise is fulfilled with a promise
      have hplain : s.agent.heap.resolution x.ref kind value = .settle kind value := by
        apply resolution_of_plain (Heap.isPromise_of_record? ho)
        cases kind with
        | reject => exact Or.inl rfl
        | fulfill => exact Or.inr ((hf.argument hp rfl).plain rfl)
      have hworking : ({ s.agent with queue } : Agent).working
          (.react kind (.derive none x.ref) value) =
          ({ s.agent with queue } : Agent).resolving x.ref old (.settle kind value) := by
        rw [working_derive_none (a := { s.agent with queue }) ho, hclear,
          if_neg Bool.false_ne_true, hplain]
      obtain ⟨new, hr, -, rfl⟩ := ht
      change (({ s.agent with queue } : Agent).working _).heap.record? x.ref = .ok new at hr
      obtain ⟨settled, hsettled, -, hstatus⟩ :=
        record?_resolving (a := { s.agent with queue }) ho (.settle kind value)
      rw [hworking, hsettled, Except.ok.injEq] at hr
      rw [← hr]
      exact hstatus kind value rfl

theorem Step.job_inv (hs : s.Sound) {job : Job} {native : Option NativeJob}
    (h : Step s (.job job native) t) :
    ∃ queue, s.agent.queue.pop? = some (job, queue) ∧ native = job.native? ∧
      t = (s.worked job job.native?).after (s.agent.queue.length - 1)
        (({ s.agent with queue } : Agent).working job) := by
  obtain ⟨h⟩ := h
  obtain ⟨queue, -, hp, rfl, rfl⟩ := Agent.Step.job_inv hs.agent h
  exact ⟨queue, hp, rfl, rfl⟩

theorem Derived.works (hs : s.Sound) (hb : s.Balanced) (hf : s.agent.Fit False)
    {native : Option NativeJob} (hw : Works s native t) (h : s.Derived x ended) :
    t.Derived x ended := by
  induction hw with
  | idle => exact h
  | last hstep =>
    obtain ⟨queue, hp, -, rfl⟩ := hstep.job_inv hs
    exact h.job hs hb hf hp
  | more hstep _ ih =>
    obtain ⟨queue, hp, -, rfl⟩ := hstep.job_inv hs
    have hm : Move _ _ := .job hp
    exact ih (hm.sound hs) (hm.balanced hs hb) (hf.worked hp) (h.job hs hb hf hp)

/-- A native job is handed out with the number of its promise, which is live. -/
theorem Works.numbered (hs : s.Sound) {answer : Option NativeJob} (hw : Works s answer t) :
    t.number = s.number ∧
      t.handed = s.handed ++ answer.toList.map (fun job => (s.number job.derived, job)) ∧
      ∀ job, answer = some job → s.agent.heap.isLive job.derived = true := by
  induction hw with
  | idle => simp
  | @last s t job _ hstep =>
    obtain ⟨queue, hp, hn, rfl⟩ := hstep.job_inv hs
    refine ⟨rfl, ?_, ?_⟩
    · rw [hn]
      rfl
    · rintro _ ⟨⟩
      obtain ⟨record, hr⟩ := hs.agent.target_record hp
      rw [Job.native?_derived hn.symm]
      exact Heap.isLive_of_record? hr
  | @more s t u job _ hstep _ ih =>
    obtain ⟨queue, hp, hn, rfl⟩ := hstep.job_inv hs
    obtain ⟨hnumber, hhanded, hlive⟩ := ih ((Move.job hp).sound hs)
    refine ⟨hnumber, ?_, fun found hfound => ?_⟩
    · rw [hhanded, ← hn]
      exact congrArg (· ++ _) (List.append_nil _)
    · exact (isLive_working { s.agent with queue } job _).symm.trans (hlive found hfound)

/-- A call that settles a promise resolves it, or leaves all as it is. -/
theorem Step.settle_inv (hs : s.Sound) {kind : ReactionKind} {ref : ObjectRef}
    {value : ManagedValue} {answer : Answer}
    (h : Step s (.call (.settle kind ref value) answer) t) :
    (answer ≠ .settled (.ok true) ∧ t = s) ∨
      (answer = .settled (.ok true) ∧ ∃ record, s.agent.heap.record? ref = .ok record ∧
        record.alreadyResolved = false ∧
        t = s.after s.agent.queue.length
          (s.agent.resolving ref record (s.agent.heap.resolution ref kind value))) := by
  have hbirth : (Call.settle kind ref value).birth? s.agent answer = none := by
    cases kind <;> rfl
  obtain @⟨b, h⟩ := h
  cases h with
  | call _ hc =>
    rw [History.record, hbirth]
    have hstay : s.after s.agent.queue.length s.agent = s := s.after_of_queue_eq rfl
    by_cases ha : answer = .settled (.ok true)
    · -- only a call that was accepted changes anything
      rw [ha] at hc
      obtain ⟨record, hr, hu, rfl⟩ := settle_call_accepted hs.agent hc
      exact Or.inr ⟨ha, record, hr, hu, rfl⟩
    · refine Or.inl ⟨ha, ?_⟩
      rw [settle_call_run hs.agent] at hc
      split at hc
      · rw [← (EStateM.Result.ok.inj hc).2]
        exact hstay
      · cases hr : s.agent.heap.record? ref with
        | error e =>
          simp only [hr] at hc
          rw [← (EStateM.Result.ok.inj hc).2]
          exact hstay
        | ok record =>
          simp only [hr] at hc
          split at hc
          · rw [← (EStateM.Result.ok.inj hc).2]
            exact hstay
          · exact absurd (EStateM.Result.ok.inj hc).1.symm ha

/-- A call that settles a promise is accepted when the latch is clear, unless the agent is terminating. -/
theorem Step.accepted (hs : s.Sound) {kind : ReactionKind} {ref : ObjectRef} {value : ManagedValue}
    {answer : Answer} (h : Step s (.call (.settle kind ref value) answer) t) {record : PromiseRecord}
    (hr : s.agent.heap.record? ref = .ok record) (hu : record.alreadyResolved = false)
    (hrunning : s.agent.terminating = false) : answer = .settled (.ok true) := by
  obtain ⟨h⟩ := h
  cases h with
  | call _ hc =>
    obtain ⟨b, hb, -⟩ := settle_call_answer hs.agent hr hrunning kind value
    rw [hu] at hb
    exact (EStateM.Result.ok.inj (hc.symm.trans hb)).1

/-- Other promises may be settled. -/
theorem Derived.settle (hs : s.Sound) {kind : ReactionKind} {ref : ObjectRef}
    {value : ManagedValue} {answer : Answer}
    (hstep : Step s (.call (.settle kind ref value) answer) t)
    (hn : x.ref ≠ ref ∨ answer ≠ .settled (.ok true)) (h : s.Derived x ended) :
    t.Derived x ended := by
  rcases hstep.settle_inv hs with ⟨-, rfl⟩ | ⟨ha, record, hr, hu, rfl⟩
  · exact h
  · have hne : x.ref ≠ ref := hn.resolve_right fun hn => hn ha
    have hl := (Move.resolve hr hu kind value).leads hs
    refine ⟨h.born, h.handed, fun new hnew => ?_, fun kind value he status => ?_⟩
    · exact h.latched new ((record?_resolving_of_ne hne record _).symm.trans hnew)
    · exact hl.settled h.born (h.passed kind value he)

/-- The reaction that runs the handler comes to its end. -/
theorem Derived.end_reaction (hs : s.Sound) (hm : Moves s t) (hran : t.ran = s.ran)
    (hh : ∃ kind handler value,
      ⟨x.number, .react kind (.derive (some handler) x.ref) value⟩ ∈ s.ran)
    (h : s.Derived x ended) : t.Derived x True := by
  have hl := Moves.leads hs hm
  refine ⟨Nat.lt_of_lt_of_le h.born hl.born_le, fun _ => hran ▸ hh, fun _ _ _ _ => Or.inl trivial, ?_⟩
  intro kind value he status
  rw [hran] at he
  exact hl.settled h.born (h.passed kind value he)

/-- A call runs no job. -/
theorem Step.call_kept {c : Call} {answer : Answer} (h : Step s (.call c answer) t) :
    t.ran = s.ran ∧ t.handed = s.handed := by
  obtain ⟨-⟩ := h
  rw [record]
  cases c.birth? s.agent answer <;> exact ⟨rfl, rfl⟩

/-- A native job that was handed out is the reaction of a job that was run. -/
theorem Balanced.ran_of_handed (hb : s.Balanced) {n : Nat} {job : NativeJob}
    (h : (n, job) ∈ s.handed) :
    ⟨n, .react job.kind (.derive (some job.handler) job.derived) job.argument⟩ ∈ s.ran := by
  rw [hb.handed] at h
  obtain ⟨⟨m, ran⟩, he, hn⟩ := List.mem_flatMap.1 h
  obtain ⟨found, hfound, hsame⟩ := List.mem_map.1 hn
  obtain ⟨rfl, rfl⟩ := Prod.mk.inj hsame
  obtain rfl := Fit.native?_eq_some_iff.1 (Option.mem_toList.1 hfound)
  exact he

/-- What a registration gives is a promise of its own, which nothing was run for. -/
theorem Step.derived (hs : s.Sound) (hb : s.Balanced) {p d : ObjectRef} {f g : Option FunctionId}
    (h : Step s (.call (.addReactions p f g) (.object (.ok d))) t) :
    t.Names ⟨d, s.born⟩ ∧ t.handed.filter (fun handed => handed.1 == s.born) = [] ∧
      t.Derived ⟨d, s.born⟩ False := by
  have hran (e : Entry) (he : e ∈ s.ran) : e.number ≠ s.born := by
    have hlt := hs.entry_lt e (hb.logged ▸ List.mem_append_left _ he)
    exact Nat.ne_of_lt hlt
  obtain ⟨h⟩ := h
  cases h with
  | call _ hc =>
    obtain ⟨record, hr, rfl, hkept, rfl⟩ := addReactions_call_inv hs.agent hc
    refine ⟨⟨Nat.lt_succ_self _, Function.update_self _ _ _, fun _ => ?_⟩, ?_, Nat.lt_succ_self _,
      False.elim, ?_, ?_⟩
    · have hnew := isPromise_derivedRef hs.agent p
      rw [Heap.isPromise_iff_kind?] at hnew ⊢
      exact (kind?_attaching hkept _ _).trans hnew
    · rw [List.filter_eq_nil_iff]
      rintro ⟨n, job⟩ hjob hn
      exact hran _ (hb.ran_of_handed hjob) (eq_of_beq hn)
    · intro new hnew _ hlatch
      have hold := record?_derivedRef hs.agent p
      rw [eq_of_attaching PromiseRecord.alreadyResolved hkept hold hnew rfl rfl] at hlatch
      cases hlatch
    · intro kind value he
      exact absurd rfl (hran _ he)

/-- What a promise comes to once it was resolved, or is to come to. -/
def Comes (s : History) (x : Birth) (number : ObjectRef → Nat) : Resolution → Prop
  | .settle kind value => s.Shows x (.settled kind value)
  | .follow other => s.Awaits x ⟨other, number other⟩

theorem Step.comes (hs : s.Sound) {kind : ReactionKind} {value : ManagedValue}
    (hn : s.number x.ref = x.number)
    (h : Step s (.call (.settle kind x.ref value) (.settled (.ok true))) t) :
    t.Comes x s.number (s.agent.heap.resolution x.ref kind value) := by
  obtain ⟨hno, -⟩ | ⟨-, record, hr, hu, ht⟩ := h.settle_inv hs
  · exact absurd rfl hno
  · cases hres : s.agent.heap.resolution x.ref kind value with
    | settle k v =>
      obtain ⟨new, hnew, -, hstatus⟩ := record?_resolving hr (.settle k v)
      rw [hres] at ht
      rw [ht]
      exact ⟨new, hnew, hn, hstatus k v rfl⟩
    | follow other =>
      obtain ⟨rfl, rfl, hne, ho⟩ := Heap.resolution_eq_follow_iff.1 hres
      have hawaits := Resolves.awaits hs .call hne ho h
      rw [show s.birth x.ref = x from congrArg (Birth.mk x.ref) hn] at hawaits
      exact hawaits

theorem Comes.settled (hs : s.Sound) (hm : Moves s t) {number : ObjectRef → Nat}
    {kind : ReactionKind} {value : ManagedValue} (h : s.Comes x number (.settle kind value))
    {status : PromiseStatus} (ht : t.Shows x status) : status = .settled kind value := by
  have hborn : x.number < s.born := by
    obtain ⟨record, hr, hn, -⟩ := h
    rw [← hn]
    exact hs.number_lt x.ref (Heap.isLive_of_record? hr)
  exact (Moves.leads hs hm).settled hborn (fun status hv => Shows.unique hv h) ht

theorem Comes.agrees (hs : s.Sound) (hb : s.Balanced) (ha : s.Adopted) (hm : Moves s t)
    {number : ObjectRef → Nat} {other : ObjectRef} (h : s.Comes x number (.follow other))
    (hq : t.agent.queue.toList = []) {v w : PromiseStatus} (hx : t.Shows x v)
    (hy : t.Shows ⟨other, number other⟩ w) : v = w := by
  have hawaits := Moves.awaits hs hb hm h
  have hadopted := Moves.adopted hs hb hm ha
  exact hawaits.agrees (Moves.sound hs hm) (Moves.balanced hs hb hm) hadopted hq hx hy

end History

end Promises
