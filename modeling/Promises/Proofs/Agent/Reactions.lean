import Promises.Proofs.Agent.Balance

namespace Promises

/-- The one of two that goes with a way to settle. -/
def ReactionKind.pick {α : Type} (kind : ReactionKind) (onFulfilled onRejected : α) : α :=
  match kind with
  | fulfill => onFulfilled
  | reject => onRejected

theorem filter_eq_singleton {α : Type} {p : α → Bool} {xs : List α} {x : α} (hx : x ∈ xs)
    (hp : p x = true) (hc : xs.countP p ≤ 1) : xs.filter p = [x] := by
  rw [List.countP_eq_length_filter] at hc
  have hm : x ∈ xs.filter p := List.mem_filter.2 ⟨hx, hp⟩
  match hf : xs.filter p, hc, hm with
  | [y], _, hm => rw [List.mem_singleton.1 hm]

namespace Agent

variable {a b : Agent}

/-- A change that settles a promise queues the reactions that it stored. -/
theorem Change.due (hc : Change a b) {ref : ObjectRef} {old new : PromiseRecord}
    {kind : ReactionKind} {value : ManagedValue} (ho : a.heap.record? ref = .ok old)
    (hp : old.status = .pending) (hn : b.heap.record? ref = .ok new)
    (hs : new.status = .settled kind value) :
    ∀ pair ∈ old.reactions.toList, Job.react kind (pair.due kind) value ∈ b.queue.toList := by
  -- one that stays pending is not the one that was settled
  have hstuck (h : new.status = old.status) :
      ∀ pair ∈ old.reactions.toList, Job.react kind (pair.due kind) value ∈ b.queue.toList := by
    rw [hs, hp] at h
    exact absurd h (PromiseStatus.settled_ne_pending kind value)
  cases hc with
  | idle hi =>
    obtain ⟨record, hr, he, -⟩ := hi.record?_inv hn
    rw [ho, Except.ok.injEq] at hr
    subst hr
    exact hstuck (by rw [he])
  | pop => exact hstuck (congrArg PromiseRecord.status (Except.ok.inj (hn.symm.trans ho)))
  | attach hr => exact hstuck (eq_of_attaching _ hr ho hn rfl rfl)
  | @settle q record hr hpend k v =>
    rcases Heap.record?_setRecord_inv hr hn with ⟨rfl, rfl⟩ | ⟨-, hsame⟩
    · obtain rfl : old = record := Except.ok.inj (ho.symm.trans hr)
      obtain ⟨rfl, rfl⟩ := PromiseStatus.settled_inj hs
      intro pair hpair
      rw [settling, JobQueue.toList_pushAll]
      exact List.mem_append_right _ (List.mem_map_of_mem hpair)
    · exact hstuck (congrArg PromiseRecord.status (Except.ok.inj (hsame.symm.trans ho)))
  | follow hr => exact hstuck (Heap.eq_of_setRecord _ hr ho hn rfl)

/-- What a registration comes to: the pair is stored, or the reaction that is due is queued. -/
theorem record?_attaching {ref : ObjectRef} {record : PromiseRecord}
    (hr : a.heap.record? ref = .ok record) (pair : ReactionPair) :
    ∃ new, (a.attaching ref record pair).heap.record? ref = .ok new ∧
      (new.status = .pending → pair ∈ new.reactions.toList) ∧
      ∀ kind value, new.status = .settled kind value →
        Job.react kind (pair.due kind) value ∈ (a.attaching ref record pair).queue.toList := by
  unfold attaching
  cases ho : record.status.outcome? with
  | none =>
    have hpend := PromiseStatus.outcome?_eq_none_iff.1 ho
    refine ⟨_, Heap.record?_setRecord hr _, fun _ => ?_, fun kind value hs => ?_⟩
    · rw [PromiseRecord.addReactions, Array.toList_push]
      exact List.mem_append_right _ (List.mem_singleton.2 rfl)
    · exact absurd (hs.symm.trans hpend) (PromiseStatus.settled_ne_pending kind value)
  | some outcome =>
    obtain ⟨k, v⟩ := outcome
    have hstatus := PromiseStatus.outcome?_eq_some_iff.1 ho
    refine ⟨_, Heap.record?_setRecord hr record.markHandled, fun hp => ?_, fun kind value hs => ?_⟩
    · exact absurd (hstatus.symm.trans hp) (PromiseStatus.settled_ne_pending k v)
    · obtain ⟨rfl, rfl⟩ := PromiseStatus.settled_inj (hstatus.symm.trans hs)
      rw [JobQueue.toList_push]
      exact List.mem_append_right _ (List.mem_singleton.2 rfl)

end Agent

open Agent

namespace History

variable {s t : History}

theorem Move.queued_prefix (hm : Move s t) : s.queued <+: t.queued := by
  cases hm with
  | idle => exact List.prefix_rfl
  | place => exact List.prefix_rfl
  | register => exact List.prefix_append _ _
  | resolve => exact List.prefix_append _ _
  | job => exact List.prefix_append _ _

theorem Moves.queued_prefix (hm : Moves s t) : s.queued <+: t.queued := by
  induction hm with
  | refl => exact List.prefix_rfl
  | tail _ hm ih => exact ih.trans hm.queued_prefix

/-- An object keeps its number. -/
theorem Move.number_eq (hs : s.Sound) (hm : Move s t) {ref : ObjectRef}
    (hl : s.agent.heap.isLive ref = true) : t.number ref = s.number ref := by
  cases hm with
  | idle => rfl
  | @place object =>
    exact Function.update_of_ne (Heap.ne_place_of_isLive hs.agent.shape object hl) _ _
  | register => rfl
  | resolve => rfl
  | job => rfl

theorem Move.due (hs : s.Sound) (hm : Move s t) {ref : ObjectRef} {old new : PromiseRecord}
    {kind : ReactionKind} {value : ManagedValue} (ho : s.agent.heap.record? ref = .ok old)
    (hp : old.status = .pending) (hn : t.agent.heap.record? ref = .ok new)
    (hk : new.status = .settled kind value) :
    ∀ pair ∈ old.reactions.toList, Job.react kind (pair.due kind) value ∈ t.agent.queue.toList := by
  cases hm with
  | idle hi => exact (Change.idle hi).due ho hp hn hk
  | @place object =>
    have hsame := Heap.record?_place hs.agent.shape object ho
    rw [Except.ok.inj (hsame.symm.trans hn)] at hp
    exact absurd (hk.symm.trans hp) (PromiseStatus.settled_ne_pending kind value)
  | register hr hd hu =>
    refine Change.due (.attach hr fun k => ?_) ho hp hn hk
    cases k <;> exact hd
  | resolve hr hu k v => exact (change_resolving hs.agent hr hu k v).due ho hp hn hk
  | @job job queue hpop =>
    obtain ⟨hsound, hjob⟩ := hs.agent.pop hpop
    rcases (effect_working _ job).eq_or_change hsound hjob with hw | hw
    · change (({ s.agent with queue } : Agent).working job).heap.record? ref = .ok new at hn
      rw [hw] at hn
      rw [Except.ok.inj (ho.symm.trans hn)] at hp
      exact absurd (hk.symm.trans hp) (PromiseStatus.settled_ne_pending kind value)
    · exact hw.due ho hp hn hk

/-- What a registration pledges: while its source, the object `p` with number `n`, is pending, the
pair of reactions to the promise with number `m` is stored with it, and once it is settled, the
reaction that is due was queued. -/
def Pledges (s : History) (p : ObjectRef) (n m : Nat) (pair : ReactionPair) : Prop :=
  ∀ record, s.agent.heap.record? p = .ok record → s.number p = n →
    (record.status = .pending →
      pair ∈ record.reactions.toList ∧ ∀ kind, s.number (pair.due kind).target = m) ∧
    ∀ kind value, record.status = .settled kind value →
      ⟨m, .react kind (pair.due kind) value⟩ ∈ s.queued

variable {p : ObjectRef} {n m : Nat} {pair : ReactionPair}

/-- Every waiting job was queued. -/
theorem Balanced.entry_mem (hb : s.Balanced) {job : Job} (hj : job ∈ s.agent.queue.toList) :
    s.entry job ∈ s.queued := by
  rw [hb.logged]
  exact List.mem_append_right _ (List.mem_map_of_mem hj)

theorem Move.pledges (hs : s.Sound) (hb : t.Balanced) (hm : Move s t) (hn : n < s.born)
    (h : s.Pledges p n m pair) : t.Pledges p n m pair := by
  intro new hnew hnumber
  obtain ⟨hsame, old, hold, ha⟩ := (hm.leads hs).kept p new hnew (hnumber ▸ hn)
  obtain ⟨hpending, hsettled⟩ := h old hold (hsame.trans hnumber)
  -- a stored pair has live targets, which keep their numbers
  have hkeep (hp : old.status = .pending) (kind : ReactionKind) :
      t.number (pair.due kind).target = m := by
    have hlive := hs.agent.stored p old hold pair (hpending hp).1 kind
    rw [hm.number_eq hs (Heap.isLive_of_isPromise hlive), (hpending hp).2]
  constructor
  · intro hp
    have hpold : old.status = .pending := by
      by_contra hne
      exact hne (ha.status hne ▸ hp)
    exact ⟨(ha.reactions hp).subset (hpending hpold).1, hkeep hpold⟩
  · intro kind value hk
    by_cases hp : old.status = .pending
    · have hjob := hm.due hs hold hp hnew hk pair (hpending hp).1
      have hentry := hb.entry_mem hjob
      rw [entry, Job.target, hkeep hp kind] at hentry
      exact hentry
    · exact hm.queued_prefix.subset (hsettled kind value (ha.status hp ▸ hk))

theorem Moves.pledges (hs : s.Sound) (hb : s.Balanced) (hm : Moves s t) (hn : n < s.born)
    (h : s.Pledges p n m pair) : t.Pledges p n m pair := by
  induction hm with
  | refl => exact h
  | @tail u v hu hm ih =>
    have hsu := Moves.sound hs hu
    have hbv := hm.balanced hsu (Moves.balanced hs hb hu)
    exact hm.pledges hsu hbv (Nat.lt_of_lt_of_le hn (Moves.leads hs hu).born_le) ih

/-- What a sound registration is answered and comes to. -/
theorem addReactions_call_inv {a b : Agent} (ha : a.Sound) {p d : ObjectRef}
    {f g : Option FunctionId}
    (hc : (Call.addReactions p f g).run a = .ok (.object (.ok d)) b) :
    ∃ record, a.heap.record? p = .ok record ∧ d = a.derivedRef p ∧
      (a.withDerived p).heap.record? p = .ok record ∧
      b = (a.withDerived p).attaching p record ⟨.derive f d, .derive g d⟩ := by
  obtain ⟨answer, hrun, hanswer⟩ := Action.map_ok hc
  obtain rfl := Answer.object.inj hanswer
  exact addReactions_ok ha hrun

/-- Reactions that were just registered are pledged. -/
theorem pledges_of_attaching (hb : t.Balanced) {a : Agent} {record : PromiseRecord}
    (hr : a.heap.record? p = .ok record) (ha : t.agent = a.attaching p record pair)
    (hm : ∀ kind, t.number (pair.due kind).target = m) : t.Pledges p n m pair := by
  obtain ⟨new, hnew, hpend, hset⟩ := record?_attaching hr pair
  intro record' hr' _
  rw [ha] at hr'
  obtain rfl : new = record' := Except.ok.inj (hnew.symm.trans hr')
  refine ⟨fun hp => ⟨hpend hp, hm⟩, fun kind value hk => ?_⟩
  have hentry := hb.entry_mem (ha ▸ hset kind value hk)
  rw [entry, Job.target, hm] at hentry
  exact hentry

theorem registration_pledges (hs : s.Sound) {p d : ObjectRef} {f g : Option FunctionId}
    (hb : t.Balanced) (h : Step s (.call (.addReactions p f g) (.object (.ok d))) t) :
    t.Pledges p (s.number p) (t.number d) ⟨.derive f d, .derive g d⟩ ∧ s.number p < t.born := by
  obtain ⟨h⟩ := h
  cases h with
  | @call _ _ b _ hc =>
    obtain ⟨record, hr, hd, hkept, rfl⟩ := addReactions_call_inv hs.agent hc
    have hlt := hs.number_lt p (Heap.isLive_of_record? hr)
    refine ⟨?_, Nat.lt_succ_of_lt hlt⟩
    refine pledges_of_attaching hb hkept rfl fun kind => ?_
    cases kind <;> rfl

theorem filter_native (n : Nat) (entries : List Entry) :
    (entries.flatMap Entry.native).filter (fun handed => handed.1 == n) =
      (entries.filter (Entry.reacts true n)).flatMap Entry.native := by
  have hone (e : Entry) : e.native.filter (fun handed => handed.1 == n) =
      if e.reacts true n then e.native else [] := by
    obtain ⟨m, job⟩ := e
    match job with
    | .react kind (.derive (some handler) derived) argument =>
      simp [Entry.native, Job.native?, Entry.reacts, Reaction.isDerive, List.filter_cons]
    | .react kind (.derive none derived) argument => simp [Entry.native, Job.native?]
    | .react kind (.adopt follower) argument => simp [Entry.native, Job.native?]
    | .follow .. => simp [Entry.native, Job.native?]
  induction entries with
  | nil => rfl
  | cons e entries ih =>
    rw [List.flatMap_cons, List.filter_append, ih, hone, List.filter_cons]
    split
    · rw [List.flatMap_cons]
    · rfl

/-- No promise has two native jobs handed out for it. -/
theorem Balanced.handed_once (hb : s.Balanced) : (s.handed.map Prod.fst).Nodup := by
  have hnative (entries : List Entry) : (entries.flatMap Entry.native).length ≤ entries.length := by
    induction entries with
    | nil => exact Nat.le_refl _
    | cons e entries ih =>
      have hone : e.native.length ≤ 1 := by
        rw [Entry.native, List.length_map, Option.length_toList]
        split <;> simp
      rw [List.flatMap_cons, List.length_append, List.length_cons]
      omega
  rw [List.nodup_iff_count_le_one]
  intro n
  calc (s.handed.map Prod.fst).count n
      = (s.handed.filter fun handed => handed.1 == n).length := by
        rw [List.count, List.countP_map, List.countP_eq_length_filter]
        rfl
    _ = ((s.ran.filter (Entry.reacts true n)).flatMap Entry.native).length := by
        rw [hb.handed, filter_native]
    _ ≤ s.ran.countP (Entry.reacts true n) := by
        rw [List.countP_eq_length_filter]
        exact hnative _
    _ ≤ s.queued.countP (Entry.reacts true n) := by
        rw [hb.logged]
        exact (List.sublist_append_left _ _).countP_le
    _ ≤ s.pledged true n := Nat.le_add_left _ _
    _ ≤ 1 := hb.derived_le n

/-- What was run of a kind of jobs of which one was queued. -/
theorem Balanced.filter_ran (hb : s.Balanced) {q : Entry → Bool} {e : Entry}
    (he : s.queued.filter q = [e]) : s.ran.filter q = if e ∈ s.ran then [e] else [] := by
  have hqueued : s.ran.filter q ++ (s.agent.queue.toList.map s.entry).filter q = [e] := by
    rw [← List.filter_append, ← hb.logged, he]
  have hmem : e ∈ s.queued.filter q := by
    rw [he]
    exact List.mem_singleton.2 rfl
  -- it is among the jobs that were run or among those that wait
  rcases List.append_eq_singleton_iff.1 hqueued with ⟨hnone, -⟩ | ⟨hone, -⟩
  · have hnot : e ∉ s.ran := fun hm => by
      have hf := List.mem_filter.2 ⟨hm, (List.mem_filter.1 hmem).2⟩
      rw [hnone] at hf
      cases hf
    rw [hnone, if_neg hnot]
  · have hm : e ∈ s.ran.filter q := hone ▸ List.mem_singleton.2 rfl
    rw [hone, if_pos (List.mem_filter.1 hm).1]

/-- A promise that a stored pair aims at has no such reaction queued. -/
theorem Balanced.queued_eq_nil_of_stored (hb : s.Balanced) {record : PromiseRecord} {derive : Bool}
    (hr : s.agent.heap.record? p = .ok record) (hs : pair ∈ record.reactions.toList)
    (ha : pair.aims s.number derive m = true) : s.queued.filter (Entry.reacts derive m) = [] := by
  have hpos : 0 < s.agent.heap.tally (ReactionPair.aims s.number derive m) :=
    Heap.tally_pos _ hr hs ha
  have hle := hb.pledged_le derive m
  rw [pledged] at hle
  rw [← List.length_eq_zero_iff, ← List.countP_eq_length_filter]
  omega

/-- The reaction that was queued for a derived promise is the only one, and hands out its handler
once it is run. -/
theorem Balanced.queued_once (hb : s.Balanced) {kind : ReactionKind} {handler : Option FunctionId}
    {d : ObjectRef} {value : ManagedValue}
    (hm : ⟨m, .react kind (.derive handler d) value⟩ ∈ s.queued) :
    s.queued.filter (Entry.reacts true m) = [⟨m, .react kind (.derive handler d) value⟩] ∧
    s.handed.filter (fun handed => handed.1 == m) =
      if ⟨m, .react kind (.derive handler d) value⟩ ∈ s.ran then
        handler.toList.map fun handler => (m, ⟨kind, handler, value, d⟩)
      else [] := by
  have hle : s.queued.countP (Entry.reacts true m) ≤ 1 :=
    Nat.le_trans (Nat.le_add_left _ _) (hb.derived_le m)
  have hone := filter_eq_singleton hm (Entry.reacts_derive ..) hle
  refine ⟨hone, ?_⟩
  rw [hb.handed, filter_native, hb.filter_ran hone]
  split
  · cases handler <;> rfl
  · rfl

theorem Works.handed {answer : Option NativeJob} (hw : Works s answer t) :
    t.handed.map Prod.snd = s.handed.map Prod.snd ++ answer.toList := by
  induction hw with
  | idle => simp
  | last hs =>
    obtain ⟨hs⟩ := hs
    simp [record, after, worked]
  | more hs _ ih =>
    obtain ⟨hs⟩ := hs
    rw [ih]
    simp [record, after, worked]

/-- The events that resolve the promise `p` with an object, as a client or by passing an outcome on. -/
inductive Resolves (s : History) (p other : ObjectRef) : Event → Prop
  | call : Resolves s p other (.call (.resolve p (.object other)) (.settled (.ok true)))
  | job {record : PromiseRecord} {native : Option NativeJob}
    (hr : s.agent.heap.record? p = .ok record) (hu : record.alreadyResolved = false) :
    Resolves s p other (.job (.react .fulfill (.derive none p) (.object other)) native)

theorem resolution_of_promise {h : Heap} {p other : ObjectRef} (hn : other ≠ p)
    (ho : h.isPromise other = true) :
    h.resolution p .fulfill (.object other) = .follow other :=
  Heap.resolution_eq_follow_iff.2 ⟨rfl, rfl, hn, ho⟩

/-- A promise that is resolved with another one is latched, and a job is queued that makes it follow. -/
theorem Resolves.following (hs : s.Sound) {p other : ObjectRef} {event : Event}
    (hr : s.Resolves p other event) (hn : other ≠ p)
    (ho : s.agent.heap.isPromise other = true) (h : Step s event t) :
    ∃ (u : History) (record : PromiseRecord), u.agent.heap = s.agent.heap ∧
      u.number = s.number ∧ u.queued = s.queued ∧ s.agent.heap.record? p = .ok record ∧
      record.alreadyResolved = false ∧
      t = u.after u.agent.queue.length (u.agent.following p record other) := by
  obtain @⟨b, h⟩ := h
  cases hr with
  | call =>
    cases h with
    | call _ hc =>
      have hc : (Call.settle .fulfill p (.object other)).run s.agent =
          .ok (.settled (.ok true)) b := hc
      obtain ⟨record, hr, hu, rfl⟩ := settle_call_accepted hs.agent hc
      rw [resolution_of_promise hn ho]
      exact ⟨s, record, rfl, rfl, rfl, hr, hu, rfl⟩
  | @job record native hr hu =>
    obtain ⟨queue, -, hp, rfl, rfl⟩ := Agent.Step.job_inv hs.agent h
    have hworking : ({ s.agent with queue } : Agent).working
        (.react .fulfill (.derive none p) (.object other)) =
          ({ s.agent with queue } : Agent).following p record other := by
      rw [working_derive_none (a := { s.agent with queue }) hr, hu, if_neg Bool.false_ne_true,
        resolution_of_promise hn ho]
      rfl
    rw [hworking]
    -- what is new in the queue comes after the jobs that are left once this one is taken
    refine ⟨s.taken (.react .fulfill (.derive none p) (.object other)) queue, record, rfl, rfl, rfl,
      hr, hu, ?_⟩
    rw [History.record, JobQueue.length_of_pop?_eq_some hp]
    rfl

theorem Resolves.follow (hs : s.Sound) {p other : ObjectRef} {event : Event}
    (hr : s.Resolves p other event) (hn : other ≠ p)
    (ho : s.agent.heap.isPromise other = true) (h : Step s event t) :
    t.queued = s.queued ++ [⟨s.number p, .follow p other⟩] ∧
      ∃ record, t.agent.heap.record? p = .ok record ∧ record.status = .pending := by
  obtain ⟨u, record, hheap, hnumber, hqueued, hr, hu, rfl⟩ := hr.following hs hn ho h
  rw [← hheap] at hr
  refine ⟨?_, record.lock, Heap.record?_setRecord hr _, ?_⟩
  · rw [← hqueued, ← hnumber]
    exact queued_rewriting (JobQueue.toList_push u.agent.queue _)
  · exact hs.agent.unlatched p record (hheap ▸ hr) hu

/-- A promise adopts as often as it follows, at most. -/
theorem Balanced.adopted_le_followed (hb : s.Balanced) (n : Nat) :
    (s.queued.filter (Entry.reacts false n)).length ≤ (s.queued.filter (Entry.follows n)).length := by
  rw [← List.countP_eq_length_filter, ← List.countP_eq_length_filter]
  calc s.queued.countP (Entry.reacts false n)
      ≤ s.pledged false n := Nat.le_add_left _ _
    _ ≤ s.ran.countP (Entry.follows n) := hb.adopted_le n
    _ ≤ s.queued.countP (Entry.follows n) := by
        rw [hb.logged]
        exact (List.sublist_append_left _ _).countP_le

/-- A promise that follows another one is pending until it has adopted. -/
theorem Balanced.pending_of_follows (hb : s.Balanced) {record : PromiseRecord}
    (hr : s.agent.heap.record? p = .ok record) {e : Entry}
    (hf : s.queued.filter (Entry.follows (s.number p)) = [e])
    (ha : s.ran.filter (Entry.reacts false (s.number p)) = []) : record.status = .pending := by
  refine hb.pending p record hr ?_ ?_
  · rw [List.countP_eq_length_filter, hf]
    exact Nat.one_ne_zero
  · rw [List.countP_eq_length_filter, ha]
    rfl

/-- Where there is no handler, the outcome is passed on to the derived promise. -/
theorem Step.passes_on (hs : s.Sound) {kind : ReactionKind} {d : ObjectRef} {value : ManagedValue}
    {native : Option NativeJob} (h : Step s (.job (.react kind (.derive none d) value) native) t) :
    native = none ∧ ∃ queue record,
      s.agent.queue.pop? = some (.react kind (.derive none d) value, queue) ∧
      s.agent.heap.record? d = .ok record ∧
      t.agent = if record.alreadyResolved then { s.agent with queue }
        else ({ s.agent with queue } : Agent).resolving d record
          (s.agent.heap.resolution d kind value) := by
  obtain ⟨h⟩ := h
  obtain ⟨queue, -, hp, hnative, rfl⟩ := Agent.Step.job_inv hs.agent h
  obtain ⟨record, hr⟩ := hs.agent.target_record hp
  exact ⟨hnative, queue, record, hp, hr,
    working_derive_none (a := { s.agent with queue }) hr kind value⟩

/-- Every reaction is honoured once, whatever is called and in whatever order. -/
theorem reactions_honoured_once {limit : Nat} (hs : Reachable limit s) :
    -- a registration: nothing is queued for the derived promise while the source is pending, and
    -- one job once it is settled, which hands out a native job if there is a handler
    (∀ p f g d t, Step s (.call (.addReactions p f g) (.object (.ok d))) t →
      ∀ u record, Later t u → u.agent.heap.record? p = .ok record → u.number p = s.number p →
        (record.status = .pending → u.queued.filter (Entry.reacts true (t.number d)) = []) ∧
        ∀ kind value, record.status = .settled kind value → ∀ v, Later u v →
          v.queued.filter (Entry.reacts true (t.number d)) =
            [⟨t.number d, .react kind (.derive (kind.pick f g) d) value⟩] ∧
          v.handed.filter (fun handed => handed.1 == t.number d) =
            if ⟨t.number d, .react kind (.derive (kind.pick f g) d) value⟩ ∈ v.ran then
              (kind.pick f g).toList.map fun handler => (t.number d, ⟨kind, handler, value, d⟩)
            else []) ∧
    -- what was queued was run, in its order, or waits unchanged
    s.queued = s.ran ++ s.agent.queue.toList.map s.entry ∧
    -- where there is no handler, the outcome is passed on, to no effect on what is resolved
    (∀ kind d value native t, Step s (.job (.react kind (.derive none d) value) native) t →
      native = none ∧ ∃ queue record,
        s.agent.queue.pop? = some (.react kind (.derive none d) value, queue) ∧
        s.agent.heap.record? d = .ok record ∧
        t.agent = if record.alreadyResolved then { s.agent with queue }
          else ({ s.agent with queue } : Agent).resolving d record
            (s.agent.heap.resolution d kind value)) ∧
    -- a promise that is resolved with another one follows it once and adopts once at most, and is
    -- pending until then
    (∀ p other event t, s.Resolves p other event → other ≠ p →
      s.agent.heap.isPromise other = true → Step s event t →
      t.queued = s.queued ++ [⟨s.number p, .follow p other⟩] ∧
      (∃ record, t.agent.heap.record? p = .ok record ∧ record.status = .pending) ∧
      ∀ u, Later t u →
        u.queued.filter (Entry.follows (s.number p)) = [⟨s.number p, .follow p other⟩] ∧
        (u.queued.filter (Entry.reacts false (s.number p))).length ≤ 1 ∧
        ∀ record, u.agent.heap.record? p = .ok record → u.number p = s.number p →
          u.ran.filter (Entry.reacts false (s.number p)) = [] → record.status = .pending) ∧
    -- a call for the next native job takes the jobs off the queue and runs them, one after the other,
    -- until one hands out a native job, none is left or the agent is terminating
    ∃ answer t, nextJob s.agent = .ok answer t.agent ∧ Works s answer t ∧
      t.handed.map Prod.snd = s.handed.map Prod.snd ++ answer.toList := by
  have hsound := hs.sound
  have hlast (t : History) (h : Later s t) : t.Balanced :=
    Reachable.balanced (Relation.ReflTransGen.trans hs h)
  refine ⟨?_, (hlast s .refl).logged, ?_, ?_, ?_⟩
  · intro p f g d t hreg u record hu hr hnumber
    have htu := hu.moves (hreg.sound hsound)
    have hlt : Later s t := .single ⟨_, hreg⟩
    have hbu := hlast u (hlt.trans hu)
    obtain ⟨hpledge, hborn⟩ := registration_pledges hsound (hlast t hlt) hreg
    obtain ⟨hpend, hset⟩ := Moves.pledges (hreg.sound hsound) (hlast t hlt) htu hborn hpledge
      record hr hnumber
    constructor
    · intro hp
      obtain ⟨hstored, htarget⟩ := hpend hp
      have hd : u.number d = t.number d := htarget .fulfill
      have haims : ReactionPair.aims u.number true (t.number d) ⟨.derive f d, .derive g d⟩ = true := by
        simp [ReactionPair.aims, Reaction.isDerive, Reaction.target, hd]
      exact hbu.queued_eq_nil_of_stored hr hstored haims
    · intro kind value hk v hv
      have hbv := hlast v ((hlt.trans hu).trans hv)
      have htv := hv.moves (Moves.sound (hreg.sound hsound) htu)
      have hmem := (Moves.queued_prefix htv).subset (hset kind value hk)
      have hdue : (⟨.derive f d, .derive g d⟩ : ReactionPair).due kind =
          .derive (kind.pick f g) d := by
        cases kind <;> rfl
      rw [hdue] at hmem
      exact hbv.queued_once hmem
  · intro kind d value native t h
    exact h.passes_on hsound
  · intro p other event t hres hne ho h
    obtain ⟨hqueued, hpending⟩ := hres.follow hsound hne ho h
    refine ⟨hqueued, hpending, fun u hu => ?_⟩
    have hlt : Later s t := .single ⟨_, h⟩
    have hbu := hlast u (hlt.trans hu)
    have hmem : ⟨s.number p, .follow p other⟩ ∈ t.queued := by
      rw [hqueued]
      exact List.mem_append_right _ (List.mem_singleton.2 rfl)
    have hmem := (Moves.queued_prefix (hu.moves (h.sound hsound))).subset hmem
    have hone := filter_eq_singleton hmem (by simp [Entry.follows]) (hbu.followed_le (s.number p))
    refine ⟨hone, ?_, ?_⟩
    · have hadopted := hbu.adopted_le_followed (s.number p)
      rwa [hone] at hadopted
    · intro record hr hnumber hran
      rw [← hnumber] at hone hran
      exact hbu.pending_of_follows hr hone hran
  · obtain ⟨native, t, ht, hw⟩ := nextJob_works hsound
    exact ⟨native, t, ht, hw, hw.handed⟩

/-- A promise with one handler, which is rejected. -/
theorem reactions_honoured_once_handler :
    ∃ s t u, Reachable 2 s ∧
      Step s (.call (.addReactions ⟨0, 0⟩ none (some ⟨7⟩)) (.object (.ok ⟨1, 0⟩))) t ∧ Later t u ∧
      u.queued.filter (Entry.reacts true 1) =
        [⟨1, .react .reject (.derive (some ⟨7⟩) ⟨1, 0⟩) .null⟩] := by
  have hstart : Reachable 2 (start 2) := .refl
  obtain ⟨-, hs⟩ := hstart.call (c := .newResolver) (by simp) rfl
  obtain ⟨hadded, ht⟩ := hs.call (c := .addReactions ⟨0, 0⟩ none (some ⟨7⟩)) (by simp) rfl
  obtain ⟨hrejected, -⟩ := ht.call (c := .reject ⟨0, 0⟩ .null) (by simp) rfl
  have hu := Relation.ReflTransGen.single (r := fun s t => ∃ event, Step s event t) ⟨_, hrejected⟩
  obtain ⟨-, hsettled⟩ := (reactions_honoured_once hs).1 _ _ _ _ _ hadded _ _ hu rfl rfl
  exact ⟨_, _, _, hs, hadded, hu, (hsettled .reject .null rfl _ .refl).1⟩

end History

end Promises
