import Promises.Proofs.Agent.Reactions

namespace Promises

namespace Agent

variable {a b : Agent}

/-- A change settles one promise at most, and takes none away if it does. -/
theorem Change.settles_one (hc : Change a b) :
    (∀ q old new, a.heap.record? q = .ok old → b.heap.record? q = .ok new →
      new.status = old.status) ∨
    (∀ q, b.heap.isPromise q = a.heap.isPromise q) ∧
      ∃ p, ∀ q old new, q ≠ p → a.heap.record? q = .ok old → b.heap.record? q = .ok new →
        new.status = old.status := by
  cases hc with
  | idle hi =>
    refine Or.inl fun q old new ho hn => ?_
    obtain ⟨record, hr, he, -⟩ := hi.record?_inv hn
    obtain rfl : record = old := Except.ok.inj (hr.symm.trans ho)
    rw [he]
  | pop => exact Or.inl fun q old new ho hn => by rw [Except.ok.inj (ho.symm.trans hn)]
  | attach hr => exact Or.inl fun q old new ho hn => eq_of_attaching _ hr ho hn rfl rfl
  | @settle p record hr hp kind value =>
    refine Or.inr ⟨Heap.isPromise_setRecord hr _, p, fun q old new hne ho hn => ?_⟩
    have hsame := (Heap.record?_setRecord_of_ne hne (record.settled kind value)).symm.trans hn
    rw [Except.ok.inj (ho.symm.trans hsame)]
  | follow hr => exact Or.inl fun q old new ho hn => Heap.eq_of_setRecord _ hr ho hn rfl

theorem queue_attaching (a : Agent) (ref : ObjectRef) (record : PromiseRecord)
    (pair : ReactionPair) : ∃ jobs, (a.attaching ref record pair).queue.toList =
      a.queue.toList ++ jobs := by
  unfold attaching
  cases record.status.outcome? with
  | none => exact ⟨[], (List.append_nil _).symm⟩
  | some outcome => exact ⟨_, JobQueue.toList_push _ _⟩

theorem queue_resolving (a : Agent) (ref : ObjectRef) (record : PromiseRecord) (r : Resolution) :
    ∃ jobs, (a.resolving ref record r).queue.toList = a.queue.toList ++ jobs := by
  cases r with
  | settle kind value => exact ⟨_, JobQueue.toList_pushAll _ _⟩
  | follow other => exact ⟨_, JobQueue.toList_push _ _⟩

/-- A job may queue others, after those that wait. -/
theorem queue_working (a : Agent) (job : Job) :
    ∃ jobs, (a.working job).queue.toList = a.queue.toList ++ jobs := by
  have he := effect_working a job
  generalize a.working job = b at he ⊢
  cases he with
  | dropped => exact ⟨[], (List.append_nil _).symm⟩
  | attached => exact queue_attaching ..
  | handed => exact ⟨[], (List.append_nil _).symm⟩
  | passed => exact queue_resolving ..
  | adopted => exact ⟨_, JobQueue.toList_pushAll _ _⟩

end Agent

open Agent

/-- An object that was made: its reference and its number. -/
structure Birth where
  ref : ObjectRef
  number : Nat

namespace History

variable {s t : History} {x y : Birth}

/-- A promise that is still there, with its status. -/
def Shows (s : History) (x : Birth) (status : PromiseStatus) : Prop :=
  ∃ record, s.agent.heap.record? x.ref = .ok record ∧ s.number x.ref = x.number ∧
    record.status = status

theorem Shows.unique {v w : PromiseStatus} (hv : s.Shows x v) (hw : s.Shows x w) : v = w := by
  obtain ⟨r, hr, -, rfl⟩ := hv
  obtain ⟨r', hr', -, rfl⟩ := hw
  rw [Except.ok.inj (hr.symm.trans hr')]

theorem Move.settles_one (hs : s.Sound) (hm : Move s t) :
    (∀ q old new, s.agent.heap.record? q = .ok old → t.agent.heap.record? q = .ok new →
      new.status = old.status) ∨
    (∀ q, t.agent.heap.isPromise q = s.agent.heap.isPromise q) ∧
      ∃ p, ∀ q old new, q ≠ p → s.agent.heap.record? q = .ok old →
        t.agent.heap.record? q = .ok new → new.status = old.status := by
  cases hm with
  | idle hi => exact (Change.idle hi).settles_one
  | @place object =>
    refine Or.inl fun q old new ho hn => ?_
    have hsame := (Heap.record?_place hs.agent.shape object ho).symm.trans hn
    rw [Except.ok.inj hsame]
  | register hr hd =>
    refine Change.settles_one (.attach hr fun kind => ?_)
    cases kind <;> exact hd
  | resolve hr hu kind value => exact (change_resolving hs.agent hr hu kind value).settles_one
  | @job job queue hp =>
    obtain ⟨hsound, hjob⟩ := hs.agent.pop hp
    rcases (effect_working _ job).eq_or_change hsound hjob with hw | hw
    · refine Or.inl fun q old new ho hn => ?_
      change (({ s.agent with queue } : Agent).working job).heap.record? q = .ok new at hn
      rw [hw] at hn
      rw [Except.ok.inj (ho.symm.trans hn)]
    · exact hw.settles_one

/-- A job that waits goes on to wait, unless it is the next one and is run. -/
theorem Move.waiting (hm : Move s t) {job : Job} (hj : job ∈ s.agent.queue.toList) :
    job ∈ t.agent.queue.toList ∨
      ∃ queue, s.agent.queue.pop? = some (job, queue) ∧
        t = (s.worked job job.native?).after (s.agent.queue.length - 1)
          (({ s.agent with queue } : Agent).working job) := by
  have happend {b : Agent} (hq : ∃ jobs, b.queue.toList = s.agent.queue.toList ++ jobs) :
      job ∈ b.queue.toList := by
    obtain ⟨jobs, hq⟩ := hq
    rw [hq]
    exact List.mem_append_left _ hj
  cases hm with
  | @idle b hi =>
    left
    rw [show (({ s with agent := b } : History)).agent.queue = s.agent.queue from hi.queue_eq]
    exact hj
  | place => exact Or.inl hj
  | register => exact Or.inl (happend (queue_attaching ..))
  | resolve => exact Or.inl (happend (queue_resolving ..))
  | @job first queue hp =>
    rw [JobQueue.toList_of_pop?_eq_some hp, List.mem_cons] at hj
    rcases hj with rfl | hj
    · exact Or.inr ⟨queue, hp, rfl⟩
    · left
      obtain ⟨jobs, hq⟩ := queue_working { s.agent with queue } first
      change job ∈ (({ s.agent with queue } : Agent).working first).queue.toList
      rw [hq]
      exact List.mem_append_left _ hj

/-- A promise that follows another one is pending until the reaction that adopts is queued. -/
theorem Balanced.pending_of_unqueued (hb : s.Balanced) {p : ObjectRef} {record : PromiseRecord}
    (hr : s.agent.heap.record? p = .ok record)
    (hf : s.queued.countP (Entry.follows (s.number p)) ≠ 0)
    (hq : s.queued.countP (Entry.reacts false (s.number p)) = 0) : record.status = .pending := by
  apply hb.pending p record hr hf
  rw [hb.logged, List.countP_append] at hq
  omega

/-- What a reaction that adopts was run with, its promise came to. -/
def Adopted (s : History) : Prop :=
  ∀ n kind p value, ⟨n, .react kind (.adopt p) value⟩ ∈ s.ran →
    ∀ record, s.agent.heap.record? p = .ok record → s.number p = n →
      record.status = .settled kind value

theorem adopted_start (limit : Nat) : (start limit).Adopted := by
  intro n kind p value hm
  cases hm

/-- A promise that the next job is to adopt for follows another one, and has not adopted yet. -/
theorem Balanced.follows_of_pop (hb : s.Balanced) {kind : ReactionKind} {p : ObjectRef}
    {value : ManagedValue} {queue : JobQueue}
    (hp : s.agent.queue.pop? = some (.react kind (.adopt p) value, queue)) :
    s.queued.countP (Entry.follows (s.number p)) ≠ 0 ∧
      s.ran.countP (Entry.reacts false (s.number p)) = 0 := by
  let n := s.number p
  -- one such reaction waits, and one at most was ever queued
  have hone : 0 < (s.agent.queue.toList.map s.entry).countP (Entry.reacts false n) := by
    rw [JobQueue.toList_of_pop?_eq_some hp]
    apply List.countP_pos_iff.2
    exact ⟨_, List.mem_cons_self, by simp [Entry.reacts, entry, Job.target, Reaction.target,
      Reaction.isDerive, n]⟩
  have hqueued : s.queued.countP (Entry.reacts false n) =
      s.ran.countP (Entry.reacts false n) +
        (s.agent.queue.toList.map s.entry).countP (Entry.reacts false n) := by
    rw [hb.logged, List.countP_append]
  have hle : s.queued.countP (Entry.reacts false n) ≤ 1 :=
    Nat.le_trans (Nat.le_add_left _ _) (hb.pledged_le false n)
  constructor
  · -- no reaction adopts for a promise that does not follow
    have hran : s.queued.countP (Entry.reacts false n) ≤ s.ran.countP (Entry.follows n) :=
      Nat.le_trans (Nat.le_add_left _ _) (hb.adopted_le n)
    have hsub : s.ran.countP (Entry.follows n) ≤ s.queued.countP (Entry.follows n) := by
      rw [hb.logged]
      exact (List.sublist_append_left _ _).countP_le
    change s.queued.countP (Entry.follows n) ≠ 0
    omega
  · change s.ran.countP (Entry.reacts false n) = 0
    omega

theorem Move.adopted (hs : s.Sound) (hb : s.Balanced) (hm : Move s t) (h : s.Adopted) :
    t.Adopted := by
  -- what was settled stays so
  have hold (e : Entry) (he : e ∈ s.ran) {kind : ReactionKind} {p : ObjectRef}
      {value : ManagedValue} (hj : e.job = .react kind (.adopt p) value) {new : PromiseRecord}
      (hr : t.agent.heap.record? p = .ok new) (hn : t.number p = e.number) :
      new.status = .settled kind value := by
    have hlt : e.number < s.born := by
      apply hs.entry_lt
      rw [hb.logged]
      exact List.mem_append_left _ he
    obtain ⟨hsame, old, ho, ha⟩ := (hm.leads hs).kept p new hr (hn ▸ hlt)
    have hstatus : old.status = .settled kind value := by
      refine h e.number kind p value ?_ old ho (hsame.trans hn)
      rw [← hj]
      exact he
    rw [ha.status (hstatus ▸ PromiseStatus.settled_ne_pending kind value), hstatus]
  intro n kind p value hm' new hr hn
  cases hm with
  | idle => exact hold _ hm' rfl hr hn
  | place => exact hold _ hm' rfl hr hn
  | register => exact hold _ hm' rfl hr hn
  | resolve => exact hold _ hm' rfl hr hn
  | @job job queue hp =>
    rcases List.mem_append.1 hm' with hran | hran
    · exact hold _ hran rfl hr hn
    · -- the job that was run just now
      obtain ⟨-, rfl⟩ := Entry.mk.inj (List.mem_singleton.1 hran)
      obtain ⟨old, (ho : s.agent.heap.record? p = .ok old)⟩ := hs.agent.target_record hp
      have hpend : old.status = .pending :=
        hb.pending p old ho (hb.follows_of_pop hp).1 (hb.follows_of_pop hp).2
      have hworking : ({ s.agent with queue } : Agent).working (.react kind (.adopt p) value) =
          ({ s.agent with queue } : Agent).settling p old kind value := by
        rw [working, ho]
        exact if_pos hpend
      change (({ s.agent with queue } : Agent).working _).heap.record? p = .ok new at hr
      rw [hworking] at hr
      have hset := Heap.record?_setRecord ho (old.settled kind value)
      rw [← Except.ok.inj (hset.symm.trans hr)]
      rfl

theorem Moves.adopted (hs : s.Sound) (hb : s.Balanced) (hm : Moves s t) (h : s.Adopted) :
    t.Adopted := by
  induction hm with
  | refl => exact h
  | tail hu hm ih => exact hm.adopted (Moves.sound hs hu) (Moves.balanced hs hb hu) ih

/-- The promise `x` is to come to what `y` comes to: a job waits that makes it follow, or a reaction is
pledged that adopts. -/
structure Awaits (s : History) (x y : Birth) : Prop where
  apart : y.ref ≠ x.ref
  born : x.number < s.born ∧ y.number < s.born
  followed : s.queued.countP (Entry.follows x.number) ≠ 0
  carrier :
    (Job.follow x.ref y.ref ∈ s.agent.queue.toList ∧ s.number x.ref = x.number ∧
      s.number y.ref = y.number) ∨
    s.Pledges y.ref y.number x.number ⟨.adopt x.ref, .adopt x.ref⟩

theorem Move.awaits (hs : s.Sound) (hb : t.Balanced) (hm : Move s t) (h : s.Awaits x y) :
    t.Awaits x y where
  apart := h.apart
  born :=
    have hle := (hm.leads hs).born_le
    ⟨Nat.lt_of_lt_of_le h.born.1 hle, Nat.lt_of_lt_of_le h.born.2 hle⟩
  followed := by
    have hle := hm.queued_prefix.sublist.countP_le (p := Entry.follows x.number)
    have hf := h.followed
    omega
  carrier := by
    rcases h.carrier with ⟨hj, hx, hy⟩ | hpledged
    · have hpromise := hs.agent.queued _ hj
      have hxlive := Heap.isLive_of_isPromise (hpromise x.ref (by simp [Job.promises]))
      have hylive := Heap.isLive_of_isPromise (hpromise y.ref (by simp [Job.promises]))
      rcases hm.waiting hj with hj | ⟨queue, hp, rfl⟩
      · refine Or.inl ⟨hj, ?_, ?_⟩
        · rw [hm.number_eq hs hxlive, hx]
        · rw [hm.number_eq hs hylive, hy]
      · -- the job is run, which registers the reaction
        obtain ⟨record, hr⟩ := Heap.isPromise_iff.1 (hpromise y.ref (by simp [Job.promises]))
        have hworking : ({ s.agent with queue } : Agent).working (.follow x.ref y.ref) =
            ({ s.agent with queue } : Agent).attaching y.ref record
              ⟨.adopt x.ref, .adopt x.ref⟩ := by
          rw [working, hr]
        refine Or.inr (pledges_of_attaching (a := { s.agent with queue }) hb hr hworking ?_)
        intro kind
        cases kind <;> exact hx
    · exact Or.inr (hm.pledges hs hb h.born.2 hpledged)

theorem Moves.awaits (hs : s.Sound) (hb : s.Balanced) (hm : Moves s t) (h : s.Awaits x y) :
    t.Awaits x y := by
  induction hm with
  | refl => exact h
  | tail hu hm ih =>
    have hsu := Moves.sound hs hu
    exact hm.awaits hsu (hm.balanced hsu (Moves.balanced hs hb hu)) ih

/-- A promise that waits for a pending one is there, and is pending. -/
theorem Awaits.pending (hs : s.Sound) (hb : s.Balanced) (h : s.Awaits x y)
    (hy : s.Shows y .pending) : s.Shows x .pending := by
  have hle := hb.adopted_le x.number
  have hfollowed := hb.followed_le x.number
  rw [hb.logged, List.countP_append] at hfollowed
  -- either way the reaction that adopts is not queued
  have hpending (hx : s.number x.ref = x.number) (hp : s.agent.heap.isPromise x.ref = true)
      (hq : s.queued.countP (Entry.reacts false x.number) = 0) : s.Shows x .pending := by
    obtain ⟨record, hr⟩ := Heap.isPromise_iff.1 hp
    have hf := h.followed
    rw [← hx] at hq hf
    exact ⟨record, hr, hx, hb.pending_of_unqueued hr hf hq⟩
  rcases h.carrier with ⟨hj, hx, -⟩ | hpledged
  · have hwaits : 0 < (s.agent.queue.toList.map s.entry).countP (Entry.follows x.number) := by
      apply List.countP_pos_iff.2
      refine ⟨s.entry (.follow x.ref y.ref), List.mem_map_of_mem hj, ?_⟩
      simp [Entry.follows, entry, Job.target, hx]
    refine hpending hx (hs.agent.queued _ hj x.ref (by simp [Job.promises])) ?_
    rw [pledged] at hle
    omega
  · obtain ⟨record, hr, hnumber, hp⟩ := hy
    obtain ⟨hstored, htarget⟩ := (hpledged record hr hnumber).1 hp
    have hx : s.number x.ref = x.number := htarget .fulfill
    have hpos : 0 < s.agent.heap.tally (ReactionPair.aims s.number false x.number) := by
      apply Heap.tally_pos _ hr hstored
      simp [ReactionPair.aims, Reaction.isDerive, Reaction.target, hx]
    refine hpending hx (hs.agent.stored y.ref record hr _ hstored .fulfill) ?_
    have hone := hb.pledged_le false x.number
    rw [pledged] at hone
    omega

/-- Once the queue is empty, a promise has come to what the one that it waited for came to. -/
theorem Awaits.agrees (hs : s.Sound) (hb : s.Balanced) (ha : s.Adopted) (h : s.Awaits x y)
    (hq : s.agent.queue.toList = []) {v w : PromiseStatus} (hx : s.Shows x v) (hy : s.Shows y w) :
    v = w := by
  cases ho : w.outcome? with
  | none =>
    rw [PromiseStatus.outcome?_eq_none_iff.1 ho] at hy ⊢
    exact hx.unique (h.pending hs hb hy)
  | some outcome =>
    obtain ⟨kind, value⟩ := outcome
    have hw := PromiseStatus.outcome?_eq_some_iff.1 ho
    obtain ⟨record, hr, hnumber, rfl⟩ := hx
    obtain ⟨other, hother, hothers, rfl⟩ := hy
    rcases h.carrier with ⟨hj, -, -⟩ | hpledged
    · rw [hq] at hj
      cases hj
    · -- the reaction that adopts was queued, and all that was queued was run
      have hentry := (hpledged other hother hothers).2 kind value hw
      rw [hb.logged, hq, List.map_nil, List.append_nil] at hentry
      rw [hw]
      cases kind <;> exact ha _ _ x.ref value hentry record hr hnumber

/-- Who was resolved with whom. -/
abbrev Adopts (log : List (Birth × Birth)) (x y : Birth) : Prop := (x, y) ∈ log

variable {log : List (Birth × Birth)}

/-- What leads to a pending promise is pending. -/
theorem pending_of_path (hs : s.Sound) (hb : s.Balanced)
    (hlog : ∀ x y, Adopts log x y → s.Awaits x y)
    (hpath : Relation.ReflTransGen (Adopts log) x y) (hy : s.Shows y .pending) :
    s.Shows x .pending := by
  induction hpath using Relation.ReflTransGen.head_induction_on with
  | refl => exact hy
  | head hxz _ ih => exact (hlog _ _ hxz).pending hs hb ih

/-- The promises of a cycle are pending as long as they are there. -/
def Stuck (s : History) (log : List (Birth × Birth)) : Prop :=
  ∀ x, Relation.TransGen (Adopts log) x x → ∀ v, s.Shows x v → v = .pending

/-- What a promise that is there was before a move. -/
theorem Move.shows_inv (hs : s.Sound) (hm : Move s t) (hx : x.number < s.born)
    {v : PromiseStatus} (h : t.Shows x v) : ∃ w, s.Shows x w := by
  obtain ⟨new, hr, hn, -⟩ := h
  obtain ⟨hsame, old, ho, -⟩ := (hm.leads hs).kept x.ref new hr (hn ▸ hx)
  exact ⟨old.status, old, ho, hsame.trans hn, rfl⟩

theorem Move.stuck (hs : s.Sound) (hb : s.Balanced) (hm : Move s t)
    (hlog : ∀ x y, Adopts log x y → s.Awaits x y) (h : s.Stuck log) : t.Stuck log := by
  have ht := hm.sound hs
  have hbt := hm.balanced hs hb
  intro x hcycle v hx
  obtain ⟨y, hxy, hback⟩ := Relation.TransGen.head'_iff.1 hcycle
  have hborn := (hlog x y hxy).born
  -- the promise and the one that it waits for were pending before
  obtain ⟨w, hbefore⟩ := hm.shows_inv hs hborn.1 hx
  obtain rfl := h x hcycle w hbefore
  have hybefore : s.Shows y .pending := pending_of_path hs hb hlog hback hbefore
  obtain ⟨new, hr, hn, rfl⟩ := hx
  obtain ⟨old, ho, -, hp⟩ := hbefore
  rcases hm.settles_one hs with hsame | ⟨hkept, p, hsame⟩
  · rw [hsame x.ref old new ho hr, hp]
  · by_cases hxp : x.ref = p
    · -- the other one was not settled in the same move
      obtain ⟨other, hother, hnumber, hpother⟩ := hybefore
      have hyp : y.ref ≠ p := hxp ▸ (hlog x y hxy).apart
      have hlast : t.agent.heap.isPromise y.ref = true :=
        (hkept y.ref).trans (Heap.isPromise_of_record? hother)
      obtain ⟨last, hlast⟩ := Heap.isPromise_iff.1 hlast
      have hy : t.Shows y .pending := by
        refine ⟨last, hlast, ?_, ?_⟩
        · rw [hm.number_eq hs (Heap.isLive_of_record? hother), hnumber]
        · rw [hsame y.ref other last hyp hother hlast, hpother]
      have hx := ((hm.awaits hs hbt (hlog x y hxy)).pending ht hbt hy)
      exact (Shows.unique ⟨new, hr, hn, rfl⟩ hx)
    · rw [hsame x.ref old new hxp ho hr, hp]

theorem Moves.stuck (hs : s.Sound) (hb : s.Balanced) (hm : Moves s t)
    (hlog : ∀ x y, Adopts log x y → s.Awaits x y) (h : s.Stuck log) : t.Stuck log := by
  induction hm with
  | refl => exact h
  | tail hu hm ih =>
    have hlater (x y : Birth) (hxy : Adopts log x y) := Moves.awaits hs hb hu (hlog x y hxy)
    exact hm.stuck (Moves.sound hs hu) (Moves.balanced hs hb hu) hlater ih

/-- The object at a reference. -/
def birth (s : History) (ref : ObjectRef) : Birth := ⟨ref, s.number ref⟩

/-- Whether an event resolves a promise with another one, and which. -/
def adoptions (s : History) : Event → List (Birth × Birth)
  | .call (.resolve p (.object other)) (.settled (.ok true)) =>
    if other ≠ p ∧ s.agent.heap.isPromise other = true then [(s.birth p, s.birth other)] else []
  | _ => []

/-- The histories of an agent, each with who was resolved with whom. -/
inductive Adoptions (limit : Nat) : List (Birth × Birth) → History → Prop
  | start : Adoptions limit [] (start limit)
  | step {log : List (Birth × Birth)} {s t : History} {event : Event} (h : Adoptions limit log s)
    (hs : Step s event t) : Adoptions limit (log ++ s.adoptions event) t

/-- What holds of a run as to who waits for whom. -/
structure Settles (s : History) (log : List (Birth × Birth)) : Prop where
  sound : s.Sound
  balanced : s.Balanced
  adopted : s.Adopted
  awaits : ∀ x y, Adopts log x y → s.Awaits x y
  stuck : s.Stuck log

theorem Settles.moves (h : s.Settles log) (hm : Moves s t) : t.Settles log where
  sound := hm.sound h.sound
  balanced := hm.balanced h.sound h.balanced
  adopted := Moves.adopted h.sound h.balanced hm h.adopted
  awaits x y hxy := hm.awaits h.sound h.balanced (h.awaits x y hxy)
  stuck := hm.stuck h.sound h.balanced h.awaits h.stuck

/-- A path that may use one more step is one without it, or leads to where that step begins. -/
theorem path_of_append {a b x z : Birth} (h : Relation.TransGen (Adopts (log ++ [(a, b)])) x z) :
    Relation.TransGen (Adopts log) x z ∨ Relation.ReflTransGen (Adopts log) x a := by
  have hstep {y z : Birth} (hyz : Adopts (log ++ [(a, b)]) y z) : Adopts log y z ∨ y = a := by
    rcases List.mem_append.1 hyz with hyz | hyz
    · exact Or.inl hyz
    · exact Or.inr (Prod.mk.inj (List.mem_singleton.1 hyz)).1
  induction h with
  | single hxz =>
    rcases hstep hxz with hxz | rfl
    · exact Or.inl (.single hxz)
    · exact Or.inr .refl
  | tail _ hyz ih =>
    rcases ih with hpath | hpath
    · rcases hstep hyz with hyz | rfl
      · exact Or.inl (hpath.tail hyz)
      · exact Or.inr hpath.to_reflTransGen
    · exact Or.inr hpath

/-- A promise that was resolved with another one waits for it. -/
theorem Resolves.awaits (hs : s.Sound) {p other : ObjectRef} {event : Event}
    (hr : s.Resolves p other event) (hn : other ≠ p) (ho : s.agent.heap.isPromise other = true)
    (h : Step s event t) : t.Awaits (s.birth p) (s.birth other) := by
  have hqueued := (hr.follow hs hn ho h).1
  have hle := (Moves.leads hs (h.moves hs)).born_le
  obtain ⟨u, record, -, hnumber, -, hrecord, -, rfl⟩ := hr.following hs hn ho h
  have hp := hs.number_lt p (Heap.isLive_of_record? hrecord)
  have hother := hs.number_lt other (Heap.isLive_of_isPromise ho)
  refine ⟨hn, ⟨Nat.lt_of_lt_of_le hp hle, Nat.lt_of_lt_of_le hother hle⟩, ?_, Or.inl ?_⟩
  · rw [hqueued, List.countP_append]
    simp [Entry.follows, birth]
  · refine ⟨?_, congrFun hnumber p, congrFun hnumber other⟩
    change Job.follow p other ∈ (u.agent.queue.push (.follow p other)).toList
    rw [JobQueue.toList_push]
    exact List.mem_append_right _ (List.mem_singleton.2 rfl)

/-- A promise that was resolved with another one was pending before, and no status changes. -/
theorem Resolves.shows (hs : s.Sound) {p other : ObjectRef} {event : Event}
    (hr : s.Resolves p other event) (hn : other ≠ p) (ho : s.agent.heap.isPromise other = true)
    (h : Step s event t) : s.Shows (s.birth p) .pending ∧
      ∀ x v, t.Shows x v → s.Shows x v := by
  obtain ⟨u, record, hheap, hnumber, -, hrecord, hu, rfl⟩ := hr.following hs hn ho h
  refine ⟨⟨record, hrecord, rfl, hs.agent.unlatched p record hrecord hu⟩, ?_⟩
  rintro x v ⟨new, hnew, hx, hv⟩
  have hsame : s.number x.ref = x.number := (congrFun hnumber x.ref).symm.trans hx
  change (u.agent.heap.setRecord p record.lock).record? x.ref = .ok new at hnew
  rw [hheap] at hnew
  rcases Heap.record?_setRecord_inv hrecord hnew with ⟨rfl, rfl⟩ | ⟨-, hnew⟩
  · exact ⟨record, hrecord, hsame, hv⟩
  · exact ⟨new, hnew, hsame, hv⟩

/-- A cycle that comes to be closed has been pending. -/
theorem Settles.resolve (h : s.Settles log) {p other : ObjectRef} {event : Event}
    (hr : s.Resolves p other event) (hn : other ≠ p) (ho : s.agent.heap.isPromise other = true)
    (hs : Step s event t) : t.Settles (log ++ [(s.birth p, s.birth other)]) := by
  have hlater := h.moves (hs.moves h.sound)
  obtain ⟨hp, hsame⟩ := hr.shows h.sound hn ho hs
  refine ⟨hlater.sound, hlater.balanced, hlater.adopted, fun x y hxy => ?_, fun x hcycle v hv => ?_⟩
  · rcases List.mem_append.1 hxy with hxy | hxy
    · exact hlater.awaits x y hxy
    · obtain ⟨rfl, rfl⟩ := Prod.mk.inj (List.mem_singleton.1 hxy)
      exact hr.awaits h.sound hn ho hs
  · have hv := hsame x v hv
    rcases path_of_append hcycle with hold | hpath
    · exact h.stuck x hold v hv
    · exact hv.unique (pending_of_path h.sound h.balanced h.awaits hpath hp)

theorem Adoptions.settles {limit : Nat} (h : Adoptions limit log s) : s.Settles log := by
  induction h with
  | start =>
    refine ⟨sound_start limit, balanced_start limit, adopted_start limit, ?_, ?_⟩
    · intro x y hxy
      cases hxy
    · intro x hcycle
      obtain ⟨y, hxy, -⟩ := Relation.TransGen.head'_iff.1 hcycle
      cases hxy
  | @step log s t event _ hs ih =>
    by_cases ha : s.adoptions event = []
    · rw [ha, List.append_nil]
      exact ih.moves (hs.moves ih.sound)
    · -- the event is a resolve that was accepted
      unfold adoptions at ha ⊢
      split at ha
      · split at ha
        · rename_i hother
          rw [if_pos hother]
          exact ih.resolve .call hother.1 hother.2 hs
        · exact absurd rfl ha
      · exact absurd rfl ha

theorem Adoptions.later {limit : Nat} (h : Adoptions limit log s) (hl : Later s t) :
    ∃ new, Adoptions limit (log ++ new) t := by
  induction hl with
  | refl => exact ⟨[], (List.append_nil log).symm ▸ h⟩
  | tail _ hs ih =>
    obtain ⟨new, hnew⟩ := ih
    obtain ⟨event, hs⟩ := hs
    exact ⟨_, List.append_assoc log new _ ▸ hnew.step hs⟩

theorem Reachable.adoptions {limit : Nat} (h : Reachable limit s) :
    ∃ log, Adoptions limit log s :=
  Adoptions.start.later h

/-- Promises agree with the ones that they follow, whatever is called and in whatever order. -/
theorem followers_agree {limit : Nat} (h : Adoptions limit log s) :
    -- a promise is pending while one that it was resolved with is, and comes to the same
    (∀ x y r q, (x, y) ∈ log → s.agent.heap.record? x.ref = .ok r → s.number x.ref = x.number →
      s.agent.heap.record? y.ref = .ok q → s.number y.ref = y.number →
      (q.state = .pending → r.state = .pending) ∧
      (s.agent.queue.toList = [] → r.state = q.state ∧ r.result = q.result)) ∧
    -- promises that follow each other in a cycle stay pending
    (∀ x r, Relation.TransGen (Adopts log) x x → s.agent.heap.record? x.ref = .ok r →
      s.number x.ref = x.number → r.state = .pending) ∧
    -- whatever the client calls, it is answered, and what was resolved is known from then on
    ∀ c : Call, ∃ answer t new,
      c.run s.agent = .ok answer t.agent ∧ Later s t ∧ Adoptions limit (log ++ new) t := by
  have hs := h.settles
  refine ⟨?_, ?_, fun c => ?_⟩
  · intro x y r q hxy hr hx hq hy
    have hwaits := hs.awaits x y hxy
    have hshows : s.Shows x r.status := ⟨r, hr, hx, rfl⟩
    constructor
    · intro hp
      have hp := PromiseStatus.state_eq_pending_iff.1 hp
      have hpend := hwaits.pending hs.sound hs.balanced ⟨q, hq, hy, hp⟩
      exact PromiseStatus.state_eq_pending_iff.2 (hshows.unique hpend)
    · intro hempty
      have hagree : r.status = q.status :=
        hwaits.agrees hs.sound hs.balanced hs.adopted hempty hshows ⟨q, hq, hy, rfl⟩
      rw [PromiseRecord.state, PromiseRecord.result, hagree]
      exact ⟨rfl, rfl⟩
  · intro x r hcycle hr hx
    exact PromiseStatus.state_eq_pending_iff.2 (hs.stuck x hcycle r.status ⟨r, hr, hx, rfl⟩)
  · obtain ⟨answer, t, hc, hl⟩ := call_later hs.sound c
    obtain ⟨new, hnew⟩ := h.later hl
    exact ⟨answer, t, new, hc, hl, hnew⟩

/-- A promise that follows another one, which is then fulfilled. -/
theorem followers_agree_once : ∃ s log r, Adoptions 2 log s ∧ log = [(⟨⟨0, 0⟩, 0⟩, ⟨⟨1, 0⟩, 1⟩)] ∧
    s.agent.heap.record? ⟨0, 0⟩ = .ok r ∧ r.state = .fulfilled ∧ r.result = .null := by
  have call {log : List (Birth × Birth)} {s : History} (hs : Adoptions 2 log s) {c : Call}
      {answer : Answer} {b : Agent} (hn : c ≠ .nextJob) (hc : c.run s.agent = .ok answer b) :
      Adoptions 2 (log ++ s.adoptions (.call c answer)) (s.record (.call c answer) b) :=
    hs.step (.mk (.call hn hc))
  have job {log : List (Birth × Birth)} {s : History} (hs : Adoptions 2 log s) {job : Job}
      {queue : JobQueue} {native : Option NativeJob} {b : Agent}
      (ht : s.agent.terminating = false) (hp : s.agent.queue.pop? = some (job, queue))
      (hj : runJob job { s.agent with queue } = .ok (.ok native) b) :
      Adoptions 2 (log ++ s.adoptions (.job job native)) (s.record (.job job native) b) :=
    hs.step (.mk (.job ht hp hj))
  have h := call .start (c := .newResolver) (by simp) rfl
  have h := call h (c := .newResolver) (by simp) rfl
  have h := call h (c := .resolve ⟨0, 0⟩ (.object ⟨1, 0⟩)) (by simp) rfl
  have h := call h (c := .resolve ⟨1, 0⟩ .null) (by simp) rfl
  have h := job h rfl rfl rfl
  have h : Adoptions 2 [(⟨⟨0, 0⟩, 0⟩, ⟨⟨1, 0⟩, 1⟩)] _ := job h rfl rfl rfl
  have hfollowed := (followers_agree h).1 _ _ _ _ (List.mem_singleton.2 rfl) rfl rfl rfl rfl
  exact ⟨_, _, _, h, rfl, rfl, hfollowed.2 rfl⟩

end History

end Promises
