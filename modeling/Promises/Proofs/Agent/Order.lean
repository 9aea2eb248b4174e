import Promises.Proofs.Agent.Derived

namespace Promises

/-- Before each element of the second kind there is one of the first. -/
def Precedes {α : Type} (first second : α → Bool) (xs : List α) : Prop :=
  ∀ before x after, xs = before ++ x :: after → second x = true → ∃ y ∈ before, first y = true

section

variable {α β : Type} {first second : α → Bool} {xs ys : List α}

theorem precedes_of_none (hn : ∀ x ∈ xs, second x = false) : Precedes first second xs := by
  rintro before x after rfl hx
  rw [hn x (List.mem_append_right _ List.mem_cons_self)] at hx
  cases hx

theorem Precedes.of_prefix (h : Precedes first second ys) (hp : xs <+: ys) : Precedes first second xs := by
  rintro before x after rfl hx
  obtain ⟨rest, rfl⟩ := hp
  exact h before x (after ++ rest) (by simp) hx

/-- What comes after has its first element in front of it, or else it is in order by itself. -/
theorem Precedes.append (h : Precedes first second xs)
    (hys : (∃ x ∈ xs, first x = true) ∨ Precedes first second ys) : Precedes first second (xs ++ ys) := by
  intro before x after heq hx
  rcases List.append_eq_append_iff.1 heq with ⟨front, rfl, hback⟩ | ⟨back, hfront, hback⟩
  · -- the element is one of those that come after
    rcases hys with ⟨y, hy, hfirst⟩ | hys
    · exact ⟨y, List.mem_append_left _ hy, hfirst⟩
    · obtain ⟨y, hy, hfirst⟩ := hys front x after hback hx
      exact ⟨y, List.mem_append_right _ hy, hfirst⟩
  · cases back with
    | nil =>
      rw [List.append_nil] at hfront
      rw [List.nil_append] at hback
      rcases hys with ⟨y, hy, hfirst⟩ | hys
      · exact ⟨y, hfront ▸ hy, hfirst⟩
      · obtain ⟨y, hy, -⟩ := hys [] x after hback.symm hx
        cases hy
    | cons z back =>
      obtain ⟨rfl, -⟩ := List.cons.inj hback
      exact h before x back hfront hx

theorem Precedes.concat (h : Precedes first second xs) {x : α}
    (hx : second x = false ∨ ∃ y ∈ xs, first y = true) : Precedes first second (xs ++ [x]) :=
  h.append (hx.symm.imp_right fun hx => precedes_of_none fun _ hy => List.mem_singleton.1 hy ▸ hx)

theorem Precedes.map {f : β → α} {xs : List β} {first' second' : β → Bool}
    (h : Precedes first' second' xs) (hf : ∀ x ∈ xs, first (f x) = first' x)
    (hs : ∀ x ∈ xs, second (f x) = second' x) : Precedes first second (xs.map f) := by
  intro before y after heq hy
  obtain ⟨front, rest, rfl, rfl, hrest⟩ := List.map_eq_append_iff.1 heq
  obtain ⟨x, back, rfl, rfl, rfl⟩ := List.map_eq_cons_iff.1 hrest
  rw [hs x (List.mem_append_right _ List.mem_cons_self)] at hy
  obtain ⟨z, hz, hfirst⟩ := h front x back rfl hy
  exact ⟨f z, List.mem_map_of_mem hz, (hf z (List.mem_append_left _ hz)).trans hfirst⟩

theorem Precedes.congr {first' second' : α → Bool} (h : Precedes first' second' xs)
    (hf : ∀ x ∈ xs, first x = first' x) (hs : ∀ x ∈ xs, second x = second' x) :
    Precedes first second xs := by
  have hmap : Precedes first second (xs.map id) := h.map hf hs
  rwa [List.map_id] at hmap

end

open Agent

namespace History

variable {s t u : History} {n : ℕ} {b b' : Bool} {m m' : ℕ}

/-- An event that attaches a reaction to the promise with the number `n`, which is to settle the promise
with the number `m`: one that was just derived from it, or one that follows it. -/
inductive Attaches (s : History) (n : ℕ) : Event → Bool → ℕ → Prop
  | register {p d : ObjectRef} {f g : Option FunctionId} (hn : s.number p = n) :
    Attaches s n (.call (.addReactions p f g) (.object (.ok d))) true s.born
  | follow {p other : ObjectRef} {native : Option NativeJob} (hn : s.number other = n) :
    Attaches s n (.job (.follow p other) native) false (s.number p)

/-- A reaction comes before another one: it is queued first, run first, and its handler is handed out
first. -/
structure Ordered (s : History) (b : Bool) (m : ℕ) (b' : Bool) (m' : ℕ) : Prop where
  queued : Precedes (Entry.reacts b m) (Entry.reacts b' m') s.queued
  ran : Precedes (Entry.reacts b m) (Entry.reacts b' m') s.ran
  /-- Handlers are handed out for derived promises only. -/
  handed : b = true → b' = true → ∀ before job after, s.handed = before ++ (m', job) :: after →
    ∀ job', (m, job') ∈ s.handed → (m, job') ∈ before

theorem mem_native_iff {e : Entry} {job : NativeJob} : (n, job) ∈ e.native ↔
    e = ⟨n, .react job.kind (.derive (some job.handler) job.derived) job.argument⟩ := by
  obtain ⟨number, queued⟩ := e
  rw [Entry.native, List.mem_map, Entry.mk.injEq]
  constructor
  · rintro ⟨found, hfound, hsame⟩
    obtain ⟨rfl, rfl⟩ := Prod.mk.inj hsame
    exact ⟨rfl, Fit.native?_eq_some_iff.1 (Option.mem_toList.1 hfound)⟩
  · rintro ⟨rfl, hjob⟩
    exact ⟨job, Option.mem_toList.2 (Fit.native?_eq_some_iff.2 hjob), rfl⟩

/-- What was handed out came from an entry, after what came from the entries before that one. -/
theorem exists_of_flatMap_native {entries : List Entry} {before after : List (ℕ × NativeJob)}
    {x : ℕ × NativeJob} (h : entries.flatMap Entry.native = before ++ x :: after) :
    ∃ front e back, entries = front ++ e :: back ∧ front.flatMap Entry.native = before ∧ x ∈ e.native := by
  induction entries generalizing before with
  | nil => simp at h
  | cons e entries ih =>
    rw [List.flatMap_cons] at h
    have hnative : e.native = [] ∨ ∃ y, e.native = [y] := by
      rw [Entry.native]
      cases e.job.native? with
      | none => exact Or.inl rfl
      | some native => exact Or.inr ⟨_, rfl⟩
    -- the entry itself hands `x` out, or it is one of those before
    have hlater {before' : List (ℕ × NativeJob)} (hbefore : before = e.native ++ before')
        (hrest : entries.flatMap Entry.native = before' ++ x :: after) :
        ∃ front e' back, e :: entries = front ++ e' :: back ∧ front.flatMap Entry.native = before ∧
          x ∈ e'.native := by
      obtain ⟨front, e', back, hsplit, hfront, he⟩ := ih hrest
      refine ⟨e :: front, e', back, congrArg (e :: ·) hsplit, ?_, he⟩
      rw [List.flatMap_cons, hfront, hbefore]
    rcases hnative with hnone | ⟨y, hone⟩
    · rw [hnone, List.nil_append] at h
      exact hlater (by rw [hnone, List.nil_append]) h
    · rw [hone] at h
      cases before with
      | nil =>
        obtain ⟨rfl, -⟩ := List.cons.inj h
        exact ⟨[], e, entries, rfl, rfl, hone ▸ List.mem_singleton_self _⟩
      | cons z before =>
        obtain ⟨rfl, hrest⟩ := List.cons.inj h
        exact hlater (by rw [hone]; rfl) hrest

/-- What is queued in order is run and handed out in order. -/
theorem Balanced.ordered (hb : s.Balanced)
    (hq : Precedes (Entry.reacts b m) (Entry.reacts b' m') s.queued) : s.Ordered b m b' m' := by
  have hlogged : s.ran <+: s.queued := by
    rw [hb.logged]
    exact List.prefix_append _ _
  have hran := hq.of_prefix hlogged
  refine ⟨hq, hran, ?_⟩
  rintro rfl rfl before job after heq job' hjob'
  rw [hb.handed] at heq
  obtain ⟨front, e, back, hsplit, rfl, he⟩ := exists_of_flatMap_native heq
  have hreacts : e.reacts true m' = true := by
    rw [mem_native_iff.1 he]
    exact Entry.reacts_derive ..
  obtain ⟨first, hfirst, hreacts⟩ := hran front e back hsplit hreacts
  -- one reaction is queued for each derived promise, so that this one hands the job out
  have hjob := hlogged.subset (hb.ran_of_handed hjob')
  have hone := (hb.queued_once hjob).1
  have hmem : first ∈ s.queued.filter (Entry.reacts true m) := by
    refine List.mem_filter.2 ⟨hlogged.subset ?_, hreacts⟩
    rw [hsplit]
    exact List.mem_append_left _ hfirst
  rw [hone, List.mem_singleton] at hmem
  exact List.mem_flatMap.2 ⟨first, hfirst, mem_native_iff.2 hmem⟩

/-- How a step from `s` to `t` attaches a pair of reactions to the promise `p` with the number `n`: what it
does before leads to `u`, and attaching them is the last that it does. -/
structure Attachment (s u t : History) (n : ℕ) (b : Bool) (m : ℕ) (p : ObjectRef) (record : PromiseRecord)
    (pair : ReactionPair) : Prop where
  source : s.agent.heap.record? p = .ok record
  number : s.number p = n
  sound : u.Sound
  balanced : u.Balanced
  kept : u.agent.heap.record? p = .ok record
  number_eq : ∀ q, s.agent.heap.isLive q = true → u.number q = s.number q
  queued : u.queued = s.queued
  twin : pair.Twin
  isDerive : ∀ kind, (pair.due kind).isDerive = b
  target : ∀ kind, u.number (pair.due kind).target = m
  /-- Nothing else is to settle that promise in this way. -/
  unpledged : u.pledged b m = 0
  result : t = u.after u.agent.queue.length (u.agent.attaching p record pair)

/-- A registration derives a promise and then adds the reactions. -/
theorem Step.registers (hs : s.Sound) {p d : ObjectRef} {f g : Option FunctionId}
    (h : Step s (.call (.addReactions p f g) (.object (.ok d))) t) :
    ∃ record, s.agent.heap.record? p = .ok record ∧
      (s.derived p).agent.heap.record? p = .ok record ∧ d = s.agent.derivedRef p ∧
      Stills s (s.derived p) ∧
      t = (s.derived p).after (s.derived p).agent.queue.length
        ((s.derived p).agent.attaching p record ⟨.derive f d, .derive g d⟩) := by
  obtain ⟨h⟩ := h
  cases h with
  | @call _ _ c _ hc =>
    obtain ⟨answer, c', hrun, hend⟩ := addReactions_stills hs p f g
    obtain ⟨hanswer, rfl⟩ := EStateM.Result.ok.inj (hc.symm.trans (addReactions_call_run hrun))
    obtain rfl := Answer.object.inj hanswer
    rcases hend with ⟨⟨e, he⟩, -⟩ | ⟨record, hd, hr, hkept, hstills, hqueue, rfl⟩
    · cases he
    · obtain rfl := Except.ok.inj hd
      refine ⟨record, hr, hkept, rfl, hstills, ?_⟩
      rw [hqueue]
      rfl

/-- A job that makes a promise follow another one attaches the reaction that adopts. -/
theorem Step.follows (hs : s.Sound) {p other : ObjectRef} {native : Option NativeJob}
    (h : Step s (.job (.follow p other) native) t) :
    ∃ queue record, s.agent.queue.pop? = some (.follow p other, queue) ∧
      s.agent.heap.record? other = .ok record ∧
      t = (s.taken (.follow p other) queue).after queue.length
        ((s.taken (.follow p other) queue).agent.attaching other record ⟨.adopt p, .adopt p⟩) := by
  obtain ⟨queue, hp, -, rfl⟩ := h.job_inv hs
  obtain ⟨record, hr⟩ := Heap.isPromise_iff.1 ((hs.agent.pop hp).2 other (by simp [Job.promises]))
  refine ⟨queue, record, hp, hr, ?_⟩
  have hworking : ({ s.agent with queue } : Agent).working (.follow p other) =
      ({ s.agent with queue } : Agent).attaching other record ⟨.adopt p, .adopt p⟩ := by
    rw [Agent.working]
    dsimp only
    rw [hr]
  rw [hworking, JobQueue.length_of_pop?_eq_some hp]
  rfl

/-- While the job that makes a promise follow another one waits, nothing is pledged to adopt for it. -/
theorem Balanced.unpledged_of_pop (hb : s.Balanced) {p other : ObjectRef} {queue : JobQueue}
    (hp : s.agent.queue.pop? = some (.follow p other, queue)) : s.pledged false (s.number p) = 0 := by
  have hle := hb.followed_le (s.number p)
  have hadopted := hb.adopted_le (s.number p)
  have hwaits : (s.entry (.follow p other)).follows (s.number p) = true := beq_self_eq_true _
  rw [hb.logged, List.countP_append, JobQueue.toList_of_pop?_eq_some hp, List.map_cons,
    List.countP_cons_of_pos hwaits] at hle
  omega

theorem Attaches.attachment (hs : s.Sound) (hb : s.Balanced) {event : Event}
    (ha : s.Attaches n event b m) (h : Step s event t) :
    ∃ u p record pair, Attachment s u t n b m p record pair := by
  cases ha with
  | @register p d f g hn =>
    obtain ⟨record, hr, hkept, rfl, hstills, rfl⟩ := h.registers hs
    have hmoves := hstills.calms.moves
    have hsound : (s.derived p).Sound := Moves.sound hs hmoves
    have hnew : (s.derived p).number (s.agent.derivedRef p) = s.born := Function.update_self _ _ _
    -- nothing was pledged to the derived promise before, as there was none
    have hnone := (unclaimed_withDerived hs p).pledged_eq_zero hsound
      (Heap.isLive_of_isPromise (isPromise_derivedRef hs.agent p)) true
    refine ⟨s.derived p, p, record, _,
      { source := hr
        number := hn
        sound := hsound
        balanced := Moves.balanced hs hb hmoves
        kept := hkept
        number_eq := fun q hq => h.number_eq hs hq
        queued := rfl
        twin := ⟨rfl, rfl⟩
        isDerive := fun kind => by cases kind <;> rfl
        target := fun kind => by cases kind <;> exact hnew
        unpledged := ?_
        result := rfl }⟩
    change (s.derived p).pledged true ((s.derived p).number (s.agent.derivedRef p)) = 0 at hnone
    rw [← hnew]
    exact hnone
  | @follow p other native hn =>
    -- the job that was taken has been the one thing pledged to the follower
    obtain ⟨queue, record, hp, hr, rfl⟩ := h.follows hs
    exact ⟨s.taken (.follow p other) queue, other, record, _,
      { source := hr
        number := hn
        sound := hs.taken hp
        balanced := hb.taken hp
        kept := hr
        number_eq := fun _ _ => rfl
        queued := rfl
        twin := ⟨rfl, rfl⟩
        isDerive := fun kind => by cases kind <;> rfl
        target := fun kind => by cases kind <;> rfl
        unpledged := hb.unpledged_of_pop hp
        result := rfl }⟩

section

variable {p q : ObjectRef} {record : PromiseRecord} {pair : ReactionPair} {event : Event}

/-- A promise that is still there under its number is the one that it was. -/
theorem Leads.same (hs : s.Sound) (hl : Leads s t) {old new : PromiseRecord}
    (ho : s.agent.heap.record? p = .ok old) (hn : t.agent.heap.record? q = .ok new)
    (hnumber : t.number q = s.number p) : q = p ∧ old.Advances new := by
  have hlive := Heap.isLive_of_record? ho
  have hborn : t.number q < s.born := by
    rw [hnumber]
    exact hs.number_lt p hlive
  obtain ⟨hsame, old', ho', hadvances⟩ := hl.kept q new hn hborn
  obtain rfl : q = p :=
    hs.number_inj q p (Heap.isLive_of_record? ho') hlive (hsame.trans hnumber)
  obtain rfl : old' = old := Except.ok.inj (ho'.symm.trans ho)
  exact ⟨rfl, hadvances⟩

namespace Attachment

variable {v : History} {r : PromiseRecord}

theorem pledges (h : Attachment s u t n b m p record pair) (hb : t.Balanced) : t.Pledges p n m pair := by
  obtain rfl := h.result
  exact pledges_of_attaching hb h.kept rfl h.target

/-- The reaction that is due is one of the attached ones. -/
theorem reacts (h : Attachment s u t n b m p record pair) (kind : ReactionKind) (value : ManagedValue) :
    (⟨m, .react kind (pair.due kind) value⟩ : Entry).reacts b m = true := by
  simp [Entry.reacts, h.isDerive kind]

theorem aims (h : Attachment s u t n b m p record pair) {number : ObjectRef → ℕ}
    (hm : ∀ kind, number (pair.due kind).target = m) : pair.aims number b m = true := by
  have hderive : pair.onFulfilled.isDerive = b := h.isDerive .fulfill
  have htarget : number pair.onFulfilled.target = m := hm .fulfill
  simp [ReactionPair.aims, hderive, htarget]

/-- The reaction is queued once the promise is settled. -/
theorem due (h : Attachment s u t n b m p record pair) (hs : s.Sound) (hst : Leads s v)
    (hv : v.Pledges p n m pair) (hr : v.agent.heap.record? q = .ok r) (hq : v.number q = n)
    (hsettled : r.status ≠ .pending) : ∃ e ∈ v.queued, e.reacts b m = true := by
  obtain ⟨rfl, -⟩ := hst.same hs h.source hr (hq.trans h.number.symm)
  obtain ⟨kind, value, hstatus⟩ := PromiseStatus.exists_settled hsettled
  exact ⟨_, (hv r hr hq).2 kind value hstatus, h.reacts kind value⟩

/-- The reaction is stored while the promise is pending. -/
theorem stored (h : Attachment s u t n b m p record pair) (hs : s.Sound) (hst : Leads s v)
    (hv : v.Pledges p n m pair) (hr : v.agent.heap.record? q = .ok r) (hq : v.number q = n)
    (hpending : r.status = .pending) :
    pair ∈ r.reactions.toList ∧ pair.aims v.number b m = true := by
  obtain ⟨rfl, -⟩ := hst.same hs h.source hr (hq.trans h.number.symm)
  obtain ⟨hmem, htarget⟩ := (hv r hr hq).1 hpending
  exact ⟨hmem, h.aims htarget⟩

/-- Nothing is queued to settle that promise in this way before the step. -/
theorem unqueued (h : Attachment s u t n b m p record pair) {e : Entry} (he : e ∈ s.queued) :
    e.reacts b m = false := by
  have hnone := h.unpledged
  rw [pledged, h.queued] at hnone
  have hzero : s.queued.countP (Entry.reacts b m) = 0 := by omega
  exact Bool.eq_false_iff.2 (List.countP_eq_zero.1 hzero e he)

end Attachment

end

/-- Two reactions of which the first comes before the second, wherever they are. -/
structure Ahead (s : History) (b : Bool) (m : ℕ) (b' : Bool) (m' : ℕ) : Prop where
  queued : Precedes (Entry.reacts b m) (Entry.reacts b' m') s.queued
  stored : (∃ e ∈ s.queued, e.reacts b m = true) ∨
    ∀ p record, s.agent.heap.record? p = .ok record →
      Precedes (ReactionPair.aims s.number b m) (ReactionPair.aims s.number b' m') record.reactions.toList

/-- No further reaction is attached that settles the promise with the number `m` in the same way. -/
structure Closed (s : History) (b : Bool) (m : ℕ) : Prop where
  born : b = true → m < s.born
  followed : b = false → 0 < s.ran.countP (Entry.follows m)

namespace Ahead

/-- Jobs may be queued and the reactions of a promise changed, as long as these are in order. Once the
first reaction is queued, whatever comes is. -/
theorem rewriting (h : s.Ahead b m b' m') {ref : ObjectRef} {old new : PromiseRecord} {queue : JobQueue}
    {jobs : List Job} (hr : s.agent.heap.record? ref = .ok old)
    (hq : queue.toList = s.agent.queue.toList ++ jobs)
    (hn : (∃ e ∈ s.queued, e.reacts b m = true) ∨
      (Precedes (ReactionPair.aims s.number b m) (ReactionPair.aims s.number b' m') old.reactions.toList →
        Precedes (Entry.reacts b m) (Entry.reacts b' m') (jobs.map s.entry) ∧
        Precedes (ReactionPair.aims s.number b m) (ReactionPair.aims s.number b' m') new.reactions.toList)) :
    (s.rewriting ref new queue).Ahead b m b' m' := by
  have hqueued := @queued_rewriting s ref new queue jobs hq
  -- once the first reaction is queued, nothing can come before it
  have hthere (hfirst : ∃ e ∈ s.queued, e.reacts b m = true) :
      (s.rewriting ref new queue).Ahead b m b' m' := by
    obtain ⟨e, he, hreacts⟩ := hfirst
    refine ⟨?_, Or.inl ⟨e, ?_, hreacts⟩⟩
    · rw [hqueued]
      exact h.queued.append (Or.inl ⟨e, he, hreacts⟩)
    · rw [hqueued]
      exact List.mem_append_left _ he
  rcases h.stored with hfirst | hstored
  · exact hthere hfirst
  · rcases hn with hfirst | hn
    · exact hthere hfirst
    · obtain ⟨hjobs, hnew⟩ := hn (hstored ref old hr)
      refine ⟨?_, Or.inr fun p record hp => ?_⟩
      · rw [hqueued]
        exact h.queued.append (Or.inr hjobs)
      · rcases record?_rewriting hr hp with ⟨-, rfl⟩ | ⟨-, hp⟩
        · exact hnew
        · exact hstored p record hp

/-- What leaves all reactions and jobs as they are keeps the order. -/
theorem still (h : s.Ahead b m b' m') (hs : s.Sound) (hm : Still s t) : t.Ahead b m b' m' := by
  refine ⟨?_, h.stored.imp ?_ fun hstored p new hp => ?_⟩
  · cases hm <;> exact h.queued
  · cases hm <;> exact id
  · cases hm with
    | idle hi =>
      obtain ⟨old, ho, hnew, -⟩ := hi.record?_inv hp
      rw [hnew]
      exact hstored p old ho
    | @place object hf ho =>
      rcases Heap.record?_place_inv hs.agent.shape ho hp with ⟨-, rfl⟩ | ⟨-, hold⟩
      · exact precedes_of_none fun _ hpair => nomatch hpair
      · -- the targets of the reactions are live, and so they keep their numbers
        have hsame (b : Bool) (m : ℕ) (pair : ReactionPair) (hpair : pair ∈ new.reactions.toList) :
            pair.aims (Function.update s.number (s.agent.heap.place object).1 s.born) b m =
              pair.aims s.number b m := by
          have ht := hs.agent.stored p new hold pair hpair .fulfill
          change (_ && Function.update s.number _ _ (pair.due .fulfill).target == m) = _
          rw [hs.number_placed object (Heap.isLive_of_isPromise ht)]
          rfl
        exact (hstored p new hold).congr (hsame b m) (hsame b' m')

theorem stills (h : s.Ahead b m b' m') (hs : s.Sound) (hm : Stills s t) : t.Ahead b m b' m' := by
  induction hm with
  | refl => exact h
  | tail hu hm ih => exact ih.still (Moves.sound hs (Stills.calms hu).moves) hm

/-- A pair of reactions comes last, so that it is to another promise or the first reaction is there. -/
theorem attaching (h : s.Ahead b m b' m') {ref : ObjectRef} {record : PromiseRecord} {pair : ReactionPair}
    (hr : s.agent.heap.record? ref = .ok record) (ht : pair.Twin)
    (hn : pair.aims s.number b' m' = false ∨ (∃ e ∈ s.queued, e.reacts b m = true) ∨
      record.status = .pending ∧ ∃ other ∈ record.reactions.toList, other.aims s.number b m = true) :
    (s.after s.agent.queue.length (s.agent.attaching ref record pair)).Ahead b m b' m' := by
  unfold Agent.attaching
  cases hout : record.status.outcome? with
  | none =>
    -- a pending promise stores the pair last
    have hq : s.agent.queue.toList = s.agent.queue.toList ++ [] := (List.append_nil _).symm
    change (s.rewriting ref (record.markHandled.addReactions pair) s.agent.queue).Ahead b m b' m'
    refine h.rewriting hr hq ?_
    rcases hn with hn | hfirst | ⟨-, hother⟩
    · refine Or.inr fun hstored => ⟨precedes_of_none (fun _ he => nomatch he), ?_⟩
      rw [PromiseRecord.addReactions, Array.toList_push]
      exact hstored.concat (Or.inl hn)
    · exact Or.inl hfirst
    · refine Or.inr fun hstored => ⟨precedes_of_none (fun _ he => nomatch he), ?_⟩
      rw [PromiseRecord.addReactions, Array.toList_push]
      exact hstored.concat (Or.inr hother)
  | some outcome =>
    -- the reaction of a settled promise is queued last
    obtain ⟨kind, value⟩ := outcome
    refine h.rewriting hr (JobQueue.toList_push _ _) ?_
    rcases hn with hn | hfirst | ⟨hpending, -⟩
    · refine Or.inr fun hstored => ⟨precedes_of_none fun e he => ?_, hstored⟩
      rw [List.map_singleton, List.mem_singleton] at he
      rw [he, reacts_due ht]
      exact hn
    · exact Or.inl hfirst
    · rw [PromiseStatus.outcome?_eq_none_iff.2 hpending] at hout
      cases hout

/-- The reactions of a promise that is settled are queued in the order in which they were stored. -/
theorem settling (h : s.Ahead b m b' m') (hb : s.Balanced) {ref : ObjectRef} {record : PromiseRecord}
    (hr : s.agent.heap.record? ref = .ok record) (kind : ReactionKind) (value : ManagedValue) :
    (s.after s.agent.queue.length (s.agent.settling ref record kind value)).Ahead b m b' m' := by
  refine h.rewriting hr (JobQueue.toList_pushAll _ _) (Or.inr fun hstored => ⟨?_, ?_⟩)
  · rw [PromiseRecord.dueJobs, List.map_map]
    have htwin := hb.twin ref record hr
    exact hstored.map (fun pair hpair => reacts_due (htwin pair hpair) kind value b m)
      fun pair hpair => reacts_due (htwin pair hpair) kind value b' m'
  · exact precedes_of_none fun _ hpair => absurd hpair List.not_mem_nil

theorem resolving (h : s.Ahead b m b' m') (hb : s.Balanced) {ref : ObjectRef} {record : PromiseRecord}
    (hr : s.agent.heap.record? ref = .ok record) (r : Resolution) :
    (s.after s.agent.queue.length (s.agent.resolving ref record r)).Ahead b m b' m' := by
  cases r with
  | settle kind value => exact h.settling hb hr kind value
  | follow other =>
    refine h.rewriting hr (JobQueue.toList_push _ _) (Or.inr fun hstored => ⟨?_, hstored⟩)
    refine precedes_of_none fun e he => ?_
    rw [List.mem_singleton.1 he]
    rfl

/-- A job that is taken and run keeps the order, unless it attaches the second reaction again. -/
theorem job (h : s.Ahead b m b' m') (hs : s.Sound) (hb : s.Balanced) (hc : s.Closed b' m') {job : Job}
    {queue : JobQueue} (hp : s.agent.queue.pop? = some (job, queue)) :
    ((s.taken job queue).after queue.length (({ s.agent with queue } : Agent).working job)).Ahead b m b' m' := by
  have htaken : (s.taken job queue).Ahead b m b' m' := ⟨h.queued, h.stored⟩
  have hbt := hb.taken hp
  have he := effect_working { s.agent with queue } job
  generalize ({ s.agent with queue } : Agent).working job = c at he ⊢
  cases he with
  | dropped =>
    have hsame := (s.taken job queue).after_of_queue_eq (b := { s.agent with queue }) rfl
    exact hsame ▸ htaken
  | @attached promise thenable record hr =>
    refine htaken.attaching hr ⟨rfl, rfl⟩ (Or.inl ?_)
    -- the promise began to follow with this job, and it does so once
    rw [ReactionPair.aims, Bool.and_eq_false_iff, beq_eq_false_iff_ne, beq_eq_false_iff_ne]
    by_contra hboth
    obtain ⟨hderive, htarget⟩ := not_or.1 hboth
    obtain rfl : b' = false := (not_not.1 hderive).symm
    have htarget : s.number promise = m' := not_not.1 htarget
    have hwaits : (s.entry (.follow promise thenable)).follows m' = true := beq_iff_eq.2 htarget
    have hle := hb.followed_le m'
    rw [hb.logged, List.countP_append, JobQueue.toList_of_pop?_eq_some hp, List.map_cons,
      List.countP_cons_of_pos hwaits] at hle
    have hran := hc.followed rfl
    omega
  | handed kind handler derived argument =>
    have hi := Idle.retain (s.taken (.react kind (.derive (some handler) derived) argument)
      queue).agent derived
    have hstill := htaken.still (hs.taken hp) (.idle hi)
    rw [← after_of_queue_eq _ hi.queue_eq] at hstill
    exact hstill
  | passed hr => exact htaken.resolving hbt hr _
  | adopted hr => exact htaken.settling hbt hr _ _

end Ahead

theorem Step.ran_prefix {event : Event} (h : Step s event t) : s.ran <+: t.ran := by
  cases event with
  | call c answer => exact h.call_kept.1 ▸ List.prefix_rfl
  | job =>
    obtain ⟨-⟩ := h
    exact List.prefix_append _ _

theorem Closed.step {event : Event} (hc : s.Closed b m) (hs : s.Sound) (h : Step s event t) :
    t.Closed b m where
  born hb := Nat.lt_of_lt_of_le (hc.born hb) (Moves.leads hs (h.moves hs)).born_le
  followed hb := Nat.lt_of_lt_of_le (hc.followed hb) h.ran_prefix.sublist.countP_le

/-- What a call comes to: a registration, a settlement, or nothing for reactions and jobs. -/
theorem Step.call_inv (hs : s.Sound) {c : Call} {answer : Answer} (h : Step s (.call c answer) t) :
    Stills s t ∨ (∃ p f g d, c = .addReactions p f g ∧ answer = .object (.ok d)) ∨
      ∃ kind ref value, c = .settle kind ref value := by
  obtain ⟨h⟩ := h
  cases h with
  | @call _ _ e hn hrun =>
    by_cases hreg : ∃ p f g, c = .addReactions p f g
    · obtain ⟨p, f, g, rfl⟩ := hreg
      obtain ⟨found, e', hfound, hend⟩ := addReactions_stills hs p f g
      obtain ⟨rfl, rfl⟩ := EStateM.Result.ok.inj (hrun.symm.trans (addReactions_call_run hfound))
      rcases hend with ⟨⟨e, rfl⟩, hm⟩ | ⟨record, rfl, -⟩
      · exact Or.inl hm
      · exact Or.inr (Or.inl ⟨p, f, g, _, rfl, rfl⟩)
    · by_cases hcalm : c.isCalm = true
      · obtain ⟨found, e', hfound, hm⟩ := s.call_stills hcalm fun p f g h => hreg ⟨p, f, g, h⟩
        obtain ⟨rfl, rfl⟩ := EStateM.Result.ok.inj (hrun.symm.trans hfound)
        exact Or.inl hm
      · cases c with
        | resolve ref value => exact Or.inr (Or.inr ⟨.fulfill, ref, value, rfl⟩)
        | reject ref value => exact Or.inr (Or.inr ⟨.reject, ref, value, rfl⟩)
        | nextJob => exact absurd rfl hn
        | _ => exact absurd rfl hcalm

/-- A step keeps the order once both reactions are attached. -/
theorem Ahead.step (h : s.Ahead b m b' m') (hs : s.Sound) (hb : s.Balanced) (hc : s.Closed b' m')
    {event : Event} (hstep : Step s event t) : t.Ahead b m b' m' := by
  cases event with
  | call c answer =>
    rcases hstep.call_inv hs with hm | ⟨p, f, g, d, rfl, rfl⟩ | ⟨kind, ref, value, rfl⟩
    · exact h.stills hs hm
    · obtain ⟨record, -, hkept, rfl, hstills, rfl⟩ := hstep.registers hs
      refine (h.stills hs hstills).attaching hkept ⟨rfl, rfl⟩ (Or.inl ?_)
      -- the promise that is derived is a new one
      have hnew : (s.derived p).number (s.agent.derivedRef p) = s.born := Function.update_self _ _ _
      cases b' with
      | true =>
        have hne : s.born ≠ m' := Nat.ne_of_gt (hc.born rfl)
        simp [ReactionPair.aims, Reaction.target, hnew, hne]
      | false => rfl
    · rcases hstep.settle_inv hs with ⟨-, rfl⟩ | ⟨-, record, hr, -, rfl⟩
      · exact h
      · exact h.resolving hb hr _
  | job job native =>
    obtain ⟨queue, hp, -, rfl⟩ := hstep.job_inv hs
    rw [JobQueue.length_of_pop?_eq_some hp]
    exact h.job hs hb hc hp

section

variable {s' u' t' : History} {p p' : ObjectRef} {record record' : PromiseRecord}
  {pair pair' : ReactionPair}

namespace Attachment

/-- Of two reactions that are attached to one promise, the first is ahead. -/
theorem ahead (h : Attachment s u t n b m p record pair) (hs : s.Sound)
    (h' : Attachment s' u' t' n b' m' p' record' pair') (hl : Leads s s')
    (hv : s'.Pledges p n m pair) (hs' : s'.Sound) : t'.Ahead b m b' m' := by
  obtain ⟨rfl, -⟩ := hl.same hs h.source h'.source (h'.number.trans h.number.symm)
  -- the second reaction is nowhere yet
  have hnone : u'.Ahead b m b' m' := by
    refine ⟨precedes_of_none fun e he => h'.unqueued (h'.queued ▸ he), Or.inr fun q r hr => ?_⟩
    refine precedes_of_none fun other hother => Bool.eq_false_iff.2 fun haims => ?_
    have hpos := Heap.tally_pos _ hr hother haims
    have hzero := h'.unpledged
    rw [pledged] at hzero
    omega
  rw [h'.result]
  refine hnone.attaching h'.kept h'.twin (Or.inr ?_)
  by_cases hpending : record'.status = .pending
  · obtain ⟨hmem, htarget⟩ := (hv record' h'.source h'.number).1 hpending
    refine Or.inr ⟨hpending, pair, hmem, h.aims fun kind => ?_⟩
    have hlive := hs'.agent.stored _ record' h'.source pair hmem kind
    rw [h'.number_eq _ (Heap.isLive_of_isPromise hlive), htarget]
  · rw [h'.queued]
    exact Or.inl (h.due hs hl hv h'.source h'.number hpending)

/-- A reaction that is attached to a settled promise is queued at once. -/
theorem due_of_settled (h : Attachment s u t n b m p record pair) (hb : t.Balanced)
    (hsettled : record.status ≠ .pending) : ∃ e ∈ t.queued, e.reacts b m = true := by
  obtain ⟨new, hnew, -, hdue⟩ := record?_attaching h.kept pair
  have hstatus : new.status = record.status :=
    eq_of_attaching PromiseRecord.status h.kept h.kept hnew rfl rfl
  obtain ⟨kind, value, hkind⟩ := PromiseStatus.exists_settled hsettled
  have hjob := hdue kind value (hstatus.trans hkind)
  have ha : t.agent = u.agent.attaching p record pair := by
    rw [h.result]
    rfl
  have hnumber : t.number = u.number := by
    rw [h.result]
    rfl
  rw [← ha] at hjob
  refine ⟨_, hb.entry_mem hjob, ?_⟩
  rw [entry, Job.target, hnumber, h.target kind]
  exact h.reacts kind value

end Attachment

theorem Attaches.closed {event : Event} (ha : s.Attaches n event b m) (hs : s.Sound)
    (h : Step s event t) : t.Closed b m := by
  cases ha with
  | register =>
    obtain ⟨record, -, -, -, -, rfl⟩ := h.registers hs
    exact ⟨fun _ => Nat.lt_succ_self _, nofun⟩
  | @follow p other =>
    obtain ⟨queue, record, -, -, rfl⟩ := h.follows hs
    refine ⟨nofun, fun _ => List.countP_pos_iff.2 ⟨s.entry (.follow p other), ?_, beq_self_eq_true _⟩⟩
    exact List.mem_append_right _ (List.mem_singleton_self _)

end

theorem Later.sound (hs : s.Sound) (h : Later s t) : t.Sound := Moves.sound hs (h.moves hs)

theorem Later.balanced (hs : s.Sound) (hb : s.Balanced) (h : Later s t) : t.Balanced :=
  Moves.balanced hs hb (h.moves hs)

theorem Later.queued_prefix (hs : s.Sound) (h : Later s t) : s.queued <+: t.queued :=
  Moves.queued_prefix (h.moves hs)

theorem Ahead.later (h : s.Ahead b m b' m') (hs : s.Sound) (hb : s.Balanced) (hc : s.Closed b' m')
    (hl : Later s t) : t.Ahead b m b' m' ∧ t.Closed b' m' := by
  induction hl with
  | refl => exact ⟨h, hc⟩
  | tail hl hlast ih =>
    obtain ⟨event, hstep⟩ := hlast
    obtain ⟨hahead, hclosed⟩ := ih
    have hsound := Later.sound hs hl
    exact ⟨hahead.step hsound (Later.balanced hs hb hl) hclosed hstep, hclosed.step hsound hstep⟩

end History

end Promises
