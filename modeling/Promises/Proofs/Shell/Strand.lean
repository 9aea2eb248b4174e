import Promises.Proofs.Agent.Allocation
import Promises.Proofs.Shell.Link

namespace Promises

namespace Shell

/-- A link that was attached: the name of its handler, and the promise that it settles. -/
structure Tie where
  link : Link
  handler : FunctionId
  target : ObjectRef

namespace Tie

/-- The reactions that were registered for a link. -/
def pair (t : Tie) : ReactionPair :=
  match t.link.kind with
  | .fulfill => ⟨.derive (some t.handler) t.target, .derive none t.target⟩
  | .reject => ⟨.derive none t.target, .derive (some t.handler) t.target⟩

theorem due_pair (t : Tie) (kind : ReactionKind) :
    t.pair.due kind = .derive (if t.link.kind = kind then some t.handler else none) t.target := by
  rw [pair]
  cases t.link.kind <;> cases kind <;> rfl

/-- What is to be done about a link once the promise before it is settled. -/
def job (t : Tie) (o : Fate) : Job := .react o.1 (t.pair.due o.1) o.2.managed

end Tie

/-- The promises of a strand. -/
def refs (p : ObjectRef) (ties : List Tie) : List ObjectRef := p :: ties.map (·.target)

/-- The last promise of a strand. -/
def tip (p : ObjectRef) : List Tie → ObjectRef
  | [] => p
  | t :: ties => tip t.target ties

abbrev links (ties : List Tie) : List Link := ties.map (·.link)

theorem tip_mem (p : ObjectRef) (ties : List Tie) : tip p ties ∈ refs p ties := by
  induction ties generalizing p with
  | nil => exact List.mem_cons_self
  | cons t ties ih => exact List.mem_cons_of_mem p (ih t.target)

/-- The promise of the last slot is the last one of the strand. -/
theorem getElem?_refs (p : ObjectRef) (ties : List Tie) : (refs p ties)[ties.length]? = some (tip p ties) := by
  induction ties generalizing p with
  | nil => rfl
  | cons t ties ih => exact ih t.target

section

variable {a b c : Agent} {p q : ObjectRef} {t : Tie} {ties : List Tie} {o : Fate} {n : ℕ}

/-- A strand that waits: every promise is pending, with the reactions of its link and no others. -/
def Waits (a : Agent) : ObjectRef → List Tie → Prop
  | p, [] => a.heap.record? p = .ok .new
  | p, t :: ties => a.heap.record? p = .ok (PromiseRecord.new.markHandled.addReactions t.pair) ∧
      Waits a t.target ties

/-- A promise is settled that way, and with that value. -/
def Meets (a : Agent) (p : ObjectRef) (o : Fate) : Prop :=
  ∃ record, a.heap.record? p = .ok record ∧ record.status = .settled o.1 o.2.managed

/-- A strand through which the outcome of its first promise goes, and how many links have still to act. -/
inductive Runs (a : Agent) : Fate → ObjectRef → List Tie → ℕ → Prop
  | last {o : Fate} {p : ObjectRef} (hp : Meets a p o) (hq : a.queue.toList = []) : Runs a o p [] 0
  | due {o : Fate} {p : ObjectRef} {t : Tie} {ties : List Tie} (hp : Meets a p o)
    (hq : a.queue.toList = [t.job o]) (hw : Waits a t.target ties) :
    Runs a o p (t :: ties) (acting (links (t :: ties)) o)
  | past {o : Fate} {p : ObjectRef} {t : Tie} {ties : List Tie} {n : ℕ} (hp : Meets a p o)
    (hr : Runs a (t.link.pass o) t.target ties n) : Runs a o p (t :: ties) n

/-- A strand whose last promise is settled, too. -/
def Over (a : Agent) : Fate → ObjectRef → List Tie → Prop
  | o, p, [] => Meets a p o ∧ a.queue.toList = []
  | o, p, t :: ties => Meets a p o ∧ Over a (t.link.pass o) t.target ties

theorem Over.runs (h : Over a o p ties) : Runs a o p ties 0 := by
  induction ties generalizing o p with
  | nil => exact .last h.1 h.2
  | cons t ties ih => exact .past h.1 (ih h.2)

/-- At the end of a strand is what the fold says. -/
theorem Over.tip (h : Over a o p ties) : Meets a (tip p ties) (folded (links ties) o) := by
  induction ties generalizing o p with
  | nil => exact h.1
  | cons t ties ih => exact ih h.2

/-- Whether another agent has the records of some promises as they were. -/
def Same (qs : List ObjectRef) (a b : Agent) : Prop :=
  ∀ q ∈ qs, ∀ record, a.heap.record? q = .ok record → b.heap.record? q = .ok record

theorem Meets.same (h : Meets a p o) (hsame : Same [p] a b) : Meets b p o := by
  obtain ⟨record, hr, hs⟩ := h
  exact ⟨record, hsame p List.mem_cons_self record hr, hs⟩

theorem Same.head {qs : List ObjectRef} (h : Same (p :: qs) a b) : Same [p] a b := fun q hq =>
  h q (List.mem_singleton.1 hq ▸ List.mem_cons_self)

theorem Same.tail {qs : List ObjectRef} (h : Same (p :: qs) a b) : Same qs a b := fun q hq =>
  h q (List.mem_cons_of_mem p hq)

theorem Waits.same (h : Waits a p ties) (hsame : Same (refs p ties) a b) : Waits b p ties := by
  induction ties generalizing p with
  | nil => exact hsame p List.mem_cons_self _ h
  | cons t ties ih => exact ⟨hsame p List.mem_cons_self _ h.1, ih h.2 hsame.tail⟩

theorem Runs.same (h : Runs a o p ties n) (hq : b.queue.toList = a.queue.toList)
    (hsame : Same (refs p ties) a b) : Runs b o p ties n := by
  induction h with
  | last hp hidle => exact .last (hp.same hsame.head) (hq.trans hidle)
  | due hp hdue hw => exact .due (hp.same hsame.head) (hq.trans hdue) (hw.same hsame.tail)
  | past hp _ ih => exact .past (hp.same hsame.head) (ih hsame.tail)

/-- A pending promise has nothing to show, and a settled one has no object. -/
theorem Waits.result (h : Waits a p ties) (hq : q ∈ refs p ties) :
    ∃ record, a.heap.record? q = .ok record ∧ record.result = .undefined := by
  induction ties generalizing p with
  | nil =>
    obtain rfl := List.mem_singleton.1 hq
    exact ⟨_, h, rfl⟩
  | cons t ties ih =>
    rcases List.mem_cons.1 hq with rfl | hq
    · exact ⟨_, h.1, rfl⟩
    · exact ih h.2 hq

theorem Meets.result (h : Meets a p o) :
    ∃ record, a.heap.record? p = .ok record ∧ ∀ ref, record.result ≠ .object ref := by
  obtain ⟨record, hr, hs⟩ := h
  refine ⟨record, hr, fun ref => ?_⟩
  rw [PromiseRecord.result, hs, PromiseStatus.result_settled]
  exact o.2.managed_ne_object ref

theorem Runs.result (h : Runs a o p ties n) (hq : q ∈ refs p ties) :
    ∃ record, a.heap.record? q = .ok record ∧ ∀ ref, record.result ≠ .object ref := by
  induction h with
  | last hp =>
    obtain rfl := List.mem_singleton.1 hq
    exact hp.result
  | due hp _ hw =>
    rcases List.mem_cons.1 hq with rfl | hq
    · exact hp.result
    · obtain ⟨record, hr, hresult⟩ := hw.result hq
      refine ⟨record, hr, fun ref => ?_⟩
      rw [hresult]
      exact ManagedValue.noConfusion
  | past hp _ ih =>
    rcases List.mem_cons.1 hq with rfl | hq
    · exact hp.result
    · exact ih hq

/-- The first promise of a strand that waits is settled. Its link, if there is one, is due. -/
theorem Waits.settling (h : Waits a p ties) (hidle : a.queue.toList = []) (hnodup : (refs p ties).Nodup)
    (o : Fate) :
    ∃ record, a.heap.record? p = .ok record ∧ record.status = .pending ∧ record.alreadyResolved = false ∧
      Runs (a.settling p record o.1 o.2.managed) o p ties (acting (links ties) o) := by
  have hmeets {record : PromiseRecord} (hr : a.heap.record? p = .ok record) :
      Meets (a.settling p record o.1 o.2.managed) p o :=
    ⟨_, Heap.record?_setRecord hr (record.settled o.1 o.2.managed), rfl⟩
  have hqueue (record : PromiseRecord) :
      (a.settling p record o.1 o.2.managed).queue.toList = record.dueJobs o.1 o.2.managed := by
    show (a.queue.pushAll (record.dueJobs o.1 o.2.managed)).toList = _
    rw [JobQueue.toList_pushAll, hidle, List.nil_append]
  cases ties with
  | nil => exact ⟨_, h, rfl, rfl, .last (hmeets h) (hqueue _)⟩
  | cons t ties =>
    obtain ⟨hr, hw⟩ := h
    have hp : p ∉ refs t.target ties := (List.nodup_cons.1 hnodup).1
    refine ⟨_, hr, rfl, rfl, .due (hmeets hr) (hqueue _) (hw.same fun q hq record hrecord => ?_)⟩
    rw [← hrecord]
    apply Heap.record?_setRecord_of_ne
    rintro rfl
    exact hp hq

/-- What is done to an agent when a link is attached to a promise. The new promise was not there before. -/
structure Hitched (a b : Agent) (source : ObjectRef) (t : Tie) : Prop where
  fresh : a.heap.isLive t.target = false
  target : b.heap.record? t.target = .ok .new
  other : ∀ q record, q ≠ source → a.heap.record? q = .ok record → b.heap.record? q = .ok record
  pending : ∀ record, a.heap.record? source = .ok record → record.status = .pending →
    b.heap.record? source = .ok (record.markHandled.addReactions t.pair) ∧ b.queue.toList = a.queue.toList
  settled : ∀ record kind value, a.heap.record? source = .ok record → record.status = .settled kind value →
    b.heap.record? source = .ok record.markHandled ∧
      b.queue.toList = a.queue.toList ++ [.react kind (t.pair.due kind) value]
  limit : b.heap.limit = a.heap.limit
  live : b.heap.live = a.heap.live + 1
  terminating : b.terminating = a.terminating

theorem tip_ne (hnodup : (refs p (t :: ties)).Nodup) : p ≠ tip t.target ties := by
  intro h
  apply (List.nodup_cons.1 hnodup).1
  rw [h]
  exact tip_mem t.target ties

theorem Waits.tip (h : Waits a p ties) : a.heap.record? (tip p ties) = .ok .new := by
  induction ties generalizing p with
  | nil => exact h
  | cons t ties ih => exact ih h.2

theorem Waits.hitched (h : Waits a p ties) (hnodup : (refs p ties).Nodup)
    (hh : Hitched a b (Shell.tip p ties) t) : Waits b p (ties ++ [t]) := by
  induction ties generalizing p with
  | nil => exact ⟨(hh.pending .new h rfl).1, hh.target⟩
  | cons t' ties ih =>
    have hne : p ≠ Shell.tip t'.target ties := tip_ne hnodup
    exact ⟨hh.other p _ hne h.1, ih h.2 (List.nodup_cons.1 hnodup).2 hh⟩

theorem Meets.hitched (h : Meets a p o) {source : ObjectRef} (hne : p ≠ source) (hh : Hitched a b source t) :
    Meets b p o := by
  obtain ⟨record, hr, hs⟩ := h
  exact ⟨record, hh.other p record hne hr, hs⟩

/-- A link that is attached to a strand has still to act, if it acts at all. -/
theorem Runs.hitched (h : Runs a o p ties n) (hnodup : (refs p ties).Nodup)
    (hh : Hitched a b (Shell.tip p ties) t) :
    Runs b o p (ties ++ [t]) (n + acting [t.link] (folded (links ties) o)) := by
  induction h with
  | @last o p hp hidle =>
    obtain ⟨record, hr, hs⟩ := hp
    obtain ⟨hsource, hqueue⟩ := hh.settled record o.1 o.2.managed hr hs
    rw [hidle] at hqueue
    rw [Nat.zero_add]
    exact .due ⟨record.markHandled, hsource, hs⟩ hqueue hh.target
  | @due o p t' ties hp hdue hw =>
    have hpending := (hh.pending .new hw.tip rfl).2
    have hcount : acting (links (t' :: (ties ++ [t]))) o =
        acting (links (t' :: ties)) o + acting [t.link] (folded (links (t' :: ties)) o) := by
      rw [← acting_append, ← List.cons_append, links, List.map_append]
      rfl
    rw [← hcount]
    exact .due (hp.hitched (tip_ne hnodup) hh) (hpending.trans hdue)
      (hw.hitched (List.nodup_cons.1 hnodup).2 hh)
  | @past o p t' ties n hp _ ih =>
    exact .past (hp.hitched (tip_ne hnodup) hh) (ih (List.nodup_cons.1 hnodup).2 hh)

theorem makeRoom_of_room (hroom : a.heap.isFull = false) : a.makeRoom = a := if_neg (Bool.eq_false_iff.1 hroom)

/-- With room in the heap, nothing is collected for a registration. -/
theorem record?_withDerived_of_room (ha : a.Sound) (hroom : a.heap.isFull = false) (ref : ObjectRef)
    {record : PromiseRecord} (hr : a.heap.record? q = .ok record) :
    (a.withDerived ref).heap.record? q = .ok record := by
  have hretained : (a.retained ref).Sound := ha.idle (.retain a ref)
  have hmade : (a.retained ref).makeRoom = a.retained ref := makeRoom_of_room hroom
  have hkept : (a.retained ref).heap.record? q = .ok record :=
    (Heap.record?_congr (Heap.object?_retain a.heap ref q)).trans hr
  have hplaced : ((a.retained ref).placed (.promise .new)).heap.record? q = .ok record :=
    Heap.record?_place hretained.shape (.promise .new) hkept
  rw [Agent.withDerived, hmade]
  exact (Heap.record?_congr (Heap.object?_release _ ref q)).trans hplaced

theorem live_withDerived (hroom : a.heap.isFull = false) (ref : ObjectRef) :
    (a.withDerived ref).heap.live = a.heap.live + 1 := by
  have hmade : (a.retained ref).makeRoom = a.retained ref := makeRoom_of_room hroom
  rw [Agent.withDerived, hmade]
  exact Heap.live_place _ _

theorem limit_withDerived (a : Agent) (ref : ObjectRef) : (a.withDerived ref).heap.limit = a.heap.limit := by
  have hplaced : (a.withDerived ref).heap.limit = (a.retained ref).makeRoom.heap.limit := Heap.limit_place _ _
  exact hplaced.trans (Agent.limit_makeRoom _)

theorem terminating_withDerived (a : Agent) (ref : ObjectRef) : (a.withDerived ref).terminating = a.terminating := by
  show (a.retained ref).makeRoom.terminating = _
  unfold Agent.makeRoom
  split <;> rfl

theorem queue_withDerived (a : Agent) (ref : ObjectRef) : (a.withDerived ref).queue = a.queue := by
  show (a.retained ref).makeRoom.queue = _
  unfold Agent.makeRoom
  split <;> rfl

theorem hitched_attaching (ha : a.Sound) (hroom : a.heap.isFull = false) {source : ObjectRef}
    {record : PromiseRecord} (hr : a.heap.record? source = .ok record) (l : Link) (f : FunctionId) :
    let t : Tie := ⟨l, f, a.derivedRef source⟩
    Hitched a ((a.withDerived source).attaching source record t.pair) source t := by
  intro t
  have hsource := record?_withDerived_of_room ha hroom source hr
  have hheap := Agent.heap_attaching (a.withDerived source) source record t.pair
  have hfresh : a.heap.isLive t.target = false := Agent.not_isLive_derivedRef ha source
  have hne : t.target ≠ source := by
    intro h
    rw [h, Heap.isLive_of_record? hr] at hfresh
    cases hfresh
  refine ⟨hfresh, ?_, fun q record' hq hr' => ?_, fun record' hr' hs => ?_, fun record' kind value hr' hs => ?_,
    ?_, ?_, ?_⟩
  · rw [hheap, Heap.record?_setRecord_of_ne hne]
    exact Agent.record?_derivedRef ha source
  · rw [hheap, Heap.record?_setRecord_of_ne hq]
    exact record?_withDerived_of_room ha hroom source hr'
  · -- a pending source stores the pair, and a settled one queues what is due
    obtain rfl := Except.ok.inj (hr.symm.trans hr')
    rw [Agent.attaching, hs]
    refine ⟨Heap.record?_setRecord hsource _, ?_⟩
    show (a.withDerived source).queue.toList = _
    rw [queue_withDerived]
  · obtain rfl := Except.ok.inj (hr.symm.trans hr')
    rw [Agent.attaching, PromiseStatus.outcome?_eq_some_iff.2 hs]
    refine ⟨Heap.record?_setRecord hsource _, ?_⟩
    show ((a.withDerived source).queue.push _).toList = _
    rw [JobQueue.toList_push, queue_withDerived]
  · rw [hheap]
    exact limit_withDerived a source
  · rw [hheap]
    exact live_withDerived hroom source
  · have hflag : ((a.withDerived source).attaching source record t.pair).terminating =
        (a.withDerived source).terminating := by
      unfold Agent.attaching
      split <;> rfl
    exact hflag.trans (terminating_withDerived a source)

/-- A link is attached to a promise, as long as there is room for another one. -/
theorem attach_run_of_room (ha : a.Sound) (ht : a.terminating = false) (hroom : a.heap.isFull = false)
    {source : ObjectRef} {record : PromiseRecord} (hr : a.heap.record? source = .ok record) (l : Link)
    (f : FunctionId) :
    ∃ b, (Desk.attach l.kind source f).run a = .ok (.ok (a.derivedRef source)) b ∧
      Hitched a b source ⟨l, f, a.derivedRef source⟩ := by
  refine ⟨_, ?_, hitched_attaching ha hroom hr l f⟩
  have hfull : (a.retained source).makeRoom.heap.isFull = false := by
    have hmade : (a.retained source).makeRoom = a.retained source := makeRoom_of_room hroom
    rw [hmade]
    exact hroom
  have hadd (g g' : Option FunctionId) : Agent.addReactions source g g' a =
      .ok (.ok (a.derivedRef source)) ((a.withDerived source).attaching source record
        ⟨.derive g (a.derivedRef source), .derive g' (a.derivedRef source)⟩) := by
    rw [Agent.addReactions_eq ha, hr]
    dsimp only
    have hkept := Heap.isLive_of_record? (record?_withDerived_of_room ha hroom source hr)
    rw [ht, hfull, hkept, if_neg Bool.false_ne_true, if_neg Bool.false_ne_true, if_pos rfl]
  obtain ⟨kind, op⟩ := l
  cases kind with
  | fulfill => exact hadd (some f) none
  | reject => exact hadd none (some f)

/-- What is rooted stays while the heap is collected. -/
theorem same_collected {qs : List ObjectRef} (hroots : ∀ q ∈ qs, a.heap.rootCount q ≠ 0) :
    Same qs a a.collected := by
  intro q hq record hr
  rw [← hr]
  exact Heap.record?_congr (Heap.object?_collect_of_reaches (Heap.reaches_of_rootCount (hroots q hq)))

/-- What an agent has in common with another one but for the records of some promises. -/
structure Beyond (qs : List ObjectRef) (a b : Agent) : Prop where
  record : ∀ q, q ∉ qs → b.heap.record? q = a.heap.record? q
  limit : b.heap.limit = a.heap.limit
  live : b.heap.live = a.heap.live
  terminating : b.terminating = a.terminating

theorem Beyond.refl (qs : List ObjectRef) (a : Agent) : Beyond qs a a := ⟨fun _ _ => rfl, rfl, rfl, rfl⟩

theorem Beyond.trans {qs : List ObjectRef} (h : Beyond qs a b) (h' : Beyond qs b c) : Beyond qs a c where
  record q hq := (h'.record q hq).trans (h.record q hq)
  limit := h'.limit.trans h.limit
  live := h'.live.trans h.live
  terminating := h'.terminating.trans h.terminating

theorem Beyond.mono {qs more : List ObjectRef} (h : Beyond qs a b) (hm : qs ⊆ more) : Beyond more a b :=
  ⟨fun q hq => h.record q fun hmem => hq (hm hmem), h.limit, h.live, h.terminating⟩

theorem Beyond.meets {qs : List ObjectRef} (h : Beyond qs a b) (hp : p ∉ qs) (hm : Meets a p o) : Meets b p o := by
  obtain ⟨record, hr, hs⟩ := hm
  exact ⟨record, (h.record p hp).trans hr, hs⟩

theorem beyond_settling (a : Agent) (record : PromiseRecord) (kind : ReactionKind) (value : ManagedValue) :
    Beyond [p] a (a.settling p record kind value) := by
  refine ⟨fun q hq => ?_, rfl, rfl, rfl⟩
  apply Heap.record?_setRecord_of_ne
  exact fun h => hq (List.mem_singleton.2 h)

theorem same_retained (qs : List ObjectRef) (a : Agent) (ref : ObjectRef) : Same qs a (a.retained ref) :=
  fun q _ _ hr => (Heap.record?_congr (Heap.object?_retain a.heap ref q)).trans hr

theorem same_released (qs : List ObjectRef) (a : Agent) (ref : ObjectRef) : Same qs a (a.released ref) :=
  fun q _ _ hr => (Heap.record?_congr (Heap.object?_release a.heap ref q)).trans hr

/-- A pending promise is settled with what is no object. -/
theorem settle_run_of_pending (ha : a.Sound) (ht : a.terminating = false) {record : PromiseRecord}
    (hr : a.heap.record? p = .ok record) (hl : record.alreadyResolved = false) (o : Fate) :
    (Desk.settle o.1 p o.2.managed).run a = .ok (.ok true) (a.settling p record o.1 o.2.managed) := by
  have hpass : Agent.passOn o.1 p o.2.managed a = .ok (.ok true) (a.settling p record o.1 o.2.managed) := by
    have hplain : a.heap.resolution p o.1 o.2.managed = .settle o.1 o.2.managed :=
      Agent.resolution_of_plain (Heap.isPromise_of_record? hr)
        (Or.inr fun other h => absurd h (o.2.managed_ne_object other))
    rw [Agent.passOn_run _ _ _ _ (ha.unlatched p), hr]
    dsimp only
    rw [hl, if_neg Bool.false_ne_true, hplain]
    rfl
  obtain ⟨kind, d⟩ := o
  cases kind with
  | fulfill =>
    have hrun := Agent.resolve_run p d.managed a
    rw [ht, if_neg Bool.false_ne_true] at hrun
    exact hrun.trans hpass
  | reject =>
    have hrun := Agent.reject_run p d.managed a
    rw [ht, if_neg Bool.false_ne_true] at hrun
    exact hrun.trans hpass

/-- The only job of a queue. -/
theorem pop?_of_toList {queue : JobQueue} {job : Job} (h : queue.toList = [job]) :
    ∃ rest, queue.pop? = some (job, rest) ∧ rest.toList = [] := by
  cases hp : queue.pop? with
  | none =>
    rw [JobQueue.pop?_eq_none_iff.1 hp] at h
    cases h
  | some found =>
    obtain ⟨first, rest⟩ := found
    rw [JobQueue.toList_of_pop?_eq_some hp] at h
    obtain ⟨rfl, hrest⟩ := List.cons.inj h
    exact ⟨rest, rfl, hrest⟩

/-- What comes of the job about a link: the agent after it, and whether it was a reaction to run. -/
structure Advanced (d : Desk) (a c : Agent) (o : Fate) (t : Tie) (ties : List Tie) : Prop where
  sound : c.Sound
  runs : Runs c (t.link.pass o) t.target ties (acting (links ties) (t.link.pass o))
  beyond : Beyond [t.target] a c
  workload : c.workload < a.workload
  serve : ∀ fuel ran, if t.link.kind = o.1 then d.serve (fuel + 1) ran a = d.serve fuel (ran + 1) c
    else d.serve (fuel + 1) ran a = d.serve (fuel + 1) ran c

variable {d : Desk}

theorem serve_congr (h : Agent.nextJob a = Agent.nextJob b) (fuel ran : ℕ) :
    d.serve (fuel + 1) ran a = d.serve (fuel + 1) ran b := by
  have hnext : (Engine.nextJob : Action Agent (Option NativeJob)) a = Engine.nextJob b := h
  simp only [Desk.serve, bind, EStateM.bind, hnext]

/-- A link that acts: its handler is run, and settles the promise of the link. -/
theorem advanced_acting (ha : a.Sound) (ht : a.terminating = false) (hq : a.queue.toList = [t.job o])
    (hw : Waits a t.target ties) (hnodup : (refs t.target ties).Nodup) (hop : d.op? t.handler = some t.link.op)
    (ho : o.2.Stays d.reading) (hact : t.link.kind = o.1) : ∃ c, Advanced d a c o t ties := by
  obtain ⟨queue, hpop, hidle⟩ := pop?_of_toList hq
  have hpass : t.link.pass o = t.link.op.fate o.2 := if_pos hact
  let job : NativeJob := ⟨o.1, t.handler, o.2.managed, t.target⟩
  let b : Agent := ({ a with queue } : Agent).retained t.target
  have hjob : t.job o = .react o.1 (.derive (some t.handler) t.target) o.2.managed := by
    rw [Tie.job, Tie.due_pair, if_pos hact]
  rw [hjob] at hpop
  -- the job is handed out, as its link is for this way to settle
  have hnext : Agent.nextJob a = .ok (some job) b := by
    rw [Agent.nextJob_eq ha, if_neg (Bool.eq_false_iff.1 ht), hpop]
    rfl
  have hb : b.Sound := (ha.pop hpop).1.idle (.retain _ _)
  have hwb : Waits b t.target ties := (hw.same fun _ _ _ h => h : Waits { a with queue } t.target ties).same
    (same_retained _ _ _)
  obtain ⟨record, hr, hpending, hl, hruns⟩ := hwb.settling hidle hnodup (t.link.pass o)
  -- the desk settles the target with what the link makes of the outcome
  have hsettlement : d.settlement job = ((t.link.pass o).1, (t.link.pass o).2.managed) := by
    have hknown : d.op? job.handler = some t.link.op := hop
    simp only [Desk.settlement, hknown]
    show t.link.op.settlement (o.2.managed.read d.reading) = _
    rw [hpass, ← t.link.op.settlement_managed ho, ho.managed_read]
  let c : Agent := (b.settling t.target record (t.link.pass o).1 (t.link.pass o).2.managed).released t.target
  have hreact : d.react job b = .ok () c := by
    apply react_ne_object o.2.managed_ne_object
    rw [hsettlement]
    exact settle_run_of_pending hb ht hr hl (t.link.pass o)
  have hc : c.Sound := (hb.change (.settle hr hpending _ _)).idle (.release _ t.target)
  refine ⟨c, hc, ?_, ?_, ?_, fun fuel ran => ?_⟩
  · exact hruns.same rfl (same_released _ _ _)
  · refine ⟨fun q hq => ?_, rfl, rfl, rfl⟩
    have hsame := (beyond_settling b record (t.link.pass o).1 (t.link.pass o).2.managed).record q hq
    rw [← Heap.record?_congr (Heap.object?_retain a.heap t.target q)]
    exact (Heap.record?_congr (Heap.object?_release _ t.target q)).trans hsame
  · exact Nat.lt_of_le_of_lt (Desk.workload_react hreact) (Agent.workload_nextJob ha hnext)
  · rw [if_pos hact]
    exact (bind_run _ hnext).trans (bind_run _ hreact)

/-- A link that does not act: the engine passes the outcome on by itself. -/
theorem advanced_passing (ha : a.Sound) (ht : a.terminating = false) (hq : a.queue.toList = [t.job o])
    (hw : Waits a t.target ties) (hnodup : (refs t.target ties).Nodup) (hact : t.link.kind ≠ o.1) :
    ∃ c, Advanced d a c o t ties := by
  obtain ⟨queue, hpop, hidle⟩ := pop?_of_toList hq
  have hpass : t.link.pass o = o := if_neg hact
  have hjob : t.job o = .react o.1 (.derive none t.target) o.2.managed := by
    rw [Tie.job, Tie.due_pair, if_neg hact]
  rw [hjob] at hpop
  let b : Agent := { a with queue }
  have hb : b.Sound := (ha.pop hpop).1
  have hwb : Waits b t.target ties := hw.same fun _ _ _ h => h
  obtain ⟨record, hr, hpending, hl, hruns⟩ := hwb.settling hidle hnodup (t.link.pass o)
  rw [hpass] at hruns
  have hplain : b.heap.resolution t.target o.1 o.2.managed = .settle o.1 o.2.managed :=
    Agent.resolution_of_plain (Heap.isPromise_of_record? hr)
      (Or.inr fun other h => absurd h (o.2.managed_ne_object other))
  have hworking : b.working (.react o.1 (.derive none t.target) o.2.managed) =
      b.settling t.target record o.1 o.2.managed := by
    rw [Agent.working_derive_none hr, hl, if_neg Bool.false_ne_true, hplain]
    rfl
  have hnext : Agent.nextJob a = Agent.nextJob (b.settling t.target record o.1 o.2.managed) := by
    rw [Agent.nextJob_eq ha, if_neg (Bool.eq_false_iff.1 ht), hpop, ← hworking]
    rfl
  refine ⟨b.settling t.target record o.1 o.2.managed, hb.change (.settle hr hpending _ _), ?_, ?_, ?_,
    fun fuel ran => ?_⟩
  · rw [hpass]
    exact hruns
  · exact ⟨(beyond_settling b record o.1 o.2.managed).record, rfl, rfl, rfl⟩
  · rw [← hworking]
    exact Agent.workload_job ha hpop
  · rw [if_neg hact]
    exact serve_congr hnext fuel ran

/-- A checkpoint takes the outcome to the end of the strand, and runs the links that act on the way. -/
theorem Runs.serve (ha : a.Sound) (ht : a.terminating = false) (hnodup : (refs p ties).Nodup)
    (hknown : ∀ t ∈ ties, d.op? t.handler = some t.link.op) (ho : o.2.Stays d.reading)
    (h : Runs a o p ties n) (ran : ℕ) {fuel : ℕ} (hfuel : a.workload < fuel) :
    ∃ b, d.serve fuel ran a = .ok (ran + n) b ∧ Over b o p ties ∧ Beyond (ties.map (·.target)) a b := by
  -- the induction is on the strand: a promise that is past stays so, and the job about the next one comes first
  induction ties generalizing a o p n fuel ran with
  | nil =>
    cases h with
    | last hp hq =>
      obtain ⟨fuel, rfl⟩ := Nat.exists_eq_add_of_lt hfuel
      have hnext : Agent.nextJob a = .ok none a := by
        rw [Agent.nextJob_eq ha, ht, if_neg Bool.false_ne_true, JobQueue.pop?_eq_none_iff.2 hq]
      exact ⟨a, bind_run _ hnext, ⟨hp, hq⟩, .refl _ a⟩
  | cons t ties ih =>
    have htail := (List.nodup_cons.1 hnodup).2
    have hrest : ∀ t ∈ ties, d.op? t.handler = some t.link.op := fun t ht =>
      hknown t (List.mem_cons_of_mem _ ht)
    have hp : p ∉ ((t :: ties).map (·.target)) := (List.nodup_cons.1 hnodup).1
    cases h with
    | past hm hr =>
      obtain ⟨b, hserve, hover, hbeyond⟩ := ih ha ht htail hrest (ho.pass t.link) hr ran hfuel
      have hmore : Beyond ((t :: ties).map (·.target)) a b := hbeyond.mono (List.subset_cons_self _ _)
      exact ⟨b, hserve, ⟨hmore.meets hp hm, hover⟩, hmore⟩
    | due hm hq hw =>
      have hadvanced : ∃ c, Advanced d a c o t ties := by
        by_cases hact : t.link.kind = o.1
        · exact advanced_acting ha ht hq hw htail (hknown t List.mem_cons_self) ho hact
        · exact advanced_passing ha ht hq hw htail hact
      obtain ⟨c, hsound, hruns, hfirst, hless, hserve⟩ := hadvanced
      have htc : c.terminating = false := hfirst.terminating.trans ht
      have hstart : Beyond ((t :: ties).map (·.target)) a c :=
        hfirst.mono (List.cons_subset_cons _ (List.nil_subset _))
      obtain ⟨fuel, rfl⟩ : ∃ k, fuel = k + 1 := ⟨fuel - 1, by omega⟩
      have hcount : acting (links (t :: ties)) o =
          (if t.link.kind = o.1 then 1 else 0) + acting (links ties) (t.link.pass o) := rfl
      have hdone : ∃ b, d.serve (fuel + 1) ran a = .ok (ran + acting (links (t :: ties)) o) b ∧
          Over b (t.link.pass o) t.target ties ∧ Beyond (ties.map (·.target)) c b := by
        specialize hserve fuel ran
        split at hserve
        · rename_i hact
          rw [hserve, hcount, if_pos hact, ← Nat.add_assoc]
          exact ih hsound htc htail hrest (ho.pass t.link) hruns (ran + 1) (by omega)
        · rename_i hact
          rw [hserve, hcount, if_neg hact, Nat.zero_add]
          exact ih hsound htc htail hrest (ho.pass t.link) hruns ran (by omega)
      obtain ⟨b, hb, hover, hlast⟩ := hdone
      have hmore := hstart.trans (hlast.mono (List.subset_cons_self _ _))
      exact ⟨b, hb, ⟨hmore.meets hp hm, hover⟩, hmore⟩

end

end Shell

end Promises
