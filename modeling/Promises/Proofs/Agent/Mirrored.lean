import Promises.Proofs.Agent.Alike

namespace Promises

theorem Heap.object?_setRecord (h : Heap) (ref : ObjectRef) (new : PromiseRecord) (q : ObjectRef) :
    (h.setRecord ref new).object? q =
      if q = ref then (h.object? ref).map fun _ => .promise new else h.object? q := by
  rw [object?, setRecord, cell?_update, object?, object?]
  split
  · rw [Option.map_map, Option.map_map]
    rfl
  · rfl

/-- Alike queues have alike jobs at their head, or none. -/
theorem JobQueue.pop?_alike {R : ObjectRef → ObjectRef → Prop} {q q' : JobQueue}
    (h : List.Forall₂ (Job.Alike R) q.toList q'.toList) :
    q.pop? = none ∧ q'.pop? = none ∨
    ∃ x y rest rest', q.pop? = some (x, rest) ∧ q'.pop? = some (y, rest') ∧ x.Alike R y ∧
      List.Forall₂ (Job.Alike R) rest.toList rest'.toList := by
  cases hp : q.pop? with
  | none =>
    rw [JobQueue.pop?_eq_none_iff.1 hp, List.forall₂_nil_left_iff] at h
    exact Or.inl ⟨rfl, JobQueue.pop?_eq_none_iff.2 h⟩
  | some found =>
    obtain ⟨x, rest⟩ := found
    rw [JobQueue.toList_of_pop?_eq_some hp] at h
    cases hp' : q'.pop? with
    | none =>
      rw [JobQueue.pop?_eq_none_iff.1 hp'] at h
      cases h
    | some found =>
      obtain ⟨y, rest'⟩ := found
      rw [JobQueue.toList_of_pop?_eq_some hp', List.forall₂_cons] at h
      exact Or.inr ⟨x, y, rest, rest', rfl, rfl, h.1, h.2⟩

namespace Agent

/-- Objects correspond one by one. Counterparts are alike, and so are the queues. -/
structure Mirrored (R : ObjectRef → ObjectRef → Prop) (a b : Agent) : Prop where
  terminating : a.terminating = b.terminating
  left_unique : ∀ p q q', R p q → R p q' → q = q'
  right_unique : ∀ p p' q, R p q → R p' q → p = p'
  objects : ∀ p q, R p q →
    ∃ x y, a.heap.object? p = some x ∧ b.heap.object? q = some y ∧ x.Alike R y
  queue : List.Forall₂ (Job.Alike R) a.queue.toList b.queue.toList

variable {R S : ObjectRef → ObjectRef → Prop} {a b a' b' : Agent} {p q : ObjectRef}

namespace Mirrored

/-- The records of counterparts, or why neither of them has one. -/
theorem record? (h : Mirrored R a b) (hpq : R p q) :
    (∃ r s, a.heap.record? p = .ok r ∧ b.heap.record? q = .ok s ∧ r.Alike R s) ∨
    a.heap.record? p = .error (.notAPromise p) ∧ b.heap.record? q = .error (.notAPromise q) := by
  obtain ⟨x, y, hx, hy, hxy⟩ := h.objects p q hpq
  unfold Heap.record?
  rw [hx, hy]
  cases hxy with
  | plain => exact Or.inr ⟨rfl, rfl⟩
  | promise hr => exact Or.inl ⟨_, _, rfl, rfl, hr⟩

theorem isPromise_eq (h : Mirrored R a b) (hpq : R p q) :
    a.heap.isPromise p = b.heap.isPromise q := by
  rcases h.record? hpq with ⟨r, s, hr, hs, -⟩ | ⟨hr, hs⟩
  · rw [Heap.isPromise_of_record? hr, Heap.isPromise_of_record? hs]
  · have hno {k : Heap} {ref : ObjectRef} (hk : k.record? ref = .error (.notAPromise ref)) :
        k.isPromise ref = false := by
      rw [← Bool.not_eq_true, Heap.isPromise_iff, hk]
      simp
    rw [hno hr, hno hs]

theorem eq_iff (h : Mirrored R a b) (hpq : R p q) {p' q' : ObjectRef} (hpq' : R p' q') :
    p' = p ↔ q' = q := by
  constructor
  · rintro rfl
    exact h.left_unique p' q' q hpq' hpq
  · rintro rfl
    exact h.right_unique p' p q' hpq' hpq

theorem resolution (h : Mirrored R a b) (hpq : R p q) (kind : ReactionKind) {v w : ManagedValue}
    (hv : v.Alike R w) :
    (a.heap.resolution p kind v).Alike R (b.heap.resolution q kind w) := by
  cases kind with
  | reject => exact .settle .reject hv
  | fulfill =>
    cases hv with
    | plain hn =>
      have hplain (k : Heap) (ref : ObjectRef) :
          k.resolution ref .fulfill v = .settle .fulfill v := by
        cases v with
        | object => cases hn
        | _ => rfl
      rw [hplain, hplain]
      exact .settle .fulfill (.plain hn)
    | @object p' q' ht =>
      simp only [Heap.resolution, h.isPromise_eq ht, h.eq_iff hpq ht]
      split
      · exact .settle .reject (.plain rfl)
      · split
        · exact .follow ht
        · exact .settle .fulfill (.object ht)

theorem queued (h : Mirrored R a b) {xs ys : List Job} (hj : List.Forall₂ (Job.Alike R) xs ys) :
    List.Forall₂ (Job.Alike R) (a.queue.pushAll xs).toList (b.queue.pushAll ys).toList := by
  rw [JobQueue.toList_pushAll, JobQueue.toList_pushAll]
  exact List.rel_append h.queue hj

end Mirrored

/-- Refusals that are the same apart from what they name. -/
inductive Refusal (R : ObjectRef → ObjectRef → Prop) : EngineError → EngineError → Prop
  | terminated : Refusal R .terminated .terminated
  | notAPromise {p q : ObjectRef} (h : R p q) : Refusal R (.notAPromise p) (.notAPromise q)

/-- The same answer, or refusals that are the same. -/
inductive Answered (R : ObjectRef → ObjectRef → Prop) {α : Type} :
    Except EngineError α → Except EngineError α → Prop
  | ok (v : α) : Answered R (.ok v) (.ok v)
  | error {e e' : EngineError} (h : Refusal R e e') : Answered R (.error e) (.error e')

theorem Answered.toOption_eq {α : Type} {x y : Except EngineError α} (h : Answered R x y) :
    x.toOption = y.toOption := by
  cases h <;> rfl

/-- What relates agents that mirror each other, and holds on while counterparts change alike. -/
structure Steady (R : ObjectRef → ObjectRef → Prop) (L : Agent → Agent → Prop) : Prop where
  mirrored : ∀ {a b : Agent}, L a b → Mirrored R a b
  setRecord : ∀ {a b : Agent} {p q : ObjectRef} {r s : PromiseRecord} {qa qb : JobQueue}, L a b →
    R p q → r.Alike R s → List.Forall₂ (Job.Alike R) qa.toList qb.toList →
    L { a with heap := a.heap.setRecord p r, queue := qa }
      { b with heap := b.heap.setRecord q s, queue := qb }
  retained : ∀ {a b : Agent} {p q : ObjectRef}, L a b → R p q → L (a.retained p) (b.retained q)

namespace Steady

variable {L : Agent → Agent → Prop} {r s : PromiseRecord}

theorem settling (hl : Steady R L) (h : L a b) (hpq : R p q) (hrs : r.Alike R s) (kind : ReactionKind)
    {v w : ManagedValue} (hv : v.Alike R w) : L (a.settling p r kind v) (b.settling q s kind w) :=
  hl.setRecord h hpq (hrs.settled kind hv) ((hl.mirrored h).queued (hrs.dueJobs kind hv))

theorem resolving (hl : Steady R L) (h : L a b) (hpq : R p q) (hrs : r.Alike R s)
    {x y : Resolution} (hxy : x.Alike R y) :
    L (a.resolving p r x) (b.resolving q s y) := by
  cases hxy with
  | settle kind hv => exact hl.settling h hpq hrs kind hv
  | follow ht =>
    exact hl.setRecord h hpq hrs.lock ((hl.mirrored h).queued (.cons (.follow hpq ht) .nil))

theorem attaching (hl : Steady R L) (h : L a b) (hpq : R p q) (hrs : r.Alike R s)
    {x y : ReactionPair} (hxy : x.Alike R y) :
    L (a.attaching p r x) (b.attaching q s y) := by
  obtain ⟨status, _, _, _⟩ := r
  obtain ⟨status', _, _, _⟩ := s
  have hstatus : status.Alike R status' := hrs.status
  cases hstatus with
  | pending => exact hl.setRecord h hpq (hrs.markHandled.addReactions hxy) (hl.mirrored h).queue
  | settled kind hv =>
    simp only [Agent.attaching, PromiseStatus.outcome?_settled]
    exact hl.setRecord h hpq hrs.markHandled
      ((hl.mirrored h).queued (.cons (.react kind (hxy.due kind) hv) .nil))

/-- Alike jobs do alike. -/
theorem working (hl : Steady R L) (h : L a b) {x y : Job} (hxy : x.Alike R y) :
    L (a.working x) (b.working y) := by
  cases hxy with
  -- each part of a job finds a record on both sides or on neither
  | follow hp ht =>
    simp only [Agent.working]
    rcases (hl.mirrored h).record? ht with ⟨r, s, hr, hs, hrs⟩ | ⟨hr, hs⟩
    · rw [hr, hs]
      exact hl.attaching h ht hrs ⟨.adopt hp, .adopt hp⟩
    · rw [hr, hs]
      exact h
  | react kind hreaction hv =>
    cases hreaction with
    | @derive p q handler hd =>
      cases handler with
      | some handler => exact hl.retained h hd
      | none =>
        simp only [Agent.working]
        rcases (hl.mirrored h).record? hd with ⟨r, s, hr, hs, hrs⟩ | ⟨hr, hs⟩
        · rw [hr, hs]
          simp only [hrs.alreadyResolved]
          split
          · exact h
          · exact hl.resolving h hd hrs ((hl.mirrored h).resolution hd kind hv)
        · rw [hr, hs]
          exact h
    | @adopt p q hf =>
      simp only [Agent.working]
      rcases (hl.mirrored h).record? hf with ⟨r, s, hr, hs, hrs⟩ | ⟨hr, hs⟩
      · rw [hr, hs]
        simp only [hrs.status.pending_iff]
        split
        · exact hl.settling h hf hrs kind hv
        · exact h
      · rw [hr, hs]
        exact h

/-- Counterparts are resolved or rejected alike. -/
theorem passOn (hl : Steady R L) (h : L a b) (ha : a.Sound) (hb : b.Sound) (kind : ReactionKind)
    (hpq : R p q) {v w : ManagedValue} (hv : v.Alike R w) :
    ∃ x a' y b', Agent.passOn kind p v a = .ok x a' ∧ Agent.passOn kind q w b = .ok y b' ∧ L a' b' ∧
      Answered R x y := by
  rw [passOn_run kind p v a (ha.unlatched p), passOn_run kind q w b (hb.unlatched q)]
  rcases (hl.mirrored h).record? hpq with ⟨r, s, hr, hs, hrs⟩ | ⟨hr, hs⟩
  · rw [hr, hs]
    simp only [hrs.alreadyResolved]
    cases s.alreadyResolved with
    | true => exact ⟨.ok false, _, .ok false, _, rfl, rfl, h, .ok false⟩
    | false =>
      refine ⟨.ok true, _, .ok true, _, rfl, rfl, ?_, .ok true⟩
      exact hl.resolving h hpq hrs ((hl.mirrored h).resolution hpq kind hv)
  · rw [hr, hs]
    exact ⟨_, _, _, _, rfl, rfl, h, .error (.notAPromise hpq)⟩

theorem unlessTerminating (hl : Steady R L) (h : L a b) (ha : a.Sound) (hb : b.Sound)
    {kind : ReactionKind} (hpq : R p q) {v w : ManagedValue} (hv : v.Alike R w)
    {f g : Request Agent Bool}
    (hf : f a = if a.terminating then .ok (.error .terminated) a else Agent.passOn kind p v a)
    (hg : g b = if b.terminating then .ok (.error .terminated) b else Agent.passOn kind q w b) :
    ∃ x a' y b', f a = .ok x a' ∧ g b = .ok y b' ∧ L a' b' ∧ Answered R x y := by
  rw [hf, hg, (hl.mirrored h).terminating]
  split
  · exact ⟨_, _, _, _, rfl, rfl, h, .error .terminated⟩
  · exact hl.passOn h ha hb kind hpq hv

end Steady

namespace Mirrored

/-- Objects that stay what they are have the counterparts that they had. -/
theorem of_objects (h : Mirrored R a b) (ht : a'.terminating = b'.terminating)
    (ha : ∀ ref, a'.heap.object? ref = a.heap.object? ref)
    (hb : ∀ ref, b'.heap.object? ref = b.heap.object? ref)
    (hq : List.Forall₂ (Job.Alike R) a'.queue.toList b'.queue.toList) : Mirrored R a' b' := by
  refine ⟨ht, h.left_unique, h.right_unique, fun p q hpq => ?_, hq⟩
  rw [ha, hb]
  exact h.objects p q hpq

theorem setRecord (h : Mirrored R a b) (hpq : R p q) {r s : PromiseRecord} (hrs : r.Alike R s)
    {qa qb : JobQueue} (hq : List.Forall₂ (Job.Alike R) qa.toList qb.toList) :
    Mirrored R { a with heap := a.heap.setRecord p r, queue := qa }
      { b with heap := b.heap.setRecord q s, queue := qb } := by
  refine ⟨h.terminating, h.left_unique, h.right_unique, fun p' q' hpq' => ?_, hq⟩
  obtain ⟨x, y, hx, hy, hxy⟩ := h.objects p' q' hpq'
  -- counterparts are changed on both sides or on neither
  have hiff : p' = p ↔ q' = q := h.eq_iff hpq hpq'
  rw [Heap.object?_setRecord, Heap.object?_setRecord]
  by_cases hp : p' = p
  · rw [if_pos hp, if_pos (hiff.1 hp), ← hp, ← hiff.1 hp, hx, hy]
    exact ⟨_, _, rfl, rfl, .promise hrs⟩
  · rw [if_neg hp, if_neg (hp ∘ hiff.2)]
    exact ⟨x, y, hx, hy, hxy⟩

end Mirrored

theorem steady_mirrored (R : ObjectRef → ObjectRef → Prop) : Steady R (Mirrored R) where
  mirrored h := h
  setRecord h hpq hrs hq := h.setRecord hpq hrs hq
  retained h _ :=
    h.of_objects h.terminating (Heap.object?_retain _ _) (Heap.object?_retain _ _) h.queue

/-- An agent that may have lost objects, but none that it can reach. -/
structure Kept (a b : Agent) : Prop where
  terminating : b.terminating = a.terminating
  limit : b.heap.limit = a.heap.limit
  queue : b.queue = a.queue
  old : ∀ ref cell, b.heap.cell? ref = some cell → a.heap.cell? ref = some cell
  next : ∀ ref cell next, b.heap.cell? ref = some cell → next ∈ cell.object.references →
    a.heap.isLive next = true → b.heap.isLive next = true
  rooted : ∀ ref, a.heap.rootCount ref ≠ 0 → b.heap.isLive ref = true
  queued : ∀ ref ∈ a.queue.references, a.heap.isLive ref = true → b.heap.isLive ref = true

theorem kept_self (a : Agent) : Kept a a where
  terminating := rfl
  limit := rfl
  queue := rfl
  old _ _ hc := hc
  next _ _ _ _ _ hl := hl
  rooted _ hr := Heap.isLive_of_rootCount hr
  queued _ _ hl := hl

theorem kept_collected (a : Agent) : Kept a a.collected where
  terminating := rfl
  limit := rfl
  queue := rfl
  old _ _ hc := Heap.cell?_of_collect hc
  next ref cell next hc hn hl := by
    obtain ⟨hc, hr⟩ := Heap.cell?_collect_eq_some_iff.1 hc
    exact Heap.isLive_collect_iff.2 (.step hr hc hn hl)
  rooted ref hr := Heap.isLive_collect_iff.2 (Heap.reaches_of_rootCount hr)
  queued ref hm hl := by
    have hstart : ref ∈ a.heap.roots ++ a.queue.references := List.mem_append_right _ hm
    exact Heap.isLive_collect_iff.2 (.start hstart hl)

theorem kept_makeRoom (a : Agent) : Kept a a.makeRoom := by
  unfold makeRoom
  split
  · exact kept_collected a
  · exact kept_self a

theorem Kept.isLive (h : Kept a b) {ref : ObjectRef} (hl : b.heap.isLive ref = true) :
    a.heap.isLive ref = true := by
  obtain ⟨cell, hc⟩ := Heap.isLive_iff.1 hl
  exact Heap.isLive_of_cell? (h.old ref cell hc)

theorem Kept.rootCount (h : Kept a b) {ref : ObjectRef}
    (hr : b.heap.rootCount ref ≠ 0) : a.heap.rootCount ref ≠ 0 := by
  obtain ⟨cell, hc, hn⟩ := Heap.rootCount_ne_zero_iff.1 hr
  exact Heap.rootCount_ne_zero_iff.2 ⟨cell, h.old ref cell hc, hn⟩

/-- What corresponds and lives on both sides. -/
def Remaining (R : ObjectRef → ObjectRef → Prop) (a b : Agent) (p q : ObjectRef) : Prop :=
  R p q ∧ a.heap.isLive p = true ∧ b.heap.isLive q = true

namespace Mirrored

theorem isLive (h : Mirrored R a b) (hpq : R p q) :
    a.heap.isLive p = true ∧ b.heap.isLive q = true := by
  obtain ⟨x, y, hx, hy, -⟩ := h.objects p q hpq
  obtain ⟨c, hc, -⟩ := Option.map_eq_some_iff.1 hx
  obtain ⟨d, hd, -⟩ := Option.map_eq_some_iff.1 hy
  exact ⟨Heap.isLive_of_cell? hc, Heap.isLive_of_cell? hd⟩

/-- Either side may lose what it cannot reach. What corresponds is related no more once it is lost on one
side, but then nothing that is left refers to it. -/
theorem kept (h : Mirrored R a b) (ha : Kept a a') (hb : Kept b b') :
    Mirrored (Remaining R a' b') a' b' where
  terminating := by rw [ha.terminating, hb.terminating, h.terminating]
  left_unique p q q' hpq hpq' := h.left_unique p q q' hpq.1 hpq'.1
  right_unique p p' q hpq hpq' := h.right_unique p p' q hpq.1 hpq'.1
  objects p q hpq := by
    obtain ⟨hpq, hp, hq⟩ := hpq
    obtain ⟨c, hc⟩ := Heap.isLive_iff.1 hp
    obtain ⟨d, hd⟩ := Heap.isLive_iff.1 hq
    obtain ⟨x, y, hx, hy, hxy⟩ := h.objects p q hpq
    obtain rfl : c.object = x := by simpa [Heap.object?, ha.old p c hc] using hx
    obtain rfl : d.object = y := by simpa [Heap.object?, hb.old q d hd] using hy
    refine ⟨c.object, d.object, by rw [Heap.object?, hc]; rfl, by rw [Heap.object?, hd]; rfl, ?_⟩
    apply hxy.mono
    intro m hm n hn hmn
    obtain ⟨hleft, hright⟩ := h.isLive hmn
    exact ⟨hmn, ha.next p c m hc hm hleft, hb.next q d n hd hn hright⟩
  queue := by
    rw [ha.queue, hb.queue]
    apply forall₂_mono_of_mem h.queue
    intro x hx y hy hxy
    apply hxy.mono
    intro m hm n hn hmn
    obtain ⟨hleft, hright⟩ := h.isLive hmn
    exact ⟨hmn, ha.queued m (JobQueue.mem_references hx hm) hleft,
      hb.queued n (JobQueue.mem_references hy hn) hright⟩

/-- Both sides get alike objects, which correspond to each other. -/
theorem placed (h : Mirrored R a b) (ha : a.heap.WellFormed) (hb : b.heap.WellFormed)
    (object : HeapObject) (ho : ∀ R, object.Alike R object) :
    Mirrored (fun p q => R p q ∨ p = (a.heap.place object).1 ∧ q = (b.heap.place object).1)
      (a.placed object) (b.placed object) where
  terminating := h.terminating
  left_unique p q q' hpq hpq' := by
    have hne (q : ObjectRef) (hpq : R p q) : p ≠ (a.heap.place object).1 :=
      Heap.ne_place_of_isLive ha object (h.isLive hpq).1
    rcases hpq with hpq | ⟨hp, hq⟩ <;> rcases hpq' with hpq' | ⟨hp', hq'⟩
    · exact h.left_unique p q q' hpq hpq'
    · exact absurd hp' (hne q hpq)
    · exact absurd hp (hne q' hpq')
    · rw [hq, hq']
  right_unique p p' q hpq hpq' := by
    have hne (p : ObjectRef) (hpq : R p q) : q ≠ (b.heap.place object).1 :=
      Heap.ne_place_of_isLive hb object (h.isLive hpq).2
    rcases hpq with hpq | ⟨hp, hq⟩ <;> rcases hpq' with hpq' | ⟨hp', hq'⟩
    · exact h.right_unique p p' q hpq hpq'
    · exact absurd hq' (hne p hpq)
    · exact absurd hq (hne p' hpq')
    · rw [hp, hp']
  objects p q hpq := by
    rcases hpq with hpq | ⟨rfl, rfl⟩
    · obtain ⟨x, y, hx, hy, hxy⟩ := h.objects p q hpq
      obtain ⟨hp, hq⟩ := h.isLive hpq
      refine ⟨x, y, ?_, ?_, hxy.mono fun m _ n _ hmn => .inl hmn⟩
      · exact (Heap.object?_place_of_ne ha object (Heap.ne_place_of_isLive ha object hp)).trans hx
      · exact (Heap.object?_place_of_ne hb object (Heap.ne_place_of_isLive hb object hq)).trans hy
    · exact ⟨object, object, Heap.object?_place_self ha object, Heap.object?_place_self hb object, ho _⟩
  queue := h.queue.imp fun x y hxy => hxy.mono fun m _ n _ hmn => .inl hmn

/-- One side gets an object without a counterpart. -/
theorem placed_right (h : Mirrored R a b) (hb : b.heap.WellFormed) (object : HeapObject) :
    Mirrored R a (b.placed object) where
  terminating := h.terminating
  left_unique := h.left_unique
  right_unique := h.right_unique
  objects p q hpq := by
    obtain ⟨x, y, hx, hy, hxy⟩ := h.objects p q hpq
    have hne := Heap.ne_place_of_isLive hb object (h.isLive hpq).2
    exact ⟨x, y, hx, (Heap.object?_place_of_ne hb object hne).trans hy, hxy⟩
  queue := h.queue

end Mirrored

end Agent

end Promises
