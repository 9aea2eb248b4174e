import Mathlib.Logic.Function.Basic
import Promises.Proofs.Agent.Mirrored

/-! Two agents whose objects have names. They are linked when objects of one name are alike, when
their queues are alike, and when each rooted object of one has a counterpart in the other. Linked
agents may differ in their garbage and in where their objects lie. A collection on either side keeps
them linked, and so does whatever is done to both alike. -/

namespace Promises

/-- What one heap reaches has a counterpart that the other one reaches. -/
theorem Heap.Reaches.counterpart {h k : Heap} {R : ObjectRef → ObjectRef → Prop}
    {xs ys : List ObjectRef} (hl : ∀ p q, R p q → k.isLive q = true)
    (hs : ∀ p ∈ xs, h.isLive p = true → ∃ q ∈ ys, R p q)
    (hn : ∀ p q cell next, R p q → h.cell? p = some cell → next ∈ cell.object.references →
      ∃ other, k.cell? q = some other ∧ ∃ next' ∈ other.object.references, R next next')
    {p : ObjectRef} (hp : h.Reaches xs p) : ∃ q, k.Reaches ys q ∧ R p q := by
  induction hp with
  | start hm hlive =>
    obtain ⟨q, hq, hr⟩ := hs _ hm hlive
    exact ⟨q, .start hq (hl _ _ hr), hr⟩
  | step _ hc hm _ ih =>
    obtain ⟨q, hq, hr⟩ := ih
    obtain ⟨other, ho, next', hm', hr'⟩ := hn _ _ _ _ hr hc hm
    exact ⟨next', .step hq ho hm' (hl _ _ hr'), hr'⟩

namespace Agent

/-- Live objects of two agents that have the same name. -/
structure Twins (f g : ObjectRef → Nat) (a b : Agent) (p q : ObjectRef) : Prop where
  left : a.heap.isLive p = true
  right : b.heap.isLive q = true
  name : f p = g q

/-- Agents that are the same apart from where their objects lie and from their garbage. What is
rooted on one side has a counterpart on the other, and so has, by the cells, what that leads to. -/
structure Linked (f g : ObjectRef → Nat) (a b : Agent) : Prop where
  terminating : a.terminating = b.terminating
  limit : a.heap.limit = b.heap.limit
  left_inj : ∀ p q, a.heap.isLive p = true → a.heap.isLive q = true → f p = f q → p = q
  right_inj : ∀ p q, b.heap.isLive p = true → b.heap.isLive q = true → g p = g q → p = q
  queue : List.Forall₂ (Job.Alike (Twins f g a b)) a.queue.toList b.queue.toList
  cells : ∀ p q c d, f p = g q → a.heap.cell? p = some c → b.heap.cell? q = some d →
    c.Alike (Twins f g a b) d
  left_rooted : ∀ p, a.heap.rootCount p ≠ 0 → ∃ q, Twins f g a b p q
  right_rooted : ∀ q, b.heap.rootCount q ≠ 0 → ∃ p, Twins f g a b p q

variable {f g : ObjectRef → Nat} {a b : Agent} {p q : ObjectRef}

/-- Where the same objects live, the same are twins. -/
theorem twins_congr {a' b' : Agent} (ha : ∀ q, a'.heap.isLive q = a.heap.isLive q)
    (hb : ∀ q, b'.heap.isLive q = b.heap.isLive q) : Twins f g a' b' = Twins f g a b := by
  funext p q
  apply propext
  constructor
  · intro h
    exact ⟨ha p ▸ h.left, hb q ▸ h.right, h.name⟩
  · intro h
    exact ⟨(ha p).symm ▸ h.left, (hb q).symm ▸ h.right, h.name⟩

namespace Linked

theorem alike (h : Linked f g a b) (hpq : Twins f g a b p q) :
    ∃ c d, a.heap.cell? p = some c ∧ b.heap.cell? q = some d ∧ c.Alike (Twins f g a b) d := by
  obtain ⟨c, hc⟩ := Heap.isLive_iff.1 hpq.left
  obtain ⟨d, hd⟩ := Heap.isLive_iff.1 hpq.right
  exact ⟨c, d, hc, hd, h.cells p q c d hpq.name hc hd⟩

theorem rootCount_eq (h : Linked f g a b) (hpq : Twins f g a b p q) :
    a.heap.rootCount p = b.heap.rootCount q := by
  obtain ⟨c, d, hc, hd, halike⟩ := h.alike hpq
  rw [Heap.rootCount, Heap.rootCount, hc, hd]
  exact congrArg UInt32.toNat halike.roots

/-- Linked agents mirror each other. -/
theorem mirrored (h : Linked f g a b) : Mirrored (Twins f g a b) a b where
  terminating := h.terminating
  left_unique p q q' hpq hpq' := h.right_inj q q' hpq.right hpq'.right (hpq.name.symm.trans hpq'.name)
  right_unique p p' q hpq hpq' := h.left_inj p p' hpq.left hpq'.left (hpq.name.trans hpq'.name.symm)
  objects p q hpq := by
    obtain ⟨c, d, hc, hd, halike⟩ := h.alike hpq
    refine ⟨c.object, d.object, ?_, ?_, halike.object⟩
    · rw [Heap.object?, hc]
      rfl
    · rw [Heap.object?, hd]
      rfl
  queue := h.queue

/-- The records of twins, or why neither of them has one. -/
theorem record? (h : Linked f g a b) (hpq : Twins f g a b p q) :
    (∃ r s, a.heap.record? p = .ok r ∧ b.heap.record? q = .ok s ∧ r.Alike (Twins f g a b) s) ∨
    a.heap.record? p = .error (.notAPromise p) ∧ b.heap.record? q = .error (.notAPromise q) :=
  h.mirrored.record? hpq

theorem isPromise_eq (h : Linked f g a b) (hpq : Twins f g a b p q) :
    a.heap.isPromise p = b.heap.isPromise q := h.mirrored.isPromise_eq hpq

theorem resolution (h : Linked f g a b) (hpq : Twins f g a b p q) (kind : ReactionKind)
    {v w : ManagedValue} (hv : v.Alike (Twins f g a b) w) :
    (a.heap.resolution p kind v).Alike (Twins f g a b) (b.heap.resolution q kind w) :=
  h.mirrored.resolution hpq kind hv

/-- Twins may be changed alike, while alike jobs are queued. -/
theorem update (h : Linked f g a b) (hpq : Twins f g a b p q) {F G : Cell → Cell}
    {qa qb : JobQueue}
    (hFG : ∀ c d, a.heap.cell? p = some c → b.heap.cell? q = some d → c.Alike (Twins f g a b) d →
      (F c).Alike (Twins f g a b) (G d))
    (hq : List.Forall₂ (Job.Alike (Twins f g a b)) qa.toList qb.toList) :
    Linked f g { a with heap := a.heap.update p F, queue := qa }
      { b with heap := b.heap.update q G, queue := qb } := by
  have hla (ref : ObjectRef) : (a.heap.update p F).isLive ref = a.heap.isLive ref :=
    Heap.isLive_update a.heap p F ref
  have hlb (ref : ObjectRef) : (b.heap.update q G).isLive ref = b.heap.isLive ref :=
    Heap.isLive_update b.heap q G ref
  have htwins : Twins f g { a with heap := a.heap.update p F, queue := qa }
      { b with heap := b.heap.update q G, queue := qb } = Twins f g a b := twins_congr hla hlb
  constructor
  case terminating => exact h.terminating
  case limit => exact h.limit
  case left_inj =>
    intro x y hx hy
    rw [hla] at hx hy
    exact h.left_inj x y hx hy
  case right_inj =>
    intro x y hx hy
    rw [hlb] at hx hy
    exact h.right_inj x y hx hy
  case queue =>
    rw [htwins]
    exact hq
  case cells =>
    intro x y c d hxy hc hd
    rw [htwins]
    have hx : a.heap.isLive x = true := hla x ▸ Heap.isLive_of_cell? hc
    have hy : b.heap.isLive y = true := hlb y ▸ Heap.isLive_of_cell? hd
    -- cells of one name are changed on both sides or on neither
    have hiff : x = p ↔ y = q := h.mirrored.eq_iff hpq ⟨hx, hy, hxy⟩
    rw [Heap.cell?_update] at hc hd
    by_cases hxp : x = p
    · rw [if_pos hxp, Option.map_eq_some_iff] at hc
      rw [if_pos (hiff.1 hxp), Option.map_eq_some_iff] at hd
      obtain ⟨c, hc, rfl⟩ := hc
      obtain ⟨d, hd, rfl⟩ := hd
      exact hFG c d hc hd (h.cells p q c d hpq.name hc hd)
    · rw [if_neg hxp] at hc
      rw [if_neg (hxp ∘ hiff.2)] at hd
      exact h.cells x y c d hxy hc hd
  case left_rooted =>
    intro x hx
    rw [htwins]
    by_cases hxp : x = p
    · rw [hxp]
      exact ⟨q, hpq⟩
    · rw [Heap.rootCount_update_of_ne hxp] at hx
      exact h.left_rooted x hx
  case right_rooted =>
    intro y hy
    rw [htwins]
    by_cases hyq : y = q
    · rw [hyq]
      exact ⟨p, hpq⟩
    · rw [Heap.rootCount_update_of_ne hyq] at hy
      exact h.right_rooted y hy

theorem setRecord (h : Linked f g a b) (hpq : Twins f g a b p q) {r s : PromiseRecord}
    (hrs : r.Alike (Twins f g a b) s) {qa qb : JobQueue}
    (hq : List.Forall₂ (Job.Alike (Twins f g a b)) qa.toList qb.toList) :
    Linked f g { a with heap := a.heap.setRecord p r, queue := qa }
      { b with heap := b.heap.setRecord q s, queue := qb } :=
  h.update hpq (fun _ _ _ _ hcd => ⟨.promise hrs, hcd.roots⟩) hq

theorem retained (h : Linked f g a b) (hpq : Twins f g a b p q) :
    Linked f g (a.retained p) (b.retained q) :=
  h.update hpq (fun _ _ _ _ hcd => hcd.retained) h.queue

theorem released (h : Linked f g a b) (hpq : Twins f g a b p q) :
    Linked f g (a.released p) (b.released q) :=
  h.update hpq (fun _ _ _ _ hcd => hcd.released) h.queue

/-- The flag and the queue may change apart from the heap. -/
theorem requeued (h : Linked f g a b) {qa qb : JobQueue} (terminating : Bool)
    (hq : List.Forall₂ (Job.Alike (Twins f g a b)) qa.toList qb.toList) :
    Linked f g ⟨a.heap, qa, terminating⟩ ⟨b.heap, qb, terminating⟩ := by
  have htwins : Twins f g ⟨a.heap, qa, terminating⟩ ⟨b.heap, qb, terminating⟩ = Twins f g a b :=
    twins_congr (fun _ => rfl) fun _ => rfl
  exact ⟨rfl, h.limit, h.left_inj, h.right_inj, htwins ▸ hq, htwins ▸ h.cells,
    htwins ▸ h.left_rooted, htwins ▸ h.right_rooted⟩

theorem flagged (h : Linked f g a b) (terminating : Bool) :
    Linked f g { a with terminating } { b with terminating } := h.requeued terminating h.queue

/-- Linked agents take alike jobs from their queues, or none. -/
theorem pop (h : Linked f g a b) :
    a.queue.pop? = none ∧ b.queue.pop? = none ∨
    ∃ x y qa qb, a.queue.pop? = some (x, qa) ∧ b.queue.pop? = some (y, qb) ∧
      x.Alike (Twins f g a b) y ∧ Linked f g { a with queue := qa } { b with queue := qb } := by
  rcases JobQueue.pop?_alike h.queue with hnone | ⟨x, y, qa, qb, hqa, hqb, hxy, hrest⟩
  · exact Or.inl hnone
  · refine Or.inr ⟨x, y, qa, qb, hqa, hqb, hxy, ?_⟩
    rw [h.terminating]
    exact h.requeued b.terminating hrest

theorem handled (h : Linked f g a b) (hpq : Twins f g a b p q) {r s : PromiseRecord}
    (hrs : r.Alike (Twins f g a b) s) : Linked f g (a.handled p r) (b.handled q s) :=
  h.setRecord hpq hrs.markHandled h.queue

/-- Agents stay linked while twins change alike. Which objects are twins does not change then. -/
theorem steady (f g : ObjectRef → Nat) (R : ObjectRef → ObjectRef → Prop) :
    Steady R fun a b => Linked f g a b ∧ Twins f g a b = R where
  mirrored := by
    rintro a b ⟨h, rfl⟩
    exact h.mirrored
  setRecord := by
    rintro a b p q r s qa qb ⟨h, rfl⟩ hpq hrs hq
    exact ⟨h.setRecord hpq hrs hq,
      twins_congr (Heap.isLive_update a.heap p _) (Heap.isLive_update b.heap q _)⟩
  retained := by
    rintro a b p q ⟨h, rfl⟩ hpq
    exact ⟨h.retained hpq,
      twins_congr (Heap.isLive_update a.heap p _) (Heap.isLive_update b.heap q _)⟩

theorem resolving (h : Linked f g a b) (hpq : Twins f g a b p q) {r s : PromiseRecord}
    (hrs : r.Alike (Twins f g a b) s) {x y : Resolution} (hxy : x.Alike (Twins f g a b) y) :
    Linked f g (a.resolving p r x) (b.resolving q s y) :=
  ((steady f g _).resolving ⟨h, rfl⟩ hpq hrs hxy).1

theorem attaching (h : Linked f g a b) (hpq : Twins f g a b p q) {r s : PromiseRecord}
    (hrs : r.Alike (Twins f g a b) s) {x y : ReactionPair} (hxy : x.Alike (Twins f g a b) y) :
    Linked f g (a.attaching p r x) (b.attaching q s y) :=
  ((steady f g _).attaching ⟨h, rfl⟩ hpq hrs hxy).1

/-- Alike jobs do alike. -/
theorem working (h : Linked f g a b) {x y : Job} (hxy : x.Alike (Twins f g a b) y) :
    Linked f g (a.working x) (b.working y) := ((steady f g _).working ⟨h, rfl⟩ hxy).1

end Linked

namespace Linked

/-- Either side may lose what it cannot reach. -/
theorem kept (h : Linked f g a b) {a' b' : Agent} (ha : Kept a a') (hb : Kept b b') :
    Linked f g a' b' := by
  constructor
  case terminating => rw [ha.terminating, hb.terminating, h.terminating]
  case limit => rw [ha.limit, hb.limit, h.limit]
  case left_inj => exact fun p q hp hq => h.left_inj p q (ha.isLive hp) (ha.isLive hq)
  case right_inj => exact fun p q hp hq => h.right_inj p q (hb.isLive hp) (hb.isLive hq)
  case queue =>
    -- twins that a job refers to are kept on both sides
    rw [ha.queue, hb.queue]
    apply forall₂_mono_of_mem h.queue
    intro x hx y hy hxy
    apply hxy.mono
    intro p hp q hq hpq
    have hleft := ha.queued p (JobQueue.mem_references hx hp) hpq.left
    have hright := hb.queued q (JobQueue.mem_references hy hq) hpq.right
    exact ⟨hleft, hright, hpq.name⟩
  case cells =>
    intro p q c d hpq hc hd
    have halike := h.cells p q c d hpq (ha.old p c hc) (hb.old q d hd)
    apply halike.mono
    intro m hm n hn hmn
    have hleft := ha.next p c m hc hm hmn.left
    have hright := hb.next q d n hd hn hmn.right
    exact ⟨hleft, hright, hmn.name⟩
  case left_rooted =>
    intro p hp
    have hold := ha.rootCount hp
    obtain ⟨q, hpq⟩ := h.left_rooted p hold
    have hq : b.heap.rootCount q ≠ 0 := by
      rw [← h.rootCount_eq hpq]
      exact hold
    exact ⟨q, ha.rooted p hold, hb.rooted q hq, hpq.name⟩
  case right_rooted =>
    intro q hq
    have hold := hb.rootCount hq
    obtain ⟨p, hpq⟩ := h.right_rooted q hold
    have hp : a.heap.rootCount p ≠ 0 := by
      rw [h.rootCount_eq hpq]
      exact hold
    exact ⟨p, ha.rooted p hp, hb.rooted q hold, hpq.name⟩

end Linked

/-- Live objects with counterparts on both sides are equally many. -/
theorem length_eq_of_twins {xs ys : List ObjectRef} (hxs : xs.Nodup) (hys : ys.Nodup)
    (hf : ∀ p ∈ xs, ∀ q ∈ xs, f p = f q → p = q) (hg : ∀ p ∈ ys, ∀ q ∈ ys, g p = g q → p = q)
    (hxy : ∀ p ∈ xs, ∃ q ∈ ys, f p = g q) (hyx : ∀ q ∈ ys, ∃ p ∈ xs, f p = g q) :
    xs.length = ys.length := by
  have hperm : (xs.map f).Perm (ys.map g) := by
    apply (List.perm_ext_iff_of_nodup (hxs.map_on hf) (hys.map_on hg)).2
    intro n
    rw [List.mem_map, List.mem_map]
    constructor
    · rintro ⟨p, hp, rfl⟩
      obtain ⟨q, hq, hpq⟩ := hxy p hp
      exact ⟨q, hq, hpq.symm⟩
    · rintro ⟨q, hq, rfl⟩
      exact hyx q hq
  calc xs.length = (xs.map f).length := (List.length_map f).symm
    _ = (ys.map g).length := hperm.length_eq
    _ = ys.length := List.length_map g

namespace Linked

theorem rooted_eq (h : Linked f g a b) : a.heap.rooted = b.heap.rooted := by
  rw [← Heap.length_roots, ← Heap.length_roots]
  have hlive {k : Heap} {ref : ObjectRef} (hr : ref ∈ k.roots) : k.isLive ref = true :=
    Heap.isLive_of_rootCount (Heap.mem_roots.1 hr)
  apply length_eq_of_twins (f := f) (g := g) (a.heap.nodup_refs _) (b.heap.nodup_refs _)
  · exact fun p hp q hq => h.left_inj p q (hlive hp) (hlive hq)
  · exact fun p hp q hq => h.right_inj p q (hlive hp) (hlive hq)
  · intro p hp
    have hp : a.heap.rootCount p ≠ 0 := Heap.mem_roots.1 hp
    obtain ⟨q, hpq⟩ := h.left_rooted p hp
    exact ⟨q, Heap.mem_roots.2 (h.rootCount_eq hpq ▸ hp), hpq.name⟩
  · intro q hq
    have hq : b.heap.rootCount q ≠ 0 := Heap.mem_roots.1 hq
    obtain ⟨p, hpq⟩ := h.right_rooted q hq
    exact ⟨p, Heap.mem_roots.2 ((h.rootCount_eq hpq).symm ▸ hq), hpq.name⟩

theorem pendingJobs_eq (h : Linked f g a b) : a.queue.length = b.queue.length := by
  rw [← JobQueue.length_toList, ← JobQueue.length_toList]
  exact h.queue.length_eq

/-- What one side can reach has a twin that the other side can reach. -/
theorem reaches_left (h : Linked f g a b)
    (hp : a.heap.Reaches (a.heap.roots ++ a.queue.references) p) :
    ∃ q, b.heap.Reaches (b.heap.roots ++ b.queue.references) q ∧ Twins f g a b p q := by
  -- roots and queued references have twins, and so has what twins refer to
  refine hp.counterpart (fun _ _ hpq => hpq.right) ?_ ?_
  · intro p hm _
    rcases List.mem_append.1 hm with hm | hm
    · have hp : a.heap.rootCount p ≠ 0 := Heap.mem_roots.1 hm
      obtain ⟨q, hpq⟩ := h.left_rooted p hp
      have hq : b.heap.rootCount q ≠ 0 := by
        rw [← h.rootCount_eq hpq]
        exact hp
      exact ⟨q, List.mem_append_left _ (Heap.mem_roots.2 hq), hpq⟩
    · obtain ⟨x, hx, hm⟩ := List.mem_flatMap.1 hm
      obtain ⟨y, hy, hxy⟩ := exists_of_forall₂_left h.queue hx
      obtain ⟨q, hq, hpq⟩ := exists_of_forall₂_left hxy.references hm
      exact ⟨q, List.mem_append_right _ (JobQueue.mem_references hy hq), hpq⟩
  · intro p q c m hpq hc hm
    obtain ⟨c', d, hc', hd, halike⟩ := h.alike hpq
    obtain rfl : c = c' := by simpa [hc] using hc'
    obtain ⟨n, hn, hmn⟩ := exists_of_forall₂_left halike.object.references hm
    exact ⟨d, hd, n, hn, hmn⟩

theorem reaches_right (h : Linked f g a b)
    (hq : b.heap.Reaches (b.heap.roots ++ b.queue.references) q) :
    ∃ p, a.heap.Reaches (a.heap.roots ++ a.queue.references) p ∧ Twins f g a b p q := by
  refine hq.counterpart (R := fun q p => Twins f g a b p q) (fun _ _ hpq => hpq.left) ?_ ?_
  · intro q hm _
    rcases List.mem_append.1 hm with hm | hm
    · have hq : b.heap.rootCount q ≠ 0 := Heap.mem_roots.1 hm
      obtain ⟨p, hpq⟩ := h.right_rooted q hq
      have hp : a.heap.rootCount p ≠ 0 := by
        rw [h.rootCount_eq hpq]
        exact hq
      exact ⟨p, List.mem_append_left _ (Heap.mem_roots.2 hp), hpq⟩
    · obtain ⟨y, hy, hm⟩ := List.mem_flatMap.1 hm
      obtain ⟨x, hx, hxy⟩ := exists_of_forall₂_right h.queue hy
      obtain ⟨p, hp, hpq⟩ := exists_of_forall₂_right hxy.references hm
      exact ⟨p, List.mem_append_right _ (JobQueue.mem_references hx hp), hpq⟩
  · intro q p d n hpq hd hn
    obtain ⟨c, d', hc, hd', halike⟩ := h.alike hpq
    obtain rfl : d = d' := by simpa [hd] using hd'
    obtain ⟨m, hm, hmn⟩ := exists_of_forall₂_right halike.object.references hn
    exact ⟨c, hc, m, hm, hmn⟩

/-- After a collection of both, equally many objects live. -/
theorem live_collected_eq (h : Linked f g a b) (ha : a.heap.WellFormed) (hb : b.heap.WellFormed) :
    a.collected.heap.live = b.collected.heap.live := by
  have hlive {k : Agent} (hk : k.heap.WellFormed) :
      k.collected.heap.live = (k.collected.heap.refs Slot.isOccupied).length := by
    rw [Heap.length_refs]
    exact (hk.collect k.queue.references).live_eq
  have hmem {k : Agent} {ref : ObjectRef} : ref ∈ k.collected.heap.refs Slot.isOccupied ↔
      k.heap.Reaches (k.heap.roots ++ k.queue.references) ref :=
    Heap.mem_refs_isOccupied.trans Heap.isLive_collect_iff
  rw [hlive ha, hlive hb]
  apply length_eq_of_twins (f := f) (g := g) (Heap.nodup_refs _ _) (Heap.nodup_refs _ _)
  · exact fun p hp q hq => h.left_inj p q (hmem.1 hp).isLive (hmem.1 hq).isLive
  · exact fun p hp q hq => h.right_inj p q (hmem.1 hp).isLive (hmem.1 hq).isLive
  · intro p hp
    obtain ⟨q, hq, hpq⟩ := h.reaches_left (hmem.1 hp)
    exact ⟨q, hmem.2 hq, hpq.name⟩
  · intro q hq
    obtain ⟨p, hp, hpq⟩ := h.reaches_right (hmem.1 hq)
    exact ⟨p, hmem.2 hp, hpq.name⟩

theorem makeRoom (h : Linked f g a b) : Linked f g a.makeRoom b.makeRoom :=
  h.kept (kept_makeRoom a) (kept_makeRoom b)

/-- Linked agents have room for the same objects. -/
theorem isFull_makeRoom_eq (h : Linked f g a b) (ha : a.heap.WellFormed) (hb : b.heap.WellFormed) :
    a.makeRoom.heap.isFull = b.makeRoom.heap.isFull := by
  have hlive : a.collected.heap.live = b.collected.heap.live := h.live_collected_eq ha hb
  have hlimit : a.collected.heap.limit = b.collected.heap.limit := h.limit
  rw [isFull_makeRoom, isFull_makeRoom, Heap.isFull, Heap.isFull, hlive, hlimit]

end Linked

/-- The new object has the new name; the others are as they were. -/
theorem cell?_placed (ha : a.heap.WellFormed) {object : HeapObject} {n : Nat}
    (hf : ∀ p, a.heap.isLive p = true → f p < n) {ref : ObjectRef} {cell : Cell}
    (hc : (a.placed object).heap.cell? ref = some cell) :
    ref = (a.heap.place object).1 ∧ cell = ⟨object, 0⟩ ∧
      Function.update f (a.heap.place object).1 n ref = n ∨
    a.heap.cell? ref = some cell ∧ f ref < n ∧
      Function.update f (a.heap.place object).1 n ref = f ref := by
  rw [Agent.placed, ha.cell?_place] at hc
  split at hc
  · rename_i hr
    refine Or.inl ⟨hr, (Option.some.inj hc).symm, ?_⟩
    rw [hr, Function.update_self]
  · rename_i hr
    refine Or.inr ⟨hc, hf ref (Heap.isLive_of_cell? hc), ?_⟩
    rw [Function.update_of_ne hr]

/-- Names stay apart when an object gets a new one. -/
theorem placed_inj (ha : a.heap.WellFormed) {object : HeapObject} {n : Nat}
    (hf : ∀ p, a.heap.isLive p = true → f p < n)
    (hinj : ∀ p q, a.heap.isLive p = true → a.heap.isLive q = true → f p = f q → p = q)
    (hp : (a.placed object).heap.isLive p = true) (hq : (a.placed object).heap.isLive q = true)
    (hpq : Function.update f (a.heap.place object).1 n p =
      Function.update f (a.heap.place object).1 n q) : p = q := by
  obtain ⟨c, hc⟩ := Heap.isLive_iff.1 hp
  obtain ⟨d, hd⟩ := Heap.isLive_iff.1 hq
  rcases cell?_placed ha hf hc with ⟨hp, -, hpn⟩ | ⟨hc, hlt, hpn⟩ <;>
    rcases cell?_placed ha hf hd with ⟨hq, -, hqn⟩ | ⟨hd, hlt', hqn⟩ <;> rw [hpn, hqn] at hpq
  · rw [hp, hq]
  · exact absurd hpq (Nat.ne_of_gt hlt')
  · exact absurd hpq (Nat.ne_of_lt hlt)
  · exact hinj p q (Heap.isLive_of_cell? hc) (Heap.isLive_of_cell? hd) hpq

theorem Twins.placed (h : Twins f g a b p q) (ha : a.heap.WellFormed) (hb : b.heap.WellFormed)
    (object : HeapObject) (n : Nat) :
    Twins (Function.update f (a.heap.place object).1 n)
      (Function.update g (b.heap.place object).1 n) (a.placed object) (b.placed object) p q := by
  refine ⟨Heap.isLive_place ha object h.left, Heap.isLive_place hb object h.right, ?_⟩
  rw [Function.update_of_ne (Heap.ne_place_of_isLive ha object h.left),
    Function.update_of_ne (Heap.ne_place_of_isLive hb object h.right), h.name]

/-- Both sides may give alike objects the same new name. -/
theorem Linked.placed (h : Linked f g a b) (ha : a.heap.WellFormed) (hb : b.heap.WellFormed)
    (object : HeapObject) (ho : ∀ R, object.Alike R object) {n : Nat}
    (hf : ∀ p, a.heap.isLive p = true → f p < n) (hg : ∀ q, b.heap.isLive q = true → g q < n) :
    Linked (Function.update f (a.heap.place object).1 n)
      (Function.update g (b.heap.place object).1 n) (a.placed object) (b.placed object) := by
  have htwins (p q : ObjectRef) (hpq : Twins f g a b p q) := hpq.placed ha hb object n
  constructor
  case terminating => exact h.terminating
  case limit => simpa only [Agent.placed, Heap.limit_place] using h.limit
  case left_inj => exact fun p q hp hq => placed_inj ha hf h.left_inj hp hq
  case right_inj => exact fun p q hp hq => placed_inj hb hg h.right_inj hp hq
  case queue => exact h.queue.imp fun x y hxy => hxy.mono fun p _ q _ hpq => htwins p q hpq
  case cells =>
    -- the new name is above all others, so that the new objects can only be twins of each other
    intro p q c d hpq hc hd
    rcases cell?_placed ha hf hc with ⟨-, rfl, hpn⟩ | ⟨hc, hlt, hpn⟩ <;>
      rcases cell?_placed hb hg hd with ⟨-, rfl, hqn⟩ | ⟨hd, hlt', hqn⟩ <;> rw [hpn, hqn] at hpq
    · exact ⟨ho _, rfl⟩
    · exact absurd hpq (Nat.ne_of_gt hlt')
    · exact absurd hpq (Nat.ne_of_lt hlt)
    · exact (h.cells p q c d hpq hc hd).mono fun p _ q _ hpq => htwins p q hpq
  case left_rooted =>
    intro p hp
    obtain ⟨c, hc, hn⟩ := Heap.rootCount_ne_zero_iff.1 hp
    rcases cell?_placed ha hf hc with ⟨-, rfl, -⟩ | ⟨hc, -, -⟩
    · exact absurd rfl hn
    · obtain ⟨q, hpq⟩ := h.left_rooted p (Heap.rootCount_ne_zero_iff.2 ⟨c, hc, hn⟩)
      exact ⟨q, htwins p q hpq⟩
  case right_rooted =>
    intro q hq
    obtain ⟨d, hd, hn⟩ := Heap.rootCount_ne_zero_iff.1 hq
    rcases cell?_placed hb hg hd with ⟨-, rfl, -⟩ | ⟨hd, -, -⟩
    · exact absurd rfl hn
    · obtain ⟨p, hpq⟩ := h.right_rooted q (Heap.rootCount_ne_zero_iff.2 ⟨d, hd, hn⟩)
      exact ⟨p, htwins p q hpq⟩

end Agent

end Promises
