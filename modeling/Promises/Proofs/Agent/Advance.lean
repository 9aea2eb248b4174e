import Promises.Proofs.Agent.Handlerless
import Promises.Proofs.Agent.Safe

namespace Promises

namespace Agent

/-- What corresponds once both sides have made a new object, for which they may have collected. -/
def Widened (R : ObjectRef → ObjectRef → Prop) (a b : Agent) (object : HeapObject) (p q : ObjectRef) :
    Prop :=
  Remaining R a.makeRoom b.makeRoom p q ∨
    p = (a.makeRoom.heap.place object).1 ∧ q = (b.makeRoom.heap.place object).1

/-- The reference of the next promise that is made. -/
def newPromise (a : Agent) : ObjectRef := (a.makeRoom.heap.place (.promise .new)).1

/-- The agent with another promise, which is rooted. -/
def pinned (a : Agent) : Agent := (a.makeRoom.placed (.promise .new)).retained a.newPromise

/-- What holds between two agents that need no native side. -/
structure Paces (R : ObjectRef → ObjectRef → Prop) (a b : Agent) : Prop where
  mirrored : Mirrored R a b
  handlerless : a.Handlerless
  left : a.Fit False
  right : b.Fit False

/-- How two agents go on. The one on the right may gain roots for good, and what is rooted on both sides goes
on to correspond. -/
structure Advance (R : ObjectRef → ObjectRef → Prop) (a b : Agent) (R' : ObjectRef → ObjectRef → Prop)
    (a' b' : Agent) (gained : List ObjectRef) : Prop where
  paces : Paces R' a' b'
  left : Keeps [] a a'
  right : Keeps gained b b'
  same : ∀ p q, R p q → a.heap.rootCount p ≠ 0 → b.heap.rootCount q ≠ 0 → R' p q

variable {R R' R'' : ObjectRef → ObjectRef → Prop} {a b a' b' a'' b'' : Agent} {gained more : List ObjectRef}

theorem paces_new (limit limit' : Nat) : Paces (fun _ _ => False) (new limit) (new limit') where
  mirrored := ⟨rfl, nofun, nofun, nofun, .nil⟩
  handlerless := handlerless_new limit
  left := fit_new limit
  right := fit_new limit'

theorem Advance.trans (h : Advance R a b R' a' b' gained) (k : Advance R' a' b' R'' a'' b'' more) :
    Advance R a b R'' a'' b'' (gained ++ more) where
  paces := k.paces
  left := h.left.trans k.left
  right := h.right.trans k.right
  same p q hpq hp hq := by
    apply k.same p q (h.same p q hpq hp hq)
    · rw [h.left.rootCount]
      omega
    · rw [h.right.rootCount]
      omega

namespace Paces

/-- Either side may lose what it cannot reach. -/
theorem kept (h : Paces R a b) (ha : Kept a a') (hb : Kept b b') (hfa : a'.Fit False) (hfb : b'.Fit False)
    (hka : Keeps [] a a') (hkb : Keeps [] b b') : Advance R a b (Remaining R a' b') a' b' [] where
  paces := ⟨h.mirrored.kept ha hb, h.handlerless.kept ha, hfa, hfb⟩
  left := hka
  right := hkb
  same p q hpq hp hq := ⟨hpq, ha.rooted p hp, hb.rooted q hq⟩

theorem collected (h : Paces R a b) :
    Advance R a b (Remaining R a.collected b.collected) a.collected b.collected [] :=
  h.kept (kept_collected a) (kept_collected b) h.left.collected h.right.collected (keeps_collected a)
    (keeps_collected b)

theorem makeRoom (h : Paces R a b) :
    Advance R a b (Remaining R a.makeRoom b.makeRoom) a.makeRoom b.makeRoom [] :=
  h.kept (kept_makeRoom a) (kept_makeRoom b) h.left.makeRoom h.right.makeRoom (keeps_makeRoom a)
    (keeps_makeRoom b)

theorem makeRoom_right (h : Paces R a b) : Advance R a b (Remaining R a b.makeRoom) a b.makeRoom [] :=
  h.kept (kept_self a) (kept_makeRoom b) h.left h.right.makeRoom (keeps_self a) (keeps_makeRoom b)

theorem placed (h : Paces R a b) (ha : a.heap.isFull = false) (hb : b.heap.isFull = false)
    {object : HeapObject} (ho : ∀ R, object.Alike R object)
    (hn : ∀ record, object = .promise record → record = .new) :
    Advance R a b (fun p q => R p q ∨ p = (a.heap.place object).1 ∧ q = (b.heap.place object).1)
      (a.placed object) (b.placed object) [] where
  paces :=
    { mirrored := h.mirrored.placed h.left.sound.shape h.right.sound.shape object ho
      handlerless := h.handlerless.placed h.left.sound.shape hn
      left := h.left.placed ha hn
      right := h.right.placed hb hn }
  left := keeps_placed h.left.sound.shape object
  right := keeps_placed h.right.sound.shape object
  same _ _ hpq _ _ := .inl hpq

theorem allocated (h : Paces R a b) (ha : a.makeRoom.heap.isFull = false)
    (hb : b.makeRoom.heap.isFull = false) {object : HeapObject} (ho : ∀ R, object.Alike R object)
    (hn : ∀ record, object = .promise record → record = .new) :
    Advance R a b (Widened R a b object) (a.makeRoom.placed object) (b.makeRoom.placed object) [] :=
  h.makeRoom.trans (h.makeRoom.paces.placed ha hb ho hn)

/-- A new object corresponds to nothing but the other new object. -/
theorem fresh (h : Paces R a b) {object : HeapObject} {p q : ObjectRef} (hpq : Widened R a b object p q) :
    R p q ∧ p ≠ (a.makeRoom.heap.place object).1 ∧ q ≠ (b.makeRoom.heap.place object).1 ∨
      p = (a.makeRoom.heap.place object).1 ∧ q = (b.makeRoom.heap.place object).1 := by
  rcases hpq with ⟨hpq, hp, hq⟩ | hnew
  · refine .inl ⟨hpq, ?_, ?_⟩
    · exact Heap.ne_place_of_isLive h.makeRoom.paces.left.sound.shape object hp
    · exact Heap.ne_place_of_isLive h.makeRoom.paces.right.sound.shape object hq
  · exact .inr hnew

theorem placed_right (h : Paces R a b) (hb : b.heap.isFull = false) {object : HeapObject}
    (hn : ∀ record, object = .promise record → record = .new) :
    Advance R a b R a (b.placed object) [] where
  paces :=
    { mirrored := h.mirrored.placed_right h.right.sound.shape object
      handlerless := h.handlerless
      left := h.left
      right := h.right.placed hb hn }
  left := keeps_self a
  right := keeps_placed h.right.sound.shape object
  same _ _ hpq _ _ := hpq

theorem retained_right (h : Paces R a b) {ref : ObjectRef} (hl : b.heap.isLive ref = true)
    (hr : b.heap.rootCount ref + 1 < UInt32.size) :
    Advance R a b R a (b.retained ref) [ref] where
  paces :=
    { mirrored := h.mirrored.of_objects h.mirrored.terminating (fun _ => rfl)
        (Heap.object?_retain b.heap ref) h.mirrored.queue
      handlerless := h.handlerless
      left := h.left
      right := h.right.retained ref }
  left := keeps_self a
  right := keeps_retained hl hr
  same _ _ hpq _ _ := hpq

/-- A promise that is yet to be made has no root. -/
theorem rootCount_newPromise (h : Paces R a b) : b.heap.rootCount b.newPromise = 0 := by
  have hshape := h.makeRoom.paces.right.sound.shape
  have hsame := ((keeps_makeRoom b).trans (keeps_placed hshape (.promise .new))).rootCount b.newPromise
  have hnone : (b.makeRoom.placed (.promise .new)).heap.rootCount b.newPromise = 0 :=
    Heap.rootCount_place_self hshape _
  rw [hnone] at hsame
  exact hsame.symm

/-- Both sides make a promise, and the one on the right is rooted. -/
theorem pinned (h : Paces R a b) (ha : a.makeRoom.heap.isFull = false)
    (hb : b.makeRoom.heap.isFull = false) :
    Advance R a b (Widened R a b (.promise .new)) (a.makeRoom.placed (.promise .new)) b.pinned
      [b.newPromise] := by
  have hmade := h.allocated ha hb (fun _ => .promise .new) fun _ hr => (HeapObject.promise.inj hr).symm
  have hlive := (hmade.paces.mirrored.isLive (.inr ⟨rfl, rfl⟩)).2
  refine hmade.trans (hmade.paces.retained_right hlive ?_)
  rw [hmade.right.rootCount, h.rootCount_newPromise, List.count_nil]
  decide

/-- The new promises correspond while room is made on the right: there the promise has a root, and nothing is
lost on the left. -/
theorem pinned_room (h : Paces R a b) (ha : a.makeRoom.heap.isFull = false)
    (hb : b.makeRoom.heap.isFull = false) :
    let made := a.makeRoom.placed (.promise .new)
    let R' := Remaining (Widened R a b (.promise .new)) made b.pinned.makeRoom
    Advance R a b R' made b.pinned.makeRoom [b.newPromise] ∧ R' a.newPromise b.newPromise := by
  have hpinned := h.pinned ha hb
  have hlive := hpinned.paces.mirrored.isLive (.inr ⟨rfl, rfl⟩)
  refine ⟨hpinned.trans hpinned.paces.makeRoom_right, .inr ⟨rfl, rfl⟩, hlive.1, ?_⟩
  apply (kept_makeRoom b.pinned).rooted
  rw [hpinned.right.rootCount, List.count_singleton_self]
  omega

theorem flagged (h : Paces R a b) (terminating : Bool) :
    Advance R a b R { a with terminating } { b with terminating } [] where
  paces :=
    { mirrored := h.mirrored.of_objects rfl (fun _ => rfl) (fun _ => rfl) h.mirrored.queue
      handlerless := h.handlerless.of_objects (fun _ => rfl) (List.Subset.refl _)
      left := h.left.flagged terminating
      right := h.right.flagged terminating }
  left := keeps_of_same (fun _ => rfl) fun _ _ => rfl
  right := keeps_of_same (fun _ => rfl) fun _ _ => rfl
  same _ _ hpq _ _ := hpq

/-- Counterparts are resolved or rejected alike. -/
theorem settle (h : Paces R a b) (kind : ReactionKind) {p q : ObjectRef} (hpq : R p q) {v w : ManagedValue}
    (hvw : v.Alike R w) (hv : a.Admits False .reject v) (hw : b.Admits False .reject w)
    {x : ObjectRef → ManagedValue → Request Agent Bool}
    (hx : ∀ ref value c, x ref value c =
      if c.terminating then .ok (.error .terminated) c else Agent.passOn kind ref value c) :
    ∃ answer a' answer' b', x p v a = .ok answer a' ∧ x q w b = .ok answer' b' ∧
      answer.toOption = answer'.toOption ∧ Advance R a b R a' b' [] := by
  obtain ⟨answer, a', answer', b', hleft, hright, hmirrored, hanswer⟩ :=
    (steady_mirrored R).unlessTerminating h.mirrored h.left.sound h.right.sound hpq hvw (hx p v a) (hx q w b)
  obtain ⟨_, _, ha, hfa, hka, -⟩ := h.left.unlessTerminating hv (hx p v a)
  obtain ⟨_, _, hb, hfb, hkb, -⟩ := h.right.unlessTerminating hw (hx q w b)
  obtain ⟨rfl, rfl⟩ := EStateM.Result.ok.inj (hleft.symm.trans ha)
  obtain ⟨rfl, rfl⟩ := EStateM.Result.ok.inj (hright.symm.trans hb)
  have hhandlerless : a'.Handlerless := h.handlerless.unlessTerminating h.left.sound (hx p v a) hleft
  exact ⟨answer, a', answer', b', hleft, hright, hanswer.toOption_eq,
    ⟨hmirrored, hhandlerless, hfa, hfb⟩, hka, hkb, fun p q hpq _ _ => hpq⟩

theorem nextJob (h : Paces R a b) :
    ∃ a' b', Agent.nextJob a = .ok none a' ∧ Agent.nextJob b = .ok none b' ∧
      Advance R a b R a' b' [] := by
  obtain ⟨a', b', ha, hb, hmirrored, hhandlerless⟩ :=
    h.mirrored.nextJob h.left.sound h.right.sound h.handlerless
  obtain ⟨_, _, ha', hfa, -, hka⟩ := h.left.nextJob
  obtain ⟨_, _, hb', hfb, -, hkb⟩ := h.right.nextJob
  obtain ⟨rfl, rfl⟩ := EStateM.Result.ok.inj (ha.symm.trans ha')
  obtain ⟨rfl, rfl⟩ := EStateM.Result.ok.inj (hb.symm.trans hb')
  exact ⟨a', b', ha, hb, ⟨hmirrored, hhandlerless, hfa, hfb⟩, hka (by simp), hkb (by simp),
    fun p q hpq _ _ => hpq⟩

end Paces

end Agent

end Promises
