import Promises.Proofs.Agent.Sound

namespace Promises

theorem Heap.resolution_eq_follow_iff {h : Heap} {ref other : ObjectRef} {kind : ReactionKind}
    {value : ManagedValue} :
    h.resolution ref kind value = .follow other ↔
      kind = .fulfill ∧ value = .object other ∧ other ≠ ref ∧ h.isPromise other = true := by
  cases kind with
  | reject => simp [resolution]
  | fulfill =>
    cases value with
    | object p =>
      simp only [resolution, true_and, ManagedValue.object.injEq]
      by_cases hself : p = ref
      · rw [if_pos hself]
        constructor
        · intro hr
          cases hr
        · rintro ⟨rfl, hne, -⟩
          exact absurd hself hne
      · rw [if_neg hself]
        cases hp : h.isPromise p with
        | true =>
          rw [if_pos rfl, Resolution.follow.injEq]
          constructor
          · rintro rfl
            exact ⟨rfl, hself, hp⟩
          · rintro ⟨he, -, -⟩
            exact he
        | false =>
          rw [if_neg Bool.false_ne_true]
          constructor
          · intro hr
            cases hr
          · rintro ⟨rfl, -, hyes⟩
            rw [hp] at hyes
            cases hyes
    | _ => simp [resolution]

/-- A promise is settled with what was given, or with the reason for one that is resolved with
itself. -/
theorem Heap.value_of_resolution {h : Heap} {ref : ObjectRef} {kind k : ReactionKind}
    {value v : ManagedValue} (hr : h.resolution ref kind value = .settle k v) :
    v = value ∨ v = chainingCycle := by
  unfold resolution at hr
  split at hr
  · split at hr
    · exact Or.inr (Resolution.settle.inj hr).2.symm
    · split at hr
      · cases hr
      · exact Or.inl (Resolution.settle.inj hr).2.symm
  · exact Or.inl (Resolution.settle.inj hr).2.symm

/-- A promise is not fulfilled with another one. -/
theorem Heap.isPromise_of_resolution {h : Heap} {ref other : ObjectRef} {kind : ReactionKind}
    {value : ManagedValue} (hr : h.resolution ref kind value = .settle .fulfill (.object other)) :
    h.isPromise other = false := by
  unfold resolution at hr
  split at hr
  · split at hr
    · cases (Resolution.settle.inj hr).1
    · split at hr
      · cases hr
      · rename_i hp
        obtain rfl := ManagedValue.object.inj (Resolution.settle.inj hr).2
        exact Bool.eq_false_iff.2 hp
  · rename_i hno
    obtain ⟨rfl, rfl⟩ := Resolution.settle.inj hr
    exact absurd rfl (hno other rfl)

namespace Agent

/-- A look at a record changes nothing. -/
theorem look_run {α : Type} (ref : ObjectRef) (look : PromiseRecord → α) (a : Agent) :
    (do return look (← record ref) : Request Agent α) a =
      .ok ((a.heap.record? ref).map look) a := by
  rw [Request.bind_run, record_run]
  cases a.heap.record? ref <;> rfl

theorem promiseOf_run (ref : ObjectRef) (a : Agent) :
    promiseOf ref a = .ok ((a.heap.record? ref).map fun _ => ref) a := by
  have hd : (discard (record ref) : Request Agent PUnit) a =
      .ok ((a.heap.record? ref).map fun _ => ⟨⟩) a := look_run ref _ a
  rw [promiseOf, Request.bind_run, hd]
  cases a.heap.record? ref <;> rfl

theorem markHandled_run (ref : ObjectRef) (a : Agent) :
    markHandled ref a =
      match a.heap.record? ref with
      | .error e => .ok (.error e) a
      | .ok record => .ok (.ok ()) (a.handled ref record) := by
  rw [markHandled, Request.bind_run, record_run]
  cases a.heap.record? ref <;> rfl

theorem resolve_run (ref : ObjectRef) (value : ManagedValue) (a : Agent) :
    resolve ref value a =
      if a.terminating then .ok (.error .terminated) a else passOn .fulfill ref value a := by
  rw [resolve, Request.bind_run, checkRunning_run]
  cases a.terminating <;> rfl

theorem reject_run (ref : ObjectRef) (reason : ManagedValue) (a : Agent) :
    reject ref reason a =
      if a.terminating then .ok (.error .terminated) a else passOn .reject ref reason a := by
  rw [reject, Request.bind_run, checkRunning_run]
  cases a.terminating <;> rfl

variable {a : Agent}

theorem change_resolving {ref : ObjectRef} {record : PromiseRecord} (ha : a.Sound)
    (hr : a.heap.record? ref = .ok record) (hu : record.alreadyResolved = false)
    (kind : ReactionKind) (value : ManagedValue) :
    Change a (a.resolving ref record (a.heap.resolution ref kind value)) := by
  cases h : a.heap.resolution ref kind value with
  | settle k v => exact .settle hr (ha.unlatched ref record hr hu) k v
  | follow other =>
    obtain ⟨-, -, hne, hp⟩ := Heap.resolution_eq_follow_iff.1 h
    exact .follow hr hu hp hne

theorem idles_makeRoom (a : Agent) : Idles a a.makeRoom := by
  unfold makeRoom
  split
  · exact .single (.collect a)
  · exact .refl

/-- A heap has room after all when a collection would leave some. -/
theorem isFull_makeRoom (a : Agent) : a.makeRoom.heap.isFull = a.collected.heap.isFull := by
  unfold makeRoom
  split
  · rfl
  · rename_i hf
    -- a collection can only make more room
    have hle : a.collected.heap.live ≤ a.heap.live := Heap.live_collect_le _ _
    have hlimit : a.collected.heap.limit = a.heap.limit := rfl
    simp only [Heap.isFull, decide_eq_true_eq] at hf
    simp only [Heap.isFull, decide_eq_decide]
    omega

theorem not_isLive_place_makeRoom (ha : a.Sound) (object : HeapObject) :
    a.heap.isLive (a.makeRoom.heap.place object).1 = false := by
  unfold makeRoom
  split
  · -- a slot that the collection has freed comes with another generation
    exact Heap.not_isLive_place_collect ha.shape _ object
  · rw [← Bool.not_eq_true]
    exact fun hl => Heap.ne_place_of_isLive ha.shape object hl rfl

/-- The reference of the promise that is derived from the one at `ref`. -/
def derivedRef (a : Agent) (ref : ObjectRef) : ObjectRef :=
  ((a.retained ref).makeRoom.heap.place (.promise .new)).1

/-- The reference of a derived promise was not live before. -/
theorem not_isLive_derivedRef (ha : a.Sound) (ref : ObjectRef) :
    a.heap.isLive (a.derivedRef ref) = false := by
  rw [← not_isLive_place_makeRoom (ha.idle (.retain a ref)) (.promise .new)]
  exact (Heap.isLive_update _ _ _ _).symm

/-- The agent with a derived promise that no reaction settles yet. -/
def withDerived (a : Agent) (ref : ObjectRef) : Agent :=
  ((a.retained ref).makeRoom.placed (.promise .new)).released ref

/-- What lives after room was made is what lay there before. -/
theorem record?_makeRoom {ref : ObjectRef} {record : PromiseRecord}
    (hr : a.heap.record? ref = .ok record) (hl : a.makeRoom.heap.isLive ref = true) :
    a.makeRoom.heap.record? ref = .ok record := by
  rw [← hr]
  unfold makeRoom at hl ⊢
  split at hl
  · rw [if_pos (by assumption)]
    exact Heap.record?_congr (Heap.object?_collect_of_reaches (Heap.isLive_collect_iff.1 hl))
  · rw [if_neg (by assumption)]

/-- A root that the count could hold keeps a promise while room is made. -/
theorem isLive_makeRoom_retained {ref : ObjectRef} {record : PromiseRecord}
    (hr : a.heap.record? ref = .ok record) (hroom : a.heap.rootCount ref + 1 < UInt32.size) :
    (a.retained ref).makeRoom.heap.isLive ref = true := by
  have hl := Heap.isLive_of_record? hr
  unfold makeRoom
  split
  · have hroot : (a.retained ref).heap.rootCount ref = a.heap.rootCount ref + 1 := by
      refine (Heap.rootCount_retain hl hroom ref).trans ?_
      rw [List.count_singleton_self]
    refine Heap.isLive_collect_iff.2 (Heap.reaches_of_rootCount ?_)
    omega
  · exact (Heap.isLive_update _ ref _ ref).trans hl

theorem Sound.makeRoom_retained (ha : a.Sound) (ref : ObjectRef) :
    (a.retained ref).makeRoom.Sound :=
  (ha.idle (.retain a ref)).idles (idles_makeRoom _)

/-- The source of a registration is not the promise that it derives. -/
theorem isLive_withDerived_eq {ref : ObjectRef} {record : PromiseRecord} (ha : a.Sound)
    (hr : a.heap.record? ref = .ok record) :
    (a.withDerived ref).heap.isLive ref = (a.retained ref).makeRoom.heap.isLive ref := by
  have hshape := (ha.makeRoom_retained ref).shape
  have hne : ref ≠ a.derivedRef ref := by
    intro h
    have hdead := not_isLive_derivedRef ha ref
    rw [← h, Heap.isLive_of_record? hr] at hdead
    cases hdead
  have hplaced : (a.withDerived ref).heap.isLive ref =
      ((a.retained ref).makeRoom.placed (.promise .new)).heap.isLive ref :=
    Heap.isLive_update _ ref _ ref
  rw [hplaced, Bool.eq_iff_iff]
  exact ⟨fun h => Heap.isLive_of_place hshape h hne, Heap.isLive_place hshape _⟩

/-- A source that is still there has its record. -/
theorem record?_withDerived {ref : ObjectRef} {record : PromiseRecord} (ha : a.Sound)
    (hr : a.heap.record? ref = .ok record) (hl : (a.withDerived ref).heap.isLive ref = true) :
    (a.withDerived ref).heap.record? ref = .ok record := by
  have hretained : (a.retained ref).heap.record? ref = .ok record := by
    rw [← hr]
    exact Heap.record?_congr (Heap.object?_retain a.heap ref ref)
  rw [isLive_withDerived_eq ha hr] at hl
  have hkept := record?_makeRoom hretained hl
  have hshape := (ha.makeRoom_retained ref).shape
  have hplaced := Heap.record?_place hshape (.promise .new) hkept
  rw [← hplaced]
  exact Heap.record?_congr (Heap.object?_release _ ref ref)

theorem isLive_withDerived {ref : ObjectRef} {record : PromiseRecord} (ha : a.Sound)
    (hr : a.heap.record? ref = .ok record) (hroom : a.heap.rootCount ref + 1 < UInt32.size) :
    (a.withDerived ref).heap.isLive ref = true :=
  (isLive_withDerived_eq ha hr).trans (isLive_makeRoom_retained hr hroom)

theorem record?_derivedRef (ha : a.Sound) (ref : ObjectRef) :
    (a.withDerived ref).heap.record? (a.derivedRef ref) = .ok .new := by
  rw [← Heap.record?_place_fst (ha.makeRoom_retained ref).shape .new]
  exact Heap.record?_congr (Heap.object?_release _ ref _)

theorem isPromise_derivedRef (ha : a.Sound) (ref : ObjectRef) :
    (a.withDerived ref).heap.isPromise (a.derivedRef ref) = true :=
  Heap.isPromise_iff.2 ⟨.new, record?_derivedRef ha ref⟩

/-- A registration derives a promise and adds reactions to its source. The root that the source has
meanwhile keeps it only if the count can hold one more, and else the source may be gone by then. -/
theorem addReactions_eq (ha : a.Sound) (ref : ObjectRef) (f g : Option FunctionId) :
    addReactions ref f g a =
      match a.heap.record? ref with
      | .error e => .ok (.error e) a
      | .ok record =>
        if a.terminating then .ok (.error .terminated) ((a.retained ref).released ref)
        else if (a.retained ref).makeRoom.heap.isFull then
          .ok (.error (.outOfMemory (a.retained ref).makeRoom.heap.limit))
            ((a.retained ref).makeRoom.released ref)
        else if (a.withDerived ref).heap.isLive ref then
          .ok (.ok (a.derivedRef ref)) ((a.withDerived ref).attaching ref record
            ⟨.derive f (a.derivedRef ref), .derive g (a.derivedRef ref)⟩)
        else .ok (.error (.deadObject ref)) (a.withDerived ref) := by
  rw [addReactions_run]
  cases hr : a.heap.record? ref with
  | error e => rfl
  | ok record =>
    simp only [allocate_run]
    have ht : (a.retained ref).terminating = a.terminating := rfl
    rw [ht]
    cases a.terminating with
    | true => rfl
    | false =>
      simp only [Bool.false_eq_true, if_false]
      cases (a.retained ref).makeRoom.heap.isFull with
      | true => rfl
      | false =>
        -- the source is looked at again after its root was taken back
        have hattach := attach_eq ref ⟨.derive f (a.derivedRef ref), .derive g (a.derivedRef ref)⟩
          (a.withDerived ref)
        cases hl : (a.withDerived ref).heap.isLive ref with
        | true =>
          rw [record?_withDerived ha hr hl] at hattach
          simp only [derivedRef, withDerived] at hattach ⊢
          simp only [Bool.false_eq_true, if_false, if_true, hattach]
        | false =>
          rw [Heap.record?_of_dead hl] at hattach
          simp only [derivedRef, withDerived] at hattach ⊢
          simp only [Bool.false_eq_true, if_false, hattach]

/-- A root that the count could hold is taken back as though it had not been given. -/
theorem released_retained {ref : ObjectRef} (hroom : a.heap.rootCount ref + 1 < UInt32.size) :
    (a.retained ref).released ref = a := by
  rw [retained, released, Heap.release_retain hroom]

/-- As long as the count of the roots can hold one more, a registration that is refused leaves all as it
was but for a collection. -/
theorem addReactions_of_room (ha : a.Sound) (ref : ObjectRef) (f g : Option FunctionId)
    (hroom : a.heap.rootCount ref + 1 < UInt32.size) :
    addReactions ref f g a =
      match a.heap.record? ref with
      | .error e => .ok (.error e) a
      | .ok record =>
        if a.terminating then .ok (.error .terminated) a
        else if (a.retained ref).makeRoom.heap.isFull then
          .ok (.error (.outOfMemory (a.retained ref).makeRoom.heap.limit))
            ((a.retained ref).makeRoom.released ref)
        else
          .ok (.ok (a.derivedRef ref)) ((a.withDerived ref).attaching ref record
            ⟨.derive f (a.derivedRef ref), .derive g (a.derivedRef ref)⟩) := by
  rw [addReactions_eq ha]
  cases hr : a.heap.record? ref with
  | error e => rfl
  | ok record =>
    simp only [released_retained hroom, isLive_withDerived ha hr hroom, if_true]

/-- What a registration is answered and comes to. -/
theorem addReactions_ok (ha : a.Sound) {ref d : ObjectRef} {f g : Option FunctionId} {b : Agent}
    (h : addReactions ref f g a = .ok (.ok d) b) :
    ∃ record, a.heap.record? ref = .ok record ∧ d = a.derivedRef ref ∧
      (a.withDerived ref).heap.record? ref = .ok record ∧
      b = (a.withDerived ref).attaching ref record ⟨.derive f d, .derive g d⟩ := by
  rw [addReactions_eq ha] at h
  -- all answers but one are errors
  cases hr : a.heap.record? ref with
  | error e =>
    rw [hr] at h
    cases h
  | ok record =>
    simp only [hr] at h
    split at h
    · cases h
    · split at h
      · cases h
      · split at h
        · rename_i hl
          obtain ⟨hd, rfl⟩ := EStateM.Result.ok.inj h
          obtain rfl := Except.ok.inj hd
          exact ⟨record, rfl, rfl, record?_withDerived ha hr hl, rfl⟩
        · cases h

end Agent

end Promises
