import Promises.Proofs.Agent.History

namespace Promises

/-- What may become of the record of a promise. -/
structure PromiseRecord.Advances (old new : PromiseRecord) : Prop where
  status : old.status ≠ .pending → new.status = old.status
  latched : old.alreadyResolved = true → new.alreadyResolved = true
  handled : old.handled = true → new.handled = true
  reactions : new.status = .pending → old.reactions.toList <+: new.reactions.toList

namespace PromiseRecord.Advances

variable {r s t : PromiseRecord}

theorem refl (r : PromiseRecord) : r.Advances r :=
  ⟨fun _ => rfl, id, id, fun _ => List.prefix_rfl⟩

theorem trans (h : r.Advances s) (k : s.Advances t) : r.Advances t where
  status hp := by
    have hs := h.status hp
    rw [k.status (hs ▸ hp), hs]
  latched hl := k.latched (h.latched hl)
  handled hh := k.handled (h.handled hh)
  reactions hp := by
    have hs : s.status = .pending := by
      by_contra hn
      exact hn (k.status hn ▸ hp)
    exact (h.reactions hs).trans (k.reactions hp)

theorem markHandled (r : PromiseRecord) : r.Advances r.markHandled :=
  ⟨fun _ => rfl, id, fun _ => rfl, fun _ => List.prefix_rfl⟩

theorem addReactions (r : PromiseRecord) (pair : ReactionPair) :
    r.Advances (r.markHandled.addReactions pair) := by
  refine ⟨fun _ => rfl, id, fun _ => rfl, fun _ => ?_⟩
  rw [PromiseRecord.addReactions, Array.toList_push]
  exact List.prefix_append _ _

theorem lock (r : PromiseRecord) : r.Advances r.lock :=
  ⟨fun _ => rfl, fun _ => rfl, id, fun _ => List.prefix_rfl⟩

theorem settled (hp : r.status = .pending) (kind : ReactionKind) (value : ManagedValue) :
    r.Advances (r.settled kind value) := by
  refine ⟨fun h => absurd hp h, fun _ => rfl, id, fun h => ?_⟩
  exact absurd h (PromiseStatus.settled_ne_pending kind value)

end PromiseRecord.Advances

namespace Agent

/-- Each record of `b` is what became of one of `a`. -/
def Onward (a b : Agent) : Prop :=
  ∀ ref new, b.heap.record? ref = .ok new →
    ∃ old, a.heap.record? ref = .ok old ∧ old.Advances new

variable {a b c : Agent}

theorem Onward.refl (a : Agent) : Onward a a := fun _ new hr => ⟨new, hr, .refl new⟩

theorem Onward.trans (h : Onward a b) (k : Onward b c) : Onward a c := by
  intro ref new hr
  obtain ⟨mid, hm, hk⟩ := k ref new hr
  obtain ⟨old, ho, hh⟩ := h ref mid hm
  exact ⟨old, ho, hh.trans hk⟩

theorem Onward.of_record? (h : ∀ ref new, b.heap.record? ref = .ok new →
    a.heap.record? ref = .ok new) : Onward a b :=
  fun ref new hr => ⟨new, h ref new hr, .refl new⟩

theorem Onward.setRecord {ref : ObjectRef} {old new : PromiseRecord} (queue : JobQueue)
    (hr : a.heap.record? ref = .ok old) (h : old.Advances new) :
    Onward a { a with heap := a.heap.setRecord ref new, queue } := by
  intro q record hq
  by_cases hn : q = ref
  · subst q
    obtain rfl : new = record := by simpa [Heap.record?_setRecord hr] using hq
    exact ⟨old, hr, h⟩
  · rw [Heap.record?_setRecord_of_ne hn] at hq
    exact ⟨record, hq, .refl record⟩

/-- What is idle changes a record in its handled flag at most. -/
theorem Idle.record?_inv (hi : Idle a b) {ref : ObjectRef} {new : PromiseRecord}
    (hr : b.heap.record? ref = .ok new) :
    ∃ old, a.heap.record? ref = .ok old ∧ new = { old with handled := new.handled } ∧
      (old.handled = true → new.handled = true) := by
  have hsame (ho : a.heap.record? ref = .ok new) : ∃ old, a.heap.record? ref = .ok old ∧
      new = { old with handled := new.handled } ∧ (old.handled = true → new.handled = true) :=
    ⟨new, ho, rfl, id⟩
  cases hi with
  | collect => exact hsame (Heap.record?_of_collect hr)
  | retain q => exact hsame ((Heap.record?_congr (Heap.object?_retain _ q ref)).symm.trans hr)
  | release q => exact hsame ((Heap.record?_congr (Heap.object?_release _ q ref)).symm.trans hr)
  | @handle q record hq =>
    by_cases hn : ref = q
    · subst hn
      obtain rfl : record.markHandled = new := by
        simpa [handled, Heap.record?_setRecord hq] using hr
      exact ⟨record, hq, rfl, fun _ => rfl⟩
    · rw [handled, Heap.record?_setRecord_of_ne hn] at hr
      exact hsame hr
  | flag => exact hsame hr

theorem Idle.onward (hi : Idle a b) : Onward a b := by
  intro ref new hr
  obtain ⟨old, ho, hn, hh⟩ := hi.record?_inv hr
  rw [hn]
  exact ⟨old, ho, fun _ => rfl, id, hh, fun _ => List.prefix_rfl⟩

theorem Change.onward (hc : Change a b) : Onward a b := by
  cases hc with
  | idle hi => exact hi.onward
  | pop => exact .of_record? fun _ _ hr => hr
  | @attach ref record pair hr ht =>
    unfold attaching
    cases record.status.outcome? with
    | none => exact .setRecord _ hr (.addReactions _ pair)
    | some => exact .setRecord _ hr (.markHandled _)
  | settle hr hp kind value => exact .setRecord _ hr (.settled hp kind value)
  | follow hr => exact .setRecord _ hr (.lock _)

theorem Changes.onward (hc : Changes a b) : Onward a b := by
  induction hc with
  | refl => exact .refl a
  | tail _ hc ih => exact ih.trans hc.onward

end Agent

open Agent

namespace History

variable {s t u : History}

/-- An object of `t` that was there in `s` has a record that is what became of the one in `s`. -/
structure Leads (s t : History) : Prop where
  born_le : s.born ≤ t.born
  kept : ∀ ref new, t.agent.heap.record? ref = .ok new → t.number ref < s.born →
    s.number ref = t.number ref ∧
      ∃ old, s.agent.heap.record? ref = .ok old ∧ old.Advances new

theorem Leads.refl (s : History) : Leads s s :=
  ⟨Nat.le_refl _, fun _ new hr _ => ⟨rfl, new, hr, .refl new⟩⟩

theorem Leads.trans (h : Leads s t) (k : Leads t u) : Leads s u where
  born_le := Nat.le_trans h.born_le k.born_le
  kept ref new hr hl := by
    obtain ⟨hn, mid, hm, hk⟩ := k.kept ref new hr (Nat.lt_of_lt_of_le hl h.born_le)
    obtain ⟨hn', old, ho, hh⟩ := h.kept ref mid hm (hn ▸ hl)
    exact ⟨hn'.trans hn, old, ho, hh.trans hk⟩

theorem Leads.of_onward (ho : Onward s.agent t.agent) (hb : t.born = s.born)
    (hn : t.number = s.number) : Leads s t where
  born_le := Nat.le_of_eq hb.symm
  kept ref new hr _ := ⟨by rw [hn], ho ref new hr⟩

theorem Move.leads (hs : s.Sound) (hm : Move s t) : Leads s t := by
  cases hm with
  | idle hi => exact .of_onward hi.onward rfl rfl
  | @place object hf ho =>
    refine ⟨Nat.le_succ _, fun ref new hr hl => ?_⟩
    simp only [bear, Function.update_apply] at hl ⊢
    split at hl
    · exact absurd hl (Nat.lt_irrefl _)
    · rename_i hn
      rw [if_neg hn]
      rw [Agent.placed, Heap.record?_congr (Heap.object?_place_of_ne hs.agent.shape _ hn)] at hr
      exact ⟨rfl, new, hr, .refl new⟩
  | register hr hd hu =>
    refine .of_onward (Change.onward (.attach hr fun kind => ?_)) rfl rfl
    cases kind <;> exact hd
  | resolve hr hu kind value =>
    exact .of_onward (change_resolving hs.agent hr hu kind value).onward rfl rfl
  | job hp => exact .of_onward (Changes.onward (changes_job hs.agent hp)) rfl rfl

theorem Moves.leads (hs : s.Sound) (hm : Moves s t) : Leads s t := by
  induction hm with
  | refl => exact .refl s
  | tail h hm ih => exact ih.trans (hm.leads (Moves.sound hs h))

end History

namespace Agent

/-- The call that settles a promise one way. -/
def Call.settle : ReactionKind → ObjectRef → ManagedValue → Call
  | .fulfill, ref, value => .resolve ref value
  | .reject, ref, reason => .reject ref reason

variable {a b : Agent}

theorem settle_call_run (ha : a.Sound) (kind : ReactionKind) (ref : ObjectRef)
    (value : ManagedValue) :
    (Call.settle kind ref value).run a =
      if a.terminating then .ok (.settled (.error .terminated)) a
      else
        match a.heap.record? ref with
        | .error e => .ok (.settled (.error e)) a
        | .ok record =>
          if record.alreadyResolved then .ok (.settled (.ok false)) a
          else .ok (.settled (.ok true))
            (a.resolving ref record (a.heap.resolution ref kind value)) := by
  generalize hresult : (if a.terminating then _ else _ : EStateM.Result Fault Agent Answer) = result
  -- both ways pass the value on, unless the agent is terminating
  have hcall (x : Request Agent Bool) (hx : x a = if a.terminating then
      .ok (.error .terminated) a else passOn kind ref value a) :
      (Answer.settled <$> x.run) a = result := by
    rw [Action.map_run, ExceptT.run, hx, passOn_run kind ref value a (ha.unlatched ref), ← hresult]
    cases a.terminating with
    | true => rfl
    | false =>
      cases a.heap.record? ref with
      | error e => rfl
      | ok record =>
        dsimp only
        cases record.alreadyResolved <;> rfl
  cases kind with
  | fulfill => exact hcall _ (resolve_run ref value a)
  | reject => exact hcall _ (reject_run ref value a)

/-- A call that was accepted found the latch clear. -/
theorem settle_call_accepted (ha : a.Sound) {kind : ReactionKind} {ref : ObjectRef}
    {value : ManagedValue} (h : (Call.settle kind ref value).run a = .ok (.settled (.ok true)) b) :
    ∃ record, a.heap.record? ref = .ok record ∧ record.alreadyResolved = false ∧
      b = a.resolving ref record (a.heap.resolution ref kind value) := by
  rw [settle_call_run ha] at h
  split at h
  · simp at h
  · cases hr : a.heap.record? ref with
    | error e => simp [hr] at h
    | ok record =>
      simp only [hr] at h
      split at h
      · simp at h
      · rename_i hl
        simp only [EStateM.Result.ok.injEq, true_and] at h
        exact ⟨record, rfl, by simpa using hl, h.symm⟩

/-- Once a resolve or a reject was accepted, the latch is set. -/
theorem record?_resolving {ref : ObjectRef} {record : PromiseRecord}
    (hr : a.heap.record? ref = .ok record) (r : Resolution) :
    ∃ new, (a.resolving ref record r).heap.record? ref = .ok new ∧ new.alreadyResolved = true ∧
      ∀ kind value, r = .settle kind value → new.status = .settled kind value := by
  cases r with
  | settle kind value =>
    refine ⟨_, Heap.record?_setRecord hr (record.settled kind value), rfl, ?_⟩
    intro k v h
    rw [Resolution.settle.injEq] at h
    obtain ⟨rfl, rfl⟩ := h
    rfl
  | follow other => exact ⟨_, Heap.record?_setRecord hr record.lock, rfl, by simp⟩

/-- What is not a promise is not followed. -/
theorem resolution_of_plain {h : Heap} {ref : ObjectRef} (hp : h.isPromise ref = true)
    {kind : ReactionKind} {value : ManagedValue}
    (hv : kind = .reject ∨ ∀ other, value = .object other → h.isPromise other = false) :
    h.resolution ref kind value = .settle kind value := by
  cases kind with
  | reject => cases value <;> rfl
  | fulfill =>
    cases value with
    | object other =>
      have ho := (hv.resolve_left (by simp)) other rfl
      have hne : other ≠ ref := by
        rintro rfl
        rw [hp] at ho
        cases ho
      simp only [Heap.resolution, if_neg hne, ho, Bool.false_eq_true, if_false]
    | _ => rfl

/-- What a client that settles a promise is answered, and what comes of it. -/
theorem settle_call_answer (ha : a.Sound) {ref : ObjectRef} {record : PromiseRecord}
    (hr : a.heap.record? ref = .ok record) (ht : a.terminating = false) (kind : ReactionKind)
    (value : ManagedValue) :
    ∃ b, (Call.settle kind ref value).run a = .ok (.settled (.ok (!record.alreadyResolved))) b ∧
      (record.alreadyResolved = true → b = a) ∧
      (record.alreadyResolved = false →
        (kind = .reject ∨ ∀ other, value = .object other → a.heap.isPromise other = false) →
        ∃ new, b.heap.record? ref = .ok new ∧ new.status = .settled kind value) := by
  rw [settle_call_run ha, hr]
  simp only [ht, Bool.false_eq_true, if_false]
  cases hl : record.alreadyResolved with
  | true => exact ⟨a, by simp only [if_true, Bool.not_true], fun _ => rfl, by simp⟩
  | false =>
    refine ⟨_, rfl, by simp, fun _ hv => ?_⟩
    obtain ⟨new, hnew, -, hstatus⟩ := record?_resolving hr (a.heap.resolution ref kind value)
    have hplain := resolution_of_plain (Heap.isPromise_of_record? hr) hv
    exact ⟨new, hnew, hstatus _ _ hplain⟩

end Agent

namespace History

variable {s t u : History} {ref : ObjectRef}

/-- The record of an object that is still there is what became of the earlier one. -/
theorem Later.advances (hs : s.Sound) (hl : Later s t) {old new : PromiseRecord}
    (ho : s.agent.heap.record? ref = .ok old) (hn : t.agent.heap.record? ref = .ok new)
    (he : t.number ref = s.number ref) : old.Advances new := by
  have hlt : t.number ref < s.born := by
    rw [he]
    exact hs.number_lt ref (Heap.isLive_of_record? ho)
  have hleads := Moves.leads hs (hl.moves hs)
  obtain ⟨-, record, hr, ha⟩ := hleads.kept ref new hn hlt
  obtain rfl : old = record := Except.ok.inj (ho.symm.trans hr)
  exact ha

/-- A promise that a client has settled is latched. -/
theorem Step.latched (hs : s.Sound) {kind : ReactionKind} {value : ManagedValue}
    (h : Step s (.call (.settle kind ref value) (.settled (.ok true))) t) :
    t.number = s.number ∧
      ∃ record, t.agent.heap.record? ref = .ok record ∧ record.alreadyResolved = true := by
  have hbirth : (Call.settle kind ref value).birth? s.agent (.settled (.ok true)) = none := by
    cases kind <;> rfl
  obtain ⟨h⟩ := h
  cases h with
  | call _ hc =>
    obtain ⟨record, hr, -, rfl⟩ := settle_call_accepted hs.agent hc
    obtain ⟨new, hnew, hlatch, -⟩ := record?_resolving hr (s.agent.heap.resolution ref kind value)
    rw [History.record, hbirth]
    exact ⟨rfl, new, hnew, hlatch⟩

/-- A promise that a client settles was not latched. -/
theorem Step.unlatched (hs : s.Sound) {kind : ReactionKind} {value : ManagedValue}
    (h : Step s (.call (.settle kind ref value) (.settled (.ok true))) t) :
    ∃ record, s.agent.heap.record? ref = .ok record ∧ record.alreadyResolved = false := by
  obtain ⟨h⟩ := h
  cases h with
  | call _ hc =>
    obtain ⟨record, hr, hclear, -⟩ := settle_call_accepted hs.agent hc
    exact ⟨record, hr, hclear⟩

/-- Settlement happens once and for good, whatever is called and in whatever order. -/
theorem settled_once_for_good {limit : Nat} (hs : Reachable limit s) :
    -- what is kept as long as the object is there
    (∀ ref record, s.agent.heap.record? ref = .ok record →
      (record.state = .pending → record.result = .undefined) ∧
      ∀ t new, Later s t → t.agent.heap.record? ref = .ok new → t.number ref = s.number ref →
        (record.state ≠ .pending → new.state = record.state ∧ new.result = record.result) ∧
        (record.alreadyResolved = true → new.alreadyResolved = true) ∧
        (record.handled = true → new.handled = true)) ∧
    -- what a client that settles a promise is answered
    (∀ kind ref value record, s.agent.heap.record? ref = .ok record →
      s.agent.terminating = false →
      ∃ b, (Call.settle kind ref value).run s.agent =
          .ok (.settled (.ok (!record.alreadyResolved))) b ∧
        (record.alreadyResolved = true → b = s.agent) ∧
        (record.alreadyResolved = false →
          (kind = .reject ∨
            ∀ other, value = .object other → s.agent.heap.isPromise other = false) →
          ∃ new, b.heap.record? ref = .ok new ∧ new.status = .settled kind value)) ∧
    -- a client settles an object once
    (∀ kind ref value t kind' value' u v,
      Step s (.call (.settle kind ref value) (.settled (.ok true))) t → Later t u →
      u.number ref = s.number ref →
      ¬ Step u (.call (.settle kind' ref value') (.settled (.ok true))) v) ∧
    -- no call ends in a fault, which a second settlement would be
    ∀ c : Call, ∃ answer t, c.run s.agent = .ok answer t.agent ∧ Later s t := by
  have hsound := hs.sound
  refine ⟨?_, ?_, ?_, call_later hsound⟩
  · intro ref record hr
    refine ⟨fun hp => ?_, fun t new hl hn he => ?_⟩
    · rw [PromiseRecord.result, PromiseStatus.state_eq_pending_iff.1 hp]
      rfl
    · have ha : record.Advances new := hl.advances hsound hr hn he
      refine ⟨fun hp => ?_, ha.latched, ha.handled⟩
      have hstatus := ha.status fun h => hp (PromiseStatus.state_eq_pending_iff.2 h)
      simp only [PromiseRecord.state, PromiseRecord.result, hstatus, and_self]
  · intro kind ref value record hr ht
    exact settle_call_answer hsound.agent hr ht kind value
  · intro kind ref value t kind' value' u v hst hl he hu
    have ht : t.Sound := hst.sound hsound
    have hut : u.Sound := Moves.sound ht (hl.moves ht)
    obtain ⟨hnumber, new, hnew, hlatch⟩ := hst.latched hsound
    obtain ⟨last, hlast, hclear⟩ := hu.unlatched hut
    have ha : new.Advances last := hl.advances ht hnew hlast (by rw [he, hnumber])
    rw [ha.latched hlatch] at hclear
    cases hclear

/-- The first promise of an agent, which is rejected. -/
theorem settled_once_for_good_first :
    ∃ s b new, Reachable 1 s ∧
      (Call.settle .reject ⟨0, 0⟩ .null).run s.agent = .ok (.settled (.ok true)) b ∧
      b.heap.record? ⟨0, 0⟩ = .ok new ∧ new.status = .rejected .null := by
  have hstart : Reachable 1 (start 1) := .refl
  obtain ⟨-, hs⟩ := hstart.call (c := .newResolver) (by simp) rfl
  obtain ⟨b, hb, -, hsettled⟩ :=
    (settled_once_for_good hs).2.1 .reject ⟨0, 0⟩ .null .new rfl rfl
  obtain ⟨new, hnew, hstatus⟩ := hsettled rfl (Or.inl rfl)
  exact ⟨_, b, new, hs, hb, hnew, hstatus⟩

end History

end Promises
