import Mathlib.Data.Finset.Basic
import Promises.Proofs.Agent.Adoption
import Promises.Proofs.Agent.Stored

/-! What is to become of a family of promises, before any of them is settled. Verdicts resolve or reject
some of the promises, and links pass the outcome of one promise on to another one. A promise has one source
at most: its verdict, the promise that it follows, or the one that it was derived from. What it comes to
is told by the sources alone, so that no order enters into it. -/

namespace Promises

/-- A value that stands for no object and that the native side can take. -/
structure ManagedValue.Plain (value : ManagedValue) : Prop where
  fits : value.Fits
  objectRef? : value.objectRef? = none

theorem plain_chainingCycle : chainingCycle.Plain := ⟨trivial, rfl⟩

theorem ManagedValue.Plain.ne_object {value : ManagedValue} (h : value.Plain) (ref : ObjectRef) :
    value ≠ .object ref := by
  rintro rfl
  cases h.objectRef?

theorem ManagedValue.Plain.resolution {heap : Heap} {ref : ObjectRef} {kind : ReactionKind}
    {value : ManagedValue} (h : value.Plain) : heap.resolution ref kind value = .settle kind value := by
  cases kind with
  | reject => cases value <;> rfl
  | fulfill =>
    cases value with
    | object other => exact absurd rfl (h.ne_object other)
    | _ => rfl

/-- What a reaction makes of an outcome, given what handlers answer. -/
def Reaction.yields (answer : FunctionId → ManagedValue → ReactionKind × ManagedValue) :
    Reaction → ReactionKind → ManagedValue → ReactionKind × ManagedValue
  | derive (some handler) _, _, value => answer handler value
  | derive none _, kind, value => (kind, value)
  | adopt _, kind, value => (kind, value)

namespace ReactionPair.Twin

variable {pair : ReactionPair}

theorem isDerive_due (h : pair.Twin) (kind : ReactionKind) :
    (pair.due kind).isDerive = pair.onFulfilled.isDerive := by
  cases kind with
  | fulfill => rfl
  | reject => exact h.isDerive

theorem target_due (h : pair.Twin) (kind : ReactionKind) :
    (pair.due kind).target = pair.onFulfilled.target := by
  cases kind with
  | fulfill => rfl
  | reject => exact h.target

end ReactionPair.Twin

/-- That a promise is to be resolved or rejected, and with what. -/
structure Verdict where
  ref : ObjectRef
  kind : ReactionKind
  value : ManagedValue

/-- What comes of a verdict when every object is a promise. -/
def Verdict.resolution (v : Verdict) : Resolution :=
  match v.kind, v.value with
  | .fulfill, .object other => if other = v.ref then .settle .reject chainingCycle else .follow other
  | kind, value => .settle kind value

theorem Verdict.resolution_eq {v : Verdict} {h : Heap}
    (hv : ∀ other, v.value = .object other → h.isPromise other = true) :
    h.resolution v.ref v.kind v.value = v.resolution := by
  obtain ⟨ref, kind, value⟩ := v
  cases kind with
  | reject => cases value <;> rfl
  | fulfill =>
    cases value with
    | object other =>
      have hp : h.isPromise other = true := hv other rfl
      simp only [Heap.resolution, resolution, hp, if_true]
    | _ => rfl

/-- A family of promises, what is decided about them, and what handlers answer. -/
structure Plan where
  members : Finset ObjectRef
  /-- The records of the promises before any verdict. -/
  record : ObjectRef → PromiseRecord
  verdicts : List Verdict
  answer : FunctionId → ManagedValue → ReactionKind × ManagedValue

namespace Plan

variable (plan : Plan)

/-- The verdict on a promise makes it follow another one. -/
def Follows (p q : ObjectRef) : Prop :=
  ∃ v ∈ plan.verdicts, v.ref = p ∧ (plan.record p).alreadyResolved = false ∧ v.resolution = .follow q

/-- The verdict on a promise settles it. -/
def Rules (p : ObjectRef) (kind : ReactionKind) (value : ManagedValue) : Prop :=
  ∃ v ∈ plan.verdicts, v.ref = p ∧ (plan.record p).alreadyResolved = false ∧
    v.resolution = .settle kind value

/-- The pairs of reactions that wait for a promise sooner or later. -/
inductive Link : ObjectRef → ReactionPair → Prop
  | stored {q : ObjectRef} {pair : ReactionPair} (hq : q ∈ plan.members)
    (hp : pair ∈ (plan.record q).reactions.toList) : Link q pair
  | follow {p q : ObjectRef} (hf : plan.Follows p q) : Link q ⟨.adopt p, .adopt p⟩

/-- A promise that is left to the reaction of a registration. -/
structure Free (p : ObjectRef) : Prop where
  unlatched : (plan.record p).alreadyResolved = false
  unnamed : ∀ v ∈ plan.verdicts, v.ref ≠ p

/-- A promise is settled by a pair of reactions that waits for another one. -/
structure Awaits (p q : ObjectRef) (pair : ReactionPair) : Prop where
  link : plan.Link q pair
  target : pair.onFulfilled.target = p
  free : pair.onFulfilled.isDerive = true → plan.Free p

/-- How a promise is settled in the end, and with what. -/
inductive Comes : ObjectRef → ReactionKind → ManagedValue → Prop
  | ruled {p : ObjectRef} {kind : ReactionKind} {value : ManagedValue}
    (hr : plan.Rules p kind value) : Comes p kind value
  | passed {p q : ObjectRef} {pair : ReactionPair} {kind : ReactionKind} {value : ManagedValue}
    (ha : plan.Awaits p q pair) (hc : Comes q kind value) :
    Comes p ((pair.due kind).yields plan.answer kind value).1
      ((pair.due kind).yields plan.answer kind value).2

/-- What makes the sources of a plan unique. -/
structure Proper : Prop where
  pending : ∀ p ∈ plan.members, (plan.record p).status = .pending
  closed : ∀ p ∈ plan.members, ∀ pair ∈ (plan.record p).reactions.toList,
    pair.onFulfilled.target ∈ plan.members
  twin : ∀ p ∈ plan.members, ∀ pair ∈ (plan.record p).reactions.toList, pair.Twin
  once : ∀ p ∈ plan.members, ∀ q ∈ plan.members, ∀ pair ∈ (plan.record p).reactions.toList,
    ∀ other ∈ (plan.record q).reactions.toList,
      pair.onFulfilled.isDerive = other.onFulfilled.isDerive →
        pair.onFulfilled.target = other.onFulfilled.target → p = q ∧ pair = other
  /-- What follows already is latched. -/
  latched : ∀ p ∈ plan.members, ∀ pair ∈ (plan.record p).reactions.toList,
    pair.onFulfilled.isDerive = false →
      (plan.record pair.onFulfilled.target).alreadyResolved = true
  named : ∀ v ∈ plan.verdicts, v.ref ∈ plan.members
  value : ∀ v ∈ plan.verdicts,
    v.value.Plain ∨ v.kind = .fulfill ∧ ∃ q ∈ plan.members, v.value = .object q
  distinct : ∀ v ∈ plan.verdicts, ∀ w ∈ plan.verdicts, v.ref = w.ref → v = w

variable {plan} {p q q' : ObjectRef} {pair pair' : ReactionPair} {kind kind' : ReactionKind}
  {value value' : ManagedValue}

theorem Follows.not_free (h : plan.Follows p q) : ¬ plan.Free p := by
  intro hf
  obtain ⟨v, hv, hp, -⟩ := h
  exact hf.unnamed v hv hp

theorem Rules.not_free (h : plan.Rules p kind value) : ¬ plan.Free p := by
  intro hf
  obtain ⟨v, hv, hp, -⟩ := h
  exact hf.unnamed v hv hp

theorem Link.twin (hplan : plan.Proper) (h : plan.Link q pair) : pair.Twin := by
  cases h with
  | stored hq hp => exact hplan.twin q hq pair hp
  | follow => exact ⟨rfl, rfl⟩

/-- The promise at either end of a link is in the family. -/
theorem Link.mem (hplan : plan.Proper) (h : plan.Link q pair) :
    q ∈ plan.members ∧ pair.onFulfilled.target ∈ plan.members := by
  cases h with
  | stored hq hp => exact ⟨hq, hplan.closed q hq pair hp⟩
  | follow hf =>
    obtain ⟨v, hv, rfl, -, hr⟩ := hf
    refine ⟨?_, hplan.named v hv⟩
    unfold Verdict.resolution at hr
    split at hr
    · rename_i other hkind hvalue
      split at hr
      · cases hr
      · obtain rfl := Resolution.follow.inj hr
        rcases hplan.value v hv with hplain | ⟨-, q, hq, hobject⟩
        · exact absurd hvalue (hplain.ne_object other)
        · obtain rfl := ManagedValue.object.inj (hvalue.symm.trans hobject)
          exact hq
    · cases hr

theorem Comes.mem (hplan : plan.Proper) (h : plan.Comes p kind value) : p ∈ plan.members := by
  cases h with
  | ruled hr =>
    obtain ⟨v, hv, rfl, -⟩ := hr
    exact hplan.named v hv
  | passed ha => exact ha.target ▸ (ha.link.mem hplan).2

/-- Where a link comes from that settles a promise: a registration, a resolve of earlier, or a verdict. -/
theorem Awaits.source (hplan : plan.Proper) (h : plan.Awaits p q pair) :
    (pair.onFulfilled.isDerive = true ∧ plan.Free p ∧ q ∈ plan.members ∧
      pair ∈ (plan.record q).reactions.toList) ∨
    (pair.onFulfilled.isDerive = false ∧ (plan.record p).alreadyResolved = true ∧ q ∈ plan.members ∧
      pair ∈ (plan.record q).reactions.toList) ∨
    (pair = ⟨.adopt p, .adopt p⟩ ∧ plan.Follows p q) := by
  obtain ⟨hlink, rfl, hfree⟩ := h
  cases hlink with
  | stored hq hp =>
    cases hd : pair.onFulfilled.isDerive with
    | true => exact .inl ⟨rfl, hfree hd, hq, hp⟩
    | false => exact .inr (.inl ⟨rfl, hplan.latched q hq pair hp hd, hq, hp⟩)
  | follow hf => exact .inr (.inr ⟨rfl, hf⟩)

theorem Follows.unique (hplan : plan.Proper) (h : plan.Follows p q) (h' : plan.Follows p q') : q = q' := by
  obtain ⟨v, hv, hp, -, hr⟩ := h
  obtain ⟨w, hw, hp', -, hr'⟩ := h'
  obtain rfl := hplan.distinct v hv w hw (hp.trans hp'.symm)
  exact Resolution.follow.inj (hr.symm.trans hr')

/-- A promise awaits one other promise at most. -/
theorem Awaits.unique (hplan : plan.Proper) (h : plan.Awaits p q pair) (h' : plan.Awaits p q' pair') :
    q = q' ∧ pair = pair' := by
  have hstored (hq : q ∈ plan.members) (hp : pair ∈ (plan.record q).reactions.toList)
      (hq' : q' ∈ plan.members) (hp' : pair' ∈ (plan.record q').reactions.toList)
      (hd : pair.onFulfilled.isDerive = pair'.onFulfilled.isDerive) : q = q' ∧ pair = pair' :=
    hplan.once q hq q' hq' pair hp pair' hp' hd (h.target.trans h'.target.symm)
  have hclear (hf : plan.Follows p q ∨ plan.Follows p q') :
      (plan.record p).alreadyResolved ≠ true := by
    rcases hf with ⟨v, -, -, hu, -⟩ | ⟨v, -, -, hu, -⟩ <;> simp [hu]
  rcases h.source hplan with ⟨hd, hfree, hq, hp⟩ | ⟨hd, hl, hq, hp⟩ | ⟨rfl, hf⟩ <;>
    rcases h'.source hplan with ⟨hd', hfree', hq', hp'⟩ | ⟨hd', hl', hq', hp'⟩ | ⟨rfl, hf'⟩
  · exact hstored hq hp hq' hp' (hd.trans hd'.symm)
  · exact absurd (hfree.unlatched.symm.trans hl') Bool.false_ne_true
  · exact absurd hfree hf'.not_free
  · exact absurd (hfree'.unlatched.symm.trans hl) Bool.false_ne_true
  · exact hstored hq hp hq' hp' (hd.trans hd'.symm)
  · exact absurd hl (hclear (.inr hf'))
  · exact absurd hfree' hf.not_free
  · exact absurd hl' (hclear (.inl hf))
  · exact ⟨hf.unique hplan hf', rfl⟩

/-- A promise that is settled by its verdict awaits none. -/
theorem Rules.not_awaits (hplan : plan.Proper) (h : plan.Rules p kind value) :
    ¬ plan.Awaits p q pair := by
  intro ha
  rcases ha.source hplan with ⟨-, hfree, -⟩ | ⟨-, hl, -⟩ | ⟨-, hf⟩
  · exact h.not_free hfree
  · obtain ⟨v, -, -, hu, -⟩ := h
    exact absurd (hu.symm.trans hl) Bool.false_ne_true
  · obtain ⟨v, hv, hp, -, hr⟩ := h
    obtain ⟨w, hw, hp', -, hr'⟩ := hf
    obtain rfl := hplan.distinct v hv w hw (hp.trans hp'.symm)
    cases hr.symm.trans hr'

theorem Rules.unique (hplan : plan.Proper) (h : plan.Rules p kind value)
    (h' : plan.Rules p kind' value') : kind = kind' ∧ value = value' := by
  obtain ⟨v, hv, hp, -, hr⟩ := h
  obtain ⟨w, hw, hp', -, hr'⟩ := h'
  obtain rfl := hplan.distinct v hv w hw (hp.trans hp'.symm)
  exact Resolution.settle.inj (hr.symm.trans hr')

theorem Rules.plain (hplan : plan.Proper) (h : plan.Rules p kind value) : value.Plain := by
  obtain ⟨v, hv, -, -, hr⟩ := h
  unfold Verdict.resolution at hr
  split at hr
  · split at hr
    · obtain ⟨-, rfl⟩ := Resolution.settle.inj hr
      exact plain_chainingCycle
    · cases hr
  · rename_i hnot
    obtain ⟨-, rfl⟩ := Resolution.settle.inj hr
    rcases hplan.value v hv with hplain | ⟨hkind, q, -, hobject⟩
    · exact hplain
    · exact absurd hobject (hnot q hkind)

/-- A promise comes to one outcome at most. -/
theorem Comes.unique (hplan : plan.Proper) (h : plan.Comes p kind value)
    (h' : plan.Comes p kind' value') : kind = kind' ∧ value = value' := by
  induction h generalizing kind' value' with
  | ruled hr =>
    cases h' with
    | ruled hr' => exact hr.unique hplan hr'
    | passed ha => exact absurd ha (hr.not_awaits hplan)
  | passed ha _ ih =>
    cases h' with
    | ruled hr' => exact absurd ha (hr'.not_awaits hplan)
    | passed ha' hc' =>
      obtain ⟨rfl, rfl⟩ := ha.unique hplan ha'
      obtain ⟨rfl, rfl⟩ := ih hc'
      exact ⟨rfl, rfl⟩

end Plan

end Promises
