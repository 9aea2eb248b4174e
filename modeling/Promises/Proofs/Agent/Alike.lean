import Mathlib.Data.List.Forall2
import Promises.Proofs.Agent.Job

namespace Promises

variable {R S : ObjectRef → ObjectRef → Prop}

inductive ManagedValue.Alike (R : ObjectRef → ObjectRef → Prop) : ManagedValue → ManagedValue → Prop
  | object {p q : ObjectRef} (h : R p q) : Alike R (.object p) (.object q)
  | plain {value : ManagedValue} (hn : value.objectRef? = none) : Alike R value value

inductive Reaction.Alike (R : ObjectRef → ObjectRef → Prop) : Reaction → Reaction → Prop
  | derive {p q : ObjectRef} (handler : Option FunctionId) (h : R p q) :
    Alike R (.derive handler p) (.derive handler q)
  | adopt {p q : ObjectRef} (h : R p q) : Alike R (.adopt p) (.adopt q)

structure ReactionPair.Alike (R : ObjectRef → ObjectRef → Prop) (x y : ReactionPair) : Prop where
  onFulfilled : x.onFulfilled.Alike R y.onFulfilled
  onRejected : x.onRejected.Alike R y.onRejected

inductive PromiseStatus.Alike (R : ObjectRef → ObjectRef → Prop) :
    PromiseStatus → PromiseStatus → Prop
  | pending : Alike R .pending .pending
  | settled (kind : ReactionKind) {v w : ManagedValue} (h : v.Alike R w) :
    Alike R (.settled kind v) (.settled kind w)

structure PromiseRecord.Alike (R : ObjectRef → ObjectRef → Prop) (r s : PromiseRecord) : Prop where
  status : r.status.Alike R s.status
  alreadyResolved : r.alreadyResolved = s.alreadyResolved
  handled : r.handled = s.handled
  reactions : List.Forall₂ (ReactionPair.Alike R) r.reactions.toList s.reactions.toList

inductive HeapObject.Alike (R : ObjectRef → ObjectRef → Prop) : HeapObject → HeapObject → Prop
  | plain : Alike R .plain .plain
  | promise {r s : PromiseRecord} (h : r.Alike R s) : Alike R (.promise r) (.promise s)

structure Cell.Alike (R : ObjectRef → ObjectRef → Prop) (c d : Cell) : Prop where
  object : c.object.Alike R d.object
  roots : c.roots = d.roots

inductive Job.Alike (R : ObjectRef → ObjectRef → Prop) : Job → Job → Prop
  | react (kind : ReactionKind) {x y : Reaction} {v w : ManagedValue} (hr : x.Alike R y)
    (hv : v.Alike R w) : Alike R (.react kind x v) (.react kind y w)
  | follow {p q t u : ObjectRef} (hp : R p q) (ht : R t u) : Alike R (.follow p t) (.follow q u)

inductive NativeJob.Alike (R : ObjectRef → ObjectRef → Prop) : NativeJob → NativeJob → Prop
  | mk (kind : ReactionKind) (handler : FunctionId) {v w : ManagedValue} {p q : ObjectRef}
    (hv : v.Alike R w) (hd : R p q) : Alike R ⟨kind, handler, v, p⟩ ⟨kind, handler, w, q⟩

inductive Resolution.Alike (R : ObjectRef → ObjectRef → Prop) : Resolution → Resolution → Prop
  | settle (kind : ReactionKind) {v w : ManagedValue} (h : v.Alike R w) :
    Alike R (.settle kind v) (.settle kind w)
  | follow {p q : ObjectRef} (h : R p q) : Alike R (.follow p) (.follow q)

theorem ManagedValue.Alike.references {v w : ManagedValue} (h : v.Alike R w) :
    List.Forall₂ R v.objectRef?.toList w.objectRef?.toList := by
  cases h with
  | object h => exact .cons h .nil
  | plain hn =>
    rw [hn]
    exact .nil

theorem Reaction.Alike.target {x y : Reaction} (h : x.Alike R y) : R x.target y.target := by
  cases h with
  | derive handler h => exact h
  | adopt h => exact h

theorem ReactionPair.Alike.due {x y : ReactionPair} (h : x.Alike R y) (kind : ReactionKind) :
    (x.due kind).Alike R (y.due kind) := by
  cases kind with
  | fulfill => exact h.onFulfilled
  | reject => exact h.onRejected

theorem PromiseStatus.Alike.result {x y : PromiseStatus} (h : x.Alike R y) :
    x.result.Alike R y.result := by
  cases h with
  | pending => exact .plain rfl
  | settled kind h =>
    rw [result_settled, result_settled]
    exact h

theorem PromiseStatus.Alike.state_eq {x y : PromiseStatus} (h : x.Alike R y) :
    x.state = y.state := by
  cases h with
  | pending => rfl
  | settled kind h => cases kind <;> rfl

theorem PromiseStatus.Alike.pending_iff {x y : PromiseStatus} (h : x.Alike R y) :
    x = .pending ↔ y = .pending := by
  cases h with
  | pending => rfl
  | settled kind h => simp

namespace PromiseRecord.Alike

variable {r s : PromiseRecord}

theorem references (h : r.Alike R s) : List.Forall₂ R r.references s.references := by
  have hvalue : List.Forall₂ R r.result.objectRef?.toList s.result.objectRef?.toList :=
    h.status.result.references
  have htargets (kind : ReactionKind) :
      List.Forall₂ R (r.reactions.toList.map fun pair => (pair.due kind).target)
        (s.reactions.toList.map fun pair => (pair.due kind).target) :=
    List.rel_map (fun _ _ hp => (hp.due kind).target) h.reactions
  exact List.rel_append (List.rel_append hvalue (htargets .fulfill)) (htargets .reject)

theorem new : PromiseRecord.new.Alike R PromiseRecord.new := ⟨.pending, rfl, rfl, .nil⟩

theorem markHandled (h : r.Alike R s) : r.markHandled.Alike R s.markHandled :=
  ⟨h.status, h.alreadyResolved, rfl, h.reactions⟩

theorem lock (h : r.Alike R s) : r.lock.Alike R s.lock := ⟨h.status, rfl, h.handled, h.reactions⟩

theorem addReactions (h : r.Alike R s) {x y : ReactionPair} (hp : x.Alike R y) :
    (r.addReactions x).Alike R (s.addReactions y) := by
  refine ⟨h.status, h.alreadyResolved, h.handled, ?_⟩
  simp only [PromiseRecord.addReactions, Array.toList_push]
  exact List.rel_append h.reactions (.cons hp .nil)

theorem settled (h : r.Alike R s) (kind : ReactionKind) {v w : ManagedValue} (hv : v.Alike R w) :
    (r.settled kind v).Alike R (s.settled kind w) := ⟨.settled kind hv, rfl, h.handled, .nil⟩

theorem dueJobs (h : r.Alike R s) (kind : ReactionKind) {v w : ManagedValue} (hv : v.Alike R w) :
    List.Forall₂ (Job.Alike R) (r.dueJobs kind v) (s.dueJobs kind w) :=
  List.rel_map (fun _ _ hp => .react kind (hp.due kind) hv) h.reactions

end PromiseRecord.Alike

theorem HeapObject.Alike.references {x y : HeapObject} (h : x.Alike R y) :
    List.Forall₂ R x.references y.references := by
  cases h with
  | plain => exact .nil
  | promise h => exact h.references

theorem Job.Alike.references {x y : Job} (h : x.Alike R y) :
    List.Forall₂ R x.references y.references := by
  cases h with
  | react kind hr hv => exact .cons hr.target hv.references
  | follow hp ht => exact .cons hp (.cons ht .nil)

/-- The native jobs of alike jobs. -/
theorem Job.Alike.native? {x y : Job} (h : x.Alike R y) :
    Option.Rel (NativeJob.Alike R) x.native? y.native? := by
  cases h with
  | follow => exact .none
  | react kind hr hv =>
    cases hr with
    | adopt => exact .none
    | derive handler hd =>
      cases handler with
      | none => exact .none
      | some handler => exact .some (.mk kind handler hv hd)

theorem forall₂_mono_of_mem {α : Type} {P Q : α → α → Prop} {xs ys : List α}
    (h : List.Forall₂ P xs ys) (hm : ∀ x ∈ xs, ∀ y ∈ ys, P x y → Q x y) :
    List.Forall₂ Q xs ys := by
  induction h with
  | nil => exact .nil
  | cons hxy _ ih =>
    refine .cons (hm _ List.mem_cons_self _ List.mem_cons_self hxy) (ih ?_)
    intro x hx y hy
    exact hm x (List.mem_cons_of_mem _ hx) y (List.mem_cons_of_mem _ hy)

/-- What lies in one list has a counterpart in the other. -/
theorem exists_of_forall₂_left {α : Type} {P : α → α → Prop} {xs ys : List α}
    (h : List.Forall₂ P xs ys) {x : α} (hx : x ∈ xs) : ∃ y ∈ ys, P x y := by
  induction h with
  | nil => cases hx
  | cons hxy _ ih =>
    rcases List.mem_cons.1 hx with rfl | hx
    · exact ⟨_, List.mem_cons_self, hxy⟩
    · obtain ⟨y, hy, hp⟩ := ih hx
      exact ⟨y, List.mem_cons_of_mem _ hy, hp⟩

theorem exists_of_forall₂_right {α : Type} {P : α → α → Prop} {xs ys : List α}
    (h : List.Forall₂ P xs ys) {y : α} (hy : y ∈ ys) : ∃ x ∈ xs, P x y :=
  exists_of_forall₂_left (P := flip P) h.flip hy

theorem forall₂_getElem? {α β : Type} {P : α → β → Prop} {xs : List α} {ys : List β}
    (h : List.Forall₂ P xs ys) (i : ℕ) :
    xs[i]? = none ∧ ys[i]? = none ∨ ∃ x y, xs[i]? = some x ∧ ys[i]? = some y ∧ P x y := by
  induction h generalizing i with
  | nil => exact .inl ⟨rfl, rfl⟩
  | cons hxy _ ih =>
    cases i with
    | zero => exact .inr ⟨_, _, rfl, rfl, hxy⟩
    | succ i => exact ih i

theorem ManagedValue.Alike.mono {v w : ManagedValue} (h : v.Alike R w)
    (hm : ∀ p ∈ v.objectRef?.toList, ∀ q ∈ w.objectRef?.toList, R p q → S p q) : v.Alike S w := by
  cases h with
  | object h => exact .object (hm _ (by simp) _ (by simp) h)
  | plain hn => exact .plain hn

theorem Reaction.Alike.mono {x y : Reaction} (h : x.Alike R y)
    (hm : R x.target y.target → S x.target y.target) : x.Alike S y := by
  cases h with
  | derive handler h => exact .derive handler (hm h)
  | adopt h => exact .adopt (hm h)

theorem PromiseStatus.Alike.mono {x y : PromiseStatus} (h : x.Alike R y)
    (hm : ∀ p ∈ x.result.objectRef?.toList, ∀ q ∈ y.result.objectRef?.toList, R p q → S p q) :
    x.Alike S y := by
  cases h with
  | pending => exact .pending
  | settled kind h =>
    rw [result_settled, result_settled] at hm
    exact .settled kind (h.mono hm)

theorem PromiseRecord.Alike.mono {r s : PromiseRecord} (h : r.Alike R s)
    (hm : ∀ p ∈ r.references, ∀ q ∈ s.references, R p q → S p q) : r.Alike S s := by
  have hvalue {t : PromiseRecord} {p : ObjectRef} (hp : p ∈ t.result.objectRef?.toList) :
      p ∈ t.references := List.mem_append_left _ (List.mem_append_left _ hp)
  refine ⟨h.status.mono fun p hp q hq => hm p (hvalue hp) q (hvalue hq), h.alreadyResolved,
    h.handled, ?_⟩
  refine forall₂_mono_of_mem h.reactions fun x hx y hy hxy => ?_
  have htarget (kind : ReactionKind) := hm (x.due kind).target
    (PromiseRecord.target_mem_references hx kind) (y.due kind).target
    (PromiseRecord.target_mem_references hy kind)
  exact ⟨hxy.onFulfilled.mono (htarget .fulfill), hxy.onRejected.mono (htarget .reject)⟩

theorem HeapObject.Alike.mono {x y : HeapObject} (h : x.Alike R y)
    (hm : ∀ p ∈ x.references, ∀ q ∈ y.references, R p q → S p q) : x.Alike S y := by
  cases h with
  | plain => exact .plain
  | promise h => exact .promise (h.mono hm)

theorem Cell.Alike.mono {c d : Cell} (h : c.Alike R d)
    (hm : ∀ p ∈ c.object.references, ∀ q ∈ d.object.references, R p q → S p q) : c.Alike S d :=
  ⟨h.object.mono hm, h.roots⟩

theorem Cell.Alike.retained {c d : Cell} (h : c.Alike R d) : c.retained.Alike R d.retained :=
  ⟨h.object, congrArg (· + 1) h.roots⟩

theorem Cell.Alike.released {c d : Cell} (h : c.Alike R d) : c.released.Alike R d.released := by
  unfold Cell.released
  rw [h.roots]
  split
  · exact h
  · exact ⟨h.object, rfl⟩

theorem Job.Alike.mono {x y : Job} (h : x.Alike R y)
    (hm : ∀ p ∈ x.references, ∀ q ∈ y.references, R p q → S p q) : x.Alike S y := by
  cases h with
  | react kind hr hv =>
    refine .react kind (hr.mono (hm _ List.mem_cons_self _ List.mem_cons_self)) ?_
    exact hv.mono fun p hp q hq => hm p (List.mem_cons_of_mem _ hp) q (List.mem_cons_of_mem _ hq)
  | follow hp ht =>
    refine .follow (hm _ List.mem_cons_self _ List.mem_cons_self hp) (hm _ ?_ _ ?_ ht)
    · exact List.mem_cons_of_mem _ List.mem_cons_self
    · exact List.mem_cons_of_mem _ List.mem_cons_self

end Promises
