import Mathlib.Data.Set.Card
import Promises.Proofs.Agent.Refusal

namespace Promises

/-- The record of a promise with which reactions were registered. One that is settled stores none. -/
def PromiseRecord.registered (r : PromiseRecord) (pair : ReactionPair) : PromiseRecord :=
  match r.status.outcome? with
  | none => r.markHandled.addReactions pair
  | some _ => r.markHandled

namespace Agent

variable {limit : Nat} {careful : Prop} {a b : Agent} {ref : ObjectRef}

theorem heap_attaching (a : Agent) (ref : ObjectRef) (record : PromiseRecord) (pair : ReactionPair) :
    (a.attaching ref record pair).heap = a.heap.setRecord ref (record.registered pair) := by
  unfold attaching PromiseRecord.registered
  cases record.status.outcome? <;> rfl

theorem Idle.limit_eq (hi : Idle a b) : b.heap.limit = a.heap.limit := by
  cases hi <;> rfl

theorem Change.limit_eq (hc : Change a b) : b.heap.limit = a.heap.limit := by
  cases hc with
  | idle hi => exact hi.limit_eq
  | attach => rw [heap_attaching]; rfl
  | pop | settle | follow => rfl

theorem Changes.limit_eq (hc : Changes a b) : b.heap.limit = a.heap.limit := by
  induction hc with
  | refl => rfl
  | tail _ hc ih => exact hc.limit_eq.trans ih

theorem limit_move {s t : History} (hs : s.Sound) (hm : s.Move t) :
    t.agent.heap.limit = s.agent.heap.limit := by
  cases hm with
  | idle hi => exact hi.limit_eq
  | place => exact Heap.limit_place ..
  | @register ref derived record f g hr hd hu =>
    refine (Change.attach hr fun kind => ?_).limit_eq
    cases kind <;> exact hd
  | resolve hr hu kind value => exact (change_resolving hs.agent hr hu kind value).limit_eq
  | job hp => exact Changes.limit_eq (changes_job hs.agent hp)

theorem limit_moves {s t : History} (hs : s.Sound) (hm : s.Moves t) :
    t.agent.heap.limit = s.agent.heap.limit := by
  induction hm with
  | refl => rfl
  | tail hbefore hm ih => exact (limit_move (History.Moves.sound hs hbefore) hm).trans ih

/-- A heap keeps the limit that it was made with. -/
theorem Reached.limit_eq (h : Reached limit careful a) : a.heap.limit = limit := by
  induction h with
  | new => rfl
  | @call a b c answer h _ hc ih =>
    obtain ⟨s, hs, rfl⟩ := h.history
    obtain ⟨answer', t, ht, hlater⟩ := History.call_later hs c
    obtain ⟨-, rfl⟩ := EStateM.Result.ok.inj (hc.symm.trans ht)
    exact (limit_moves hs (hlater.moves hs)).trans ih
  | @job a b job queue outcome h _ hp hj ih =>
    have hrun := runJob_eq (h.sound.pop hp).1 (h.sound.pop hp).2
    obtain ⟨-, rfl⟩ := EStateM.Result.ok.inj (hj.symm.trans hrun)
    exact (Changes.limit_eq (changes_job h.sound hp)).trans ih

/-- The live objects that references lead to, from the rooted objects, from the queued jobs and from
the extra roots. -/
def needed (a : Agent) (extra : List ObjectRef) : Set ObjectRef :=
  {q | a.heap.isLive q = true ∧ a.heap.Reachable (extra ++ a.queue.references) q}

theorem limit_makeRoom (a : Agent) : a.makeRoom.heap.limit = a.heap.limit := by
  unfold makeRoom
  split <;> rfl

/-- What a request for an object comes to that has to keep the extra roots. If what is needed fills the
heap it is refused; otherwise the object was not there before and is not rooted, and all that is needed
besides the extra roots is as it was. -/
structure Allocates (a : Agent) (limit : Nat) (extra : List ObjectRef) (object : HeapObject)
    (request : Request Agent ObjectRef) : Prop where
  full_iff :
    (∃ b, request a = .ok (.error (.outOfMemory limit)) b) ↔ (a.needed extra).ncard = limit
  room : (a.needed extra).ncard ≠ limit →
    ∃ ref b, request a = .ok (.ok ref) b ∧ a.heap.isLive ref = false ∧
      b.heap.cell? ref = some ⟨object, 0⟩ ∧
      ∀ q ∈ a.needed extra, q ∉ extra → b.heap.cell? q = a.heap.cell? q

/-- A request is refused for want of room, or gives an object, as there is room for it or not. -/
theorem Allocates.of_run {extra : List ObjectRef} {object : HeapObject}
    {request : Request Agent ObjectRef} {full : Bool} {b c : Agent} {ref : ObjectRef}
    (hrun : request a =
      if full then .ok (.error (.outOfMemory limit)) b else .ok (.ok ref) c)
    (hfull : full = true ↔ (a.needed extra).ncard = limit) (hnew : a.heap.isLive ref = false)
    (hcell : c.heap.cell? ref = some ⟨object, 0⟩)
    (hkept : ∀ q ∈ a.needed extra, q ∉ extra → c.heap.cell? q = a.heap.cell? q) :
    a.Allocates limit extra object request := by
  cases full with
  | true =>
    have hcount := hfull.1 rfl
    exact ⟨⟨fun _ => hcount, fun _ => ⟨b, hrun⟩⟩, fun hn => absurd hcount hn⟩
  | false =>
    have hcount : (a.needed extra).ncard ≠ limit := fun he => Bool.false_ne_true (hfull.2 he)
    refine ⟨⟨?_, fun he => absurd he hcount⟩, fun _ => ⟨ref, c, hrun, hnew, hcell, hkept⟩⟩
    rintro ⟨d, hd⟩
    cases hrun.symm.trans hd

end Agent

end Promises
