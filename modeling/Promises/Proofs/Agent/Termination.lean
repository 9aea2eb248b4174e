import Mathlib.Data.List.Forall2
import Promises.Proofs.Agent.Refusal
import Promises.Proofs.Agent.Settlement

namespace Promises

namespace Agent

variable {limit : Nat} {careful : Prop} {a b : Agent} {c : Call} {answer : Answer} {calls : List Call}
  {answers : List Answer}

theorem Idles.queue_eq (hi : Idles a b) : b.queue = a.queue := by
  induction hi with
  | refl => rfl
  | tail _ hlast ih => exact hlast.queue_eq.trans ih

/-- What is idle leaves all of a record but its handled flag. -/
theorem Idles.record?_inv (hi : Idles a b) {ref : ObjectRef} {new : PromiseRecord}
    (hr : b.heap.record? ref = .ok new) :
    ∃ old, a.heap.record? ref = .ok old ∧ new = { old with handled := new.handled } := by
  induction hi generalizing new with
  | refl => exact ⟨new, hr, rfl⟩
  | tail _ hlast ih =>
    obtain ⟨mid, hmid, hnew, -⟩ := hlast.record?_inv hr
    obtain ⟨old, hold, he⟩ := ih hmid
    refine ⟨old, hold, ?_⟩
    rw [hnew, he]

end Agent

end Promises
