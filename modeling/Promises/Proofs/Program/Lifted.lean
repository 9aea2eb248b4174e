import Promises.Proofs.Program.Handles

namespace Promises

namespace Stage

open Agent History

variable {κ : Type} {s u : Stage Agent κ Empty} {h : History}

/-- A history whose agent is that of a stage. -/
structure Lifted (h : History) (s : Stage Agent κ Empty) : Prop where
  agent : h.agent = s.agent
  sound : h.Sound
  balanced : h.Balanced
  adopted : h.Adopted
  holds : s.Holds False

theorem Lifted.moves (hl : Lifted h s) {t : History} (hm : History.Moves h t) {v : Stage Agent κ Empty}
    (ha : t.agent = v.agent) (hh : v.Holds False) : Lifted t v where
  agent := ha
  sound := Moves.sound hl.sound hm
  balanced := Moves.balanced hl.sound hl.balanced hm
  adopted := Moves.adopted hl.sound hl.balanced hm hl.adopted
  holds := hh

theorem Lifted.fit (hl : Lifted h s) : h.agent.Fit False := by
  rw [hl.agent]
  exact hl.holds.held.fit

theorem Lifted.step (hl : Lifted h s) {p : Program κ Empty} {frames : List (Frame κ Empty)}
    {m : Machine Agent κ Empty} (hs : s.step = .ok (p, frames) m) :
    ∃ t, Lifted t ⟨m, p, frames⟩ ∧ s.Course h t ∧
      ∀ q, s.agent.heap.isLive q = true → t.number q = h.number q := by
  obtain ⟨t, ht, hc, hn⟩ := (step_turn hs).1.course hl.sound hl.agent
  exact ⟨t, hl.moves (hc.moves hl.sound) ht (hl.holds.step False.elim hs), hc, hn⟩

theorem Lifted.trail (hl : Lifted h s) {path : List (Stage Agent κ Empty)} (ht : Trail s path u) :
    ∃ t, Lifted t u ∧ History.Moves h t ∧
      ∀ q, (∀ v ∈ path, v.agent.heap.isLive q = true) → t.number q = h.number q := by
  induction ht generalizing h with
  | refl => exact ⟨h, hl, .refl, fun _ _ => rfl⟩
  | step hs _ ih =>
    obtain ⟨mid, hmid, hc, hn⟩ := hl.step hs
    obtain ⟨t, ht, hm, hnumber⟩ := ih hmid
    refine ⟨t, ht, (hc.moves hl.sound).trans hm, fun q hq => ?_⟩
    rw [hnumber q fun v hv => hq v (List.mem_cons_of_mem _ hv), hn q (hq _ List.mem_cons_self)]

theorem lifted_new {id : IsolateId} {config : Config} {iso : Isolate Agent (Handler κ Empty)}
    (hnew : Isolate.new id config = .ok iso) (memory : κ) (program : Program κ Empty) :
    Lifted (start config.heapLimit) (⟨⟨iso, memory⟩, program, []⟩ : Stage Agent κ Empty) :=
  ⟨(Isolate.engine_new hnew).symm, sound_start _, balanced_start _, adopted_start _,
    holds_new hnew memory program⟩

end Stage

end Promises
