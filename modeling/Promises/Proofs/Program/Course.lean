import Mathlib.Data.List.Perm.Subperm
import Promises.Proofs.Agent.Derived
import Promises.Proofs.Program.Trail

namespace Promises

namespace Stage

open Agent History
open scoped List

variable {κ : Type} {s t u : Stage Agent κ Empty} {h : History}

/-- What a step does to the history of the agent. -/
inductive Course (s : Stage Agent κ Empty) (h : History) : History → Prop
  | served {t : History} (hc : Calms h t) (hb : s.begins? = none) (he : s.ends? = none) : Course s h t
  | asked {kind : ReactionKind} {ref : ObjectRef} {value : ManagedValue} {answer : Answer}
    {t : History} (hstep : History.Step h (.call (.settle kind ref value) answer) t)
    (hs : answer = .settled (.ok true) → s.Settles ref) (hb : s.begins? = none)
    (he : s.ends? = none) : Course s h t
  | began {native : Option NativeJob} {u t : History} (hw : Works h native u) (hc : Calms u t)
    (hb : s.begins? = native) (he : s.ends? = none) : Course s h t
  | ended {job : NativeJob} {completion : Completion} {value : ManagedValue} {answer : Answer}
    {u t : History} (he : s.ends? = some (job, completion))
    (hv : s.machine.isolate.toManaged completion.value = .ok value)
    (hstep : History.Step h (.call (.settle completion.kind job.derived value) answer) u)
    (hc : Calms u t) (hb : s.begins? = none) : Course s h t

theorem Turn.course (hs : h.Sound) (ha : h.agent = s.agent) {b : Agent} (ht : s.Turn b) :
    ∃ t, t.agent = b ∧ s.Course h t ∧
      ∀ q, s.agent.heap.isLive q = true → t.number q = h.number q := by
  have hsettle (kind : ReactionKind) (ref : ObjectRef) (value : ManagedValue) :
      Agent.Call.settle kind ref value ≠ .nextJob := by
    cases kind <;> simp [Agent.Call.settle]
  -- roots do not change the numbers
  have hroots {u : History} {b : Agent} (hr : Rootings u.agent b) :
      Calms u { u with agent := b } := (calms_of_idles hr.idles u rfl).1
  rw [← ha]
  cases ht with
  | served h hb he =>
    rw [← ha] at h
    obtain ⟨t, htb, hc, hn⟩ := serves_calms hs h
    exact ⟨t, htb, .served hc hb he, hn⟩
  | @asked kind ref value result b hc hset hb he =>
    rw [← ha] at hc
    have hstep := History.Step.mk (.call (hsettle kind ref value) hc)
    refine ⟨_, rfl, .asked hstep (fun hr => hset (Answer.settled.inj hr)) hb he, fun q hq => ?_⟩
    exact hstep.number_eq hs hq
  | began hn hr hb he =>
    rw [← ha] at hn
    obtain ⟨native, u, hu, hw⟩ := nextJob_works hs
    obtain ⟨rfl, rfl⟩ := EStateM.Result.ok.inj (hn.symm.trans hu)
    refine ⟨_, rfl, .began hw (hroots hr) hb he, fun q hq => ?_⟩
    exact congrFun (hw.numbered hs).1 q
  | @ended job completion value result m b he hv hc hr hb =>
    rw [← ha] at hc
    have hstep := History.Step.mk (.call (hsettle _ _ value) hc)
    refine ⟨_, rfl, .ended he hv hstep (hroots hr) hb, fun q hq => ?_⟩
    exact hstep.number_eq hs hq

theorem Course.moves {t : History} (hs : h.Sound) (hc : s.Course h t) : History.Moves h t := by
  cases hc with
  | served hc => exact Calms.moves hc
  | asked hstep => exact hstep.moves hs
  | began hw hc => exact (hw.later.moves hs).trans (Calms.moves hc)
  | ended _ _ hstep hc => exact (hstep.moves hs).trans (Calms.moves hc)

/-- A step hands out the job that begins with it, whose promise is there. -/
theorem Course.handed {t : History} (hs : h.Sound) (hc : s.Course h t) :
    t.handed = h.handed ++ s.begins?.toList.map (fun job => (h.number job.derived, job)) ∧
      ∀ job, s.begins? = some job → h.agent.heap.isLive job.derived = true := by
  have hsame (hh : t.handed = h.handed) (hb : s.begins? = none) :
      t.handed = h.handed ++ s.begins?.toList.map (fun job => (h.number job.derived, job)) ∧
        ∀ job, s.begins? = some job → h.agent.heap.isLive job.derived = true := by
    rw [hb, hh]
    exact ⟨(List.append_nil _).symm, fun _ hnone => by cases hnone⟩
  cases hc with
  | served hc hb => exact hsame (Calms.ran_eq hc).2 hb
  | asked hstep _ hb => exact hsame hstep.call_kept.2 hb
  | ended _ _ hstep hc hb => exact hsame ((Calms.ran_eq hc).2.trans hstep.call_kept.2) hb
  | began hw hc hb =>
    obtain ⟨-, hhanded, hlive⟩ := hw.numbered hs
    rw [(Calms.ran_eq hc).2, hb]
    exact ⟨hhanded, hlive⟩

/-- A history of an agent, which has handed out the jobs of the reactions under way. -/
structure Aloft (h : History) (a : Agent) (frames : List (Frame κ Empty)) : Prop where
  agent : h.agent = a
  sound : h.Sound
  balanced : h.Balanced
  handed : (flying frames).map (fun job => h.number job.derived) <+~ h.handed.map Prod.fst

theorem aloft_new {id : IsolateId} {config : Config} {iso : Isolate Agent (Handler κ Empty)}
    (hnew : Isolate.new id config = .ok iso) :
    Aloft (start config.heapLimit) iso.engine ([] : List (Frame κ Empty)) :=
  ⟨(Isolate.engine_new hnew).symm, sound_start _, balanced_start _, List.nil_subperm⟩

/-- No promise has two reactions under way that are to settle it. -/
theorem Aloft.once {a : Agent} {frames : List (Frame κ Empty)} (ha : Aloft h a frames) :
    (inFlight frames).Nodup := by
  obtain ⟨numbers, hperm, hsub⟩ := ha.handed
  have hnumbers := hperm.nodup_iff.1 (hsub.nodup ha.balanced.handed_once)
  rw [inFlight_eq]
  refine List.Nodup.of_map h.number ?_
  rw [List.map_map]
  exact hnumbers

/-- The promises of the reactions under way are to be there, so that they keep their numbers. -/
theorem Aloft.step (ha : Aloft h s.agent s.frames)
    (hl : ∀ job ∈ flying s.frames, s.agent.heap.isLive job.derived = true) {p : Program κ Empty}
    {frames : List (Frame κ Empty)} {m : Machine Agent κ Empty} (hs : s.step = .ok (p, frames) m) :
    ∃ t, Aloft t m.isolate.engine frames := by
  obtain ⟨hturn, hflies⟩ := step_turn hs
  obtain ⟨t, ht, hc, hn⟩ := hturn.course ha.sound ha.agent
  obtain ⟨hhanded, hbegins⟩ := hc.handed ha.sound
  have hmoves := hc.moves ha.sound
  have hpart : flying frames <+ s.begins?.toList ++ flying s.frames := by
    rw [hflies]
    exact List.sublist_append_right _ _
  have hkept (job : NativeJob) (hjob : job ∈ flying frames) :
      t.number job.derived = h.number job.derived := by
    rcases List.mem_append.1 (hpart.subset hjob) with hjob | hjob
    · exact hn _ (ha.agent ▸ hbegins job (Option.mem_toList.1 hjob))
    · exact hn _ (hl job hjob)
  refine ⟨t, ht, Moves.sound ha.sound hmoves, Moves.balanced ha.sound ha.balanced hmoves, ?_⟩
  rw [List.map_congr_left hkept, hhanded, List.map_append, List.map_map]
  -- what is under way after the step was so before it, or begins with it
  refine ((hpart.map _).subperm).trans ?_
  rw [List.map_append]
  exact ((List.subperm_append_left _).2 ha.handed).trans List.perm_append_comm.subperm

end Stage

end Promises
