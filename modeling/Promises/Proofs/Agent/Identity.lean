import Promises.Proofs.Agent.Adoption

namespace Promises

namespace Agent

variable {a b c : Agent}

/-- A root is given or taken back. -/
inductive Rooting : Agent → Agent → Prop
  | retain (a : Agent) (ref : ObjectRef) : Rooting a (a.retained ref)
  | release (a : Agent) (ref : ObjectRef) : Rooting a (a.released ref)

abbrev Rootings : Agent → Agent → Prop := Relation.ReflTransGen Rooting

/-- One call is answered that neither settles a promise nor runs a job, and then roots are given and
taken back. -/
def Serves (a b : Agent) : Prop :=
  ∃ (c : Call) (answer : Answer) (m : Agent),
    c.isCalm = true ∧ c.run a = .ok answer m ∧ Rootings m b

theorem Rooting.idle (h : Rooting a b) : Idle a b := by
  cases h with
  | retain ref => exact .retain a ref
  | release ref => exact .release a ref

theorem Rootings.object? (h : Rootings a b) (q : ObjectRef) : b.heap.object? q = a.heap.object? q := by
  induction h with
  | refl => rfl
  | tail _ hlast ih =>
    cases hlast with
    | retain ref => exact (Heap.object?_retain _ ref q).trans ih
    | release ref => exact (Heap.object?_release _ ref q).trans ih

theorem Rootings.same (h : Rootings a b) : b.queue = a.queue ∧ b.terminating = a.terminating := by
  induction h with
  | refl => exact ⟨rfl, rfl⟩
  | tail _ hlast ih => cases hlast <;> exact ih

theorem Rootings.idles (h : Rootings a b) : Idles a b :=
  Relation.ReflTransGen.mono (fun _ _ => Rooting.idle) a b h

theorem Rootings.serves (h : Rootings a b) : Serves a b := ⟨.stats, _, a, rfl, rfl, h⟩

theorem Serves.rootings (h : Serves a b) (k : Rootings b c) : Serves a c := by
  obtain ⟨call, answer, m, hcalm, hrun, hroots⟩ := h
  exact ⟨call, answer, m, hcalm, hrun, hroots.trans k⟩

theorem serves_self (a : Agent) : Serves a a := Rootings.serves .refl

/-- What an inner action comes to, the call comes to. -/
theorem serves_of_run {α : Type} {x : Action Agent α} {v : α} (c : Call) {f : α → Answer}
    (hc : c.isCalm = true) (hcall : c.run = f <$> x) (hx : x a = .ok v b) : Serves a b := by
  refine ⟨c, f v, b, hc, ?_, .refl⟩
  rw [hcall, Action.map_run, hx]

/-- A call that made an object answers with its reference, or else it was a registration that derived a
promise. -/
theorem Call.answer_of_birth {c : Call} {answer : Answer} {ref : ObjectRef}
    (hb : c.birth? a answer = some ref) :
    answer = .object (.ok ref) ∨ ∃ p f g, c = .addReactions p f g ∧ ref = a.derivedRef p := by
  unfold birth? at hb
  split at hb
  · rw [Option.some.inj hb]
    exact Or.inl rfl
  · rw [Option.some.inj hb]
    exact Or.inl rfl
  · rw [Option.some.inj hb]
    exact Or.inl rfl
  · split at hb
    · exact Or.inr ⟨_, _, _, rfl, (Option.some.inj hb).symm⟩
    · cases hb
  · cases hb

/-- A reference that a call gives out was not live before, although the call may have collected. -/
theorem Call.not_isLive_of_birth (ha : a.Sound) {c : Call} {answer : Answer} {ref : ObjectRef}
    (hc : c.run a = .ok answer b) (hb : c.birth? a answer = some ref) :
    a.heap.isLive ref = false := by
  obtain rfl | ⟨p, f, g, rfl, rfl⟩ := Call.answer_of_birth hb
  case inr => exact not_isLive_derivedRef ha p
  have hallocate {object : HeapObject}
      (hc : (Answer.object <$> (allocate object).run) a = .ok (.object (.ok ref)) b) :
      a.heap.isLive ref = false := by
    obtain ⟨outcome, hrun, hanswer⟩ := Action.map_ok hc
    obtain rfl := Answer.object.inj hanswer
    rw [(allocate_ok hrun).1]
    exact not_isLive_place_makeRoom ha object
  cases c with
  | newObject => exact hallocate hc
  | newResolver => exact hallocate hc
  | addReactions p f g =>
    obtain ⟨record, -, rfl, -⟩ := History.addReactions_call_inv ha hc
    exact not_isLive_derivedRef ha p
  | _ => cases hb

/-- What is idle changes no object into another one. -/
theorem Idle.kind? (hi : Idle a b) {q : ObjectRef} (hq : b.heap.isLive q = true) :
    b.heap.kind? q = a.heap.kind? q := by
  cases hi with
  | collect =>
    obtain ⟨cell, hc⟩ := Heap.isLive_iff.1 hq
    have hold : a.heap.cell? q = some cell := Heap.cell?_of_collect hc
    exact Heap.kind?_congr (Heap.object?_congr (hc.trans hold.symm))
  | retain ref => exact Heap.kind?_congr (Heap.object?_retain a.heap ref q)
  | release ref => exact Heap.kind?_congr (Heap.object?_release a.heap ref q)
  | handle hr => exact Heap.kind?_setRecord hr _ q
  | flag => rfl

end Agent

open Agent

namespace History

variable {s t : History} {x : Birth}

/-- What is live keeps its number, whatever is called. -/
theorem Step.number_eq (hs : s.Sound) {c : Call} {answer : Answer} (h : Step s (.call c answer) t)
    {q : ObjectRef} (hq : s.agent.heap.isLive q = true) : t.number q = s.number q := by
  obtain ⟨h⟩ := h
  cases h with
  | call _ hc =>
    cases hb : c.birth? s.agent answer with
    | none =>
      rw [History.record, hb]
      rfl
    | some ref =>
      have hdead := Call.not_isLive_of_birth hs.agent hc hb
      have hne : q ≠ ref := by
        rintro rfl
        rw [hq] at hdead
        cases hdead
      rw [History.record, hb]
      exact Function.update_of_ne hne _ _

/-- An object that was there before is what it was. -/
theorem Move.kind? (hs : s.Sound) (hm : Move s t) {q : ObjectRef}
    (hq : t.agent.heap.isLive q = true) (hn : t.number q < s.born) :
    t.number q = s.number q ∧ t.agent.heap.kind? q = s.agent.heap.kind? q := by
  cases hm with
  | idle hi => exact ⟨rfl, hi.kind? hq⟩
  | @place object =>
    simp only [bear, Function.update_apply] at hn ⊢
    split at hn
    · -- the number of the new object is none of those before
      exact absurd hn (Nat.lt_irrefl _)
    · rename_i hne
      rw [if_neg hne]
      exact ⟨rfl, Heap.kind?_congr (Heap.object?_place_of_ne hs.agent.shape object hne)⟩
  | register hr => exact ⟨rfl, kind?_attaching hr _ q⟩
  | resolve hr => exact ⟨rfl, kind?_resolving hr _ q⟩
  | @job job queue => exact ⟨rfl, (effect_working { s.agent with queue } job).kind?_eq q⟩

theorem Moves.kind? (hs : s.Sound) (hm : Moves s t) {q : ObjectRef}
    (hq : t.agent.heap.isLive q = true) (hn : t.number q < s.born) :
    t.number q = s.number q ∧ t.agent.heap.kind? q = s.agent.heap.kind? q := by
  induction hm with
  | refl => exact ⟨rfl, rfl⟩
  | @tail u t hu hm ih =>
    have hborn := Nat.lt_of_lt_of_le hn (Moves.leads hs hu).born_le
    obtain ⟨hnumber, hkind⟩ := hm.kind? (Moves.sound hs hu) hq hborn
    -- born before and live at the end, it was live all the way
    have hlive : u.agent.heap.isLive q = true := by
      obtain ⟨kind, hk⟩ := Heap.isLive_iff_kind?.1 hq
      exact Heap.isLive_iff_kind?.2 ⟨kind, hkind ▸ hk⟩
    obtain ⟨hsame, hsameKind⟩ := ih hlive (hnumber ▸ hn)
    exact ⟨hnumber.trans hsame, hkind.trans hsameKind⟩

/-- The reference of `x` still stands for it: it has the number of `x`, and is that of a promise if it
is live. -/
structure Names (s : History) (x : Birth) : Prop where
  born : x.number < s.born
  number : s.number x.ref = x.number
  promise : s.agent.heap.isLive x.ref = true → s.agent.heap.isPromise x.ref = true

theorem names_of_isPromise (hs : s.Sound) {q : ObjectRef} (hq : s.agent.heap.isPromise q = true) :
    s.Names ⟨q, s.number q⟩ :=
  ⟨hs.number_lt q (Heap.isLive_of_isPromise hq), rfl, fun _ => hq⟩

theorem Names.moves (hs : s.Sound) (h : s.Names x) (hm : Moves s t)
    (hn : t.number x.ref = s.number x.ref) : t.Names x where
  born := Nat.lt_of_lt_of_le h.born (Moves.leads hs hm).born_le
  number := hn.trans h.number
  promise hq := by
    have hborn : t.number x.ref < s.born := by
      rw [hn, h.number]
      exact h.born
    obtain ⟨kind, hk⟩ := Heap.isLive_iff_kind?.1 hq
    have hsame := (Moves.kind? hs hm hq hborn).2
    rw [Heap.isPromise_iff_kind?, hsame, ← Heap.isPromise_iff_kind?]
    exact h.promise (Heap.isLive_iff_kind?.2 ⟨kind, hsame ▸ hk⟩)

theorem Names.shows (h : s.Names x) (hl : s.agent.heap.isLive x.ref = true) :
    ∃ record, s.agent.heap.record? x.ref = .ok record ∧ s.Shows x record.status := by
  obtain ⟨record, hr⟩ := Heap.isPromise_iff.1 (h.promise hl)
  exact ⟨record, hr, record, hr, h.number, rfl⟩

/-- What the agent serves is a run of calm moves, in which live objects keep their numbers. -/
theorem serves_calms (hs : s.Sound) {b : Agent} (h : s.agent.Serves b) :
    ∃ t, t.agent = b ∧ Calms s t ∧
      ∀ q, s.agent.heap.isLive q = true → t.number q = s.number q := by
  obtain ⟨c, answer, m, hcalm, hrun, hroots⟩ := h
  obtain ⟨answer', m', hrun', hcalms⟩ := call_calms hs hcalm
  obtain ⟨rfl, rfl⟩ := EStateM.Result.ok.inj (hrun.symm.trans hrun')
  have hn : c ≠ .nextJob := by
    rintro rfl
    cases hcalm
  have hstep : Step s (.call c answer) (s.record (.call c answer) m) := .mk (.call hn hrun)
  obtain ⟨hidle, -⟩ := calms_of_idles hroots.idles (s.record (.call c answer) m) rfl
  exact ⟨_, rfl, hcalms.trans hidle, fun q hq => hstep.number_eq hs hq⟩

end History

end Promises
