import Promises.Proofs.Agent.Way
import Promises.Proofs.Program.Lifted
import Promises.Proofs.Program.Starts

namespace Promises

open Agent

namespace History

variable {h s t : History}

theorem Step.way {event : Event} (hs : Step s event t) : Way s [⟨s, event, t⟩] t := .step hs (.refl t)

theorem rootings_way {b : Agent} (hr : Rootings h.agent b) :
    ∃ way t, Way h way t ∧ t.agent = b ∧ t.handed = h.handed := by
  induction hr with
  | refl => exact ⟨[], h, .refl h, rfl, rfl⟩
  | tail _ hlast ih =>
    obtain ⟨way, t, hway, rfl, hhanded⟩ := ih
    cases hlast with
    | retain ref =>
      have hstep : Step t (.call (.retain ref) .none) _ := .mk (.call (by simp) rfl)
      exact ⟨_, _, hway.append hstep.way, rfl, hhanded⟩
    | release ref =>
      have hstep : Step t (.call (.release ref) .none) _ := .mk (.call (by simp) rfl)
      exact ⟨_, _, hway.append hstep.way, rfl, hhanded⟩

/-- A call, and then roots that are given and taken back. -/
theorem Step.way_rootings {c : Agent.Call} {answer : Answer} {b : Agent} (hs : Step h (.call c answer) s)
    (hr : Rootings s.agent b) :
    ∃ way t, Way h (⟨h, .call c answer, s⟩ :: way) t ∧ t.agent = b ∧ t.handed = h.handed := by
  obtain ⟨way, t, hway, ht, hhanded⟩ := rootings_way hr
  exact ⟨way, t, .step hs hway, ht, hhanded.trans hs.call_kept.2⟩

theorem Works.way {native : Option NativeJob} (hw : Works s native t) : ∃ way, Way s way t := by
  induction hw with
  | idle => exact ⟨[], .refl _⟩
  | last hs => exact ⟨_, hs.way⟩
  | more hs _ ih =>
    obtain ⟨way, hway⟩ := ih
    exact ⟨_, .step hs hway⟩

end History

namespace Stage

open History

variable {κ : Type} {s u : Stage Agent κ Empty} {h : History}

/-- A step makes a run of the agent, which hands out what begins with it. -/
theorem Turn.way (hs : h.Sound) (ha : h.agent = s.agent) {b : Agent} (ht : s.Turn b) :
    ∃ way t, Way h way t ∧ t.agent = b ∧
      t.handed.map Prod.snd = h.handed.map Prod.snd ++ s.begins?.toList := by
  have hsettle (kind : ReactionKind) (ref : ObjectRef) (value : ManagedValue) :
      Agent.Call.settle kind ref value ≠ .nextJob := by
    cases kind <;> simp [Agent.Call.settle]
  -- what is a call and begins nothing hands nothing out
  have hcalled {c : Agent.Call} {answer : Answer} {m : Agent} (hn : c ≠ .nextJob)
      (hc : c.run h.agent = .ok answer m) (hr : Rootings m b) (hb : s.begins? = none) :
      ∃ way t, Way h way t ∧ t.agent = b ∧
        t.handed.map Prod.snd = h.handed.map Prod.snd ++ s.begins?.toList := by
    have hstep : History.Step h (.call c answer) _ := .mk (.call hn hc)
    obtain ⟨way, t, hway, htb, hhanded⟩ := hstep.way_rootings hr
    refine ⟨_, t, hway, htb, ?_⟩
    rw [hhanded, hb]
    exact (List.append_nil _).symm
  cases ht with
  | served h hb =>
    obtain ⟨c, answer, m, hcalm, hrun, hroots⟩ := h
    have hn : c ≠ .nextJob := by
      rintro rfl
      cases hcalm
    exact hcalled hn (ha ▸ hrun) hroots hb
  | asked hc _ hb => exact hcalled (hsettle _ _ _) (ha ▸ hc) .refl hb
  | ended _ _ hc hr hb => exact hcalled (hsettle _ _ _) (ha ▸ hc) hr hb
  | began hn hr hb =>
    rw [← ha] at hn
    obtain ⟨native, t, ht, hw⟩ := nextJob_works hs
    obtain ⟨rfl, rfl⟩ := EStateM.Result.ok.inj (hn.symm.trans ht)
    obtain ⟨way, hway⟩ := hw.way
    obtain ⟨more, v, hmore, hvb, hhanded⟩ := rootings_way hr
    refine ⟨_, v, hway.append hmore, hvb, ?_⟩
    rw [hhanded, hw.handed, hb]

/-- The program has one registration at hand. -/
theorem Registers.unique {p d q e : ObjectRef} {f g f' g' : Option FunctionId} (hr : s.Registers p f g d)
    (hr' : s.Registers q f' g' e) : p = q ∧ f = f' ∧ g = g' ∧ d = e := by
  obtain ⟨hprogram, hsource, rfl, hr, hderived, rfl⟩ := hr
  obtain ⟨hprogram', hsource', rfl, hr', hderived', rfl⟩ := hr'
  cases hprogram.symm.trans hprogram'
  obtain rfl := Except.ok.inj (hsource.symm.trans hsource')
  obtain ⟨hderive, rfl⟩ := EStateM.Result.ok.inj (hr.symm.trans hr')
  obtain rfl := Option.some.inj hderive
  obtain rfl := Except.ok.inj (hderived.symm.trans hderived')
  exact ⟨rfl, rfl, rfl, rfl⟩

/-- Nor does it settle two promises at a time. -/
theorem Settles.unique {p q : ObjectRef} (hs : s.Settles p) (hs' : s.Settles q) : p = q := by
  have hone {r r' : Resolver} {b c : Binding} (hr : r = r') (hb : s.machine.isolate.handles.get r.handle = .ok b)
      (hc : s.machine.isolate.handles.get r'.handle = .ok c) : b.object = c.object := by
    subst hr
    rw [Except.ok.inj (hb.symm.trans hc)]
  cases hs with
  | resolve hp hb ho =>
    cases hs' with
    | resolve hp' hb' ho' =>
      cases hp.symm.trans hp'
      exact ho.symm.trans ((hone rfl hb hb').trans ho')
    | reject hp' => cases hp.symm.trans hp'
  | reject hp hb ho =>
    cases hs' with
    | resolve hp' => cases hp.symm.trans hp'
    | reject hp' hb' ho' =>
      cases hp.symm.trans hp'
      exact ho.symm.trans ((hone rfl hb hb').trans ho')

/-- What a settlement asks of the agent. -/
theorem Settles.turn {p : ObjectRef} (hset : s.Settles p) {q : Program κ Empty}
    {frames : List (Frame κ Empty)} {m : Machine Agent κ Empty} (hs : s.step = .ok (q, frames) m) :
    ∃ kind value,
      (Agent.Call.settle kind p value).run s.agent = .ok (.settled (.ok true)) m.isolate.engine := by
  obtain ⟨m₀, p₀, frames₀⟩ := s
  cases hset with
  | resolve hp hb ho hr =>
    obtain rfl : p₀ = _ := hp
    cases goes_of_step hs with
    | call hcall =>
      obtain ⟨-, rfl⟩ := EStateM.Result.ok.inj (hr.symm.trans hcall)
      obtain ⟨value, b, -, hb', hsettle⟩ := Isolate.settle_accepted .fulfill (fun _ _ => rfl) hr
      obtain rfl := Except.ok.inj (hb.symm.trans hb')
      exact ⟨.fulfill, value, ho ▸ hsettle⟩
  | reject hp hb ho hr =>
    obtain rfl : p₀ = _ := hp
    cases goes_of_step hs with
    | call hcall =>
      obtain ⟨-, rfl⟩ := EStateM.Result.ok.inj (hr.symm.trans hcall)
      obtain ⟨value, b, -, hb', hsettle⟩ := Isolate.settle_accepted .reject (fun _ _ => rfl) hr
      obtain rfl := Except.ok.inj (hb.symm.trans hb')
      exact ⟨.reject, value, ho ▸ hsettle⟩

/-- What a program does with a step begins the part of the run that the step makes. -/
structure Tells (s : Stage Agent κ Empty) (part : List Passage) : Prop where
  registers : ∀ p f g d, s.Registers p f g d →
    ∃ x ∈ part.head?, x.event = .call (.addReactions p f g) (.object (.ok d))
  settles : ∀ p, s.Settles p → ∃ x ∈ part.head?, x.Settles p

theorem Lifted.tells (hl : Lifted h s) {q : Program κ Empty} {frames : List (Frame κ Empty)}
    {m : Machine Agent κ Empty} (hs : s.step = .ok (q, frames) m) :
    ∃ part t, Way h part t ∧ t.agent = m.isolate.engine ∧ s.Tells part ∧
      t.handed.map Prod.snd = h.handed.map Prod.snd ++ s.begins?.toList := by
  -- registrations and settlements of the program have to be found again in the run
  by_cases hreg : ∃ p f g d, s.Registers p f g d
  · obtain ⟨p, f, g, d, hreg⟩ := hreg
    obtain ⟨e, hc, hroots, -⟩ := hreg.turn hs
    rw [← hl.agent] at hc
    have hstep : History.Step h (.call (.addReactions p f g) (.object (.ok d))) _ := .mk (.call (by simp) hc)
    obtain ⟨way, t, hway, ht, hhanded⟩ := hstep.way_rootings hroots
    refine ⟨_, t, hway, ht, ⟨fun p' f' g' d' hreg' => ?_, fun p' hset => ?_⟩, ?_⟩
    · obtain ⟨rfl, rfl, rfl, rfl⟩ := hreg.unique hreg'
      exact ⟨_, rfl, rfl⟩
    · obtain ⟨hprogram⟩ := hreg
      cases hset with
      | resolve hp => cases hprogram.symm.trans hp
      | reject hp => cases hprogram.symm.trans hp
    · obtain ⟨hprogram⟩ := hreg
      rw [hhanded, begins?, hprogram]
      exact (List.append_nil _).symm
  · by_cases hset : ∃ p, s.Settles p
    · obtain ⟨p, hset⟩ := hset
      obtain ⟨kind, value, hc⟩ := hset.turn hs
      rw [← hl.agent] at hc
      have hstep : History.Step h (.call (.settle kind p value) (.settled (.ok true))) _ :=
        .mk (.call (by cases kind <;> simp [Agent.Call.settle]) hc)
      refine ⟨_, _, hstep.way, rfl, ⟨fun p' f' g' d' hreg' => ?_, fun p' hset' => ?_⟩, ?_⟩
      · exact absurd ⟨p', f', g', d', hreg'⟩ hreg
      · obtain rfl := hset.unique hset'
        exact ⟨_, rfl, kind, value, rfl⟩
      · have hb : s.begins? = none := by
          cases hset with
          | resolve hp => rw [begins?, hp]
          | reject hp => rw [begins?, hp]
        rw [hstep.call_kept.2, hb]
        exact (List.append_nil _).symm
    · obtain ⟨way, t, hway, ht, hhanded⟩ := (step_turn hs).1.way hl.sound hl.agent
      refine ⟨way, t, hway, ht, ⟨fun p f g d hr => ?_, fun p hp => ?_⟩, hhanded⟩
      · exact absurd ⟨p, f, g, d, hr⟩ hreg
      · exact absurd ⟨p, hp⟩ hset

/-- The way of a program is a run of its agent. -/
theorem Trail.tells {path : List (Stage Agent κ Empty)} (ht : Trail s path u) (hl : Lifted h s) :
    ∃ parts t, Way h parts.flatten t ∧ t.agent = u.agent ∧ List.Forall₂ Tells path parts ∧
      t.handed.map Prod.snd = h.handed.map Prod.snd ++ begun path := by
  induction ht generalizing h with
  | refl => exact ⟨[], h, .refl h, hl.agent, .nil, (List.append_nil _).symm⟩
  | @step s u m p frames path hs _ ih =>
    obtain ⟨part, mid, hpart, hmid, htells, hbegins⟩ := hl.tells hs
    have hmoves := Later.moves hl.sound hpart.later
    have hlifted : Lifted mid ⟨m, p, frames⟩ := hl.moves hmoves hmid (hl.holds.step False.elim hs)
    obtain ⟨parts, t, hparts, ht, hall, hbegun⟩ := ih hlifted
    refine ⟨part :: parts, t, hpart.append hparts, ht, .cons htells hall, ?_⟩
    rw [hbegun, hbegins, List.append_assoc, ← begun_singleton, ← begun_append]
    rfl

/-- Reactions run in the order in which they became due, whatever is called and whenever jobs are run. A
reaction that is attached is one that a registration adds, which is to settle the promise that it derives,
or one that a job adds to make a promise follow another one. -/
theorem reactions_in_order :
    (∀ (limit : ℕ) (way : List Passage) (s : History), Way (start limit) way s →
      -- jobs are run in the order in which they were queued, and hand out their handlers in that order
      (s.queued = s.ran ++ s.agent.queue.toList.map s.entry ∧ s.handed = s.ran.flatMap Entry.native) ∧
      -- two reactions of one promise come in the order in which they were attached to it
      (∀ (i j : ℕ) (x y : Passage) (n : ℕ) (b : Bool) (m : ℕ) (b' : Bool) (m' : ℕ), i < j →
        way[i]? = some x → way[j]? = some y → x.before.Attaches n x.event b m →
        y.before.Attaches n y.event b' m' → s.Ordered b m b' m') ∧
      -- where a client settles `p` before `q`, the reactions that were attached to `p` until then come
      -- before all those of `q`
      ∀ (i j : ℕ) (x y : Passage) (p q : ObjectRef) (record : PromiseRecord), i < j →
        way[i]? = some x → way[j]? = some y → x.Settles p → y.Settles q →
        x.after.agent.heap.record? p = .ok record → record.status ≠ .pending →
        ∀ (k l : ℕ) (z z' : Passage) (b : Bool) (m : ℕ) (b' : Bool) (m' : ℕ), k < j →
          way[k]? = some z → way[l]? = some z' → z.before.Attaches (x.before.number p) z.event b m →
          z'.before.Attaches (y.before.number q) z'.event b' m' → s.Ordered b m b' m') ∧
    -- a call for the next native job is a part of such a run, which hands out what it answers
    (∀ (limit : ℕ) (s : History), Reachable limit s → ∃ answer way t,
      Agent.nextJob s.agent = .ok answer t.agent ∧ Way s way t ∧
        t.handed.map Prod.snd = s.handed.map Prod.snd ++ answer.toList) ∧
    -- and so is each step of a program, also within its checkpoints: the handlers that are handed out
    -- are those that begin
    ∀ (κ : Type) (id : IsolateId) (config : Config) (iso : Isolate Agent (Handler κ Empty)) (memory : κ)
      (program : Program κ Empty) (path : List (Stage Agent κ Empty)) (u : Stage Agent κ Empty),
      Isolate.new id config = .ok iso → Trail ⟨⟨iso, memory⟩, program, []⟩ path u →
      ∃ parts s, Way (start config.heapLimit) parts.flatten s ∧ s.agent = u.agent ∧
        List.Forall₂ Tells path parts ∧ s.handed.map Prod.snd = begun path ∧
        -- each begins with the function that is registered for it and a word for its argument
        ∀ v ∈ path, ∀ job, v.begins? = some job → ∃ w t, v.Starts job w t := by
  refine ⟨fun limit way s hway => ?_, fun limit s hs => ?_, ?_⟩
  · have hsound := sound_start limit
    have hbalanced := balanced_start limit
    have hend : s.Balanced := Later.balanced hsound hbalanced hway.later
    refine ⟨⟨hend.logged, hend.handed⟩, ?_, ?_⟩
    · intro i j x y n b m b' m' hij hx hy hfirst hsecond
      exact hway.same_promise hsound hbalanced hij hx hy hfirst hsecond
    · intro i j x y p q record hij hx hy hp hq hr hsettled k l z z' b m b' m' hkj hz hz' ha ha'
      exact hway.settled_first hsound hbalanced hij hx hy hp hq hr hsettled hkj hz hz' ha ha'
  · obtain ⟨native, t, ht, hworks⟩ := nextJob_works hs.sound
    obtain ⟨way, hway⟩ := hworks.way
    exact ⟨native, way, t, ht, hway, hworks.handed⟩
  · intro κ id config iso memory program path u hnew hpath
    obtain ⟨parts, s, hway, hs, htells, hhanded⟩ := hpath.tells (lifted_new hnew memory program)
    exact ⟨parts, s, hway, hs, htells, hhanded, fun v hv job hb => hpath.starts hv hb⟩

/-- Two handlers of one promise, which is then rejected. -/
theorem reactions_in_order_rejected : ∃ (way : List Passage) (s : History), Way (start 3) way s ∧
    s.Ordered true 1 true 2 ∧
    s.queued = [⟨1, .react .reject (.derive (some ⟨7⟩) ⟨1, 0⟩) .null⟩,
      ⟨2, .react .reject (.derive (some ⟨8⟩) ⟨2, 0⟩) .null⟩] := by
  have hstart : Reachable 3 (start 3) := .refl
  obtain ⟨hmade, h₁⟩ := hstart.call (c := .newResolver) (by simp) rfl
  obtain ⟨hfirst, h₂⟩ := h₁.call (c := .addReactions ⟨0, 0⟩ none (some ⟨7⟩)) (by simp) rfl
  obtain ⟨hsecond, h₃⟩ := h₂.call (c := .addReactions ⟨0, 0⟩ none (some ⟨8⟩)) (by simp) rfl
  obtain ⟨hrejected, -⟩ := h₃.call (c := .reject ⟨0, 0⟩ .null) (by simp) rfl
  have hway := Way.step hmade (.step hfirst (.step hsecond hrejected.way))
  obtain ⟨-, hsame, -⟩ := reactions_in_order.1 3 _ _ hway
  exact ⟨_, _, hway, hsame 1 2 _ _ 0 true 1 true 2 (by omega) rfl rfl (.register rfl) (.register rfl), rfl⟩

end Stage

end Promises
