import Promises.Proofs.Program.Lifted
import Promises.Proofs.Program.Starts

namespace Promises

namespace Stage

open Agent History

variable {κ : Type} {s t u : Stage Agent κ Empty} {h : History}

variable {p x : Birth} {f g : Option FunctionId} {path : List (Stage Agent κ Empty)}

/-- Of one promise a step hands out what begins for it. -/
theorem Course.handed_filter {t : History} (hs : h.Sound) (hx : h.agent.heap.isLive x.ref = true)
    (hn : h.number x.ref = x.number) (hc : s.Course h t) :
    (t.handed.filter (·.1 == x.number)).map Prod.snd =
      (h.handed.filter (·.1 == x.number)).map Prod.snd ++
        (begun [s]).filter (·.derived = x.ref) := by
  obtain ⟨hhanded, hlive⟩ := hc.handed hs
  rw [hhanded, begun_singleton, List.filter_append, List.map_append]
  congr 1
  cases hb : s.begins? with
  | none => rfl
  | some job =>
    -- live promises are told apart by their numbers
    have hiff : h.number job.derived = x.number ↔ job.derived = x.ref := by
      constructor
      · intro he
        exact hs.number_inj _ _ (hlive job hb) hx (he.trans hn.symm)
      · rintro he
        rw [he, hn]
    by_cases he : job.derived = x.ref
    · simp [he, hn]
    · simp [mt hiff.1 he, he]

/-- A step settles the promise of the reaction that ends with it, and none that the program does not. -/
theorem Course.derived {t : History} {ended : Prop} (hl : Lifted h s) (hc : s.Course h t)
    (hn : ¬ s.Settles x.ref)
    (hran : ∀ job ∈ flying s.frames, job.derived = x.ref →
      ⟨x.number, .react job.kind (.derive (some job.handler) x.ref) job.argument⟩ ∈ h.ran)
    (hd : h.Derived x ended) :
    t.Derived x (ended ∨ ∃ job ∈ Stage.ended [s], job.derived = x.ref) := by
  have hsame (he : s.ends? = none) (hd : t.Derived x ended) :
      t.Derived x (ended ∨ ∃ job ∈ Stage.ended [s], job.derived = x.ref) := by
    simpa [ended_singleton, he] using hd
  have hs := hl.sound
  cases hc with
  | served hc _ he => exact hsame he (hd.calms hs hc)
  | @asked kind ref value answer t hstep haccepted _ he =>
    refine hsame he (hd.settle hs hstep ?_)
    -- a call that was accepted is one of the program, which does not settle the promise
    by_contra hboth
    obtain ⟨hx, ha⟩ := not_or.1 hboth
    rw [not_not.1 hx] at hn
    exact hn (haccepted (not_not.1 ha))
  | began hw hc _ he =>
    have hsound := Moves.sound hs (hw.later.moves hs)
    exact hsame he ((hd.works hs hl.balanced hl.fit hw).calms hsound hc)
  | @ended job completion value answer u t he _ hstep hc =>
    have hsound := hstep.sound hs
    by_cases hx : job.derived = x.ref
    · -- the reaction that ends is the one that the promise waited for
      have hjob := hran job (mem_flying_of_ends he) hx
      have hend := hd.end_reaction hs (hstep.moves hs) hstep.call_kept.1 ⟨_, _, _, hjob⟩
      have hboth : (ended ∨ ∃ job ∈ Stage.ended [s], job.derived = x.ref) ↔ True := by
        rw [iff_true, ended_singleton, he]
        exact Or.inr ⟨job, List.mem_singleton_self job, hx⟩
      rw [hboth]
      exact hend.calms hsound hc
    · have hboth : (ended ∨ ∃ job ∈ Stage.ended [s], job.derived = x.ref) ↔ ended := by
        simp [ended_singleton, he, hx]
      rw [hboth]
      exact (hd.settle hs hstep (Or.inl (Ne.symm hx))).calms hsound hc

/-- What has come of a registration with the promise `p`, which gave the promise `x`, by the end of a
path from it. -/
structure Tracks (h : History) (p x : Birth) (f g : Option FunctionId)
    (path : List (Stage Agent κ Empty)) (s : Stage Agent κ Empty) : Prop where
  lifted : Lifted h s
  source : h.Names p
  target : h.Names x
  pledges : h.Pledges p.ref p.number x.number ⟨.derive f x.ref, .derive g x.ref⟩
  derived : h.Derived x (∃ job ∈ ended path, job.derived = x.ref)
  handed : (h.handed.filter (·.1 == x.number)).map Prod.snd =
    (begun path).filter (·.derived = x.ref)
  flight : ∀ job, job.derived = x.ref →
    (begun path).count job = (ended path).count job + (flying s.frames).count job

/-- The job of a reaction under way was run. -/
theorem Tracks.ran_of_flying (ht : Tracks h p x f g path s) {job : NativeJob}
    (hj : job ∈ flying s.frames) (hx : job.derived = x.ref) :
    ⟨x.number, .react job.kind (.derive (some job.handler) x.ref) job.argument⟩ ∈ h.ran := by
  have hbegun : job ∈ begun path := by
    have hpos := List.count_pos_iff.2 hj
    have hflight := ht.flight job hx
    exact List.count_pos_iff.1 (by omega)
  have hmem : job ∈ (begun path).filter (·.derived = x.ref) :=
    List.mem_filter.2 ⟨hbegun, decide_eq_true hx⟩
  rw [← ht.handed] at hmem
  obtain ⟨⟨n, found⟩, hfound, rfl⟩ := List.mem_map.1 hmem
  obtain ⟨hhanded, hn⟩ := List.mem_filter.1 hfound
  obtain rfl : n = x.number := eq_of_beq hn
  rw [← hx]
  exact ht.lifted.balanced.ran_of_handed hhanded

theorem Tracks.step (ht : Tracks h p x f g path s) (hp : s.agent.heap.isLive p.ref = true)
    (hx : s.agent.heap.isLive x.ref = true) (hn : ¬ s.Settles x.ref) {q : Program κ Empty}
    {frames : List (Frame κ Empty)} {m : Machine Agent κ Empty} (hs : s.step = .ok (q, frames) m) :
    ∃ t, Tracks t p x f g (path ++ [s]) ⟨m, q, frames⟩ := by
  obtain ⟨t, hl, hc, hnumber⟩ := ht.lifted.step hs
  have hsound := ht.lifted.sound
  have hm := hc.moves hsound
  rw [← ht.lifted.agent] at hp hx hnumber
  refine ⟨t, hl, ht.source.moves hsound hm (hnumber p.ref hp),
    ht.target.moves hsound hm (hnumber x.ref hx),
    Moves.pledges hsound ht.lifted.balanced hm ht.source.born ht.pledges, ?_, ?_, fun job hjob => ?_⟩
  · have hd := hc.derived ht.lifted hn (fun job => ht.ran_of_flying) ht.derived
    simpa only [ended_append, List.mem_append, or_and_right, exists_or] using hd
  · rw [hc.handed_filter hsound hx ht.target.number, ht.handed, begun_append, List.filter_append]
  · -- what begins with the step is under way after it, unless it ends
    have hflies := congrArg (List.count job) (step_turn hs).2
    rw [List.count_append, List.count_append] at hflies
    rw [begun_append, ended_append, List.count_append, List.count_append, begun_singleton,
      ended_singleton]
    have hflight := ht.flight job hjob
    dsimp only at hflight ⊢
    omega

/-- A registration is tracked from the step that makes it. -/
theorem Registers.tracks {p d : ObjectRef} (hreg : s.Registers p f g d) (hl : Lifted h s)
    {q : Program κ Empty} {frames : List (Frame κ Empty)} {m : Machine Agent κ Empty}
    (hs : s.step = .ok (q, frames) m) :
    ∃ t, Tracks t ⟨p, h.number p⟩ ⟨d, h.born⟩ f g [] ⟨m, q, frames⟩ := by
  have hholds : (⟨m, q, frames⟩ : Stage Agent κ Empty).Holds False := hl.holds.step False.elim hs
  obtain ⟨e, hc, hroots, rfl⟩ := hreg.turn hs
  rw [← hl.agent] at hc
  have hdead : h.agent.heap.isLive d = false := Call.not_isLive_of_birth hl.sound.agent hc rfl
  have hstep := History.Step.mk (.call (by simp) hc)
  -- the step of the agent, and then the root of the handle
  generalize hu : h.record _ e = u at hstep
  have hue : u.agent = e := by
    rw [← hu]
    rfl
  have hcalms : Calms u { u with agent := m.isolate.engine } :=
    (calms_of_idles hroots.idles u hue).1
  have hsound := hstep.sound hl.sound
  have hmoves := hstep.moves hl.sound
  have hbalanced := Moves.balanced hl.sound hl.balanced hmoves
  obtain ⟨htarget, hnone, hd⟩ := hstep.derived hl.sound hl.balanced
  obtain ⟨hpledges, hborn⟩ := registration_pledges hl.sound hbalanced hstep
  obtain ⟨record, hrecord, -⟩ := addReactions_call_inv hl.sound.agent hc
  have hlive := Heap.isLive_of_record? hrecord
  have hsource := names_of_isPromise hl.sound (Heap.isPromise_of_record? hrecord)
  rw [htarget.number] at hpledges
  refine ⟨{ u with agent := m.isolate.engine }, hl.moves (hmoves.trans hcalms.moves) rfl hholds,
    hsource.moves hl.sound (hmoves.trans hcalms.moves) (hstep.number_eq hl.sound hlive),
    htarget.moves hsound hcalms.moves rfl,
    Moves.pledges hsound hbalanced hcalms.moves hborn hpledges, ?_, ?_, ?_⟩
  · have hended : (∃ job ∈ ended ([] : List (Stage Agent κ Empty)), job.derived = d) ↔ False := by
      simp [ended]
    rw [hended]
    exact hd.calms hsound hcalms
  · exact congrArg (List.map Prod.snd) hnone
  · intro job (hjob : job.derived = d)
    have hnot : job ∉ flying s.frames := by
      intro hmem
      have hthere := hl.holds.isLive_of_flying hmem
      rw [hjob, ← hl.agent, hdead] at hthere
      cases hthere
    change 0 = 0 + (flying s.frames).count job
    rw [List.count_eq_zero.2 hnot]

/-- On a path on which both promises stay and the program does not settle the derived one itself. -/
theorem Tracks.trail (ht : Tracks h p x f g path s) {more : List (Stage Agent κ Empty)}
    (hmore : Trail s more u)
    (hlive : ∀ v ∈ more, v.agent.heap.isLive p.ref = true ∧ v.agent.heap.isLive x.ref = true)
    (hn : ∀ v ∈ more, ¬ v.Settles x.ref) : ∃ t, Tracks t p x f g (path ++ more) u := by
  induction hmore generalizing h path with
  | refl =>
    rw [List.append_nil]
    exact ⟨h, ht⟩
  | @step s u m q frames more hs _ ih =>
    have hfirst := hlive s List.mem_cons_self
    obtain ⟨mid, hmid⟩ := ht.step hfirst.1 hfirst.2 (hn s List.mem_cons_self) hs
    have hlast := ih hmid (fun v hv => hlive v (List.mem_cons_of_mem _ hv))
      fun v hv => hn v (List.mem_cons_of_mem _ hv)
    rwa [List.append_assoc, List.singleton_append] at hlast

/-- The reaction of a derived promise that was run is the only one that began. -/
theorem Tracks.begun_of_ran (ht : Tracks h p x f g path s) {kind : ReactionKind}
    {handler : Option FunctionId} {value : ManagedValue}
    (hran : ⟨x.number, .react kind (.derive handler x.ref) value⟩ ∈ h.ran) :
    (begun path).filter (·.derived = x.ref) =
      handler.toList.map fun handler => ⟨kind, handler, value, x.ref⟩ := by
  have hqueued : ⟨x.number, .react kind (.derive handler x.ref) value⟩ ∈ h.queued := by
    rw [ht.lifted.balanced.logged]
    exact List.mem_append_left _ hran
  obtain ⟨-, hhanded⟩ := ht.lifted.balanced.queued_once hqueued
  rw [← ht.handed, hhanded, if_pos hran, List.map_map]
  rfl

/-- While the source is pending, nothing comes of the registration. -/
theorem Tracks.pending (ht : Tracks h p x f g path s) (hp : h.Shows p .pending)
    {record : PromiseRecord} (hx : h.agent.heap.record? x.ref = .ok record) :
    record.status = .pending ∧ (begun path).filter (·.derived = x.ref) = [] := by
  have hb := ht.lifted.balanced
  obtain ⟨source, hr, hn, hpend⟩ := hp
  obtain ⟨hstored, htarget⟩ := (ht.pledges source hr hn).1 hpend
  have hnumber : h.number x.ref = x.number := htarget .fulfill
  have hqueued : h.queued.filter (Entry.reacts true x.number) = [] := by
    apply hb.queued_eq_nil_of_stored hr hstored
    simp [ReactionPair.aims, Reaction.isDerive, Reaction.target, hnumber]
  have hran : h.ran.filter (Entry.reacts true x.number) = [] := by
    rw [hb.logged, List.filter_append] at hqueued
    exact (List.append_eq_nil_iff.1 hqueued).1
  constructor
  · apply ht.lifted.sound.agent.unlatched x.ref record hx
    refine ht.derived.unlatched (fun e he => ?_) hx hnumber
    exact Bool.eq_false_iff.2 (List.filter_eq_nil_iff.1 hran e he)
  · rw [← ht.handed, hb.handed, filter_native, hran]
    rfl

/-- Once the source is settled and nothing waits, the reaction that was due was run. -/
theorem Tracks.ran_of_settled (ht : Tracks h p x f g path s) {kind : ReactionKind}
    {value : ManagedValue} (hp : h.Shows p (.settled kind value))
    (hq : h.agent.queue.toList = []) :
    ⟨x.number, .react kind (.derive (kind.pick f g) x.ref) value⟩ ∈ h.ran := by
  obtain ⟨source, hr, hn, hstatus⟩ := hp
  have hmem := (ht.pledges source hr hn).2 kind value hstatus
  rw [ht.lifted.balanced.logged, hq, List.map_nil, List.append_nil] at hmem
  cases kind <;> exact hmem

/-- What has begun and is no longer under way has ended. -/
theorem Tracks.ended_of_begun (ht : Tracks h p x f g path s) {job : NativeJob}
    (hj : job ∈ begun path) (hx : job.derived = x.ref) (hidle : flying s.frames = []) :
    job ∈ ended path := by
  have hflight := ht.flight job hx
  have hpos := List.count_pos_iff.2 hj
  rw [hidle, List.count_nil] at hflight
  exact List.count_pos_iff.1 (by omega)

/-- A reaction under way is the first one of its promise, so that none has ended yet. -/
theorem Tracks.none_ended (ht : Tracks h p x f g path s) {job : NativeJob}
    (hj : job ∈ flying s.frames) (hx : job.derived = x.ref) :
    ¬ ∃ other ∈ ended path, other.derived = x.ref := by
  rintro ⟨other, hother, ho⟩
  have hone : (begun path).filter (·.derived = x.ref) = [job] := by
    rw [ht.begun_of_ran (ht.ran_of_flying hj hx), ← hx]
    rfl
  -- each job began once at most, and the one that is under way has not ended
  have hcount : (begun path).count other = [job].count other := by
    rw [← hone]
    exact (List.count_filter (by simpa using ho)).symm
  have hended := List.count_pos_iff.2 hother
  have hflying := List.count_pos_iff.2 hj
  have hflight := ht.flight other ho
  rw [hcount] at hflight
  by_cases he : other = job
  · rw [he, List.count_singleton_self] at hflight
    rw [he] at hended
    omega
  · rw [List.count_singleton, beq_false_of_ne (Ne.symm he)] at hflight
    simp only [Bool.false_eq_true, if_false] at hflight
    omega

/-- When the reaction of a derived promise ends, nothing has settled the promise yet. -/
theorem Tracks.unlatched (ht : Tracks h p x f g path s) {job : NativeJob}
    (hj : job ∈ flying s.frames) (hx : job.derived = x.ref) {record : PromiseRecord}
    (hr : h.agent.heap.record? x.ref = .ok record) : record.alreadyResolved = false := by
  by_contra hl
  rw [Bool.not_eq_false] at hl
  rcases ht.derived.latched record hr ht.target.number hl with hended | ⟨kind, value, he⟩
  · exact ht.none_ended hj hx hended
  · -- the outcome of the source was not passed on, as there is a handler
    have hhandler := ht.begun_of_ran (ht.ran_of_flying hj hx)
    rw [ht.begun_of_ran he] at hhandler
    cases hhandler

/-- The end of its reaction resolves a derived promise with what the handler came to. -/
theorem Tracks.outcome (ht : Tracks h p x f g path s) {job : NativeJob} {completion : Completion}
    (he : s.ends? = some (job, completion)) (hx : job.derived = x.ref)
    (hrunning : s.agent.terminating = false) {rest : List (Stage Agent κ Empty)}
    (hrest : Trail s (s :: rest) u) (hlive : ∀ v ∈ s :: rest, v.agent.heap.isLive x.ref = true)
    (hq : u.agent.queue.toList = []) {record : PromiseRecord}
    (hr : u.agent.heap.record? x.ref = .ok record) :
    ∃ result, s.machine.isolate.toManaged completion.value = .ok result ∧
      (∀ kind value,
        s.agent.heap.resolution x.ref completion.kind result = .settle kind value →
        record.status = .settled kind value) ∧
      ∀ other, s.agent.heap.resolution x.ref completion.kind result = .follow other →
        (∀ v ∈ rest ++ [u], v.agent.heap.isLive other = true) →
        ∃ source, u.agent.heap.record? other = .ok source ∧ record.status = source.status := by
  have hsound := ht.lifted.sound
  cases hrest with
  | step hs htrail =>
    obtain ⟨mid, hmid, hc, hn⟩ := ht.lifted.step hs
    rw [← ht.lifted.agent] at hrunning ⊢
    cases hc with
    | served _ _ hnone => cases he.symm.trans hnone
    | asked _ _ _ hnone => cases he.symm.trans hnone
    | began _ _ _ hnone => cases he.symm.trans hnone
    | @ended found finish result answer v _ hfound hv hstep hcalms =>
      obtain ⟨rfl, rfl⟩ := Prod.mk.inj (Option.some.inj (hfound.symm.trans he))
      obtain ⟨t, hlast, hm, hnumber⟩ := hmid.trail htrail
      have hkept {q : ObjectRef} (hq : ∀ v ∈ s :: rest, v.agent.heap.isLive q = true) :
          t.number q = h.number q := by
        rw [hnumber q fun v hv => hq v (List.mem_cons_of_mem s hv), hn q (hq s List.mem_cons_self)]
      have hthere : h.agent.heap.isLive x.ref = true := ht.lifted.agent ▸ hlive s List.mem_cons_self
      -- the promise was not resolved before, and so it is now
      obtain ⟨old, hold, -⟩ := ht.target.shows hthere
      have hclear := ht.unlatched (mem_flying_of_ends he) hx hold
      rw [hx] at hstep
      obtain rfl := hstep.accepted hsound hold hclear hrunning
      have hcomes := hstep.comes hsound ht.target.number
      have hfirst := hstep.moves hsound
      have hmoves : History.Moves v t := (Calms.moves hcalms).trans hm
      have hall : History.Moves h t := hfirst.trans hmoves
      have hvsound := Moves.sound hsound hfirst
      have hvbalanced := Moves.balanced hsound ht.lifted.balanced hfirst
      have hvadopted := Moves.adopted hsound ht.lifted.balanced hfirst ht.lifted.adopted
      rw [← hlast.agent] at hq hr ⊢
      have hshows : t.Shows x record.status :=
        ⟨record, hr, (hkept hlive).trans ht.target.number, rfl⟩
      refine ⟨result, hv, fun kind value hres => ?_, fun other hres hother => ?_⟩
      · rw [hres] at hcomes
        exact hcomes.settled hvsound hmoves hshows
      · rw [hres] at hcomes
        obtain ⟨-, -, -, hpromise⟩ := Heap.resolution_eq_follow_iff.1 hres
        have hstays : ∀ v ∈ s :: rest, v.agent.heap.isLive other = true := by
          intro v hv
          rcases List.mem_cons.1 hv with rfl | hv
          · rw [← ht.lifted.agent]
            exact Heap.isLive_of_isPromise hpromise
          · exact hother v (List.mem_append_left _ hv)
        have hnames := (names_of_isPromise hsound hpromise).moves hsound hall (hkept hstays)
        have hend : t.agent.heap.isLive other = true := by
          rw [hlast.agent]
          exact hother u (List.mem_append_right _ (List.mem_singleton_self u))
        obtain ⟨source, hsource, hagree⟩ := hnames.shows hend
        exact ⟨source, hsource, hcomes.agrees hvsound hvbalanced hvadopted hmoves hq hshows hagree⟩

/-- What a registration means. The ways of a program are its runs, by `Leads.trail` and `run_ok_iff`. The
handlers `f` and `g` are registered with the promise `p`, which gives the promise `d`. On the way from
there both stay, the program does not settle `d` itself and is not terminating when the handler of `d`
ends. Then `d` has come to what its handler or else `p` came to, whenever no job waits and no handler
runs. -/
theorem registration_honoured {id : IsolateId} {config : Config}
    {iso : Isolate Agent (Handler κ Empty)} (hnew : Isolate.new id config = .ok iso) (memory : κ)
    (program : Program κ Empty) {before after : List (Stage Agent κ Empty)} {p d : ObjectRef}
    (hway : Trail ⟨⟨iso, memory⟩, program, []⟩ (before ++ s :: after) u)
    (hreg : s.Registers p f g d)
    (hlive : ∀ v ∈ after ++ [u], v.agent.heap.isLive p = true ∧ v.agent.heap.isLive d = true)
    (hclient : ∀ v ∈ after, ¬ v.Settles d)
    (hrunning : ∀ v ∈ after, ∀ job completion, v.ends? = some (job, completion) →
      job.derived = d → v.agent.terminating = false)
    (hqueue : u.agent.queue.toList = []) (hidle : flying u.frames = []) :
    ∃ source derived, u.agent.heap.record? p = .ok source ∧ u.agent.heap.record? d = .ok derived ∧
      -- while the source is pending, no handler has run
      (source.status = .pending →
        derived.status = .pending ∧ (begun after).filter (·.derived = d) = []) ∧
      -- once it is settled, the handler that is due has run once, and the other one has not
      ∀ kind value, source.status = .settled kind value →
        (begun after).filter (·.derived = d) =
          (kind.pick f g).toList.map (fun handler => ⟨kind, handler, value, d⟩) ∧
        (kind.pick f g = none → derived.status = source.status) ∧
        ∀ handler, kind.pick f g = some handler →
          -- it began with a word for the value, and is the function that was registered under its number
          (∃ earlier v later w t, after = earlier ++ v :: later ∧
            v.Starts ⟨kind, handler, value, d⟩ w t ∧
            (∀ body, s.machine.isolate.functions[handler.index]? = some body → t.program = body w) ∧
            (t.machine.strings.size ≤ UInt32.size → t.machine.isolate.toManaged w = .ok value)) ∧
          -- and ended with what the promise has come to
          ∃ earlier v later completion result, after = earlier ++ v :: later ∧
            v.ends? = some (⟨kind, handler, value, d⟩, completion) ∧
            v.machine.isolate.toManaged completion.value = .ok result ∧
            (∀ e, completion = .error e → derived.status = .rejected result) ∧
            ∀ w, completion = .ok w →
              (result = .object d → derived.status = .rejected chainingCycle) ∧
              ((∀ other, result = .object other → v.agent.heap.isPromise other = false) →
                derived.status = .fulfilled result) ∧
              ∀ other, result = .object other → other ≠ d → v.agent.heap.isPromise other = true →
                (∀ w ∈ later ++ [u], w.agent.heap.isLive other = true) →
                ∃ followed, u.agent.heap.record? other = .ok followed ∧
                  derived.status = followed.status := by
  obtain ⟨hbefore, m, q, frames, hs, hafter⟩ := hway.split
  obtain ⟨h₀, hs₀, -⟩ := (lifted_new hnew memory program).trail hbefore
  obtain ⟨h₁, ht₁⟩ := hreg.tracks hs₀ hs
  have hstay : ∀ v ∈ after, v.agent.heap.isLive p = true ∧ v.agent.heap.isLive d = true :=
    fun v hv => hlive v (List.mem_append_left _ hv)
  obtain ⟨h, ht⟩ := ht₁.trail hafter hstay hclient
  obtain ⟨hp, hd⟩ := hlive u (List.mem_append_right _ (List.mem_singleton_self u))
  rw [List.nil_append] at ht
  rw [← ht.lifted.agent] at hp hd hqueue
  obtain ⟨source, hsource, hshows⟩ := ht.source.shows hp
  obtain ⟨derived, hderived, hshown⟩ := ht.target.shows hd
  refine ⟨source, derived, ht.lifted.agent ▸ hsource, ht.lifted.agent ▸ hderived, fun hpend => ?_,
    fun kind value hstatus => ?_⟩
  · exact ht.pending (hpend ▸ hshows) hderived
  · have hran := ht.ran_of_settled (hstatus ▸ hshows) hqueue
    have hbegun := ht.begun_of_ran hran
    refine ⟨hbegun, fun hnone => ?_, fun handler hsome => ?_⟩
    · rw [hnone] at hran
      rw [hstatus]
      exact ht.derived.passed kind value hran _ hshown
    · -- the reaction that began has ended, as no handler runs
      have hmem : (⟨kind, handler, value, d⟩ : NativeJob) ∈ begun after := by
        have hone : (⟨kind, handler, value, d⟩ : NativeJob) ∈
            (begun after).filter (·.derived = d) := by
          rw [hbegun, hsome]
          exact List.mem_singleton_self _
        exact (List.mem_filter.1 hone).1
      refine ⟨hway.starts_registered hnew hmem, ?_⟩
      obtain ⟨v, hv, completion, he⟩ := mem_ended_iff.1 (ht.ended_of_begun hmem rfl hidle)
      obtain ⟨earlier, later, rfl⟩ := List.append_of_mem hv
      -- what is known at the step that ends it
      obtain ⟨hearlier, m', q', frames', hs', hlater⟩ := hafter.split
      obtain ⟨h', ht'⟩ := ht₁.trail hearlier (fun w hw => hstay w (List.mem_append_left _ hw))
        fun w hw => hclient w (List.mem_append_left _ hw)
      have hthere : v.agent.heap.isPromise d = true := by
        have hl := ht'.target.promise
        rw [ht'.lifted.agent] at hl
        exact hl (hstay v hv).2
      obtain ⟨result, hresult, hsettled, hfollows⟩ := ht'.outcome he rfl (hrunning v hv _ _ he rfl)
        (.step hs' hlater) (fun w hw => (hstay w (List.mem_append_right _ hw)).2)
        (ht.lifted.agent ▸ hqueue) (ht.lifted.agent ▸ hderived)
      refine ⟨earlier, v, later, completion, result, rfl, he, hresult, ?_, ?_⟩
      · rintro e rfl
        exact hsettled .reject result (resolution_of_plain hthere (Or.inl rfl))
      · rintro w rfl
        refine ⟨?_, fun hplain => ?_, ?_⟩
        · rintro rfl
          exact hsettled .reject chainingCycle (if_pos rfl)
        · exact hsettled .fulfill result (resolution_of_plain hthere (Or.inr hplain))
        · rintro other rfl hne hpromise hstays
          exact hfollows other (resolution_of_promise hne hpromise) hstays

/-- Registers a handler that gives the handle of another promise, and settles both promises. -/
def handing : Program Unit Empty :=
  .call .newResolver fun kept =>
    .call .newResolver fun source =>
      match kept, source with
      | some kept, some source =>
        .register (fun _ => .done (.ok (.handle kept.handle))) fun handler =>
          .call (.addReactions ⟨source.handle⟩ (some handler) none) fun _ =>
            .call (.resolve source .null) fun _ =>
              .call (.resolve kept (.bool true)) fun _ => .checkpoint fun _ => .done (.ok .null)
      | _, _ => .done (.error .undefined)

namespace Handing

/-- A machine on the way of `handing`: the records of its promises with their roots, each with a handle,
the jobs that wait, the open scopes and the handlers. -/
def machine (objects : List (PromiseRecord × UInt32)) (jobs : List Job) (scopes : List Nat)
    (functions : Array (Handler Unit Empty)) : Machine Agent Unit Empty :=
  let slots := objects.map fun object => (⟨0, some ⟨.promise object.1, object.2⟩⟩ : Slot)
  let entries := (List.range objects.length).map fun i => (⟨⟨1⟩, ⟨i, 0⟩, .promise⟩ : Binding)
  ⟨⟨⟨1⟩, .default, ⟨⟨slots.toArray, [], 65536, objects.length⟩, ⟨[], jobs⟩, false⟩,
    ⟨⟨1⟩, entries.toArray, Array.replicate objects.length 0, scopes⟩, .empty, functions⟩, ()⟩

def handler : Handler Unit Empty := fun _ => .done (.ok (.handle ⟨1, 0, 0⟩))

def native : NativeJob := ⟨.fulfill, ⟨0⟩, .null, ⟨2, 0⟩⟩

/-- A promise that was fulfilled, and whether something follows it. -/
def fulfilled (value : ManagedValue) (handled : Bool) : PromiseRecord :=
  ⟨.fulfilled value, true, handled, #[]⟩

def last : Program Unit Empty := .done (.ok .null)

def checks : Program Unit Empty := .checkpoint fun _ => last

def resolves : Program Unit Empty := .call (.resolve ⟨⟨1, 0, 0⟩⟩ (.bool true)) fun _ => checks

def settles : Program Unit Empty := .call (.resolve ⟨⟨1, 0, 1⟩⟩ .null) fun _ => resolves

def registering : Stage Agent Unit Empty :=
  ⟨machine [(.new, 1), (.new, 1)] [] [] #[handler],
    .call (.addReactions ⟨⟨1, 0, 1⟩⟩ (some ⟨0⟩) none) fun _ => settles, []⟩

def registered : Stage Agent Unit Empty :=
  ⟨machine
    [(.new, 1),
      (⟨.pending, false, true, #[⟨.derive (some ⟨0⟩) ⟨2, 0⟩, .derive none ⟨2, 0⟩⟩]⟩, 1),
      (.new, 1)] [] [] #[handler], settles, []⟩

def settled : Stage Agent Unit Empty :=
  ⟨machine [(.new, 1), (fulfilled .null true, 1), (.new, 1)]
    [.react .fulfill (.derive (some ⟨0⟩) ⟨2, 0⟩) .null] [] #[handler], resolves, []⟩

def resolved : Stage Agent Unit Empty :=
  ⟨machine [(fulfilled (.bool true) false, 1), (fulfilled .null true, 1), (.new, 1)]
    [.react .fulfill (.derive (some ⟨0⟩) ⟨2, 0⟩) .null] [] #[handler], checks, []⟩

/-- The handler runs. -/
def running : Stage Agent Unit Empty :=
  ⟨machine [(fulfilled (.bool true) false, 1), (fulfilled .null true, 1), (.new, 2)] [] [3]
    #[handler], .done (.ok (.handle ⟨1, 0, 0⟩)), [.reaction ⟨1, 3⟩ native fun _ => last]⟩

/-- The derived promise waits for the one that the handler gave. -/
def waiting : Stage Agent Unit Empty :=
  ⟨machine
    [(fulfilled (.bool true) false, 1), (fulfilled .null true, 1), (⟨.pending, true, false, #[]⟩, 1)]
    [.follow ⟨2, 0⟩ ⟨0, 0⟩] [] #[handler], checks, []⟩

def finished : Stage Agent Unit Empty :=
  ⟨machine
    [(fulfilled (.bool true) true, 1), (fulfilled .null true, 1), (fulfilled (.bool true) false, 1)]
    [] [] #[handler], last, []⟩

theorem step_resolved : resolved.step = .ok (running.program, running.frames) running.machine := by
  -- the loop over the jobs does not unfold by itself
  have hnext : Agent.nextJob resolved.agent = .ok (some native) running.agent := by
    rw [Agent.nextJob]
    rfl
  have hdue : Program.due resolved.machine =
      .ok (some (⟨1, 3⟩, native, running.program)) running.machine :=
    (bind_run _ (Run.nextJob_run hnext)).trans rfl
  exact (bind_run _ hdue).trans rfl

theorem step_waiting :
    waiting.step = .ok (finished.program, finished.frames) finished.machine := by
  let followed := machine
    [(fulfilled (.bool true) true, 1), (fulfilled .null true, 1), (⟨.pending, true, false, #[]⟩, 1)]
    [.react .fulfill (.adopt ⟨2, 0⟩) (.bool true)] [] #[handler]
  have hfollow : Agent.nextJob waiting.agent = Agent.nextJob followed.isolate.engine := by
    rw [Agent.nextJob]
    rfl
  have hadopt : Agent.nextJob followed.isolate.engine = Agent.nextJob finished.agent := by
    rw [Agent.nextJob]
    rfl
  have hnext : Agent.nextJob waiting.agent = .ok none finished.agent := by
    rw [hfollow, hadopt, Agent.nextJob]
    rfl
  have hdue : Program.due waiting.machine = .ok none finished.machine :=
    (bind_run _ (Run.nextJob_run hnext)).trans rfl
  exact (bind_run _ hdue).trans rfl

theorem trail : Trail registering [registering, registered, settled, resolved, running, waiting]
    finished := by
  refine .step (m := registered.machine) rfl ?_
  refine .step (m := settled.machine) rfl ?_
  refine .step (m := resolved.machine) rfl ?_
  refine .step step_resolved ?_
  refine .step (m := waiting.machine) rfl ?_
  exact .step step_waiting (.refl _)

theorem trail_start : ∃ before, Trail ⟨machine [] [] [] #[], handing, []⟩
    (before ++ [registering, registered, settled, resolved, running, waiting]) finished := by
  let first := machine [(.new, 1)] [] [] #[]
  let second := machine [(.new, 1), (.new, 1)] [] [] #[]
  exact ⟨[_, _, _], .step (m := first) rfl (.step (m := second) rfl
    (.step (m := registering.machine) rfl trail))⟩

theorem registers : registering.Registers ⟨1, 0⟩ (some ⟨0⟩) none ⟨2, 0⟩ :=
  .mk (b := ⟨⟨1⟩, ⟨1, 0⟩, .promise⟩) (c := ⟨⟨1⟩, ⟨2, 0⟩, .promise⟩) rfl rfl rfl rfl rfl rfl

variable {v : Stage Agent Unit Empty}

theorem mem_after (hv : v ∈ [registered, settled, resolved, running, waiting]) :
    v = registered ∨ v = settled ∨ v = resolved ∨ v = running ∨ v = waiting := by
  simpa only [List.mem_cons, List.not_mem_nil, or_false] using hv

theorem isLive (hv : v ∈ [registered, settled, resolved, running, waiting] ++ [finished])
    {ref : ObjectRef} (href : ref ∈ [⟨0, 0⟩, ⟨1, 0⟩, ⟨2, 0⟩]) : v.agent.heap.isLive ref = true := by
  have hall : ([registered, settled, resolved, running, waiting] ++ [finished]).all
      (fun v => [⟨0, 0⟩, ⟨1, 0⟩, ⟨2, 0⟩].all v.agent.heap.isLive) = true := rfl
  exact List.all_eq_true.1 (List.all_eq_true.1 hall v hv) ref href

/-- The program resolves the other two promises only. -/
theorem not_settles (hv : v ∈ [registered, settled, resolved, running, waiting]) :
    ¬ v.Settles ⟨2, 0⟩ := by
  intro hs
  cases hs with
  | resolve hp hb ho =>
    rcases mem_after hv with rfl | rfl | rfl | rfl | rfl <;> cases hp <;> cases hb <;> cases ho
  | reject hp => rcases mem_after hv with rfl | rfl | rfl | rfl | rfl <;> cases hp

theorem not_terminating (hv : v ∈ [registered, settled, resolved, running, waiting]) :
    v.agent.terminating = false := by
  rcases mem_after hv with rfl | rfl | rfl | rfl | rfl <;> rfl

/-- The one reaction ends with the step from `running`. -/
theorem eq_running (hv : v ∈ [registered, settled, resolved, running, waiting]) {job : NativeJob}
    {completion : Completion} (he : v.ends? = some (job, completion)) : v = running := by
  rcases mem_after hv with rfl | rfl | rfl | rfl | rfl
  · cases he
  · cases he
  · cases he
  · rfl
  · cases he

end Handing

open Handing

/-- The derived promise comes to what the promise that its handler gave has come to. -/
theorem registration_honoured_handing : ∃ (s u : Stage Agent Unit Empty)
    (after : List (Stage Agent Unit Empty)) (derived : PromiseRecord),
    s.Registers ⟨1, 0⟩ (some ⟨0⟩) none ⟨2, 0⟩ ∧ Trail s (s :: after) u ∧
      (begun after).filter (·.derived = ⟨2, 0⟩) = [⟨.fulfill, ⟨0⟩, .null, ⟨2, 0⟩⟩] ∧
      u.agent.heap.record? ⟨2, 0⟩ = .ok derived ∧ derived.status = .fulfilled (.bool true) := by
  obtain ⟨before, hway⟩ := trail_start
  have hnew : Isolate.new ⟨1⟩ .default = .ok (Handing.machine [] [] [] #[]).isolate := rfl
  obtain ⟨found, derived, hfound, hderived, -, hsettled⟩ := registration_honoured hnew () handing
    hway Handing.registers (fun v hv => ⟨isLive hv (by simp), isLive hv (by simp)⟩)
    (fun v hv => not_settles hv) (fun v hv _ _ _ _ => not_terminating hv) rfl rfl
  obtain rfl : found = fulfilled .null true := (Except.ok.inj hfound).symm
  obtain ⟨hbegun, -, hhandler⟩ := hsettled .fulfill .null rfl
  obtain ⟨-, earlier, v, later, completion, result, hsplit, he, hresult, -, hgiven⟩ :=
    hhandler ⟨0⟩ rfl
  obtain rfl : v = running := eq_running (hsplit ▸ List.mem_append_right _ List.mem_cons_self) he
  obtain ⟨-, rfl⟩ := Prod.mk.inj (Option.some.inj he)
  obtain rfl : result = .object ⟨0, 0⟩ := (Except.ok.inj hresult).symm
  obtain ⟨-, -, hfollows⟩ := hgiven _ rfl
  have hstays : ∀ w ∈ later ++ [finished], w.agent.heap.isLive ⟨0, 0⟩ = true := by
    intro w hw
    refine isLive ?_ (by simp)
    rw [hsplit, List.append_assoc]
    exact List.mem_append_right _ (List.mem_cons_of_mem _ hw)
  obtain ⟨followed, hfollowed, hagree⟩ := hfollows ⟨0, 0⟩ rfl (by decide) rfl hstays
  obtain rfl : followed = fulfilled (.bool true) true := (Except.ok.inj hfollowed).symm
  exact ⟨registering, finished, _, derived, Handing.registers, trail, hbegun, hderived, hagree⟩

end Stage

end Promises
