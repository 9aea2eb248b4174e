import Promises.Proofs.Agent.History
import Promises.Proofs.Agent.Names

namespace Promises

namespace History

open Agent

/-- The name of the object at a reference: its number, as a reference of its own. -/
def name (s : History) (ref : ObjectRef) : ObjectRef := ⟨s.number ref, 0⟩

/-- A call of the client, up to its end. -/
inductive Calls (s : History) : Call → Answer → History → Prop
  | once {c : Call} {answer : Answer} {b : Agent} (hn : c ≠ .nextJob)
    (hc : c.run s.agent = .ok answer b) : Calls s c answer (s.record (.call c answer) b)
  | next {native : Option NativeJob} {t : History} (hc : nextJob s.agent = .ok native t.agent)
    (hw : Works s native t) : Calls s .nextJob (.job native) t

/-- Two histories with the same objects, as far as a client may still ask for them. -/
structure Linked (s t : History) : Prop where
  born : s.born = t.born
  agents : Agent.Linked s.number t.number s.agent t.agent

abbrev Twins (s t : History) (p q : ObjectRef) : Prop :=
  Agent.Twins s.number t.number s.agent t.agent p q

/-- Histories that are linked, after answers that are the same in terms of names. -/
structure Agrees (s t : History) (x y : Answer) : Prop where
  linked : s.Linked t
  answers : x.shown.rename s.name = y.shown.rename t.name

variable {s t : History}

theorem Twins.name_eq {p q : ObjectRef} (h : s.Twins t p q) : s.name p = t.name q :=
  congrArg (ObjectRef.mk · 0) h.name

theorem agrees_of_birth?_eq_none (h : s.Linked t) {c d : Call} {x y : Answer} {a b : Agent}
    (hx : c.birth? s.agent x = none) (hy : d.birth? t.agent y = none)
    (hab : Agent.Linked s.number t.number a b)
    (hxy : x.shown.rename s.name = y.shown.rename t.name) :
    (s.record (.call c x) a).Agrees (t.record (.call d y) b) x y := by
  rw [record, record, hx, hy]
  exact ⟨⟨h.born, hab⟩, hxy⟩

/-- Alike looks at the records of twins are answered alike. -/
theorem look_agrees (h : s.Linked t) {p q : ObjectRef} (hpq : s.Twins t p q) {α : Type}
    {look look' : PromiseRecord → α} {rename rename' : α → α}
    (hlook : ∀ r r', r.Alike (s.Twins t) r' → rename (look r) = rename' (look' r')) :
    renameAnswer s.name rename ((s.agent.heap.record? p).map look) =
      renameAnswer t.name rename' ((t.agent.heap.record? q).map look') := by
  rcases h.agents.record? hpq with ⟨r, r', hr, hr', halike⟩ | ⟨hr, hr'⟩
  · rw [hr, hr']
    exact congrArg Except.ok (hlook r r' halike)
  · rw [hr, hr']
    exact congrArg (fun ref => Except.error (EngineError.notAPromise ref)) hpq.name_eq

/-- Twins are resolved or rejected alike. -/
theorem unlessTerminating_agrees (hs : s.Sound) (ht : t.Sound) (h : s.Linked t)
    {kind : ReactionKind} {p q : ObjectRef} (hpq : s.Twins t p q) {v w : ManagedValue}
    (hv : v.Alike (s.Twins t) w) {f g : Request Agent Bool}
    (hf : f s.agent = if s.agent.terminating then .ok (.error .terminated) s.agent
      else passOn kind p v s.agent)
    (hg : g t.agent = if t.agent.terminating then .ok (.error .terminated) t.agent
      else passOn kind q w t.agent) :
    ∃ x a y b, f s.agent = .ok x a ∧ g t.agent = .ok y b ∧
      Agent.Linked s.number t.number a b ∧ renameAnswer s.name id x = renameAnswer t.name id y := by
  obtain ⟨x, a, y, b, hx, hy, ⟨hab, -⟩, hxy⟩ := (Linked.steady s.number t.number _).unlessTerminating
    ⟨h.agents, rfl⟩ hs.agent ht.agent hpq hv hf hg
  refine ⟨x, a, y, b, hx, hy, hab, ?_⟩
  cases hxy with
  | ok v => rfl
  | error he =>
    cases he with
    | terminated => rfl
    | notAPromise hpq =>
      exact congrArg (fun ref => Except.error (EngineError.notAPromise ref)) (Twins.name_eq hpq)

/-- Both sides refuse for the same reason, or make an object of the same new name. -/
inductive Bears (s t : History) : Except EngineError ObjectRef → Agent →
    Except EngineError ObjectRef → Agent → Prop
  | refused {e : EngineError} {e' : EngineError} {a b : Agent}
    (he : e.rename s.name = e'.rename t.name) (h : Agent.Linked s.number t.number a b) :
    Bears s t (.error e) a (.error e') b
  | made {p q : ObjectRef} {a b : Agent}
    (h : Agent.Linked (Function.update s.number p s.born) (Function.update t.number q s.born) a b) :
    Bears s t (.ok p) a (.ok q) b

theorem Bears.agrees (h : s.Linked t) {c d : Call} {x y : Except EngineError ObjectRef}
    {a b : Agent} (hb : s.Bears t x a y b) (hc : c.birth? s.agent (.object x) = x.toOption)
    (hd : d.birth? t.agent (.object y) = y.toOption) :
    (s.record (.call c (.object x)) a).Agrees (t.record (.call d (.object y)) b)
      (.object x) (.object y) := by
  cases hb with
  | refused he hab =>
    refine agrees_of_birth?_eq_none h hc hd hab ?_
    exact congrArg (fun e => Answer.object (.error e)) he
  | @made p q a b hab =>
    rw [record, record, hc, hd]
    refine ⟨⟨congrArg (· + 1) h.born, ?_⟩, ?_⟩
    · simpa only [bear, after, Except.toOption, ← h.born] using hab
    · have hname {u : History} {ref : ObjectRef} {k : Nat} {e : Agent} :
          ((u.bear (some ref)).after k e).name ref = ⟨u.born, 0⟩ := by
        simp only [name, bear, after, Function.update_self]
      simp only [Answer.shown, Answer.rename, renameAnswer, Except.toOption]
      rw [hname, hname, h.born]

theorem fresh (hs : s.Sound) (ht : t.Sound) (h : s.Linked t) {a b : Agent}
    (ha : ∀ ref, a.heap.isLive ref = true → s.agent.heap.isLive ref = true)
    (hb : ∀ ref, b.heap.isLive ref = true → t.agent.heap.isLive ref = true) :
    (∀ ref, a.heap.isLive ref = true → s.number ref < s.born) ∧
    ∀ ref, b.heap.isLive ref = true → t.number ref < s.born := by
  refine ⟨fun ref hl => hs.number_lt ref (ha ref hl), fun ref hl => ?_⟩
  rw [h.born]
  exact ht.number_lt ref (hb ref hl)

theorem allocate_bears (hs : s.Sound) (ht : t.Sound) (h : s.Linked t) (object : HeapObject)
    (ho : ∀ R, object.Alike R object) :
    ∃ x a y b, allocate object s.agent = .ok x a ∧ allocate object t.agent = .ok y b ∧
      s.Bears t x a y b := by
  rw [allocate_run, allocate_run, h.agents.terminating,
    h.agents.isFull_makeRoom_eq hs.agent.shape ht.agent.shape]
  split
  · exact ⟨_, _, _, _, rfl, rfl, .refused rfl h.agents⟩
  · split
    · refine ⟨_, _, _, _, rfl, rfl, .refused ?_ h.agents.makeRoom⟩
      rw [h.agents.makeRoom.limit]
      rfl
    · refine ⟨_, _, _, _, rfl, rfl, .made ?_⟩
      have hshape {u : History} (hu : u.Sound) : u.agent.makeRoom.heap.WellFormed :=
        (hu.agent.idles (idles_makeRoom _)).shape
      obtain ⟨hlt, hlt'⟩ := fresh hs ht h (fun ref => (kept_makeRoom s.agent).isLive)
        fun ref => (kept_makeRoom t.agent).isLive
      exact h.agents.makeRoom.placed (hshape hs) (hshape ht) object ho hlt hlt'

/-- Twins stay twins while room for a derived promise is made. -/
theorem room_linked (h : s.Linked t) {p q : ObjectRef} (hpq : s.Twins t p q)
    {r r' : PromiseRecord} (hr : s.agent.heap.record? p = .ok r)
    (hr' : t.agent.heap.record? q = .ok r') (hroom : s.agent.heap.rootCount p + 1 < UInt32.size) :
    Agent.Linked s.number t.number (s.agent.retained p).makeRoom (t.agent.retained q).makeRoom ∧
    Agent.Twins s.number t.number (s.agent.retained p).makeRoom (t.agent.retained q).makeRoom
      p q := by
  refine ⟨(h.agents.retained hpq).makeRoom, ?_, ?_, hpq.name⟩
  · exact isLive_makeRoom_retained hr hroom
  · rw [h.agents.rootCount_eq hpq] at hroom
    exact isLive_makeRoom_retained hr' hroom

theorem withDerived_linked (hs : s.Sound) (ht : t.Sound) (h : s.Linked t) {p q : ObjectRef}
    (hpq : s.Twins t p q) {r r' : PromiseRecord} (hr : s.agent.heap.record? p = .ok r)
    (hr' : t.agent.heap.record? q = .ok r') (hroom : s.agent.heap.rootCount p + 1 < UInt32.size) :
    Agent.Linked (Function.update s.number (s.agent.derivedRef p) s.born)
      (Function.update t.number (t.agent.derivedRef q) s.born) (s.agent.withDerived p)
      (t.agent.withDerived q) ∧
    Agent.Twins (Function.update s.number (s.agent.derivedRef p) s.born)
      (Function.update t.number (t.agent.derivedRef q) s.born) (s.agent.withDerived p)
      (t.agent.withDerived q) p q := by
  have hroom' : t.agent.heap.rootCount q + 1 < UInt32.size := h.agents.rootCount_eq hpq ▸ hroom
  obtain ⟨hlinked, htwins⟩ := room_linked h hpq hr hr' hroom
  have hshape := (hs.agent.makeRoom_retained p).shape
  have hshape' := (ht.agent.makeRoom_retained q).shape
  -- room is made by collections alone, so that what is live then was live before
  have hback {a : Agent} {ref x : ObjectRef} (hx : (a.retained ref).makeRoom.heap.isLive x = true) :
      a.heap.isLive x = true := by
    have hx : (a.retained ref).heap.isLive x = true := (kept_makeRoom _).isLive hx
    rwa [retained, Heap.retain, Heap.isLive_update] at hx
  obtain ⟨hlt, hlt'⟩ := fresh hs ht h (fun _ => hback) fun _ => hback
  have hplaced := hlinked.placed hshape hshape' (.promise .new) (fun _ => .promise .new) hlt hlt'
  have hkept := htwins.placed hshape hshape' (.promise .new) s.born
  refine ⟨hplaced.released hkept, ?_, ?_, hkept.name⟩
  · exact isLive_withDerived hs.agent hr hroom
  · exact isLive_withDerived ht.agent hr' hroom'

/-- Registrations with twins are refused alike or derive promises of the same new name, and no promise is
made that is not told of. -/
theorem addReactions_bears (hs : s.Sound) (ht : t.Sound) (h : s.Linked t) {p q : ObjectRef}
    (hpq : s.Twins t p q) (hroom : s.agent.heap.rootCount p + 1 < UInt32.size) (f g : Option FunctionId) :
    ∃ x a y b, addReactions p f g s.agent = .ok x a ∧ addReactions q f g t.agent = .ok y b ∧
      s.Bears t x a y b ∧
      (Call.addReactions p f g).birth? s.agent (.object x) = x.toOption ∧
      (Call.addReactions q f g).birth? t.agent (.object y) = y.toOption := by
  have hroom' : t.agent.heap.rootCount q + 1 < UInt32.size := h.agents.rootCount_eq hpq ▸ hroom
  rw [addReactions_of_room hs.agent p f g hroom, addReactions_of_room ht.agent q f g hroom']
  rcases h.agents.record? hpq with ⟨r, r', hr, hr', -⟩ | ⟨hr, hr'⟩
  · have hshape := (hs.agent.idle (.retain _ p)).shape
    have hshape' := (ht.agent.idle (.retain _ q)).shape
    have hfull := (h.agents.retained hpq).isFull_makeRoom_eq hshape hshape'
    rw [hr, hr']
    simp only [h.agents.terminating, hfull]
    split
    · exact ⟨_, _, _, _, rfl, rfl, .refused rfl h.agents, rfl, rfl⟩
    · split
      · obtain ⟨hlinked, htwins⟩ := room_linked h hpq hr hr' hroom
        refine ⟨_, _, _, _, rfl, rfl, .refused ?_ (hlinked.released htwins), rfl, rfl⟩
        rw [hlinked.limit]
        rfl
      · obtain ⟨hlinked, htwins⟩ := withDerived_linked hs ht h hpq hr hr' hroom
        have hkept := record?_withDerived hs.agent hr (isLive_withDerived hs.agent hr hroom)
        have hkept' := record?_withDerived ht.agent hr' (isLive_withDerived ht.agent hr' hroom')
        -- the sources keep their records while the derived promises are made
        obtain ⟨x, x', hx, hx', halike⟩ | ⟨hx, -⟩ := hlinked.record? htwins
        · obtain rfl : r = x := Except.ok.inj (hkept.symm.trans hx)
          obtain rfl : r' = x' := Except.ok.inj (hkept'.symm.trans hx')
          have hderived : Agent.Twins (Function.update s.number (s.agent.derivedRef p) s.born)
              (Function.update t.number (t.agent.derivedRef q) s.born) (s.agent.withDerived p)
              (t.agent.withDerived q) (s.agent.derivedRef p) (t.agent.derivedRef q) := by
            refine ⟨Heap.isLive_of_isPromise (isPromise_derivedRef hs.agent p),
              Heap.isLive_of_isPromise (isPromise_derivedRef ht.agent q), ?_⟩
            rw [Function.update_self, Function.update_self]
          refine ⟨_, _, _, _, rfl, rfl, .made ?_, rfl, rfl⟩
          exact hlinked.attaching htwins halike ⟨.derive f hderived, .derive g hderived⟩
        · rw [hkept] at hx
          cases hx
  · rw [hr, hr']
    refine ⟨_, _, _, _, rfl, rfl, .refused ?_ h.agents, Call.birth?_of_error hr f g,
      Call.birth?_of_error hr' f g⟩
    exact congrArg EngineError.notAPromise hpq.name_eq

/-- The objects that a call names are twins, for either side by the reference that it passes. -/
def Passes (s t : History) (k : Call) (pass pass' : ObjectRef → ObjectRef) : Prop :=
  ∀ ref ∈ k.references, s.Twins t (pass ref) (pass' ref)

theorem Passes.value {k : Call} {pass pass' : ObjectRef → ObjectRef} (hp : s.Passes t k pass pass')
    {value : ManagedValue} (hk : ∀ ref ∈ value.objectRef?.toList, ref ∈ k.references) :
    (value.rename pass).Alike (s.Twins t) (value.rename pass') := by
  cases value with
  | object ref => exact .object (hp ref (hk ref (by simp)))
  | _ => exact .plain rfl

/-- The same call of both sides is answered alike. -/
theorem call_agrees (hs : s.Sound) (ht : t.Sound) (h : s.Linked t) {k : Call}
    (hn : k ≠ .nextJob) {pass pass' : ObjectRef → ObjectRef} (hp : s.Passes t k pass pass')
    (hroom : (k.rename pass).HasRoom s.agent) :
    ∃ x a y b, (k.rename pass).run s.agent = .ok x a ∧ (k.rename pass').run t.agent = .ok y b ∧
      (s.record (.call (k.rename pass) x) a).Agrees (t.record (.call (k.rename pass') y) b) x y := by
  -- what an inner request comes to on both sides, the call comes to
  have hmap {α : Type} {f : α → Answer} {m n : Action Agent α}
      (hx : ∃ v a w b, m s.agent = .ok v a ∧ n t.agent = .ok w b ∧
        (s.record (.call (k.rename pass) (f v)) a).Agrees
          (t.record (.call (k.rename pass') (f w)) b) (f v) (f w)) :
      ∃ x a y b, (f <$> m) s.agent = .ok x a ∧ (f <$> n) t.agent = .ok y b ∧
        (s.record (.call (k.rename pass) x) a).Agrees
          (t.record (.call (k.rename pass') y) b) x y := by
    obtain ⟨v, a, w, b, hv, hw, hxy⟩ := hx
    exact ⟨f v, a, f w, b, by rw [Action.map_run, hv], by rw [Action.map_run, hw], hxy⟩
  cases k with
  | isPromise ref =>
    refine ⟨_, _, _, _, rfl, rfl, agrees_of_birth?_eq_none h rfl rfl h.agents ?_⟩
    exact congrArg Answer.flag (h.agents.isPromise_eq (hp ref List.mem_cons_self))
  | newObject =>
    obtain ⟨x, a, y, b, hx, hy, hb⟩ := allocate_bears hs ht h .plain fun _ => .plain
    exact hmap ⟨x, a, y, b, hx, hy,
      hb.agrees h (Call.birth?_newObject x) (Call.birth?_newObject y)⟩
  | state ref =>
    refine hmap ⟨_, _, _, _, look_run _ _ _, look_run _ _ _, ?_⟩
    refine agrees_of_birth?_eq_none h rfl rfl h.agents (congrArg Answer.state ?_)
    exact look_agrees h (hp ref List.mem_cons_self) fun r r' halike =>
      halike.status.state_eq
  | result ref =>
    refine hmap ⟨_, _, _, _, look_run _ _ _, look_run _ _ _, ?_⟩
    refine agrees_of_birth?_eq_none h rfl rfl h.agents (congrArg Answer.value ?_)
    exact look_agrees h (hp ref List.mem_cons_self) fun r r' halike =>
      halike.status.result.rename_eq fun _ _ hpq => Twins.name_eq hpq
  | newResolver =>
    obtain ⟨x, a, y, b, hx, hy, hb⟩ :=
      allocate_bears hs ht h (.promise .new) fun _ => .promise .new
    exact hmap ⟨x, a, y, b, hx, hy,
      hb.agrees h (Call.birth?_newResolver x) (Call.birth?_newResolver y)⟩
  | resolve ref value =>
    obtain ⟨x, a, y, b, hx, hy, hab, hxy⟩ := unlessTerminating_agrees hs ht h
      (hp ref List.mem_cons_self) (hp.value fun _ hm => List.mem_cons_of_mem _ hm)
      (resolve_run _ _ _) (resolve_run _ _ _)
    exact hmap ⟨x, a, y, b, hx, hy,
      agrees_of_birth?_eq_none h rfl rfl hab (congrArg Answer.settled hxy)⟩
  | reject ref reason =>
    obtain ⟨x, a, y, b, hx, hy, hab, hxy⟩ := unlessTerminating_agrees hs ht h
      (hp ref List.mem_cons_self) (hp.value fun _ hm => List.mem_cons_of_mem _ hm)
      (reject_run _ _ _) (reject_run _ _ _)
    exact hmap ⟨x, a, y, b, hx, hy,
      agrees_of_birth?_eq_none h rfl rfl hab (congrArg Answer.settled hxy)⟩
  | promiseOf ref =>
    have hpq : s.Twins t (pass ref) (pass' ref) := hp ref List.mem_cons_self
    refine hmap ⟨_, _, _, _, promiseOf_run _ _, promiseOf_run _ _, ?_⟩
    refine agrees_of_birth?_eq_none h ?_ ?_ h.agents (congrArg Answer.object ?_)
    · cases s.agent.heap.record? (pass ref) <;> rfl
    · cases t.agent.heap.record? (pass' ref) <;> rfl
    · exact look_agrees h hpq fun _ _ _ => hpq.name_eq
  | addReactions ref f g =>
    obtain ⟨x, a, y, b, hx, hy, hb, hbirth, hbirth'⟩ :=
      addReactions_bears hs ht h (hp ref List.mem_cons_self) hroom f g
    exact hmap ⟨x, a, y, b, hx, hy, hb.agrees h hbirth hbirth'⟩
  | hasHandler ref =>
    refine hmap ⟨_, _, _, _, look_run _ _ _, look_run _ _ _, ?_⟩
    refine agrees_of_birth?_eq_none h rfl rfl h.agents (congrArg Answer.has ?_)
    exact look_agrees h (hp ref List.mem_cons_self) fun r r' halike => halike.handled
  | markHandled ref =>
    have hpq : s.Twins t (pass ref) (pass' ref) := hp ref List.mem_cons_self
    have hrun := markHandled_run (pass ref) s.agent
    have hrun' := markHandled_run (pass' ref) t.agent
    rcases h.agents.record? hpq with ⟨r, r', hr, hr', halike⟩ | ⟨hr, hr'⟩
    · rw [hr] at hrun
      rw [hr'] at hrun'
      exact hmap ⟨_, _, _, _, hrun, hrun',
        agrees_of_birth?_eq_none h rfl rfl (h.agents.handled hpq halike) rfl⟩
    · rw [hr] at hrun
      rw [hr'] at hrun'
      refine hmap ⟨_, _, _, _, hrun, hrun', agrees_of_birth?_eq_none h rfl rfl h.agents ?_⟩
      exact congrArg (fun ref => Answer.marked (.error (.notAPromise ref))) hpq.name_eq
  | nextJob => exact absurd rfl hn
  | retain ref =>
    have hab := h.agents.retained (hp ref List.mem_cons_self)
    exact ⟨_, _, _, _, rfl, rfl, agrees_of_birth?_eq_none h rfl rfl hab rfl⟩
  | release ref =>
    have hab := h.agents.released (hp ref List.mem_cons_self)
    exact ⟨_, _, _, _, rfl, rfl, agrees_of_birth?_eq_none h rfl rfl hab rfl⟩
  | rootCount ref =>
    refine ⟨_, _, _, _, rfl, rfl, agrees_of_birth?_eq_none h rfl rfl h.agents ?_⟩
    exact congrArg Answer.count (h.agents.rootCount_eq (hp ref List.mem_cons_self))
  | collectGarbage =>
    have hab := h.agents.kept (kept_collected s.agent) (kept_collected t.agent)
    exact ⟨_, _, _, _, rfl, rfl, agrees_of_birth?_eq_none h rfl rfl hab rfl⟩
  | stats =>
    refine ⟨_, _, _, _, rfl, rfl, agrees_of_birth?_eq_none h rfl rfl h.agents ?_⟩
    simp only [Answer.shown, Answer.rename, Agent.stats, h.agents.limit, h.agents.rooted_eq,
      h.agents.pendingJobs_eq]
  | terminate =>
    exact ⟨_, _, _, _, rfl, rfl, agrees_of_birth?_eq_none h rfl rfl (h.agents.flagged true) rfl⟩
  | cancelTermination =>
    exact ⟨_, _, _, _, rfl, rfl, agrees_of_birth?_eq_none h rfl rfl (h.agents.flagged false) rfl⟩
  | isTerminating =>
    refine ⟨_, _, _, _, rfl, rfl, agrees_of_birth?_eq_none h rfl rfl h.agents ?_⟩
    exact congrArg Answer.flag h.agents.terminating

/-- Linked histories run alike jobs. -/
theorem job_linked (hs : s.Sound) (ht : t.Sound) (h : s.Linked t) {x y : Job}
    {native native' : Option NativeJob} {s' t' : History} (hx : Step s (.job x native) s')
    (hy : Step t (.job y native') t') :
    s'.Linked t' ∧ native.map (NativeJob.rename s'.name) =
      native'.map (NativeJob.rename t'.name) := by
  obtain ⟨hx⟩ := hx
  obtain ⟨hy⟩ := hy
  obtain ⟨qa, -, hqa, rfl, rfl⟩ := Agent.Step.job_inv hs.agent hx
  obtain ⟨qb, -, hqb, rfl, rfl⟩ := Agent.Step.job_inv ht.agent hy
  -- queues that are alike have first jobs that are alike
  rcases h.agents.pop with ⟨hnone, -⟩ | ⟨x', y', qa', qb', hqa', hqb', hxy, hpop⟩
  · rw [hqa] at hnone
    cases hnone
  · rw [hqa, Option.some.injEq, Prod.mk.injEq] at hqa'
    rw [hqb, Option.some.injEq, Prod.mk.injEq] at hqb'
    obtain ⟨rfl, rfl⟩ := hqa'
    obtain ⟨rfl, rfl⟩ := hqb'
    have htwins : Agent.Twins s.number t.number { s.agent with queue := qa }
        { t.agent with queue := qb } = s.Twins t := twins_congr (fun _ => rfl) fun _ => rfl
    refine ⟨⟨h.born, hpop.working (htwins.symm ▸ hxy)⟩, ?_⟩
    have hnative := hxy.native?
    revert hnative
    generalize x.native? = m
    generalize y.native? = n
    intro hmn
    cases hmn with
    | none => rfl
    | some hmn =>
      -- a job leaves the names as they are
      have hname (p q : ObjectRef) (hpq : s.Twins t p q) : s.name p = t.name q := hpq.name_eq
      exact congrArg some (hmn.rename_eq hname)

/-- A history that has no job to run has no step that runs one. -/
theorem Step.not_idle {x : Job} {native : Option NativeJob} (hx : Step s (.job x native) t) :
    ¬ (s.agent.terminating = true ∨ s.agent.queue.toList = []) := by
  obtain ⟨hx⟩ := hx
  cases hx with
  | job ht hp hj =>
    rw [ht, JobQueue.toList_of_pop?_eq_some hp]
    simp

theorem idle_iff (h : s.Linked t) :
    (s.agent.terminating = true ∨ s.agent.queue.toList = []) ↔
      (t.agent.terminating = true ∨ t.agent.queue.toList = []) := by
  have hlen : s.agent.queue.toList.length = t.agent.queue.toList.length := h.agents.queue.length_eq
  rw [h.agents.terminating, ← List.length_eq_zero_iff, ← List.length_eq_zero_iff, hlen]

/-- Calls for the next native job work in lockstep. -/
theorem Works.agrees {native native' : Option NativeJob} {s' t' : History}
    (hw : Works s native s') (hs : s.Sound) (ht : t.Sound) (h : s.Linked t)
    (hw' : Works t native' t') : s'.Agrees t' (.job native) (.job native') := by
  induction hw generalizing t with
  | idle hi =>
    cases hw' with
    | idle => exact ⟨h, rfl⟩
    | last hy => exact absurd ((idle_iff h).1 hi) hy.not_idle
    | more hy _ => exact absurd ((idle_iff h).1 hi) hy.not_idle
  | last hx =>
    -- alike jobs hand out native jobs on both sides or on neither
    cases hw' with
    | idle hi => exact absurd ((idle_iff h).2 hi) hx.not_idle
    | last hy =>
      obtain ⟨hlinked, hnative⟩ := job_linked hs ht h hx hy
      exact ⟨hlinked, congrArg Answer.job hnative⟩
    | more hy _ =>
      obtain ⟨-, hnative⟩ := job_linked hs ht h hx hy
      cases hnative
  | more hx _ ih =>
    cases hw' with
    | idle hi => exact absurd ((idle_iff h).2 hi) hx.not_idle
    | last hy =>
      obtain ⟨-, hnative⟩ := job_linked hs ht h hx hy
      cases hnative
    | more hy hw' =>
      obtain ⟨hlinked, -⟩ := job_linked hs ht h hx hy
      exact ih (hx.sound hs) (hy.sound ht) hlinked hw'

theorem Calls.later {c : Call} {answer : Answer} (h : Calls s c answer t) : Later s t := by
  cases h with
  | once hn hc => exact .single ⟨_, .mk (.call hn hc)⟩
  | next hc hw => exact hw.later

theorem Calls.sound (hs : s.Sound) {c : Call} {answer : Answer} (h : Calls s c answer t) :
    t.Sound := Moves.sound hs (h.later.moves hs)

/-- The same call of linked histories, up to its end. -/
theorem Calls.agrees (hs : s.Sound) (ht : t.Sound) (h : s.Linked t) {k : Call}
    {pass pass' : ObjectRef → ObjectRef} (hp : s.Passes t k pass pass')
    (hroom : (k.rename pass).HasRoom s.agent) {x y : Answer} {s' t' : History}
    (hx : Calls s (k.rename pass) x s') (hy : Calls t (k.rename pass') y t') :
    s'.Agrees t' x y := by
  by_cases hn : k = .nextJob
  · subst k
    cases hx with
    | once hn _ => exact absurd rfl hn
    | next _ hw =>
      cases hy with
      | once hn _ => exact absurd rfl hn
      | next _ hw' => exact hw.agrees hs ht h hw'
  · obtain ⟨x', a, y', b, hx', hy', hagrees⟩ := call_agrees hs ht h hn hp hroom
    have hrename (f : ObjectRef → ObjectRef) : k.rename f ≠ .nextJob := by
      cases k <;> simp_all [Call.rename]
    -- a call of one history is answered in one way
    have hinv {u u' : History} {c : Call} {z z' : Answer} {d : Agent} (hc : c ≠ .nextJob)
        (hz : Calls u c z u') (hd : c.run u.agent = .ok z' d) :
        z = z' ∧ u' = u.record (.call c z') d := by
      cases hz with
      | once _ hz =>
        rw [hd, EStateM.Result.ok.injEq] at hz
        obtain ⟨rfl, rfl⟩ := hz
        exact ⟨rfl, rfl⟩
      | next => exact absurd rfl hc
    obtain ⟨rfl, rfl⟩ := hinv (hrename pass) hx hx'
    obtain ⟨rfl, rfl⟩ := hinv (hrename pass') hy hy'
    exact hagrees

/-- Collections that come in between. -/
abbrev Collects : History → History → Prop :=
  Relation.ReflTransGen fun s t => ∃ answer, Calls s .collectGarbage answer t

/-- A client plays a script, which calls objects by their names. It passes live references, and does
not see where the objects lie. The count of the roots of a source can hold one more when reactions are
registered with it. There may be collections before each call. -/
inductive Plays : History → List Call → List Answer → History → Prop
  | done {s t : History} (hg : Collects s t) : Plays s [] [] t
  | call {s t u v : History} {k : Call} {answer : Answer} {script : List Call}
    {answers : List Answer} (pass : ObjectRef → ObjectRef) (hg : Collects s t)
    (hp : ∀ ref ∈ k.references, t.agent.heap.isLive (pass ref) = true ∧ t.name (pass ref) = ref)
    (hr : (k.rename pass).HasRoom t.agent) (hc : Calls t (k.rename pass) answer u)
    (rest : Plays u script answers v) :
    Plays s (k :: script) (answer.shown.rename u.name :: answers) v

theorem Collects.sound (hg : Collects s t) (hs : s.Sound) : t.Sound := by
  induction hg with
  | refl => exact hs
  | tail _ hc ih =>
    obtain ⟨answer, hc⟩ := hc
    exact hc.sound ih

theorem Calls.collected {answer : Answer} (h : Calls s .collectGarbage answer t) :
    t = s.after s.agent.queue.length s.agent.collected := by
  cases h with
  | once _ hc =>
    obtain ⟨rfl, rfl⟩ := EStateM.Result.ok.inj hc
    rfl

/-- What is collected on one side is still linked with the other. -/
theorem Collects.linked {s' t' : History} (hg : Collects s s') (hg' : Collects t t')
    (h : s.Linked t) : s'.Linked t' := by
  have hleft : s'.Linked t := by
    induction hg with
    | refl => exact h
    | tail _ hc ih =>
      obtain ⟨answer, hc⟩ := hc
      rw [hc.collected]
      exact ⟨ih.born, ih.agents.kept (kept_collected _) (kept_self _)⟩
  induction hg' with
  | refl => exact hleft
  | tail _ hc ih =>
    obtain ⟨answer, hc⟩ := hc
    rw [hc.collected]
    exact ⟨ih.born, ih.agents.kept (kept_self _) (kept_collected _)⟩

/-- What the client names is twins, for clients that pass live references by name. -/
theorem passes_of_name {k : Call} {pass pass' : ObjectRef → ObjectRef}
    (hp : ∀ ref ∈ k.references, s.agent.heap.isLive (pass ref) = true ∧ s.name (pass ref) = ref)
    (hp' : ∀ ref ∈ k.references,
      t.agent.heap.isLive (pass' ref) = true ∧ t.name (pass' ref) = ref) :
    s.Passes t k pass pass' := by
  intro ref hm
  obtain ⟨hl, hn⟩ := hp ref hm
  obtain ⟨hl', hn'⟩ := hp' ref hm
  have hname : s.name (pass ref) = t.name (pass' ref) := hn.trans hn'.symm
  exact ⟨hl, hl', congrArg ObjectRef.index hname⟩

/-- Clients that play one script from linked histories get the same answers. -/
theorem Plays.agrees {script : List Call} {as bs : List Answer} {s' t' : History}
    (hx : Plays s script as s') (hs : s.Sound) (ht : t.Sound) (h : s.Linked t)
    (hy : Plays t script bs t') : as = bs ∧ s'.Linked t' ∧ s'.Sound ∧ t'.Sound := by
  induction hx generalizing t bs with
  | done hg =>
    cases hy with
    | done hg' => exact ⟨rfl, hg.linked hg' h, hg.sound hs, hg'.sound ht⟩
  | call pass hg hp hr hc _ ih =>
    cases hy with
    | call pass' hg' hp' _ hc' rest' =>
      have hs := hg.sound hs
      have ht := hg'.sound ht
      have hagrees := hc.agrees hs ht (hg.linked hg' h) (passes_of_name hp hp') hr hc'
      obtain ⟨htail, hend⟩ := ih (hc.sound hs) (hc'.sound ht) hagrees.linked rest'
      exact ⟨by rw [hagrees.answers, htail], hend⟩

end History

end Promises
