import Promises.Proofs.Paired.Alongside
import Promises.Proofs.Paired.Requests

namespace Promises

open Agent (Advance Remaining)
open Isolate (ask_of_run binding_run onAgent_error onAgent_ok)

namespace Script

/-- Outcomes without room for what was to be made. -/
inductive Short {σ : Type} : EStateM.Result Fault σ (Answer × Notebook) → Prop
  | full (s : σ) : Short (.error .tableFull s)
  | exhausted (n : Notebook) (s : σ) : Short (.ok (.exhausted, n) s)

/-- What a move comes to. -/
abbrev Result (ε : Type) := EStateM.Result Fault (Move.Place ε) (Answer × Notebook)

/-- What a move comes to over two engines: one side is short of room, or both come to the same fault, or both
give the same answer and have come equally far. -/
inductive Outcome : Result Agent → Result Paired → Prop
  | left {x : Result Agent} {y : Result Paired} (h : Short x) : Outcome x y
  | right {x : Result Agent} {y : Result Paired} (h : Short y) : Outcome x y
  | fault (f : Fault) (s : Move.Place Agent) (t : Move.Place Paired) : Outcome (.error f s) (.error f t)
  | both (answer : Answer) {R : ObjectRef → ObjectRef → Prop} {pairs : List (ObjectRef × ObjectRef)}
    {s t : Move.Place Agent} {n n' : Notebook} (h : Alongside R pairs s t n n') :
    Outcome (.ok (answer, n) s) (.ok (answer, n') (t.withPairs pairs))

variable {R : ObjectRef → ObjectRef → Prop} {pairs : List (ObjectRef × ObjectRef)}
  {s t : Move.Place Agent} {n n' : Notebook} {x y : Thing} {b b' : Binding}

namespace Outcome

variable {f : HandleId → Action (Move.Place Agent) (Answer × Notebook)}
  {g : HandleId → Action (Move.Place Paired) (Answer × Notebook)}

/-- The right side gets a handle, and goes on with it. -/
theorem register_right {x : Result Agent}
    (h : Alongside R pairs s t n n') (hb : t.engine.heap.kind? b.object = some b.kind)
    (hg : Alongside R pairs s (t.entered b) n n' → (t.entered b).handles.get t.handles.nextId = .ok b →
      Outcome x (g t.handles.nextId ((t.entered b).withPairs pairs))) :
    Outcome x ((Isolate.register b >>= g) (t.withPairs pairs)) := by
  by_cases hroom : t.handles.entries.size < HandleId.capacity
  · rw [bind_run g (onAgent_ok (Isolate.register_eq b) (Isolate.register_room b hroom) pairs)]
    exact hg (h.entered_right hb hroom) (h.abreast.right.get_entered b hroom)
  · obtain ⟨next, hfull⟩ := Isolate.register_full b hroom
    rw [bind_error g (onAgent_error (Isolate.register_eq b) hfull pairs)]
    exact .right (.full _)

/-- Both sides get a handle, and go on with it. -/
theorem register (h : Alongside R pairs s t n n') (hb : s.engine.heap.kind? b.object = some b.kind)
    (hb' : t.engine.heap.kind? b'.object = some b'.kind)
    (hfg : Alongside R pairs (s.entered b) (t.entered b') n n' →
      (s.entered b).handles.get s.handles.nextId = .ok b →
      (t.entered b').handles.get t.handles.nextId = .ok b' →
      Outcome (f s.handles.nextId (s.entered b)) (g t.handles.nextId ((t.entered b').withPairs pairs))) :
    Outcome ((Isolate.register b >>= f) s) ((Isolate.register b' >>= g) (t.withPairs pairs)) := by
  by_cases hroom : s.handles.entries.size < HandleId.capacity
  · rw [bind_run f (Isolate.register_room b hroom)]
    exact register_right (h.entered_left hb hroom) hb' fun halong hget =>
      hfg halong (h.abreast.left.get_entered b hroom) hget
  · obtain ⟨next, hfull⟩ := Isolate.register_full b hroom
    rw [bind_error f hfull]
    exact .left (.full _)

theorem wrap_right {x : Result Agent} {q : ObjectRef}
    (h : Alongside R pairs s t n n') (hq : t.engine.heap.isLive q = true)
    (hg : Alongside R pairs s (t.entered (t.bound q)) n n' →
      (t.entered (t.bound q)).handles.get t.handles.nextId = .ok (t.bound q) →
      Outcome x (g t.handles.nextId ((t.entered (t.bound q)).withPairs pairs))) :
    Outcome x ((Isolate.wrap q >>= g) (t.withPairs pairs)) :=
  register_right h (Isolate.kind?_bound hq) hg

theorem wrap {p q : ObjectRef} (h : Alongside R pairs s t n n') (hp : s.engine.heap.isLive p = true)
    (hq : t.engine.heap.isLive q = true)
    (hfg : Alongside R pairs (s.entered (s.bound p)) (t.entered (t.bound q)) n n' →
      (s.entered (s.bound p)).handles.get s.handles.nextId = .ok (s.bound p) →
      (t.entered (t.bound q)).handles.get t.handles.nextId = .ok (t.bound q) →
      Outcome (f s.handles.nextId (s.entered (s.bound p)))
        (g t.handles.nextId ((t.entered (t.bound q)).withPairs pairs))) :
    Outcome ((Isolate.wrap p >>= f) s) ((Isolate.wrap q >>= g) (t.withPairs pairs)) :=
  register h (Isolate.kind?_bound hp) (Isolate.kind?_bound hq) hfg

end Outcome

theorem behind_run {ε : Type} {iso : Move.Place ε} {h : HandleId} (hg : iso.handles.get h = .ok b) :
    Move.behind h iso = .ok b.object iso := bind_run _ (binding_run hg)

theorem behind_paired {h : HandleId} (hg : t.handles.get h = .ok b) :
    Move.behind h (t.withPairs pairs) = .ok b.object (t.withPairs pairs) := behind_run hg

namespace Alongside

/-- What is in hand is there on both sides, or on neither. -/
theorem inHand (h : Alongside R pairs s t n n') {α : Type} {view : Thing → Option α} {P : α → α → Prop}
    (hview : ∀ x y, Thing.Same R pairs s t x y →
      view x = none ∧ view y = none ∨ ∃ u v, view x = some u ∧ view y = some v ∧ P u v) (i : ℕ) :
    n.things[i]?.bind view = none ∧ n'.things[i]?.bind view = none ∨
    ∃ u v, n.things[i]?.bind view = some u ∧ n'.things[i]?.bind view = some v ∧ P u v := by
  rcases forall₂_getElem? h.things i with ⟨hx, hy⟩ | ⟨x, y, hx, hy, hxy⟩
  · rw [hx, hy]
    exact .inl ⟨rfl, rfl⟩
  · rw [hx, hy]
    exact hview x y hxy

theorem resolver? (h : Alongside R pairs s t n n') (i : ℕ) :
    n.resolver? i = none ∧ n'.resolver? i = none ∨
    ∃ r r', n.resolver? i = some r ∧ n'.resolver? i = some r' ∧
      Thing.Same R pairs s t (.resolver r) (.resolver r') := by
  refine h.inHand (fun x y hxy => ?_) i
  cases hxy with
  | resolver hl hr hp hp' hq hpq => exact .inr ⟨_, _, rfl, rfl, .resolver hl hr hp hp' hq hpq⟩
  | promise => exact .inl ⟨rfl, rfl⟩
  | object => exact .inl ⟨rfl, rfl⟩

theorem promise? (h : Alongside R pairs s t n n') (i : ℕ) :
    n.promise? i = none ∧ n'.promise? i = none ∨
    ∃ p p', n.promise? i = some p ∧ n'.promise? i = some p' ∧
      Thing.Same R pairs s t (.promise p) (.promise p') := by
  refine h.inHand (fun x y hxy => ?_) i
  cases hxy with
  | resolver => exact .inl ⟨rfl, rfl⟩
  | promise hl hr hp hp' hpq => exact .inr ⟨_, _, rfl, rfl, .promise hl hr hp hp' hpq⟩
  | object => exact .inl ⟨rfl, rfl⟩

/-- The value of an operand stands for the same on both sides, or for nothing. -/
theorem value? (h : Alongside R pairs s t n n') (o : Operand) :
    n.value? o = none ∧ n'.value? o = none ∨
    ∃ v v', n.value? o = some v ∧ n'.value? o = some v' ∧
      ((∃ m m', s.toManaged v = .ok m ∧ t.toManaged v' = .ok m' ∧ m.Alike R m') ∨
        ∃ e, s.toManaged v = .error e ∧ t.toManaged v' = .error e) := by
  cases o with
  | word v plain =>
    refine .inr ⟨v, v, rfl, rfl, ?_⟩
    obtain ⟨hsame, halike⟩ := Isolate.toManaged_word (R := R) h.abreast.strings plain
    rw [← hsame]
    cases hm : s.toManaged v with
    | error e => exact .inr ⟨e, rfl, rfl⟩
    | ok m => exact .inl ⟨m, m, rfl, rfl, halike m hm⟩
  | thing i =>
    refine h.inHand (fun x y hxy => ?_) i
    rcases hxy.passed with hnone | ⟨hvalue, hvalue', b, b', hl, hr, hpq, -⟩
    · exact .inl hnone
    · exact .inr ⟨_, _, hvalue, hvalue', .inl ⟨_, _, Isolate.toManaged_handle hl,
        Isolate.toManaged_handle hr, .object hpq⟩⟩

/-- The records of promises that are in hand. -/
theorem records (h : Alongside R pairs s t n n') {p p' : Promise}
    (hpp : Thing.Same R pairs s t (.promise p) (.promise p')) :
    ∃ b b' r r', s.handles.get p.handle = .ok b ∧ t.handles.get p'.handle = .ok b' ∧
      b.isPromise = true ∧ b'.isPromise = true ∧ s.engine.heap.record? b.object = .ok r ∧
      t.engine.heap.record? b'.object = .ok r' ∧ r.Alike R r' := by
  cases hpp with
  | @promise _ _ b b' hl hr hp hp' hpq =>
    have hpromise := (h.abreast.left.isPromise_eq hl).trans hp
    obtain ⟨r, hr'⟩ := Heap.isPromise_iff.1 hpromise
    rcases h.abreast.mirrored.record? hpq with ⟨r, r', hx, hy, halike⟩ | ⟨hx, -⟩
    · exact ⟨b, b', r, r', hl, hr, hp, hp', hx, hy, halike⟩
    · rw [hx] at hr'
      cases hr'

end Alongside

theorem outcome_string (h : Alongside R pairs s t n n') (text : String) :
    Outcome (Move.act n (.string text) s) (Move.act n' (.string text) (t.withPairs pairs)) := by
  have hleft : Move.act n (.string text) s =
      .ok (.word (.string (s.strings.intern text).1), n)
        { s with strings := (s.strings.intern text).2 } := rfl
  have hright : Move.act n' (.string text) (t.withPairs pairs) =
      .ok (.word (.string (t.strings.intern text).1), n')
        (({ t with strings := (t.strings.intern text).2 } : Move.Place Agent).withPairs pairs) := rfl
  rw [hleft, hright, ← h.abreast.strings]
  exact .both _ (h.strings _)

theorem outcome_state (h : Alongside R pairs s t n n') (i : ℕ) :
    Outcome (Move.act n (.state i) s) (Move.act n' (.state i) (t.withPairs pairs)) := by
  rcases h.promise? i with ⟨hp, hp'⟩ | ⟨p, p', hp, hp', hpp⟩
  · rw [Move.act, Move.act, hp, hp']
    exact .both _ h
  · obtain ⟨b, b', r, r', hl, hr, hb, hb', hx, hy, halike⟩ := h.records hpp
    have hleft := Isolate.state_run p hl hb hx
    have hright := onAgent_ok (Isolate.state_eq p') (Isolate.state_run p' hr hb' hy) pairs
    have hsame : r.state = r'.state := halike.status.state_eq
    rw [Move.act, Move.act, hp, hp']
    dsimp only
    rw [bind_run _ hleft, bind_run _ hright, hsame]
    exact .both _ h

theorem outcome_result (h : Alongside R pairs s t n n') (i : ℕ) :
    Outcome (Move.act n (.result i) s) (Move.act n' (.result i) (t.withPairs pairs)) := by
  rcases h.promise? i with ⟨hp, hp'⟩ | ⟨p, p', hp, hp', hpp⟩
  · rw [Move.act, Move.act, hp, hp']
    exact .both _ h
  · obtain ⟨b, b', r, r', hl, hr, hb, hb', hx, hy, halike⟩ := h.records hpp
    have hleft := Isolate.result_run p hl hb hx
    have hright : Isolate.result p' (t.withPairs pairs) = Isolate.toNative r'.result (t.withPairs pairs) := by
      rw [Isolate.result_eq, Isolate.onAgent_run, Isolate.result_run p' hr hb' hy, ← Isolate.onAgent_run,
        ← Isolate.toNative_eq]
    have hsame : r.result.Alike R r'.result := halike.status.result
    rw [Move.act, Move.act, hp, hp']
    dsimp only
    rw [bind_congr_run _ hleft, bind_congr_run _ hright]
    generalize r.result = v at hsame
    generalize r'.result = w at hsame
    cases hsame with
    | plain hn =>
      rcases Isolate.toNative_word h.abreast.strings hn with
        ⟨v', strings, hv, hw, hplain⟩ | ⟨fault, s', t', hv, hw⟩
      · rw [bind_run _ hv, bind_run _ (onAgent_ok (Isolate.toNative_eq v) hw pairs), hplain]
        exact .both _ (h.strings strings)
      · rw [bind_error _ hv, bind_error _ (onAgent_error (Isolate.toNative_eq v) hw pairs)]
        exact .fault fault _ _
    | @object p q hpq =>
      obtain ⟨hp, hq⟩ := h.abreast.mirrored.isLive hpq
      simp only [Isolate.toNative, bind_assoc, pure_bind, Value.handle?_handle]
      refine Outcome.wrap h hp hq fun halong hget hget' => ?_
      have hname : nameOf? (s.bound p).object n.made = nameOf? (t.bound q).object n'.made :=
        h.named.name p q hpq
      rw [bind_run _ (behind_run hget), bind_run _ (behind_paired hget'), hname]
      exact .both _ (halong.gain (.object hget hget' hpq))

theorem outcome_collect (h : Alongside R pairs s t n n') :
    Outcome (Move.act n .collect s) (Move.act n' .collect (t.withPairs pairs)) :=
  .both .done (h.steady h.abreast.paces.collected fun _ _ hpq => hpq.1)

theorem outcome_terminate (h : Alongside R pairs s t n n') :
    Outcome (Move.act n .terminate s) (Move.act n' .terminate (t.withPairs pairs)) :=
  .both .done (h.steady (h.abreast.paces.flagged true) fun _ _ hpq => hpq)

theorem outcome_cancelTermination (h : Alongside R pairs s t n n') :
    Outcome (Move.act n .cancelTermination s) (Move.act n' .cancelTermination (t.withPairs pairs)) :=
  .both .done (h.steady (h.abreast.paces.flagged false) fun _ _ hpq => hpq)

theorem outcome_promiseOf (h : Alongside R pairs s t n n') (i : ℕ) :
    Outcome (Move.act n (.promiseOf i) s) (Move.act n' (.promiseOf i) (t.withPairs pairs)) := by
  rcases h.resolver? i with ⟨hr, hr'⟩ | ⟨r, r', hr, hr', hrr⟩
  · rw [Move.act, Move.act, hr, hr']
    exact .both _ h
  · cases hrr with
    | @resolver _ _ b b' q hl hr'' hp hp' hq hpq =>
      have hlive := (h.abreast.mirrored.isLive hpq).2
      have hleft : Isolate.promiseOf r s = .ok ⟨r.handle⟩ s := by
        refine (bind_run _ (binding_run hl)).trans ?_
        rw [if_pos hp]
        rfl
      have hright : Isolate.promiseOf r' (t.withPairs pairs) =
          (do return ⟨← Isolate.wrap q⟩ : Action (Move.Place Paired) Promise) (t.withPairs pairs) := by
        have hget : (t.withPairs pairs).handles.get r'.handle = .ok b' := hr''
        have hplain : ¬ b'.isPromise = true := by simp [hp']
        refine (bind_run _ (binding_run hget)).trans ?_
        rw [if_neg hplain]
        exact bind_run _ (Isolate.promiseOf_paired hq _)
      rw [Move.act, Move.act, hr, hr']
      dsimp only
      rw [bind_run _ hleft, bind_run _ (behind_run hl), bind_congr_run _ hright]
      simp only [bind_assoc, pure_bind]
      -- the left side has a handle of the promise already
      refine Outcome.wrap_right h hlive fun halong hget => ?_
      have hname : nameOf? b.object n.made = nameOf? (t.bound q).object n'.made := h.named.name _ q hpq
      have hpromise : (t.bound q).isPromise = true := by
        rw [Isolate.isPromise_bound, ← h.abreast.mirrored.isPromise_eq hpq, h.abreast.left.isPromise_eq hl]
        exact hp
      rw [bind_run _ (behind_paired hget), hname]
      exact .both _ (halong.gain (.promise hl hget hp hpromise hpq))

/-- On the left the promise of a resolver is settled through its own handle, on the right through the pair. -/
theorem outcome_settleBy (h : Alongside R pairs s t n n') {kind : ReactionKind} {r r' : Resolver}
    {v v' : Value}
    (hrr : Thing.Same R pairs s t (.resolver r) (.resolver r'))
    (hvv : (∃ m m', s.toManaged v = .ok m ∧ t.toManaged v' = .ok m' ∧ m.Alike R m') ∨
      ∃ e, s.toManaged v = .error e ∧ t.toManaged v' = .error e)
    {request : ObjectRef → ManagedValue → Request Agent Bool}
    (hrequest : ∀ ref m a, request ref m a =
      if a.terminating then .ok (.error .terminated) a else Agent.passOn kind ref m a) :
    Outcome ((do return (.settled (← Isolate.settleBy request r v), n) : Action (Move.Place Agent) _) s)
      ((do return (.settled (← Isolate.settleBy (Paired.through request) r' v'), n') :
        Action (Move.Place Paired) _) (t.withPairs pairs)) := by
  cases hrr with
  | @resolver _ _ b b' q hl hr hp hp' hq hpq =>
    -- what is passed means the same on both sides, or nothing on either
    rcases hvv with ⟨m, m', hm, hm', hmm⟩ | ⟨e, hm, hm'⟩
    · have hadmits := h.abreast.left.held.toManaged nofun hm
      have hadmits' := h.abreast.right.held.toManaged nofun hm'
      obtain ⟨answer, a, answer', a', ha, ha', hanswer, hadvance⟩ :=
        h.abreast.paces.settle kind hpq hmm hadmits hadmits' hrequest
      have hleft := Isolate.settleBy_run hm hl ha
      have hright : Isolate.settleBy (Paired.through request) r' v' (t.withPairs pairs) =
          .ok answer'.toOption (({ t with engine := a' } : Move.Place Agent).withPairs pairs) :=
        Isolate.settleBy_run hm' hr (Paired.through_run hq ha')
      rw [bind_run _ hleft, bind_run _ hright, hanswer]
      exact .both _ (h.steady hadvance fun _ _ hpq => hpq)
    · have hleft := Isolate.settleBy_error (r := r) request hm
      have hright : Isolate.settleBy (Paired.through request) r' v' (t.withPairs pairs) =
          .error (.misuse e) (t.withPairs pairs) := Isolate.settleBy_error _ hm'
      rw [bind_error _ hleft, bind_error _ hright]
      exact .fault _ _ _

theorem outcome_settle (h : Alongside R pairs s t n n') (kind : ReactionKind) (i : ℕ) (o : Operand) :
    Outcome (Move.act n (.settle kind i o) s) (Move.act n' (.settle kind i o) (t.withPairs pairs)) := by
  rcases h.resolver? i with ⟨hr, hr'⟩ | ⟨r, r', hr, hr', hrr⟩
  · rw [Move.act, Move.act, hr, hr']
    exact .both _ h
  · rcases h.value? o with ⟨hv, hv'⟩ | ⟨v, v', hv, hv', hvv⟩
    · rw [Move.act, Move.act, hr, hr', hv, hv']
      exact .both _ h
    · rw [Move.act, Move.act, hr, hr', hv, hv']
      cases kind with
      | fulfill => exact outcome_settleBy h hrr hvv Agent.resolve_run
      | reject => exact outcome_settleBy h hrr hvv Agent.reject_run

section Making

variable {ε : Type} [Engine ε]

/-- How a move goes on that has asked for something new. -/
def making (n : Notebook) (thing : HandleId → Thing) (find : HandleId → Action (Move.Place ε) ObjectRef) :
    Except EngineError ObjectRef → Action (Move.Place ε) (Answer × Notebook)
  | .ok ref => do
    let h ← Isolate.wrap ref
    return (.done, n.bear (thing h) (← find h))
  | .error _ => do
    return (← Move.shortage, n)

theorem act_newObject (n : Notebook) :
    (Move.act n .newObject : Action (Move.Place ε) _) =
      Isolate.ask Engine.newObject >>= making n .object Move.behind := by
  simp only [Move.act, Isolate.newObject, bind_assoc]
  refine bind_congr fun answer => ?_
  cases answer with
  | error e => simp only [making, pure_bind, Option.bind_none]
  | ok ref => simp only [making, bind_assoc, pure_bind, Option.bind_some, Value.handle?_handle]

theorem act_newResolver (n : Notebook) :
    (Move.act n .newResolver : Action (Move.Place ε) _) =
      Isolate.ask Engine.newResolver >>= making n (fun h => .resolver ⟨h⟩) fun h => Move.settledBy ⟨h⟩ := by
  simp only [Move.act, Isolate.newResolver, bind_assoc]
  refine bind_congr fun answer => ?_
  cases answer with
  | error e => simp only [making, pure_bind]
  | ok ref => simp only [making, bind_assoc, pure_bind]

end Making

section

variable {thing : HandleId → Thing} {find : HandleId → Action (Move.Place Agent) ObjectRef}
  {find' : HandleId → Action (Move.Place Paired) ObjectRef}

theorem shortage_run (s : Move.Place Agent) :
    Move.shortage s = .ok (if s.engine.terminating then .refused else .exhausted) s := rfl

theorem shortage_paired (t : Move.Place Agent) (pairs : List (ObjectRef × ObjectRef)) :
    Move.shortage (t.withPairs pairs) =
      .ok (if t.engine.terminating then .refused else .exhausted) (t.withPairs pairs) := rfl

/-- Nothing is made while both engines are terminating. -/
theorem outcome_refused (h : Alongside R pairs s t n n') (ht : s.engine.terminating = true)
    (e e' : EngineError) :
    Outcome (making n thing find (.error e) s) (making n' thing find' (.error e') (t.withPairs pairs)) := by
  have ht' : t.engine.terminating = true := h.abreast.mirrored.terminating ▸ ht
  rw [making, making, bind_run _ (shortage_run s), bind_run _ (shortage_paired t pairs), if_pos ht,
    if_pos ht']
  exact .both .refused h

theorem short_left (ht : ¬ s.engine.terminating = true) (e : EngineError) :
    Short (making n thing find (.error e) s) := by
  rw [making, bind_run _ (shortage_run s), if_neg ht]
  exact .exhausted n s

theorem short_right (ht : ¬ t.engine.terminating = true) (e : EngineError) :
    Short (making n' thing find' (.error e) (t.withPairs pairs)) := by
  rw [making, bind_run _ (shortage_paired t pairs), if_neg ht]
  exact .exhausted n' _

/-- Both engines are asked for something new. What is left is what they do with room for it. -/
theorem outcome_asked (h : Alongside R pairs s t n n') {x : Request Agent ObjectRef}
    {y : Request Paired ObjectRef} {made : EStateM.Result Fault Agent (Except EngineError ObjectRef)}
    {made' : EStateM.Result Fault Paired (Except EngineError ObjectRef)}
    (hx : x s.engine =
      if s.engine.terminating then .ok (.error .terminated) s.engine
      else if s.engine.makeRoom.heap.isFull then
        .ok (.error (.outOfMemory s.engine.makeRoom.heap.limit)) s.engine.makeRoom
      else made)
    (hy : y ⟨t.engine, pairs⟩ =
      if t.engine.terminating then .ok (.error .terminated) ⟨t.engine, pairs⟩
      else if t.engine.makeRoom.heap.isFull then
        .ok (.error (.outOfMemory t.engine.makeRoom.heap.limit)) ⟨t.engine.makeRoom, pairs⟩
      else made')
    (hmade : ¬ s.engine.terminating = true → s.engine.makeRoom.heap.isFull = false →
      t.engine.makeRoom.heap.isFull = false → x s.engine = made → y ⟨t.engine, pairs⟩ = made' →
      Outcome ((Isolate.ask x >>= making n thing find) s)
        ((Isolate.ask y >>= making n' thing find') (t.withPairs pairs))) :
    Outcome ((Isolate.ask x >>= making n thing find) s)
      ((Isolate.ask y >>= making n' thing find') (t.withPairs pairs)) := by
  have hterminating := h.abreast.mirrored.terminating
  by_cases ht : s.engine.terminating = true
  · rw [if_pos ht] at hx
    rw [if_pos (hterminating ▸ ht)] at hy
    rw [bind_run _ (ask_of_run hx), bind_run _ (Isolate.ask_paired hy)]
    exact outcome_refused h ht _ _
  · rw [if_neg ht] at hx
    rw [if_neg (hterminating ▸ ht)] at hy
    by_cases hf : s.engine.makeRoom.heap.isFull = true
    · rw [if_pos hf] at hx
      rw [bind_run _ (ask_of_run hx)]
      -- either side may run out of room, whatever the other one does
      refine .left (short_left ?_ _)
      rwa [(Agent.kept_makeRoom s.engine).terminating]
    · by_cases hg : t.engine.makeRoom.heap.isFull = true
      · rw [if_pos hg] at hy
        rw [bind_run _ (Isolate.ask_paired hy)]
        refine .right (short_right ?_ _)
        rwa [(Agent.kept_makeRoom t.engine).terminating, ← hterminating]
      · rw [if_neg hf] at hx
        rw [if_neg hg] at hy
        exact hmade ht (Bool.eq_false_iff.2 hf) (Bool.eq_false_iff.2 hg) hx hy

/-- Both engines have made something new. -/
theorem outcome_made {p q ref ref' : ObjectRef}
    (h : Alongside R pairs s t { n with made := p :: n.made } { n' with made := q :: n'.made })
    (hs : s.engine.heap.isLive ref = true) (ht : t.engine.heap.isLive ref' = true)
    (hfind : (s.entered (s.bound ref)).Firm [] →
      (s.entered (s.bound ref)).handles.get s.handles.nextId = .ok (s.bound ref) →
      (t.entered (t.bound ref')).handles.get t.handles.nextId = .ok (t.bound ref') →
      find s.handles.nextId (s.entered (s.bound ref)) = .ok p (s.entered (s.bound ref)) ∧
      find' t.handles.nextId ((t.entered (t.bound ref')).withPairs pairs) =
        .ok q ((t.entered (t.bound ref')).withPairs pairs) ∧
      Thing.Same R pairs (s.entered (s.bound ref)) (t.entered (t.bound ref')) (thing s.handles.nextId)
        (thing t.handles.nextId)) :
    Outcome (making n thing find (.ok ref) s) (making n' thing find' (.ok ref') (t.withPairs pairs)) := by
  rw [making, making]
  refine Outcome.wrap h hs ht fun halong hget hget' => ?_
  obtain ⟨hleft, hright, hsame⟩ := hfind halong.abreast.left hget hget'
  rw [bind_run _ hleft, bind_run _ hright]
  exact .both .done (halong.gain hsame)

end

theorem outcome_newObject (h : Alongside R pairs s t n n') :
    Outcome (Move.act n .newObject s) (Move.act n' .newObject (t.withPairs pairs)) := by
  rw [act_newObject, act_newObject]
  apply outcome_asked h (Agent.allocate_run .plain s.engine) (Paired.newObject_run t.engine pairs)
  intro _ hf hg hleft hright
  rw [bind_run _ (ask_of_run hleft), bind_run _ (Isolate.ask_paired hright)]
  have hadvance := h.abreast.paces.allocated hf hg (fun _ => .plain) (by simp)
  have hnew := hadvance.paces.mirrored.isLive (.inr ⟨rfl, rfl⟩)
  have halong := h.engines hadvance rfl h.abreast.right.held.once (fun _ _ _ hq => hq)
    (h.named.born fun p q hpq => h.abreast.paces.fresh hpq)
  exact outcome_made halong hnew.1 hnew.2 fun _ hget hget' =>
    ⟨behind_run hget, behind_paired hget', .object hget hget' (.inr ⟨rfl, rfl⟩)⟩

theorem settledBy_run {r : Resolver} (hs : s.Firm []) (hg : s.handles.get r.handle = .ok b)
    (hp : b.isPromise = true) : Move.settledBy r s = .ok b.object s := by
  obtain ⟨record, hr⟩ := Heap.isPromise_iff.1 ((hs.isPromise_eq hg).trans hp)
  have hpromise : (Engine.promiseOf b.object : Request Agent ObjectRef) s.engine =
      .ok (.ok b.object) s.engine := by
    refine (Agent.promiseOf_run b.object s.engine).trans ?_
    rw [hr]
    rfl
  exact (bind_run _ (behind_run hg)).trans (bind_run _ (ask_of_run hpromise))

theorem settledBy_paired {r : Resolver} {q : ObjectRef} (hg : t.handles.get r.handle = .ok b)
    (hq : pairs.lookup b.object = some q) :
    Move.settledBy r (t.withPairs pairs) = .ok q (t.withPairs pairs) :=
  (bind_run _ (behind_paired hg)).trans (Isolate.promiseOf_paired hq _)

/-- There is room for a promise on both sides, and for an object on the right that it is paired with. -/
theorem outcome_paired (h : Alongside R pairs s t n n') (hf : s.engine.makeRoom.heap.isFull = false)
    (hg : t.engine.makeRoom.heap.isFull = false) (hk : t.engine.pinned.makeRoom.heap.isFull = false) :
    let resolver := (t.engine.pinned.makeRoom.heap.place .plain).1
    Outcome
      (making n (fun h => .resolver ⟨h⟩) (fun h => Move.settledBy ⟨h⟩) (.ok s.engine.newPromise)
        { s with engine := s.engine.makeRoom.placed (.promise .new) })
      (making n' (fun h => .resolver ⟨h⟩) (fun h => Move.settledBy ⟨h⟩) (.ok resolver)
        (({ t with engine := t.engine.pinned.makeRoom.placed .plain } : Move.Place Agent).withPairs
          ((resolver, t.engine.newPromise) :: pairs))) := by
  intro resolver
  obtain ⟨hroom, hpair⟩ := h.abreast.paces.pinned_room hf hg
  have hshape := hroom.paces.right.sound.shape
  have hlast : Advance _ _ _ _ _ (t.engine.pinned.makeRoom.placed .plain) [] :=
    hroom.paces.placed_right hk (by simp)
  -- what was rooted before is not the new resolver, so that its promise is found as before
  have hfound (r q : ObjectRef) (hr : t.engine.heap.rootCount r ≠ 0) (hq : pairs.lookup r = some q) :
      List.lookup r ((resolver, t.engine.newPromise) :: pairs) = some q := by
    have hrooted : t.engine.pinned.makeRoom.heap.rootCount r ≠ 0 := by
      rw [hroom.right.rootCount]
      omega
    have hne : r ≠ resolver := Heap.ne_place_of_isLive hshape .plain (Heap.isLive_of_rootCount hrooted)
    rw [List.lookup_cons, beq_false_of_ne hne]
    exact hq
  -- a promise that was paired before had a root then
  have honce : (((resolver, t.engine.newPromise) :: pairs).map (·.2)).Nodup := by
    refine List.nodup_cons.2 ⟨fun hold => ?_, h.abreast.right.held.once⟩
    exact h.abreast.right.held.rootCount_ne_zero (Or.inr hold) h.abreast.paces.rootCount_newPromise
  have halong := h.engines (hroom.trans hlast) rfl honce hfound
    (h.named.born fun p q hpq => h.abreast.paces.fresh hpq.1)
  have hpromise : (s.engine.makeRoom.placed (.promise .new)).heap.isPromise s.engine.newPromise = true :=
    Heap.isPromise_iff_kind?.2 (Heap.kind?_place_self h.abreast.paces.makeRoom.paces.left.sound.shape _)
  have hkind : (t.engine.pinned.makeRoom.placed .plain).heap.kind? resolver = some .object :=
    Heap.kind?_place_self hshape .plain
  have hplain : (t.engine.pinned.makeRoom.placed .plain).heap.isPromise resolver = false := by
    rw [Heap.isPromise, hkind]
    rfl
  refine outcome_made halong hpair.2.1 (Heap.isLive_iff_kind?.2 ⟨_, hkind⟩)
    fun hfirm hget hget' => ⟨?_, ?_, ?_⟩
  · exact settledBy_run hfirm hget ((Isolate.isPromise_bound _ _).trans hpromise)
  · exact settledBy_paired hget' List.lookup_cons_self
  · exact .resolver hget hget' ((Isolate.isPromise_bound _ _).trans hpromise)
      ((Isolate.isPromise_bound _ _).trans hplain) List.lookup_cons_self hpair

/-- On the left the new promise is its own resolver, on the right it is rooted and paired with an object. -/
theorem outcome_newResolver (h : Alongside R pairs s t n n') :
    Outcome (Move.act n .newResolver s) (Move.act n' .newResolver (t.withPairs pairs)) := by
  rw [act_newResolver, act_newResolver]
  apply outcome_asked h (Agent.allocate_run (.promise .new) s.engine) (Paired.newResolver_run t.engine pairs)
  intro ht hf hg hleft hright
  by_cases hk : t.engine.pinned.makeRoom.heap.isFull = true
  · rw [if_pos hk] at hright
    rw [bind_run _ (Isolate.ask_paired hright)]
    refine .right (short_right ?_ _)
    rw [← (h.abreast.paces.pinned_room hf hg).1.paces.mirrored.terminating]
    change ¬ s.engine.makeRoom.terminating = true
    rwa [(Agent.kept_makeRoom s.engine).terminating]
  · rw [if_neg hk] at hright
    rw [bind_run _ (ask_of_run hleft), bind_run _ (Isolate.ask_paired hright)]
    exact outcome_paired h hf hg (Bool.eq_false_iff.2 hk)

theorem outcome_openScope (h : Alongside R pairs s t n n') :
    Outcome (Move.act n .openScope s) (Move.act n' .openScope (t.withPairs pairs)) :=
  .both .done h.opened

theorem outcome_closeScope (h : Alongside R pairs s t n n') :
    Outcome (Move.act n .closeScope s) (Move.act n' .closeScope (t.withPairs pairs)) := by
  cases hn : n.scopes with
  | nil =>
    rw [Move.act, Move.act, hn, h.scopes_nil hn]
    exact .both _ h
  | cons scope scopes =>
    obtain ⟨mark', scopes', s', t', hn', hs, ht, -, -, halong⟩ := h.closed hn
    have hright := onAgent_ok (Isolate.closeScope_eq mark') ht pairs
    rw [Move.act, Move.act, hn, hn']
    dsimp only
    rw [bind_run _ hs, bind_run _ hright]
    exact .both _ halong

theorem escaping_run {ε : Type} {iso : Move.Place ε} {handle : HandleId}
    (hg : iso.handles.get handle = .ok b) : Run.escaping (.handle handle) iso = .ok (some b) iso := by
  rw [Run.escaping, Value.handle?_handle]
  exact bind_run _ (binding_run hg)

theorem act_escape {ε : Type} [Engine ε] {iso : Move.Place ε} {n : Notebook} {i count : ℕ} {mark : ScopeMark}
    {scopes : List (ScopeMark × ℕ)} (hn : n.scopes = (mark, count) :: scopes) (hx : n.things[i]? = some x)
    (hvalue : x.value? = some (.handle x.handle)) (hg : iso.handles.get x.handle = .ok b) :
    Move.act n (.escape i) iso = (do
      Isolate.closeScope mark
      let h ← Isolate.register b
      return (.done, { n with things := n.things.take count ++ [x.moved h], scopes }) :
        Action (Move.Place ε) (Answer × Notebook)) iso := by
  rw [Move.act, hn, hx]
  dsimp only
  rw [hvalue]
  exact bind_run _ (escaping_run hg)

/-- What is no resolver gets a handle outside, for what its handle was bound to. -/
theorem outcome_escape (h : Alongside R pairs s t n n') (i : ℕ) :
    Outcome (Move.act n (.escape i) s) (Move.act n' (.escape i) (t.withPairs pairs)) := by
  cases hn : n.scopes with
  | nil =>
    rw [Move.act, Move.act, hn, h.scopes_nil hn]
    exact .both _ h
  | cons scope scopes =>
    obtain ⟨mark', scopes', s', t', hn', hs, ht, hobjects, hobjects', halong⟩ := h.closed hn
    rcases forall₂_getElem? h.things i with ⟨hx, hy⟩ | ⟨x, y, hx, hy, hxy⟩
    · rw [Move.act, Move.act, hn, hn', hx, hy]
      exact .both _ h
    · rcases hxy.passed with ⟨hvalue, hvalue'⟩ | ⟨hvalue, hvalue', b, b', hl, hr, hpq, hmoved⟩
      · rw [Move.act, Move.act, hn, hn', hx, hy]
        dsimp only
        rw [hvalue, hvalue']
        exact .both _ h
      · have hright := onAgent_ok (Isolate.closeScope_eq mark') ht pairs
        have hr' : (t.withPairs pairs).handles.get y.handle = .ok b' := hr
        rw [act_escape hn hx hvalue hl, act_escape hn' hy hvalue' hr', bind_run _ hs, bind_run _ hright]
        have hb : s'.engine.heap.kind? b.object = some b.kind :=
          (Heap.kind?_congr (hobjects _)).trans (h.abreast.left.held.bound b (HandleTable.mem_of_get hl))
        have hb' : t'.engine.heap.kind? b'.object = some b'.kind :=
          (Heap.kind?_congr (hobjects' _)).trans (h.abreast.right.held.bound b' (HandleTable.mem_of_get hr))
        exact Outcome.register halong hb hb' fun halong hget hget' =>
          .both .done (halong.gain (hmoved hget hget'))

/-- A move does alike on both sides. -/
theorem outcome_act (h : Alongside R pairs s t n n') (move : Move) :
    Outcome (move.act n s) (move.act n' (t.withPairs pairs)) := by
  cases move with
  | newResolver => exact outcome_newResolver h
  | newObject => exact outcome_newObject h
  | string text => exact outcome_string h text
  | settle kind resolver operand => exact outcome_settle h kind resolver operand
  | promiseOf resolver => exact outcome_promiseOf h resolver
  | state promise => exact outcome_state h promise
  | result promise => exact outcome_result h promise
  | openScope => exact outcome_openScope h
  | closeScope => exact outcome_closeScope h
  | escape number => exact outcome_escape h number
  | collect => exact outcome_collect h
  | terminate => exact outcome_terminate h
  | cancelTermination => exact outcome_cancelTermination h

end Script

end Promises
