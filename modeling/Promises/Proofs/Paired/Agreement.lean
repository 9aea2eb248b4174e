import Promises.Proofs.Isolate.Translation
import Promises.Proofs.Paired.Moves

namespace Promises

namespace Script

variable {R : ObjectRef → ObjectRef → Prop} {pairs : List (ObjectRef × ObjectRef)} {s t : Move.Place Agent}
  {n n' : Notebook}

theorem perform_run {ε : Type} [Engine ε] (move : Move) (iso : Move.Place ε) (n : Notebook) :
    (move.perform : Run ε Notebook Empty Answer) ⟨iso, n⟩ =
      match move.act n iso with
      | .ok (answer, n') iso' => .ok answer ⟨iso', n'⟩
      | .error fault iso' => .error (.fault fault) ⟨iso', n⟩ := by
  have hact : (Run.onIsolate (move.act n) : Run ε Notebook Empty _) ⟨iso, n⟩ = _ :=
    Run.onIsolate_run (move.act n) ⟨iso, n⟩
  have hget : (get : Run ε Notebook Empty _) ⟨iso, n⟩ = .ok ⟨iso, n⟩ ⟨iso, n⟩ := rfl
  refine (bind_run _ hget).trans ?_
  cases hx : move.act n iso with
  | ok v iso' =>
    rw [hx] at hact
    exact bind_run _ hact
  | error fault iso' =>
    rw [hx] at hact
    exact bind_error _ hact

/-- Without handlers a checkpoint runs none. -/
theorem drain_run {ε : Type} [Engine ε] {iso : Move.Place ε} {e : ε}
    (hnext : (Engine.nextJob : Action ε (Option NativeJob)) iso.engine = .ok none e) (fuel : ℕ)
    (n : Notebook) :
    (Program.drain (fuel + 1) 0 : Run ε Notebook Empty ℕ) ⟨iso, n⟩ = .ok 0 ⟨{ iso with engine := e }, n⟩ := by
  have hjob : (Run.onIsolate (Isolate.onEngine Engine.nextJob) : Run ε Notebook Empty _) ⟨iso, n⟩ =
      .ok none ⟨{ iso with engine := e }, n⟩ := by
    rw [Run.onIsolate_run, Isolate.onEngine_run, hnext]
  exact bind_run _ hjob

/-- Paired resolvers do not show in what the agent beneath does by itself. -/
theorem nextJob_paired {a b : Agent} (hnext : Agent.nextJob a = .ok none b)
    (pairs : List (ObjectRef × ObjectRef)) :
    (Engine.nextJob : Action Paired (Option NativeJob)) ⟨a, pairs⟩ = .ok none ⟨b, pairs⟩ := by
  change Action.zoom Paired.beneath Agent.nextJob ⟨a, pairs⟩ = _
  simp only [Action.zoom, Paired.beneath, hnext]

theorem checkpoint_alongside (h : Alongside R pairs s t n n') (fuel : ℕ) :
    ∃ s' t', Alongside R pairs s' t' n n' ∧
      (Program.drain (fuel + 1) 0 : Run Agent Notebook Empty ℕ) ⟨s, n⟩ = .ok 0 ⟨s', n⟩ ∧
      (Program.drain (fuel + 1) 0 : Run Paired Notebook Empty ℕ) ⟨t.withPairs pairs, n'⟩ =
        .ok 0 ⟨t'.withPairs pairs, n'⟩ := by
  obtain ⟨a, b, ha, hb, hadvance⟩ := h.abreast.paces.nextJob
  exact ⟨_, _, h.steady hadvance fun _ _ hpq => hpq, drain_run ha fuel n,
    drain_run (nextJob_paired hb pairs) fuel n'⟩

/-- A script goes on after a checkpoint with what the engine has done there. -/
theorem play_checkpoint {ε : Type} [Engine ε] {iso : Move.Place ε} {e : ε}
    (hnext : (Engine.nextJob : Action ε (Option NativeJob)) iso.engine = .ok none e) (next : Answer → Script)
    (fuel : ℕ) (n : Notebook) :
    (checkpoint next).play (fuel + 1) ⟨iso, n⟩ =
      .ok (.ran 0) :: (next (.ran 0)).play (fuel + 1) ⟨{ iso with engine := e }, n⟩ := by
  rw [play, drain_run hnext]

/-- What a script sees from where it has come equally far. -/
theorem play_agrees (h : Alongside R pairs s t n n') (script : Script) (fuel k : ℕ)
    (hleft : ∀ answer ∈ (script.play fuel ⟨s, n⟩).take k, ¬ Exhausts answer)
    (hright : ∀ answer ∈ (script.play fuel ⟨t.withPairs pairs, n'⟩).take k, ¬ Exhausts answer) :
    (script.play fuel ⟨s, n⟩).take k = (script.play fuel ⟨t.withPairs pairs, n'⟩).take k := by
  -- the induction is on the script, which goes on with the answer that both sides have seen
  induction script generalizing R pairs s t n n' k with
  | stop => rfl
  | checkpoint next ih =>
    cases k with
    | zero => rfl
    | succ k =>
      cases fuel with
      | zero => rfl
      | succ fuel =>
        obtain ⟨s', t', halong, hs, ht⟩ := checkpoint_alongside h fuel
        simp only [play, hs, ht, List.take_succ_cons] at hleft hright ⊢
        rw [ih _ halong k (fun answer ha => hleft answer (List.mem_cons_of_mem _ ha))
          fun answer ha => hright answer (List.mem_cons_of_mem _ ha)]
  | move c next ih =>
    cases k with
    | zero => rfl
    | succ k =>
      simp only [play, perform_run] at hleft hright ⊢
      have houtcome := outcome_act h c
      generalize c.act n s = x at houtcome hleft ⊢
      generalize c.act n' (t.withPairs pairs) = y at houtcome hright ⊢
      cases houtcome with
      | left hshort =>
        cases hshort with
        | full s => exact absurd rfl (hleft _ List.mem_cons_self)
        | exhausted n s => exact absurd rfl (hleft _ List.mem_cons_self)
      | right hshort =>
        cases hshort with
        | full t => exact absurd rfl (hright _ List.mem_cons_self)
        | exhausted n t => exact absurd rfl (hright _ List.mem_cons_self)
      | fault f s t => rfl
      | both answer halong =>
        simp only [List.take_succ_cons] at hleft hright ⊢
        rw [ih answer halong k (fun answer ha => hleft answer (List.mem_cons_of_mem _ ha))
          fun answer ha => hright answer (List.mem_cons_of_mem _ ha)]

section

variable {id id' : IsolateId} {config config' : Config} {limit limit' : ℕ}

/-- What an isolate is made of, whatever its engine. -/
theorem created {ε : Type} {engine : ε} {iso : Move.Place ε}
    (hcreate : Isolate.create id config engine = .ok iso) :
    iso = ⟨id, config, engine, .empty id, .empty, #[]⟩ ∧
      ∀ agent : Agent, (Isolate.create id config agent : Except Fault (Move.Place Agent)) =
        .ok ⟨id, config, agent, .empty id, .empty, #[]⟩ := by
  obtain ⟨hcapacity, hiso⟩ := Isolate.create_eq_ok_iff.1 hcreate
  exact ⟨hiso, fun _ => Isolate.create_eq_ok_iff.2 ⟨hcapacity, rfl⟩⟩

/-- Nothing is in hand at first. -/
theorem alongside_created (hcreate : Isolate.create id config (Agent.new limit) = .ok s)
    (hcreate' : Isolate.create id' config' (Agent.new limit') = .ok t) :
    Alongside (fun _ _ => False) [] s t .empty .empty := by
  have hleft : s.Firm [] := ⟨Isolate.held_create hcreate, Stage.fitted_created hcreate⟩
  have hright : t.Firm [] := ⟨Isolate.held_create hcreate', Stage.fitted_created hcreate'⟩
  have hpaces := Agent.paces_new limit limit'
  obtain rfl := (created hcreate).1
  obtain rfl := (created hcreate').1
  exact ⟨⟨hpaces.mirrored, hpaces.handlerless, hleft, hright, rfl⟩, .nil, rfl, .none, .none, rfl, nofun⟩

/-- What a script sees does not depend on how resolvers are made. Where neither side has run out of room for
what it was to make, up to a step, both have seen the same up to that step: the outcomes of settling, the
states and the results of promises, and of an object which one it is. -/
theorem play_agreement {iso : Move.Place Agent} {iso' : Move.Place Paired}
    (hcreate : Isolate.create id config (Agent.new limit) = .ok iso)
    (hcreate' : Isolate.create id' config' (Paired.new limit') = .ok iso') (script : Script) (fuel k : ℕ)
    (hroom : ∀ answer ∈ (script.play fuel ⟨iso, .empty⟩).take k, ¬ Exhausts answer)
    (hroom' : ∀ answer ∈ (script.play fuel ⟨iso', .empty⟩).take k, ¬ Exhausts answer) :
    (script.play fuel ⟨iso, .empty⟩).take k = (script.play fuel ⟨iso', .empty⟩).take k := by
  obtain ⟨rfl, hbeneath⟩ := created hcreate'
  exact play_agrees (alongside_created hcreate (hbeneath (Agent.new limit'))) script fuel k hroom hroom'

end

/-- A script that makes moves, whatever it sees, before it goes on. -/
def following (moves : List Move) (rest : Script) : Script :=
  moves.foldr (fun c rest => .move c fun _ => rest) rest

/-- A promise follows another one, which is resolved with itself. -/
def cycle : Script :=
  following [.newResolver, .promiseOf 0, .newResolver, .promiseOf 2, .settle .fulfill 2 (.thing 1),
    .settle .fulfill 0 (.thing 1)] (.checkpoint fun _ => following [.state 3, .result 3] .stop)

/-- What is seen of a cycle, by way of where the script stands at the checkpoint. -/
theorem play_cycle {ε : Type} [Engine ε] {iso : Move.Place ε} (halfway : Move.Place ε) (n : Notebook) {e : ε}
    {p : Promise}
    (hopening : ∀ rest : Script,
      (following [.newResolver, .promiseOf 0, .newResolver, .promiseOf 2, .settle .fulfill 2 (.thing 1),
        .settle .fulfill 0 (.thing 1)] rest).play 1 ⟨iso, .empty⟩ =
        [.ok .done, .ok (.object (some 0)), .ok .done, .ok (.object (some 1)), .ok (.settled (some true)),
          .ok (.settled (some true))] ++ rest.play 1 ⟨halfway, n⟩)
    (hnext : (Engine.nextJob : Action ε (Option NativeJob)) halfway.engine = .ok none e)
    (hp : n.promise? 3 = some p) (hstrings : halfway.strings = .empty)
    (hstate : Isolate.state p { halfway with engine := e } = .ok .rejected { halfway with engine := e })
    (hresult : Isolate.result p { halfway with engine := e } =
      Isolate.toNative chainingCycle { halfway with engine := e }) :
    cycle.play 1 ⟨iso, .empty⟩ =
      [.ok .done, .ok (.object (some 0)), .ok .done, .ok (.object (some 1)), .ok (.settled (some true)),
        .ok (.settled (some true)), .ok (.ran 0), .ok (.state .rejected), .ok (.word (.string ⟨0⟩))] := by
  let place : Move.Place ε := { halfway with engine := e }
  -- the reason is the first string
  have hword : ∃ next, Isolate.toNative chainingCycle place = .ok (.string ⟨0⟩) next := by
    have hnew (s : String) : (StringTable.empty.intern s).1 = ⟨0⟩ := by
      rw [StringTable.intern, StringTable.empty, Std.HashMap.getElem?_empty]
      rfl
    have hplace : place.strings = .empty := hstrings
    have hrun : Isolate.toNative chainingCycle place = _ := Isolate.toNative_string _ place
    rw [hplace, hnew] at hrun
    exact ⟨_, hrun⟩
  obtain ⟨next, hword⟩ := hword
  have hstate' : Move.act n (.state 3) place = .ok (.state .rejected, n) place := by
    rw [Move.act, hp]
    exact bind_run _ hstate
  have hresult' : Move.act n (.result 3) place = .ok (.word (.string ⟨0⟩), n) next := by
    rw [Move.act, hp]
    exact bind_run _ (hresult.trans hword)
  rw [cycle, hopening, play_checkpoint hnext]
  simp only [following, List.foldr, play, perform_run, hstate', hresult', place]
  rfl

/-- Both promises are rejected, the second one at the checkpoint, for the reason that the first one was. -/
theorem play_agreement_cycle : ∃ (iso : Move.Place Agent) (iso' : Move.Place Paired),
    (cycle.play 1 ⟨iso, .empty⟩).take 9 = (cycle.play 1 ⟨iso', .empty⟩).take 9 ∧
      cycle.play 1 ⟨iso, .empty⟩ =
        [.ok .done, .ok (.object (some 0)), .ok .done, .ok (.object (some 1)), .ok (.settled (some true)),
          .ok (.settled (some true)), .ok (.ran 0), .ok (.state .rejected), .ok (.word (.string ⟨0⟩))] := by
  let iso : Move.Place Agent := ⟨⟨1⟩, .default, .new 4, .empty ⟨1⟩, .empty, #[]⟩
  let iso' : Move.Place Paired := ⟨⟨1⟩, .default, .new 4, .empty ⟨1⟩, .empty, #[]⟩
  let answers : List (Except Halt Answer) :=
    [.ok .done, .ok (.object (some 0)), .ok .done, .ok (.object (some 1)), .ok (.settled (some true)),
      .ok (.settled (some true)), .ok (.ran 0), .ok (.state .rejected), .ok (.word (.string ⟨0⟩))]
  have hcreate : Isolate.create ⟨1⟩ .default (Agent.new 4) = .ok iso := rfl
  have hcreate' : Isolate.create ⟨1⟩ .default (Paired.new 4) = .ok iso' := rfl
  let settled (status : PromiseStatus) (handled : Bool) (roots : UInt32) : Slot :=
    ⟨0, some ⟨.promise ⟨status, true, handled, #[]⟩, roots⟩⟩
  let rejected : PromiseStatus := .rejected chainingCycle
  have hplay : cycle.play 1 ⟨iso, .empty⟩ = answers := by
    let before : Agent := ⟨⟨#[settled rejected false 1, settled .pending false 1], [], 4, 2⟩,
      JobQueue.empty.push (.follow ⟨1, 0⟩ ⟨0, 0⟩), false⟩
    let after : Agent := ⟨⟨#[settled rejected true 1, settled rejected false 1], [], 4, 2⟩, .empty, false⟩
    have hnext : Agent.nextJob before = .ok none after :=
      (Agent.nextJob_run _).trans ((Agent.nextJob_run _).trans (Agent.nextJob_run _))
    let halfway : Move.Place Agent := ⟨⟨1⟩, .default, before,
      ⟨⟨1⟩, #[⟨⟨1⟩, ⟨0, 0⟩, .promise⟩, ⟨⟨1⟩, ⟨1, 0⟩, .promise⟩], #[0, 0], []⟩, .empty, #[]⟩
    let notes : Notebook := ⟨[.resolver ⟨⟨1, 0, 0⟩⟩, .promise ⟨⟨1, 0, 0⟩⟩, .resolver ⟨⟨1, 0, 1⟩⟩,
      .promise ⟨⟨1, 0, 1⟩⟩], [], [⟨1, 0⟩, ⟨0, 0⟩]⟩
    exact play_cycle halfway notes (fun _ => rfl) hnext rfl rfl rfl rfl
  have hplay' : cycle.play 1 ⟨iso', .empty⟩ = answers := by
    let plain : Slot := ⟨0, some ⟨.plain, 1⟩⟩
    let before : Agent := ⟨⟨#[settled rejected false 2, plain, settled .pending false 2, plain], [], 4, 4⟩,
      JobQueue.empty.push (.follow ⟨2, 0⟩ ⟨0, 0⟩), false⟩
    let after : Agent :=
      ⟨⟨#[settled rejected true 2, plain, settled rejected false 2, plain], [], 4, 4⟩, .empty, false⟩
    have hnext : Agent.nextJob before = .ok none after :=
      (Agent.nextJob_run _).trans ((Agent.nextJob_run _).trans (Agent.nextJob_run _))
    let pairs : List (ObjectRef × ObjectRef) := [(⟨3, 0⟩, ⟨2, 0⟩), (⟨1, 0⟩, ⟨0, 0⟩)]
    let halfway : Move.Place Paired := ⟨⟨1⟩, .default, ⟨before, pairs⟩,
      ⟨⟨1⟩, #[⟨⟨1⟩, ⟨1, 0⟩, .object⟩, ⟨⟨1⟩, ⟨0, 0⟩, .promise⟩, ⟨⟨1⟩, ⟨3, 0⟩, .object⟩,
        ⟨⟨1⟩, ⟨2, 0⟩, .promise⟩], #[0, 0, 0, 0], []⟩, .empty, #[]⟩
    let notes : Notebook := ⟨[.resolver ⟨⟨1, 0, 0⟩⟩, .promise ⟨⟨1, 0, 1⟩⟩, .resolver ⟨⟨1, 0, 2⟩⟩,
      .promise ⟨⟨1, 0, 3⟩⟩], [], [⟨2, 0⟩, ⟨0, 0⟩]⟩
    exact play_cycle halfway notes (fun _ => rfl) (nextJob_paired hnext pairs) rfl rfl rfl rfl
  have hroom : ∀ answer ∈ answers.take 9, ¬ Exhausts answer := by simp [answers, Exhausts]
  exact ⟨iso, iso', play_agreement hcreate hcreate' cycle 1 9 (hplay ▸ hroom) (hplay' ▸ hroom), hplay⟩

/-- Gets the promise of a resolver in a handle scope, and asks for its state when the scope has closed. -/
def lingering : Program (Option Promise) Empty :=
  .call .newResolver fun
    | some resolver =>
      .scope (.call (.promiseOf resolver) fun promise =>
        .update (fun _ => some promise) (.done (.ok .undefined))) fun _ =>
          .read fun
            | some promise => .call (.state promise) fun state => .done (.ok (.bool (state == .pending)))
            | none => .done (.error .undefined)
    | none => .done (.error .undefined)

/-- Scripts let go of what was given in a scope when it closes. Who does not can tell engines apart: where the
resolver is a handle of its promise, the scope gave no other handle for it, and the promise is still in hand;
where the promise was looked up, its handle is gone with the scope. -/
theorem lingering_differs : ∃ (iso : Isolate Agent (Handler (Option Promise) Empty))
    (iso' : Isolate Paired (Handler (Option Promise) Empty)) (m : Machine Agent (Option Promise) Empty)
    (m' : Machine Paired (Option Promise) Empty),
    Isolate.create ⟨1⟩ .default (Agent.new 4) = .ok iso ∧
      Isolate.create ⟨1⟩ .default (Paired.new 4) = .ok iso' ∧
      lingering.run 1 ⟨iso, none⟩ = .ok (.ok (.bool true)) m ∧
      lingering.run 1 ⟨iso', none⟩ = .error (.fault (.misuse (.invalidHandle ⟨1, 0, 1⟩))) m' :=
  ⟨_, _, _, _, rfl, rfl, rfl, rfl⟩

end Script

end Promises
