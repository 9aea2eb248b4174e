import Promises.Proofs.Agent.Relabel
import Promises.Proofs.StringTable
import Promises.Shell.Basic

/-! What the commands of the shell come to, in terms of its engine. A desk says the promises of the slots and
how handlers and operations belong together; of handles it says only whether the table has room for another
one. On a desk a command is a few calls of the engine, without scopes, handles, interned strings or a registry
of functions. -/

namespace Promises

/-- The value of an integer that fits. -/
def Value.ofInt? (n : Int) : Option Value :=
  if minInt.toInt ≤ n ∧ n ≤ maxInt.toInt then some (ofInt32 (Int32.ofInt n)) else none

namespace Shell

/-- What a command comes to: a failure, a text to print, or a promise for a new slot. -/
inductive Upshot
  | failed (failure : Failure)
  | said (text : String)
  | kept (promise : ObjectRef)

/-- What is printed for a command on a shell with so many slots, or why it failed. -/
def Upshot.reply (slots : Nat) : Upshot → Except Failure String
  | failed failure => .error failure
  | said text => .ok text
  | kept _ =>
    let text := s!"[object {ObjectKind.promise}]"
    .ok s!"${slots} = {text}"

/-- The promises that have got a root for a new slot. -/
def Upshot.promises : Upshot → List ObjectRef
  | kept promise => [promise]
  | _ => []

/-- What an operation makes of a value of the engine, and how it settles a promise with it. -/
def Op.settlement (op : Op) (value : ManagedValue) : ReactionKind × ManagedValue :=
  let integer (n : Int) : ReactionKind × ManagedValue :=
    if (Value.ofInt? n).isSome then (.fulfill, .int (Int32.ofInt n)) else (.reject, value)
  match op, value with
  | .id, _ => (.fulfill, value)
  | .throw, _ => (.reject, value)
  | .add n, .int i => integer (i.toInt + n.toInt)
  | .mul n, .int i => integer (i.toInt * n.toInt)
  | _, _ => (.reject, value)

structure Desk where
  /-- The promises of the slots. -/
  promises : Array ObjectRef
  /-- Whether the handle table has room for another handle. -/
  room : Bool
  /-- What a text is read as that the native side was given. -/
  reading : String → String
  /-- The name of the handler of an operation. -/
  name : Op → FunctionId
  /-- The operation of a handler. -/
  op? : FunctionId → Option Op

namespace Desk

variable (d : Desk)

/-- The value of an operand. -/
def operand : Operand → Except Failure ManagedValue
  | .int n => .ok (.int n)
  | .bool b => .ok (.bool b)
  | .null => .ok .null
  | .undefined => .ok .undefined
  | .text s => .ok (.string (d.reading s))
  | .slot slot =>
    match d.promises[slot]? with
    | some ref => .ok (.object ref)
    | none => .error (.unknownSlot slot)

/-- What is printed for a value. -/
def shown (value : ManagedValue) (a : Agent) : String :=
  match value with
  | .undefined => Value.undefined.text
  | .null => Value.null.text
  | .bool b => (Value.bool b).text
  | .int n => (Value.ofInt32 n).text
  | .string text => Text.quote (d.reading text)
  | .object ref =>
    let kind : ObjectKind := if a.heap.isPromise ref then .promise else .object
    s!"[object {kind}]"

/-- Settles a promise one way. -/
def settle (kind : ReactionKind) (ref : ObjectRef) (value : ManagedValue) : Request Agent Bool :=
  match kind with
  | .fulfill => Engine.resolve ref value
  | .reject => Engine.reject ref value

/-- Attaches a handler for one way to settle. -/
def attach (kind : ReactionKind) (ref : ObjectRef) (handler : FunctionId) : Request Agent ObjectRef :=
  match kind with
  | .fulfill => Engine.addReactions ref (some handler) none
  | .reject => Engine.addReactions ref none (some handler)

/-- Does something while the native side has a handle for a value, if it is an object. -/
def holding {α : Type} (value : ManagedValue) (body : Action Agent α) : Action Agent α :=
  match value with
  | .object ref =>
    if d.room then do
      Engine.retain ref
      let v ← body
      Engine.release ref
      return v
    else throw .tableFull
  | _ => body

/-- Roots a promise for a new slot. -/
def keep (ref : ObjectRef) : Action Agent Upshot :=
  if d.room then do
    Engine.retain ref
    return .kept ref
  else throw .tableFull

/-- Goes on with the promise of a slot. -/
def withSlot (slot : Nat) (next : ObjectRef → Action Agent Upshot) : Action Agent Upshot :=
  match d.promises[slot]? with
  | some ref => next ref
  | none => return .failed (.unknownSlot slot)

/-- How a reaction settles the promise that it is for. -/
def settlement (job : NativeJob) : ReactionKind × ManagedValue :=
  match d.op? job.handler with
  | some op => op.settlement (job.argument.read d.reading)
  | none => (.reject, .undefined)

/-- Runs a reaction. An engine that refuses leaves the promise pending. -/
def react (job : NativeJob) : Action Agent Unit := do
  d.holding job.argument
    (discard (settle (d.settlement job).1 job.derived (d.settlement job).2).run)
  Engine.release job.derived

/-- Runs the reactions that are due, but no more than `fuel`. Counts them on from `ran`. -/
def serve : (fuel ran : Nat) → Action Agent Nat
  | 0, ran => return ran
  | fuel + 1, ran => do
    match ← Engine.nextJob with
    | none => return ran
    | some job =>
      d.react job
      serve fuel (ran + 1)

def perform : Command → Action Agent Upshot
  | .new => do
    match ← (Engine.newResolver : Request Agent ObjectRef).run with
    | .ok ref => d.keep ref
    | .error _ => return .failed (.refused "new")
  | .settle kind slot operand =>
    d.withSlot slot fun ref =>
      match d.operand operand with
      | .error failure => return .failed failure
      | .ok value => do
        match ← (settle kind ref value).run with
        | .ok settled => return .said (toString settled)
        | .error _ => return .failed (.refused (settleName kind))
  | .state slot =>
    d.withSlot slot fun ref => do
      match ← (Engine.state ref : Request Agent PromiseState).run with
      | .ok state => return .said (toString state)
      | .error error => throw (.refused .state error)
  | .result slot =>
    d.withSlot slot fun ref => do
      match ← (Engine.result ref : Request Agent ManagedValue).run with
      | .ok value => d.holding value (return .said (d.shown value (← get)))
      | .error error => throw (.refused .result error)
  | .promise slot => d.withSlot slot d.keep
  | .attach kind slot op =>
    d.withSlot slot fun ref => do
      match ← (attach kind ref (d.name op)).run with
      | .ok derived => d.keep derived
      | .error _ => return .failed (.refused (attachName kind))
  | .run => do return .said s!"ran {← d.serve ((← get).workload + 1) 0} reaction(s)"
  | .gc => do
    let c ← (Engine.collectGarbage : Action Agent Collection)
    return .said s!"collected {c.freed} of {c.before} object(s), {c.after} live"
  | .stats => do
    let s ← (Engine.stats : Action Agent HeapStats)
    return .said s!"live {s.live}/{s.limit} rooted {s.rooted} pending jobs {s.pendingJobs}"
  | .terminate => do
    (Engine.terminate : Action Agent Unit)
    return .said "terminating"
  | .resume => do
    (Engine.cancelTermination : Action Agent Unit)
    return .said "running"
  | .help => return .said Shell.help

theorem holding_ne_object {α : Type} {value : ManagedValue} (hv : ∀ ref, value ≠ .object ref)
    (body : Action Agent α) : d.holding value body = body := by
  cases value with
  | object ref => exact absurd rfl (hv ref)
  | _ => rfl

theorem holding_object {α : Type} (hroom : d.room = true) {ref : ObjectRef} {body : Action Agent α}
    {a b : Agent} {v : α} (hb : body (a.retained ref) = .ok v b) :
    d.holding (.object ref) body a = .ok v (b.released ref) := by
  have hretain : (Engine.retain ref : Action Agent Unit) a = .ok () (a.retained ref) := rfl
  rw [holding, if_pos hroom]
  exact (bind_run _ hretain).trans (bind_run _ hb)

theorem holding_full {α : Type} (hroom : d.room = false) (ref : ObjectRef) (body : Action Agent α)
    (a : Agent) : d.holding (.object ref) body a = .error .tableFull a := by
  rw [holding, if_neg (Bool.eq_false_iff.1 hroom)]
  rfl

theorem keep_room (hroom : d.room = true) (ref : ObjectRef) (a : Agent) :
    d.keep ref a = .ok (.kept ref) (a.retained ref) := by
  rw [keep, if_pos hroom]
  rfl

theorem keep_full (hroom : d.room = false) (ref : ObjectRef) (a : Agent) :
    d.keep ref a = .error .tableFull a := by
  rw [keep, if_neg (Bool.eq_false_iff.1 hroom)]
  rfl

/-- A desk whose strings come back in another way. -/
def through (r : String → String) : Desk := { d with reading := r }

/-- Two desks that differ in the names of handlers only. -/
structure Renamed (f : FunctionId → FunctionId) (d e : Desk) : Prop where
  promises : e.promises = d.promises
  room : e.room = d.room
  reading : e.reading = d.reading
  op? : ∀ id, e.op? (f id) = d.op? id

section

variable {f : FunctionId → FunctionId} {d e : Desk} {α β : Type}

/-- Whether an action does to an agent with other names what another action does to the agent itself. -/
def Alongside (f : FunctionId → FunctionId) (g : α → α) (x y : Action Agent α) : Prop :=
  ∀ a, y (a.relabel f) = mapResult g (Agent.relabel f) (x a)

namespace Alongside

variable {g : α → α} {p : β → β}

theorem pure (v : α) : Alongside f id (Pure.pure v : Action Agent α) (Pure.pure v) := fun _ => rfl

theorem throw (fault : Fault) :
    Alongside f g (throw fault : Action Agent α) (MonadExcept.throw fault) := fun _ => rfl

theorem bind {x y : Action Agent α} {k l : α → Action Agent β} (hx : Alongside f g x y)
    (hk : ∀ v, Alongside f p (k v) (l (g v))) : Alongside f p (x >>= k) (y >>= l) := by
  intro a
  have ha := hx a
  simp only [Bind.bind, EStateM.bind, ha]
  cases x a with
  | ok v b => exact hk v b
  | error fault b => rfl

/-- An action that looks at the agent. -/
theorem get {k l : Agent → Action Agent β}
    (hk : ∀ a, l (a.relabel f) (a.relabel f) = mapResult p (Agent.relabel f) (k a a)) :
    Alongside f p (MonadState.get >>= k) (MonadState.get >>= l) := hk

theorem retain (ref : ObjectRef) :
    Alongside f id (Engine.retain ref : Action Agent Unit) (Engine.retain ref) := by
  intro a
  change EStateM.Result.ok () ((a.relabel f).retained ref) = .ok () ((a.retained ref).relabel f)
  rw [Agent.retained_relabel]

theorem release (ref : ObjectRef) :
    Alongside f id (Engine.release ref : Action Agent Unit) (Engine.release ref) := by
  intro a
  change EStateM.Result.ok () ((a.relabel f).released ref) = .ok () ((a.released ref).relabel f)
  rw [Agent.released_relabel]

theorem settle (kind : ReactionKind) (ref : ObjectRef) (value : ManagedValue) :
    Alongside f id (Desk.settle kind ref value).run (Desk.settle kind ref value).run := by
  intro a
  cases kind with
  | fulfill => exact a.resolve_relabel f ref value
  | reject => exact a.reject_relabel f ref value

theorem attach (kind : ReactionKind) (ref : ObjectRef) (handler : FunctionId) :
    Alongside f id (Desk.attach kind ref handler).run (Desk.attach kind ref (f handler)).run := by
  intro a
  cases kind with
  | fulfill => exact a.addReactions_relabel f ref (some handler) none
  | reject => exact a.addReactions_relabel f ref none (some handler)

theorem holding (h : Renamed f d e) (v : ManagedValue) {x y : Action Agent α}
    (hx : Alongside f id x y) : Alongside f id (d.holding v x) (e.holding v y) := by
  cases v with
  | object ref =>
    simp only [Desk.holding, h.room]
    split
    · exact (retain ref).bind fun _ => hx.bind fun _ => (release ref).bind fun _ => pure _
    · exact throw _
  | _ => exact hx

theorem keep (h : Renamed f d e) (ref : ObjectRef) : Alongside f id (d.keep ref) (e.keep ref) := by
  simp only [Desk.keep, h.room]
  split
  · exact (retain ref).bind fun _ => pure _
  · exact throw _

theorem withSlot (h : Renamed f d e) (slot : Nat) {next next' : ObjectRef → Action Agent Upshot}
    (hn : ∀ ref, Alongside f id (next ref) (next' ref)) :
    Alongside f id (d.withSlot slot next) (e.withSlot slot next') := by
  simp only [Desk.withSlot, h.promises]
  cases d.promises[slot]? with
  | none => exact pure _
  | some ref => exact hn ref

theorem react (h : Renamed f d e) (job : NativeJob) :
    Alongside f id (d.react job) (e.react (job.relabel f)) := by
  have hsettlement : e.settlement (job.relabel f) = d.settlement job := by
    have hop : e.op? (job.relabel f).handler = d.op? job.handler := h.op? job.handler
    simp only [Desk.settlement, hop, h.reading]
    rfl
  rw [Desk.react, Desk.react, hsettlement]
  refine (holding h job.argument ?_).bind fun _ => release job.derived
  exact (settle _ _ _).bind fun _ => pure _

theorem serve (h : Renamed f d e) (fuel ran : Nat) :
    Alongside f id (d.serve fuel ran) (e.serve fuel ran) := by
  induction fuel generalizing ran with
  | zero => exact pure ran
  | succ fuel ih =>
    refine bind (g := (·.map (·.relabel f))) (fun a => a.nextJob_relabel f) fun job => ?_
    cases job with
    | none => exact pure ran
    | some job => exact (react h job).bind fun _ => ih (ran + 1)

end Alongside

/-- A command does not depend on the names of handlers. -/
theorem Renamed.perform (h : Renamed f d e) {c : Command}
    (hname : ∀ kind slot op, c = .attach kind slot op → e.name op = f (d.name op)) :
    Alongside f id (d.perform c) (e.perform c) := by
  cases c with
  | new =>
    refine Alongside.bind (g := id) (fun a => a.newResolver_relabel f) fun answer => ?_
    cases answer with
    | ok ref => exact .keep h ref
    | error error => exact .pure _
  | settle kind slot operand =>
    refine .withSlot h slot fun ref => ?_
    -- operands have no handlers in them
    have hoperand : e.operand operand = d.operand operand := by
      cases operand <;> simp only [Desk.operand, h.promises, h.reading]
    rw [hoperand]
    cases d.operand operand with
    | error failure => exact .pure _
    | ok value =>
      refine (Alongside.settle kind ref value).bind fun answer => ?_
      cases answer with
      | ok settled => exact .pure _
      | error error => exact .pure _
  | state slot =>
    refine .withSlot h slot fun ref => ?_
    refine Alongside.bind (g := id) (fun a => a.look_relabel f ref fun _ => rfl) fun answer => ?_
    cases answer with
    | ok state => exact .pure _
    | error error => exact .throw _
  | result slot =>
    refine .withSlot h slot fun ref => ?_
    refine Alongside.bind (g := id) (fun a => a.look_relabel f ref fun _ => rfl) fun answer => ?_
    cases answer with
    | ok value =>
      refine .holding h value (.get fun a => ?_)
      have hshown : e.shown value (a.relabel f) = d.shown value a := by
        cases value <;> simp only [Desk.shown, h.reading, Agent.heap_relabel, Heap.isPromise_relabel]
      rw [hshown]
      rfl
    | error error => exact .throw _
  | promise slot => exact .withSlot h slot fun ref => .keep h ref
  | attach kind slot op =>
    refine .withSlot h slot fun ref => ?_
    rw [hname kind slot op rfl]
    refine (Alongside.attach kind ref (d.name op)).bind fun answer => ?_
    cases answer with
    | ok derived => exact .keep h derived
    | error error => exact .pure _
  | run =>
    refine .get fun a => ?_
    -- the names do not count as work, so that the fuel is the same
    rw [Agent.workload_relabel]
    refine Alongside.bind (p := id) (Alongside.serve h (a.workload + 1) 0) (fun _ => ?_) a
    exact .pure _
  | gc =>
    exact Alongside.bind (g := id) (fun a => a.collectGarbage_relabel f) fun _ => .pure _
  | stats =>
    refine Alongside.bind (g := id) (fun a => ?_) fun _ => .pure _
    change EStateM.Result.ok (a.relabel f).stats (a.relabel f) = _
    rw [Agent.stats_relabel]
    rfl
  | terminate => exact Alongside.bind (g := id) (fun _ => rfl) fun _ => .pure _
  | resume => exact Alongside.bind (g := id) (fun _ => rfl) fun _ => .pure _
  | help => exact .pure _

end

end Desk

end Shell

end Promises
