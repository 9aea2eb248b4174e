import Promises.Agent.Basic

namespace Promises

namespace Agent

@[simp] theorem record_run (ref : ObjectRef) (a : Agent) :
    record ref a = .ok (a.heap.record? ref) a := rfl

theorem settle_run (ref : ObjectRef) (kind : ReactionKind) (value : ManagedValue) (a : Agent) :
    settle ref kind value a =
      match a.heap.record? ref with
      | .error e => .ok (.error e) a
      | .ok record =>
        match record.settle kind value with
        | .ok (due, settled) => .ok (.ok ()) { a with
            heap := a.heap.setRecord ref settled
            queue := a.queue.pushAll (due.map (.react kind · value)) }
        | .error fault => .error fault a := by
  simp only [settle, bind, ExceptT.bind, ExceptT.mk, EStateM.bind, record_run]
  cases a.heap.record? ref with
  | error e => rfl
  | ok record =>
    simp only [ExceptT.bindCont]
    rcases record.settle kind value with fault | ⟨due, settled⟩ <;> rfl

theorem latch_run (ref : ObjectRef) (next : Request Agent Unit) (a : Agent) :
    latch ref next a =
      match a.heap.record? ref with
      | .error e => .ok (.error e) a
      | .ok record =>
        if record.alreadyResolved then .ok (.ok false) a
        else
          match next { a with heap := a.heap.setRecord ref record.lock } with
          | .ok (.ok ()) a => .ok (.ok true) a
          | .ok (.error e) a => .ok (.error e) a
          | .error fault a => .error fault a := by
  simp only [latch, bind, ExceptT.bind, ExceptT.mk, EStateM.bind, record_run]
  cases a.heap.record? ref with
  | error e => rfl
  | ok record =>
    simp only [ExceptT.bindCont]
    split
    · rfl
    · have hset : (setRecord ref record.lock : Request Agent Unit) a =
          .ok (.ok ()) { a with heap := a.heap.setRecord ref record.lock } := rfl
      simp only [EStateM.bind, hset, ExceptT.bindCont]
      rcases next { a with heap := a.heap.setRecord ref record.lock } with ⟨_ | _, _⟩ | _ <;> rfl

theorem resolveLatched_run (ref : ObjectRef) (value : ManagedValue) (a : Agent) :
    resolveLatched ref value a =
      match value with
      | .object other =>
        if other = ref then settle ref .reject chainingCycle a
        else if a.heap.isPromise other then
          .ok (.ok ()) { a with queue := a.queue.push (.follow ref other) }
        else settle ref .fulfill value a
      | _ => settle ref .fulfill value a := by
  cases value <;> try rfl
  simp only [resolveLatched]
  split
  · rfl
  · simp only [bind, ExceptT.bind, ExceptT.mk, EStateM.bind]
    change (if _ then _ else _ : Request Agent Unit) a = _
    split <;> rfl

theorem attach_run (ref : ObjectRef) (pair : ReactionPair) (a : Agent) :
    attach ref pair a =
      match a.heap.record? ref with
      | .error e => .ok (.error e) a
      | .ok record =>
        match record.status with
        | .pending => .ok (.ok ()) { a with
            heap := a.heap.setRecord ref (record.markHandled.addReactions pair) }
        | .fulfilled value => .ok (.ok ()) { a with
            heap := a.heap.setRecord ref record.markHandled
            queue := a.queue.push (.react .fulfill pair.onFulfilled value) }
        | .rejected reason => .ok (.ok ()) { a with
            heap := a.heap.setRecord ref record.markHandled
            queue := a.queue.push (.react .reject pair.onRejected reason) } := by
  simp only [attach, bind, ExceptT.bind, ExceptT.mk, EStateM.bind, record_run]
  cases a.heap.record? ref with
  | error e => rfl
  | ok record =>
    simp only [ExceptT.bindCont, PromiseRecord.markHandled]
    cases record.status <;> rfl

theorem runJob_follow (promise thenable : ObjectRef) (a : Agent) :
    runJob (.follow promise thenable) a =
      match attach thenable ⟨.adopt promise, .adopt promise⟩ a with
      | .ok (.ok ()) a => .ok (.ok none) a
      | .ok (.error e) a => .ok (.error e) a
      | .error fault a => .error fault a := by
  simp only [runJob, bind, ExceptT.bind, ExceptT.mk, EStateM.bind]
  rcases attach thenable ⟨.adopt promise, .adopt promise⟩ a with ⟨_ | _, _⟩ | _ <;> rfl

theorem runJob_native (kind : ReactionKind) (handler : FunctionId) (derived : ObjectRef)
    (argument : ManagedValue) (a : Agent) :
    runJob (.react kind (.derive (some handler) derived) argument) a =
      .ok (.ok (some ⟨kind, handler, argument, derived⟩))
        { a with heap := (a.heap.retain derived).2 } := rfl

theorem runJob_passOn (kind : ReactionKind) (derived : ObjectRef) (argument : ManagedValue)
    (a : Agent) :
    runJob (.react kind (.derive none derived) argument) a =
      match passOn kind derived argument a with
      | .ok (.ok _) a => .ok (.ok none) a
      | .ok (.error e) a => .ok (.error e) a
      | .error fault a => .error fault a := by
  simp only [runJob, bind, ExceptT.bind, ExceptT.mk, EStateM.bind, discard,
    ExceptT.map, Functor.mapConst, Function.comp, Function.const]
  rcases passOn kind derived argument a with ⟨_ | _, _⟩ | _ <;> rfl

theorem runJob_adopt (kind : ReactionKind) (follower : ObjectRef) (argument : ManagedValue)
    (a : Agent) :
    runJob (.react kind (.adopt follower) argument) a =
      match a.heap.record? follower with
      | .error e => .ok (.error e) a
      | .ok record =>
        if record.state = .pending then
          match settle follower kind argument a with
          | .ok (.ok ()) a => .ok (.ok none) a
          | .ok (.error e) a => .ok (.error e) a
          | .error fault a => .error fault a
        else .ok (.ok none) a := by
  simp only [runJob, bind, ExceptT.bind, ExceptT.mk, EStateM.bind, record_run]
  cases a.heap.record? follower with
  | error e => rfl
  | ok record =>
    simp only [ExceptT.bindCont]
    split
    · simp only [EStateM.bind]
      rcases settle follower kind argument a with ⟨_ | _, _⟩ | _ <;> rfl
    · rfl

end Agent

end Promises
