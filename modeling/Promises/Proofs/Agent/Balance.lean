import Promises.Proofs.Agent.Settlement
import Promises.Proofs.Heap.Tally

/-! The balance of a history. A registration pledges one reaction to its derived promise, and a job
that makes a promise follow another one pledges one reaction that adopts its outcome. A pledge is a
stored pair of reactions or a job that was queued, never both, and what was queued is what was run and
then what waits. -/

namespace Promises

/-- Whether the reaction is that of a registration. -/
def Reaction.isDerive : Reaction → Bool
  | derive .. => true
  | adopt _ => false

namespace ReactionPair

/-- A pair of reactions that settle one promise in the same manner. -/
structure Twin (pair : ReactionPair) : Prop where
  isDerive : pair.onRejected.isDerive = pair.onFulfilled.isDerive
  target : pair.onRejected.target = pair.onFulfilled.target

/-- Whether the pair settles the promise with a number, as a registration or else by adoption. -/
def aims (number : ObjectRef → Nat) (derive : Bool) (n : Nat) (pair : ReactionPair) : Bool :=
  pair.onFulfilled.isDerive == derive && number pair.onFulfilled.target == n

end ReactionPair

namespace Entry

/-- Whether the entry is that of a reaction that settles the promise with a number. -/
def reacts (derive : Bool) (n : Nat) (e : Entry) : Bool :=
  match e.job with
  | .react _ reaction _ => reaction.isDerive == derive && e.number == n
  | .follow .. => false

theorem reacts_derive (n : Nat) (kind : ReactionKind) (handler : Option FunctionId)
    (derived : ObjectRef) (value : ManagedValue) :
    (⟨n, .react kind (.derive handler derived) value⟩ : Entry).reacts true n = true := by
  simp [reacts, Reaction.isDerive]

/-- Whether the entry makes the promise with a number follow another one. -/
def follows (n : Nat) (e : Entry) : Bool :=
  match e.job with
  | .react .. => false
  | .follow .. => e.number == n

/-- What running the entry hands out. -/
def native (e : Entry) : List (Nat × NativeJob) :=
  e.job.native?.toList.map fun native => (e.number, native)

end Entry

theorem Job.native?_derived {job : Job} {native : NativeJob} (hn : job.native? = some native) :
    native.derived = job.target := by
  match job with
  | .react _ (.derive (some _) _) _ =>
    rw [Job.native?, Option.some.injEq] at hn
    rw [← hn]
    rfl
  | .react _ (.derive none _) _ => cases hn
  | .react _ (.adopt _) _ => cases hn
  | .follow .. => cases hn

open Agent

namespace History

variable {s t : History}

/-- The pledges of reactions to the promise with a number. -/
def pledged (s : History) (derive : Bool) (n : Nat) : Nat :=
  s.agent.heap.tally (ReactionPair.aims s.number derive n) +
    s.queued.countP (Entry.reacts derive n)

/-- What the jobs of a history and the pledges to its promises have to do with each other. -/
structure Balanced (s : History) : Prop where
  logged : s.queued = s.ran ++ s.agent.queue.toList.map s.entry
  handed : s.handed = s.ran.flatMap Entry.native
  twin : ∀ ref record, s.agent.heap.record? ref = .ok record →
    ∀ pair ∈ record.reactions.toList, pair.Twin
  derived_le : ∀ n, s.pledged true n ≤ 1
  followed_le : ∀ n, s.queued.countP (Entry.follows n) ≤ 1
  /-- What is not resolved does not follow. -/
  unlatched : ∀ ref record, s.agent.heap.record? ref = .ok record →
    record.alreadyResolved = false → s.queued.countP (Entry.follows (s.number ref)) = 0
  adopted_le : ∀ n, s.pledged false n ≤ s.ran.countP (Entry.follows n)
  /-- What follows is pending until it adopts. -/
  pending : ∀ ref record, s.agent.heap.record? ref = .ok record →
    s.queued.countP (Entry.follows (s.number ref)) ≠ 0 →
    s.ran.countP (Entry.reacts false (s.number ref)) = 0 → record.status = .pending

theorem balanced_start (limit : Nat) : (start limit).Balanced where
  logged := rfl
  handed := rfl
  twin ref record hr := by
    simp [start, new, Heap.empty, Heap.record?, Heap.object?, Heap.cell?] at hr
  derived_le n := by simp [pledged, start, new]
  followed_le n := by simp [start]
  unlatched ref record hr := by simp [start]
  adopted_le n := by simp [pledged, start, new]
  pending ref record hr := by simp [start]

/-- One pledge of a kind is made to a promise at most. -/
theorem Balanced.pledged_le (hb : s.Balanced) (derive : Bool) (n : Nat) : s.pledged derive n ≤ 1 := by
  cases derive with
  | true => exact hb.derived_le n
  | false =>
    calc s.pledged false n
        ≤ s.ran.countP (Entry.follows n) := hb.adopted_le n
      _ ≤ s.queued.countP (Entry.follows n) := by
          rw [hb.logged]
          exact (List.sublist_append_left _ _).countP_le
      _ ≤ 1 := hb.followed_le n

/-- What stores no reaction and queues no job pledges nothing new. -/
theorem Balanced.idle (hs : s.Balanced) {b : Agent} (hi : Idle s.agent b) :
    ({ s with agent := b } : History).Balanced := by
  -- a collection may take pledges away, with the promises that hold them
  have hpledged (derive : Bool) (n : Nat) :
      ({ s with agent := b } : History).pledged derive n ≤ s.pledged derive n := by
    apply Nat.add_le_add_right
    cases hi with
    | collect => exact Heap.tally_collect_le ..
    | retain ref => exact Nat.le_of_eq (Heap.tally_retain _ ref)
    | release ref => exact Nat.le_of_eq (Heap.tally_release _ ref)
    | handle hr => exact Nat.le_of_eq (Heap.tally_setRecord_of_reactions _ hr rfl)
    | flag => exact Nat.le_refl _
  constructor
  case logged =>
    rw [hs.logged, hi.queue_eq]
    rfl
  case handed => exact hs.handed
  case twin =>
    intro ref new hr
    obtain ⟨old, ho, hn, -⟩ := hi.record?_inv hr
    rw [hn]
    exact hs.twin ref old ho
  case derived_le =>
    intro n
    exact Nat.le_trans (hpledged true n) (hs.derived_le n)
  case followed_le => exact hs.followed_le
  case unlatched =>
    intro ref new hr
    obtain ⟨old, ho, hn, -⟩ := hi.record?_inv hr
    rw [hn]
    exact hs.unlatched ref old ho
  case adopted_le =>
    intro n
    exact Nat.le_trans (hpledged false n) (hs.adopted_le n)
  case pending =>
    intro ref new hr
    obtain ⟨old, ho, hn, -⟩ := hi.record?_inv hr
    rw [hn]
    exact hs.pending ref old ho

theorem entry_congr {u : History} {job : Job} (hn : u.number job.target = s.number job.target) :
    u.entry job = s.entry job := congrArg (Entry.mk · job) hn

/-- No job was queued for a number that was not given yet. -/
theorem Sound.follows_born (hs : s.Sound) : s.queued.countP (Entry.follows s.born) = 0 := by
  rw [List.countP_eq_zero]
  intro e he hf
  have hlt := hs.entry_lt e he
  obtain ⟨m, _ | _⟩ := e
  · cases hf
  · simp only [Entry.follows, beq_iff_eq] at hf
    exact absurd hf (Nat.ne_of_lt hlt)

/-- What is live keeps its number when an object is made. -/
theorem Sound.number_placed (hs : s.Sound) (object : HeapObject) {q : ObjectRef}
    (hq : s.agent.heap.isLive q = true) :
    Function.update s.number (s.agent.heap.place object).1 s.born q = s.number q :=
  Function.update_of_ne (Heap.ne_place_of_isLive hs.agent.shape object hq) _ _

/-- A new object stores no reactions, and the targets of the stored ones keep their numbers. -/
theorem Sound.pledged_placed (hs : s.Sound) {object : HeapObject}
    (ho : ∀ record, object = .promise record → record = .new) (derive : Bool) (n : Nat) :
    ({ s.bear (some (s.agent.heap.place object).1) with
      agent := s.agent.placed object } : History).pledged derive n = s.pledged derive n := by
  have htally : (s.agent.placed object).heap.tally (ReactionPair.aims
        (Function.update s.number (s.agent.heap.place object).1 s.born) derive n) =
      s.agent.heap.tally (ReactionPair.aims s.number derive n) := by
    refine (Heap.tally_place _ hs.agent.shape ho).trans (Heap.tally_congr _ ?_)
    intro ref record hr pair hp
    have ht := hs.agent.stored ref record hr pair hp .fulfill
    change (_ && Function.update s.number _ _ (pair.due .fulfill).target == n) = _
    rw [hs.number_placed object (Heap.isLive_of_isPromise ht)]
    rfl
  exact congrArg (· + s.queued.countP (Entry.reacts derive n)) htally

/-- A new object has a number of its own, to which nothing is pledged. -/
theorem Balanced.placed (hs : s.Sound) (hb : s.Balanced) {object : HeapObject}
    (ho : ∀ record, object = .promise record → record = .new) :
    ({ s.bear (some (s.agent.heap.place object).1) with
      agent := s.agent.placed object } : History).Balanced := by
  -- a record of the new heap is that of a new object, or is the same as before
  have hrecord {ref : ObjectRef} {record : PromiseRecord}
      (hr : (s.agent.heap.place object).2.record? ref = .ok record) :
      (ref = (s.agent.heap.place object).1 ∧ record = .new) ∨
        (s.agent.heap.record? ref = .ok record ∧
          Function.update s.number (s.agent.heap.place object).1 s.born ref = s.number ref) := by
    rcases Heap.record?_place_inv hs.agent.shape ho hr with hnew | ⟨hn, hr⟩
    · exact Or.inl hnew
    · exact Or.inr ⟨hr, Function.update_of_ne hn _ _⟩
  constructor
  case logged =>
    -- the targets of queued jobs are live, and so they keep their numbers
    change s.queued = s.ran ++ s.agent.queue.toList.map _
    rw [hb.logged]
    congr 1
    apply List.map_congr_left
    intro job hj
    have hp := hs.agent.queued job hj job.target job.target_mem_promises
    exact (entry_congr (hs.number_placed object (Heap.isLive_of_isPromise hp))).symm
  case handed => exact hb.handed
  case twin =>
    intro ref record hr
    rcases hrecord hr with ⟨-, rfl⟩ | ⟨hr, -⟩
    · simp [PromiseRecord.new]
    · exact hb.twin ref record hr
  case derived_le =>
    intro n
    rw [hs.pledged_placed ho]
    exact hb.derived_le n
  case followed_le => exact hb.followed_le
  case unlatched =>
    intro ref record hr hl
    change s.queued.countP (Entry.follows (Function.update s.number _ s.born ref)) = 0
    rcases hrecord hr with ⟨rfl, -⟩ | ⟨hr, hn⟩
    · rw [Function.update_self, hs.follows_born]
    · rw [hn, hb.unlatched ref record hr hl]
  case adopted_le =>
    intro n
    rw [hs.pledged_placed ho]
    exact hb.adopted_le n
  case pending =>
    intro ref record hr
    change s.queued.countP (Entry.follows (Function.update s.number _ s.born ref)) ≠ 0 →
      s.ran.countP (Entry.reacts false (Function.update s.number _ s.born ref)) = 0 → _
    rcases hrecord hr with ⟨-, rfl⟩ | ⟨hr, hn⟩
    · exact fun _ _ => rfl
    · rw [hn]
      exact hb.pending ref record hr

/-- The history with another record of a promise and more jobs. -/
def rewriting (s : History) (ref : ObjectRef) (new : PromiseRecord) (queue : JobQueue) : History :=
  s.after s.agent.queue.length { s.agent with heap := s.agent.heap.setRecord ref new, queue }

section

variable {ref : ObjectRef} {old new : PromiseRecord} {queue : JobQueue} {jobs : List Job}

theorem queued_rewriting (hq : queue.toList = s.agent.queue.toList ++ jobs) :
    (s.rewriting ref new queue).queued = s.queued ++ jobs.map s.entry := by
  simp only [rewriting, after, hq, ← JobQueue.length_toList, List.drop_left]

theorem pledged_rewriting (hr : s.agent.heap.record? ref = .ok old)
    (hq : queue.toList = s.agent.queue.toList ++ jobs) (new : PromiseRecord) (derive : Bool)
    (n : Nat) :
    (s.rewriting ref new queue).pledged derive n + old.tally (ReactionPair.aims s.number derive n) =
      s.pledged derive n + new.tally (ReactionPair.aims s.number derive n) +
        (jobs.map s.entry).countP (Entry.reacts derive n) := by
  have htally := Heap.tally_setRecord (ReactionPair.aims s.number derive n) hr new
  rw [pledged, queued_rewriting hq, List.countP_append, pledged]
  change (s.agent.heap.setRecord ref new).tally (ReactionPair.aims s.number derive n) + _ + _ = _
  omega

theorem record?_rewriting (hr : s.agent.heap.record? ref = .ok old) {q : ObjectRef}
    {record : PromiseRecord}
    (hq : (s.rewriting ref new queue).agent.heap.record? q = .ok record) :
    (q = ref ∧ record = new) ∨ (q ≠ ref ∧ s.agent.heap.record? q = .ok record) :=
  Heap.record?_setRecord_inv hr hq

theorem Balanced.logged_rewriting (hb : s.Balanced)
    (hq : queue.toList = s.agent.queue.toList ++ jobs) :
    (s.rewriting ref new queue).queued = s.ran ++ queue.toList.map s.entry := by
  rw [queued_rewriting hq, hb.logged, List.append_assoc, ← List.map_append, ← hq]

theorem Balanced.twin_rewriting (hb : s.Balanced) (hr : s.agent.heap.record? ref = .ok old)
    (ht : ∀ pair ∈ new.reactions.toList, pair.Twin) {q : ObjectRef} {record : PromiseRecord}
    (hq : (s.rewriting ref new queue).agent.heap.record? q = .ok record) :
    ∀ pair ∈ record.reactions.toList, pair.Twin := by
  rcases record?_rewriting hr hq with ⟨-, rfl⟩ | ⟨-, hq⟩
  · exact ht
  · exact hb.twin q record hq

/-- Jobs that run reactions may be queued as long as the pledges stay in balance. -/
theorem Balanced.reacting (hb : s.Balanced) (hr : s.agent.heap.record? ref = .ok old)
    (hq : queue.toList = s.agent.queue.toList ++ jobs)
    (hj : ∀ n, (jobs.map s.entry).countP (Entry.follows n) = 0)
    (ht : ∀ pair ∈ new.reactions.toList, pair.Twin)
    (hl : new.alreadyResolved = false → old.alreadyResolved = false)
    (hp : new.status = old.status ∨
      (s.queued.countP (Entry.follows (s.number ref)) ≠ 0 →
        s.ran.countP (Entry.reacts false (s.number ref)) ≠ 0))
    (hd : ∀ n, (s.rewriting ref new queue).pledged true n ≤ 1)
    (ha : ∀ n, (s.rewriting ref new queue).pledged false n ≤ s.ran.countP (Entry.follows n)) :
    (s.rewriting ref new queue).Balanced := by
  -- no promise comes to follow another one
  have hfollows (n : Nat) : (s.rewriting ref new queue).queued.countP (Entry.follows n) =
      s.queued.countP (Entry.follows n) := by
    rw [queued_rewriting hq, List.countP_append, hj, Nat.add_zero]
  constructor
  case logged => exact hb.logged_rewriting hq
  case handed => exact hb.handed
  case twin =>
    intro q record hqr
    exact hb.twin_rewriting hr ht hqr
  case derived_le => exact hd
  case followed_le =>
    intro n
    rw [hfollows]
    exact hb.followed_le n
  case unlatched =>
    intro q record hqr hlatch
    rw [hfollows]
    rcases record?_rewriting hr hqr with ⟨rfl, rfl⟩ | ⟨-, hqr⟩
    · exact hb.unlatched q old hr (hl hlatch)
    · exact hb.unlatched q record hqr hlatch
  case adopted_le => exact ha
  case pending =>
    intro q record hqr
    rw [hfollows]
    rcases record?_rewriting hr hqr with ⟨rfl, rfl⟩ | ⟨-, hqr⟩
    · intro hf hran
      rcases hp with hp | hp
      · rw [hp]
        exact hb.pending q old hr hf hran
      · exact absurd hran (hp hf)
    · exact hb.pending q record hqr

end

theorem reacts_due {pair : ReactionPair} (ht : pair.Twin) (kind : ReactionKind)
    (value : ManagedValue) (derive : Bool) (n : Nat) :
    (s.entry (.react kind (pair.due kind) value)).reacts derive n =
      pair.aims s.number derive n := by
  cases kind with
  | fulfill => rfl
  | reject =>
    simp only [entry, Entry.reacts, ReactionPair.aims, ReactionPair.due, Job.target, ht.isDerive,
      ht.target]

variable {ref : ObjectRef} {record : PromiseRecord}

/-- A reaction is pledged in the record of a pending promise and in the queue for a settled one. -/
theorem pledged_attaching (hr : s.agent.heap.record? ref = .ok record) {pair : ReactionPair}
    (ht : pair.Twin) (derive : Bool) (n : Nat) :
    (s.after s.agent.queue.length (s.agent.attaching ref record pair)).pledged derive n =
      s.pledged derive n + if pair.aims s.number derive n then 1 else 0 := by
  have hold : record.markHandled.tally (ReactionPair.aims s.number derive n) =
    record.tally (ReactionPair.aims s.number derive n) := rfl
  unfold Agent.attaching
  cases record.status.outcome? with
  | none =>
    have hq : s.agent.queue.toList = s.agent.queue.toList ++ [] := (List.append_nil _).symm
    have hsum := pledged_rewriting hr hq (record.markHandled.addReactions pair) derive n
    rw [PromiseRecord.tally_addReactions, List.map_nil, List.countP_nil] at hsum
    change (s.rewriting ref (record.markHandled.addReactions pair) s.agent.queue).pledged _ _ = _
    omega
  | some outcome =>
    obtain ⟨kind, value⟩ := outcome
    have hq := JobQueue.toList_push s.agent.queue (.react kind (pair.due kind) value)
    have hsum := pledged_rewriting hr hq record.markHandled derive n
    rw [List.map_singleton, List.countP_singleton, reacts_due ht] at hsum
    change (s.rewriting ref record.markHandled (s.agent.queue.push _)).pledged _ _ = _
    omega

theorem Balanced.attaching (hb : s.Balanced) (hr : s.agent.heap.record? ref = .ok record)
    {pair : ReactionPair} (ht : pair.Twin)
    (hd : ∀ n, s.pledged true n + (if pair.aims s.number true n then 1 else 0) ≤ 1)
    (ha : ∀ n, s.pledged false n + (if pair.aims s.number false n then 1 else 0) ≤
      s.ran.countP (Entry.follows n)) :
    (s.after s.agent.queue.length (s.agent.attaching ref record pair)).Balanced := by
  simp only [← pledged_attaching hr ht] at hd ha
  unfold Agent.attaching at hd ha ⊢
  cases ho : record.status.outcome? with
  | none =>
    rw [ho] at hd ha
    have htwin : ∀ p ∈ (record.markHandled.addReactions pair).reactions.toList, p.Twin := by
      intro p hp
      rw [PromiseRecord.addReactions, Array.toList_push, List.mem_append] at hp
      rcases hp with hp | hp
      · exact hb.twin ref record hr p hp
      · rw [List.mem_singleton.1 hp]
        exact ht
    exact hb.reacting hr (List.append_nil _).symm (fun _ => rfl) htwin id (Or.inl rfl) hd ha
  | some outcome =>
    obtain ⟨kind, value⟩ := outcome
    rw [ho] at hd ha
    have htwin : ∀ p ∈ record.markHandled.reactions.toList, p.Twin := hb.twin ref record hr
    exact hb.reacting hr (JobQueue.toList_push _ _) (fun _ => rfl) htwin id (Or.inl rfl) hd ha

/-- A settlement moves the pledges of the promise from its record to the queue. -/
theorem Balanced.settling (hb : s.Balanced) (hr : s.agent.heap.record? ref = .ok record)
    (kind : ReactionKind) (value : ManagedValue)
    (hw : s.queued.countP (Entry.follows (s.number ref)) ≠ 0 →
      s.ran.countP (Entry.reacts false (s.number ref)) ≠ 0) :
    (s.after s.agent.queue.length (s.agent.settling ref record kind value)).Balanced := by
  have hq := JobQueue.toList_pushAll s.agent.queue (record.dueJobs kind value)
  have hpledged (derive : Bool) (n : Nat) :
      (s.rewriting ref (record.settled kind value)
          (s.agent.queue.pushAll (record.dueJobs kind value))).pledged derive n =
        s.pledged derive n := by
    -- what was stored is queued, one job for each pair
    have hsum := pledged_rewriting hr hq (record.settled kind value) derive n
    have hjobs : ((record.dueJobs kind value).map s.entry).countP (Entry.reacts derive n) =
        record.tally (ReactionPair.aims s.number derive n) := by
      rw [PromiseRecord.dueJobs, List.map_map, List.countP_map, PromiseRecord.tally]
      apply List.countP_congr
      intro pair hp
      rw [Function.comp, Function.comp, reacts_due (hb.twin ref record hr pair hp)]
    have hnew : (record.settled kind value).tally (ReactionPair.aims s.number derive n) = 0 := rfl
    omega
  have hfollows (n : Nat) :
      ((record.dueJobs kind value).map s.entry).countP (Entry.follows n) = 0 := by
    rw [List.countP_eq_zero]
    intro e he
    obtain ⟨job, hj, rfl⟩ := List.mem_map.1 he
    obtain ⟨pair, -, rfl⟩ := List.mem_map.1 hj
    exact Bool.false_ne_true
  have htwin : ∀ p ∈ (record.settled kind value).reactions.toList, p.Twin := by
    simp [PromiseRecord.settled]
  have hlatch : (record.settled kind value).alreadyResolved = false → record.alreadyResolved = false :=
    by simp [PromiseRecord.settled]
  apply hb.reacting hr hq hfollows htwin hlatch (Or.inr hw)
  · intro n
    rw [hpledged]
    exact hb.derived_le n
  · intro n
    rw [hpledged]
    exact hb.adopted_le n

/-- A promise that comes to follow another one was not resolved, and so it did not follow before. -/
theorem Balanced.following (hs : s.Sound) (hb : s.Balanced)
    (hr : s.agent.heap.record? ref = .ok record) (hu : record.alreadyResolved = false)
    (other : ObjectRef) :
    (s.after s.agent.queue.length (s.agent.following ref record other)).Balanced := by
  have hq := JobQueue.toList_push s.agent.queue (.follow ref other)
  have hpledged (derive : Bool) (n : Nat) :
      (s.rewriting ref record.lock (s.agent.queue.push (.follow ref other))).pledged derive n =
        s.pledged derive n := by
    have hsum := pledged_rewriting hr hq record.lock derive n
    have hold : record.lock.tally (ReactionPair.aims s.number derive n) =
      record.tally (ReactionPair.aims s.number derive n) := rfl
    have hjob : (([.follow ref other] : List Job).map s.entry).countP (Entry.reacts derive n) = 0 :=
      rfl
    omega
  have hnone := hb.unlatched ref record hr hu
  have hfollows (n : Nat) :
      (s.rewriting ref record.lock (s.agent.queue.push (.follow ref other))).queued.countP
          (Entry.follows n) =
        s.queued.countP (Entry.follows n) + if s.number ref = n then 1 else 0 := by
    rw [queued_rewriting hq, List.countP_append, List.map_singleton, List.countP_singleton]
    simp only [Entry.follows, entry, Job.target, beq_iff_eq]
  -- what other promises follow stays as it was
  have hothers {q : ObjectRef} {new : PromiseRecord} (hn : q ≠ ref)
      (hqr : s.agent.heap.record? q = .ok new) :
      (s.rewriting ref record.lock (s.agent.queue.push (.follow ref other))).queued.countP
          (Entry.follows (s.number q)) = s.queued.countP (Entry.follows (s.number q)) := by
    have hne : s.number ref ≠ s.number q := by
      intro he
      have hq := Heap.isLive_of_record? hqr
      exact hn (hs.number_inj q ref hq (Heap.isLive_of_record? hr) he.symm)
    rw [hfollows, if_neg hne, Nat.add_zero]
  change (s.rewriting ref record.lock (s.agent.queue.push (.follow ref other))).Balanced
  constructor
  case logged => exact hb.logged_rewriting hq
  case handed => exact hb.handed
  case twin =>
    intro q new hqr
    have hlocked : ∀ pair ∈ record.lock.reactions.toList, pair.Twin := hb.twin ref record hr
    exact hb.twin_rewriting hr hlocked hqr
  case derived_le =>
    intro n
    rw [hpledged]
    exact hb.derived_le n
  case followed_le =>
    intro n
    rw [hfollows]
    split
    · rename_i hn
      have hzero : s.queued.countP (Entry.follows n) = 0 := by
        rw [← hn]
        exact hnone
      omega
    · exact hb.followed_le n
  case unlatched =>
    intro q new hqr hl
    rcases record?_rewriting hr hqr with ⟨-, rfl⟩ | ⟨hn, hqr⟩
    · cases hl
    · exact (hothers hn hqr).trans (hb.unlatched q new hqr hl)
  case adopted_le =>
    intro n
    rw [hpledged]
    exact hb.adopted_le n
  case pending =>
    intro q new hqr hf hran
    rcases record?_rewriting hr hqr with ⟨-, rfl⟩ | ⟨hn, hqr⟩
    · exact hs.agent.unlatched ref record hr hu
    · have hfollowed : s.queued.countP (Entry.follows (s.number q)) ≠ 0 := by
        rw [← hothers hn hqr]
        exact hf
      exact hb.pending q new hqr hfollowed hran

theorem Balanced.resolving (hs : s.Sound) (hb : s.Balanced)
    (hr : s.agent.heap.record? ref = .ok record) (hu : record.alreadyResolved = false)
    (r : Resolution) :
    (s.after s.agent.queue.length (s.agent.resolving ref record r)).Balanced := by
  cases r with
  | settle kind value =>
    exact hb.settling hr kind value fun hf => absurd (hb.unlatched ref record hr hu) hf
  | follow other => exact hb.following hs hr hu other

/-- The history once the first job is taken from the queue. -/
def taken (s : History) (job : Job) (queue : JobQueue) : History :=
  { s.worked job job.native? with agent := { s.agent with queue } }

theorem Sound.taken (hs : s.Sound) {job : Job} {queue : JobQueue}
    (hp : s.agent.queue.pop? = some (job, queue)) : (s.taken job queue).Sound :=
  ⟨(hs.agent.pop hp).1, hs.number_lt, hs.number_inj, hs.entry_lt⟩

/-- A job that is taken goes from the queue to what ran. -/
theorem Balanced.taken (hb : s.Balanced) {job : Job} {queue : JobQueue}
    (hp : s.agent.queue.pop? = some (job, queue)) : (s.taken job queue).Balanced := by
  -- what ran only grows
  have hran (p : Entry → Bool) : s.ran.countP p ≤ (s.ran ++ [s.entry job]).countP p :=
    (List.sublist_append_left s.ran [s.entry job]).countP_le
  constructor
  case logged =>
    change s.queued = (s.ran ++ [s.entry job]) ++ queue.toList.map s.entry
    rw [hb.logged, JobQueue.toList_of_pop?_eq_some hp, List.append_assoc]
    rfl
  case handed =>
    change s.handed ++ _ = (s.ran ++ [s.entry job]).flatMap Entry.native
    rw [hb.handed, List.flatMap_append, List.flatMap_singleton]
    congr 1
    cases hn : job.native? with
    | none => simp [Entry.native, entry, hn]
    | some native => simp [Entry.native, entry, hn, Job.native?_derived hn]
  case twin => exact hb.twin
  case derived_le => exact hb.derived_le
  case followed_le => exact hb.followed_le
  case unlatched => exact hb.unlatched
  case adopted_le =>
    intro n
    exact Nat.le_trans (hb.adopted_le n) (hran _)
  case pending =>
    intro ref record hr hf hnone
    have hzero : s.ran.countP (Entry.reacts false (s.number ref)) ≤ 0 := by
      rw [← hnone]
      exact hran _
    exact hb.pending ref record hr hf (Nat.eq_zero_of_le_zero hzero)

/-- Nothing is pledged to a promise that no reaction and no queued job aims at. -/
theorem Unclaimed.pledged_eq_zero {derived : ObjectRef} (hu : s.Unclaimed derived)
    (hs : s.Sound) (hd : s.agent.heap.isLive derived = true) (derive : Bool) :
    s.pledged derive (s.number derived) = 0 := by
  rw [pledged, Nat.add_eq_zero_iff]
  constructor
  · apply Heap.tally_eq_zero
    intro ref record hr pair hp
    rw [ReactionPair.aims, Bool.and_eq_false_iff, beq_eq_false_iff_ne, beq_eq_false_iff_ne]
    right
    intro he
    have ht := hs.agent.stored ref record hr pair hp .fulfill
    have hsame := hs.number_inj _ _ (Heap.isLive_of_isPromise ht) hd he
    exact hu.1 ref record hr pair hp .fulfill hsame
  · rw [List.countP_eq_zero]
    intro e he hr
    obtain ⟨n, _ | _⟩ := e
    · simp only [Entry.reacts, Bool.and_eq_true, beq_iff_eq] at hr
      exact hu.2 _ he hr.2
    · cases hr

/-- Taking a job and running it. -/
theorem balanced_job (hs : s.Sound) (hb : s.Balanced) {job : Job} {queue : JobQueue}
    (hp : s.agent.queue.pop? = some (job, queue)) :
    ((s.taken job queue).after queue.length (({ s.agent with queue } : Agent).working job)).Balanced := by
  have ht := hs.taken hp
  have hbt := hb.taken hp
  -- a job that fails is dropped
  have hstay : ((s.taken job queue).after queue.length { s.agent with queue }).Balanced := by
    have hsame := (s.taken job queue).after_of_queue_eq (b := { s.agent with queue }) rfl
    exact hsame ▸ hbt
  have he := effect_working { s.agent with queue } job
  generalize ({ s.agent with queue } : Agent).working job = b at he ⊢
  cases he with
  | dropped => exact hstay
  | @attached promise thenable record hr =>
    have hran (n : Nat) : (s.taken (.follow promise thenable) queue).ran.countP (Entry.follows n) =
        s.ran.countP (Entry.follows n) + if s.number promise = n then 1 else 0 := by
      change (s.ran ++ [s.entry _]).countP (Entry.follows n) = _
      rw [List.countP_append, List.countP_singleton]
      simp only [Entry.follows, entry, Job.target, beq_iff_eq]
    -- the adoption that is pledged now is the one that the job stands for
    refine hbt.attaching hr ⟨rfl, rfl⟩ (fun n => ?_) fun n => ?_
    · simpa [ReactionPair.aims, Reaction.isDerive] using hbt.derived_le n
    · rw [hran]
      have hle := hb.adopted_le n
      change s.pledged false n + _ ≤ _
      simp only [ReactionPair.aims, Reaction.isDerive, Reaction.target, beq_self_eq_true,
        Bool.true_and, beq_iff_eq]
      exact Nat.add_le_add_right hle _
  | handed kind handler derived argument =>
    have hi := Idle.retain (s.taken (.react kind (.derive (some handler) derived) argument)
      queue).agent derived
    have hbi := hbt.idle hi
    rw [← after_of_queue_eq _ hi.queue_eq] at hbi
    exact hbi
  | passed hr hu => exact hbt.resolving ht hr hu _
  | @adopted kind follower argument record hr hp =>
    -- the follower has adopted by now, as this very job ran
    refine hbt.settling hr kind argument fun _ => ?_
    change (s.ran ++ [s.entry _]).countP (Entry.reacts false (s.number follower)) ≠ 0
    rw [List.countP_append, List.countP_singleton]
    simp [Entry.reacts, entry, Job.target, Reaction.target, Reaction.isDerive]

/-- Every move keeps the balance. -/
theorem Move.balanced (hs : s.Sound) (hb : s.Balanced) (hm : Move s t) : t.Balanced := by
  cases hm with
  | idle hi => exact hb.idle hi
  | place hf ho => exact hb.placed hs ho
  | @register ref derived record f g hr hd hu =>
    -- the derived promise is new, so that this is the first pledge to it
    have hnone (derive : Bool) := hu.pledged_eq_zero hs (Heap.isLive_of_isPromise hd) derive
    refine hb.attaching hr ⟨rfl, rfl⟩ (fun n => ?_) fun n => ?_
    · split
      · rename_i haims
        simp only [ReactionPair.aims, Reaction.target, Bool.and_eq_true, beq_iff_eq] at haims
        have hzero : s.pledged true n = 0 := by
          rw [← haims.2]
          exact hnone true
        omega
      · exact hb.derived_le n
    · simpa [ReactionPair.aims, Reaction.isDerive] using hb.adopted_le n
  | resolve hr hu kind value => exact hb.resolving hs hr hu _
  | @job job queue hp =>
    rw [JobQueue.length_of_pop?_eq_some hp]
    exact balanced_job hs hb hp

theorem Moves.balanced (hs : s.Sound) (hb : s.Balanced) (hm : Moves s t) : t.Balanced := by
  induction hm with
  | refl => exact hb
  | tail h hm ih => exact hm.balanced (Moves.sound hs h) ih

theorem Reachable.balanced {limit : Nat} (hr : Reachable limit s) : s.Balanced :=
  Moves.balanced (sound_start limit) (balanced_start limit) (Later.moves (sound_start limit) hr)

end History

end Promises
