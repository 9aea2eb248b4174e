import Promises.Proofs.Agent.Order

namespace Promises

open Agent

namespace History

variable {s t u : History} {n : ℕ} {b b' : Bool} {m m' : ℕ}

/-- A step of a run, with the histories before and after it. -/
structure Passage where
  before : History
  event : Event
  after : History

/-- A run from one history to another, step by step. -/
inductive Way : History → List Passage → History → Prop
  | refl (s : History) : Way s [] s
  | step {s t u : History} {event : Event} {way : List Passage} (h : Step s event t)
    (w : Way t way u) : Way s (⟨s, event, t⟩ :: way) u

namespace Way

variable {way more : List Passage} {x y : Passage} {i j : ℕ}

theorem later (w : Way s way u) : Later s u := by
  induction w with
  | refl => exact .refl
  | step h _ ih => exact .head ⟨_, h⟩ ih

theorem passage (w : Way s way u) (hx : way[i]? = some x) :
    Later s x.before ∧ Step x.before x.event x.after ∧ Later x.after u := by
  induction w generalizing i with
  | refl => cases hx
  | step h w ih =>
    cases i with
    | zero =>
      obtain rfl := Option.some.inj hx
      exact ⟨.refl, h, w.later⟩
    | succ i =>
      obtain ⟨hbefore, hstep, hafter⟩ := ih hx
      exact ⟨.head ⟨_, h⟩ hbefore, hstep, hafter⟩

/-- Of two steps of a run, the second comes after the first. -/
theorem between (w : Way s way u) (hx : way[i]? = some x) (hy : way[j]? = some y) (hlt : i < j) :
    Later x.after y.before := by
  induction w generalizing i j with
  | refl => cases hx
  | step h w ih =>
    cases j with
    | zero => exact absurd hlt (Nat.not_lt_zero i)
    | succ j =>
      cases i with
      | zero =>
        obtain rfl := Option.some.inj hx
        exact (w.passage hy).1
      | succ i => exact ih hx hy (Nat.lt_of_succ_lt_succ hlt)

theorem append (w : Way s way t) (w' : Way t more u) : Way s (way ++ more) u := by
  induction w with
  | refl => exact w'
  | step h _ ih => exact .step h (ih w')

/-- What a step attaches is pledged from then on. -/
theorem attached (w : Way s way u) (hs : s.Sound) (hb : s.Balanced) (hx : way[i]? = some x)
    (ha : x.before.Attaches n x.event b m) :
    ∃ mid p record pair, Attachment x.before mid x.after n b m p record pair ∧
      ∀ v, Later x.after v → v.Pledges p n m pair := by
  obtain ⟨hbefore, hstep, -⟩ := w.passage hx
  have hsound := Later.sound hs hbefore
  have hbalanced := Later.balanced hs hb hbefore
  obtain ⟨mid, p, record, pair, hat⟩ := ha.attachment hsound hbalanced hstep
  have hsafter := hstep.sound hsound
  have hbafter := Moves.balanced hsound hbalanced (hstep.moves hsound)
  refine ⟨mid, p, record, pair, hat, fun v hv => ?_⟩
  refine Moves.pledges hsafter hbafter (hv.moves hsafter) ?_ (hat.pledges hbafter)
  calc
    n = x.before.number p := hat.number.symm
    _ < x.before.born := hsound.number_lt p (Heap.isLive_of_record? hat.source)
    _ ≤ x.after.born := (Moves.leads hsound (hstep.moves hsound)).born_le

/-- Two reactions of one promise are run in the order in which they were attached to it. -/
theorem same_promise (w : Way s way u) (hs : s.Sound) (hb : s.Balanced) (hlt : i < j)
    (hx : way[i]? = some x) (hy : way[j]? = some y) (hfirst : x.before.Attaches n x.event b m)
    (hsecond : y.before.Attaches n y.event b' m') : u.Ordered b m b' m' := by
  obtain ⟨hsx, hstepx, -⟩ := w.passage hx
  obtain ⟨hsy, hstepy, hyu⟩ := w.passage hy
  have hxy := w.between hx hy hlt
  have hsoundx := Later.sound hs hsx
  have hsoundy := Later.sound hs hsy
  have hbalancedy := Later.balanced hs hb hsy
  obtain ⟨_, p, _, pair, hat, hpledges⟩ := w.attached hs hb hx hfirst
  obtain ⟨_, p', _, pair', hat', -⟩ := w.attached hs hb hy hsecond
  have hleads : Leads x.before y.before :=
    Moves.leads hsoundx ((hstepx.moves hsoundx).trans (hxy.moves (hstepx.sound hsoundx)))
  have hahead := hat.ahead hsoundx hat' hleads (hpledges _ hxy) hsoundy
  obtain ⟨hend, -⟩ := hahead.later (hstepy.sound hsoundy)
    (Moves.balanced hsoundy hbalancedy (hstepy.moves hsoundy)) (hsecond.closed hsoundy hstepy) hyu
  exact (Later.balanced hs hb w.later).ordered hend.queued

end Way

/-- With the step a client settles the promise, and is accepted. -/
def Passage.Settles (x : Passage) (p : ObjectRef) : Prop :=
  ∃ kind value, x.event = .call (.settle kind p value) (.settled (.ok true))

namespace Way

variable {way : List Passage} {x y z : Passage} {i j k l : ℕ} {p q : ObjectRef}

/-- A step that settles attaches nothing. -/
theorem not_attaches_of_settles (hx : x.Settles p) : ¬ x.before.Attaches n x.event b m := by
  obtain ⟨kind, value, hx⟩ := hx
  rw [hx]
  intro ha
  cases kind <;> cases ha

/-- What was attached to a promise that a client settled is queued when another promise is settled later. -/
theorem queued_of_settled (w : Way s way u) (hs : s.Sound) (hb : s.Balanced) (hij : i < j)
    (hx : way[i]? = some x) (hy : way[j]? = some y) (hsettles : x.Settles p) {record : PromiseRecord}
    (hr : x.after.agent.heap.record? p = .ok record) (hsettled : record.status ≠ .pending) (hkj : k < j)
    (hz : way[k]? = some z) (ha : z.before.Attaches (x.before.number p) z.event b m) :
    ∃ e ∈ y.before.queued, e.reacts b m = true := by
  obtain ⟨hsx, hstepx, -⟩ := w.passage hx
  obtain ⟨hsz, hstepz, -⟩ := w.passage hz
  have hsoundx := Later.sound hs hsx
  have hsoundz := Later.sound hs hsz
  have hafterx := hstepx.sound hsoundx
  have hafterz := hstepz.sound hsoundz
  obtain ⟨mid, p', record', pair, hat, hpledges⟩ := w.attached hs hb hz ha
  have hnumber : x.after.number p = x.before.number p := by
    obtain ⟨kind, value, hevent⟩ := hsettles
    rw [hevent] at hstepx
    obtain ⟨hno, -⟩ | ⟨-, old, -, -, hafter⟩ := hstepx.settle_inv hsoundx
    · exact absurd rfl hno
    · rw [hafter]
      rfl
  rcases Nat.lt_trichotomy k i with hki | rfl | hik
  · -- it is queued with the settlement
    have hzx : Later z.after x.after := (w.between hz hx hki).tail ⟨_, hstepx⟩
    have hleads : Leads z.before x.after :=
      Moves.leads hsoundz ((hstepz.moves hsoundz).trans (hzx.moves hafterz))
    obtain ⟨e, he, hreacts⟩ := hat.due hsoundz hleads (hpledges _ hzx) hr hnumber hsettled
    exact ⟨e, (Later.queued_prefix hafterx (w.between hx hy hij)).subset he, hreacts⟩
  · obtain rfl : x = z := Option.some.inj (hx.symm.trans hz)
    exact absurd ha (not_attaches_of_settles hsettles)
  · -- it is queued when it is attached, as the promise stays settled
    have hxz := w.between hx hz hik
    obtain ⟨rfl, hadvances⟩ := (Moves.leads hafterx (hxz.moves hafterx)).same hafterx hr hat.source
      (hat.number.trans hnumber.symm)
    have hstill : record'.status ≠ .pending := by
      rw [hadvances.status hsettled]
      exact hsettled
    have hbalanced := Later.balanced hs hb (hsz.tail ⟨_, hstepz⟩)
    obtain ⟨e, he, hreacts⟩ := hat.due_of_settled hbalanced hstill
    exact ⟨e, (Later.queued_prefix hafterz (w.between hz hy hkj)).subset he, hreacts⟩

/-- No reaction of a promise is queued before a client settles it. -/
theorem unqueued_of_settles (w : Way s way u) (hs : s.Sound) (hb : s.Balanced) (hy : way[j]? = some y)
    (hsettles : y.Settles q) (hz : way[l]? = some z)
    (ha : z.before.Attaches (y.before.number q) z.event b m) {e : Entry} (he : e ∈ y.before.queued) :
    e.reacts b m = false := by
  obtain ⟨hsy, hstepy, -⟩ := w.passage hy
  obtain ⟨hsz, hstepz, -⟩ := w.passage hz
  have hsoundy := Later.sound hs hsy
  have hsoundz := Later.sound hs hsz
  have hafterz := hstepz.sound hsoundz
  obtain ⟨mid, q', record, pair, hat, hpledges⟩ := w.attached hs hb hz ha
  rcases Nat.lt_trichotomy l j with hlj | rfl | hjl
  · -- the reaction is stored with the promise
    obtain ⟨kind, value, hevent⟩ := hsettles
    rw [hevent] at hstepy
    obtain ⟨hno, -⟩ | ⟨-, old, hold, hclear, -⟩ := hstepy.settle_inv hsoundy
    · exact absurd rfl hno
    · have hzy := w.between hz hy hlj
      have hleads : Leads z.before y.before :=
        Moves.leads hsoundz ((hstepz.moves hsoundz).trans (hzy.moves hafterz))
      have hpending : old.status = .pending := hsoundy.agent.unlatched q old hold hclear
      obtain ⟨hmem, haims⟩ := hat.stored hsoundz hleads (hpledges _ hzy) hold rfl hpending
      have hnone := (Later.balanced hs hb hsy).queued_eq_nil_of_stored hold hmem haims
      exact Bool.eq_false_iff.2 (List.filter_eq_nil_iff.1 hnone e he)
  · obtain rfl : y = z := Option.some.inj (hy.symm.trans hz)
    exact absurd ha (not_attaches_of_settles hsettles)
  · -- it was not attached yet
    have hyz : Later y.before z.before := .head ⟨_, hstepy⟩ (w.between hy hz hjl)
    exact hat.unqueued ((Later.queued_prefix hsoundy hyz).subset he)

/-- The reactions of a promise that a client settled first, as far as they were attached before the
settlement of the other promise, are run before all the reactions of that one. -/
theorem settled_first (w : Way s way u) (hs : s.Sound) (hb : s.Balanced) (hij : i < j)
    (hx : way[i]? = some x) (hy : way[j]? = some y) (hp : x.Settles p) (hq : y.Settles q)
    {record : PromiseRecord} (hr : x.after.agent.heap.record? p = .ok record)
    (hsettled : record.status ≠ .pending) {z' : Passage} (hkj : k < j) (hz : way[k]? = some z)
    (hz' : way[l]? = some z') (ha : z.before.Attaches (x.before.number p) z.event b m)
    (ha' : z'.before.Attaches (y.before.number q) z'.event b' m') : u.Ordered b m b' m' := by
  have hfirst := w.queued_of_settled hs hb hij hx hy hp hr hsettled hkj hz ha
  have hnone : ∀ e ∈ y.before.queued, e.reacts b' m' = false :=
    fun e he => w.unqueued_of_settles hs hb hy hq hz' ha' he
  obtain ⟨hsy, hstepy, hyu⟩ := w.passage hy
  have hrest : y.before.queued <+: u.queued :=
    Later.queued_prefix (Later.sound hs hsy) (.head ⟨_, hstepy⟩ hyu)
  obtain ⟨rest, hrest⟩ := hrest
  apply (Later.balanced hs hb w.later).ordered
  rw [← hrest]
  exact (precedes_of_none hnone).append (Or.inl hfirst)

end Way

end History

end Promises
