import Promises.Proofs.Isolate.Abreast
import Promises.Proofs.Paired.Script

namespace Promises

open Agent (Advance)
open Isolate (Abreast Firm)

namespace Script

variable {φ : Type} {R R' : ObjectRef → ObjectRef → Prop} {pairs pairs' : List (ObjectRef × ObjectRef)}
  {s t s' t' : Isolate Agent φ} {n n' : Notebook} {x y : Thing} {b b' : Binding}

/-- Things that stand for counterparts. On the left a resolver is a handle of its promise, on the right it is
a handle of the object that its promise is paired with. -/
inductive Thing.Same (R : ObjectRef → ObjectRef → Prop) (pairs : List (ObjectRef × ObjectRef))
    (s t : Isolate Agent φ) : Thing → Thing → Prop
  | resolver {r r' : Resolver} {b b' : Binding} {q : ObjectRef} (hl : s.handles.get r.handle = .ok b)
    (hr : t.handles.get r'.handle = .ok b') (hp : b.isPromise = true) (hp' : b'.isPromise = false)
    (hq : pairs.lookup b'.object = some q) (h : R b.object q) : Same R pairs s t (.resolver r) (.resolver r')
  | promise {p p' : Promise} {b b' : Binding} (hl : s.handles.get p.handle = .ok b)
    (hr : t.handles.get p'.handle = .ok b') (hp : b.isPromise = true) (hp' : b'.isPromise = true)
    (h : R b.object b'.object) : Same R pairs s t (.promise p) (.promise p')
  | object {handle handle' : HandleId} {b b' : Binding} (hl : s.handles.get handle = .ok b)
    (hr : t.handles.get handle' = .ok b') (h : R b.object b'.object) :
    Same R pairs s t (.object handle) (.object handle')

/-- What is rooted on both sides goes on to correspond, and resolvers keep their promises. -/
structure Onward (R : ObjectRef → ObjectRef → Prop) (pairs : List (ObjectRef × ObjectRef))
    (s t : Isolate Agent φ) (R' : ObjectRef → ObjectRef → Prop)
    (pairs' : List (ObjectRef × ObjectRef)) : Prop where
  same : ∀ p q, R p q → s.engine.heap.rootCount p ≠ 0 → t.engine.heap.rootCount q ≠ 0 → R' p q
  found : ∀ r q, t.engine.heap.rootCount r ≠ 0 → pairs.lookup r = some q → pairs'.lookup r = some q

theorem onward_self : Onward R pairs s t R pairs := ⟨fun _ _ h _ _ => h, fun _ _ _ h => h⟩

theorem mem_of_lookup {r q : ObjectRef} (h : pairs.lookup r = some q) : q ∈ pairs.map (·.2) := by
  obtain ⟨before, after, rfl, -⟩ := List.lookup_eq_some_iff.1 h
  simp

/-- Things go on to stand for counterparts while their handles are live. -/
theorem Thing.Same.onward (h : Thing.Same R pairs s t x y) (ha : Abreast R pairs s t)
    (ho : Onward R pairs s t R' pairs')
    (hx : ∀ b, s.handles.get x.handle = .ok b → s'.handles.get x.handle = .ok b)
    (hy : ∀ b, t.handles.get y.handle = .ok b → t'.handles.get y.handle = .ok b) :
    Thing.Same R' pairs' s' t' x y := by
  cases h with
  | resolver hl hr hp hp' hq h =>
    have hrooted := ha.right.held.rootCount_ne_zero (Or.inr (mem_of_lookup hq))
    exact .resolver (hx _ hl) (hy _ hr) hp hp' (ho.found _ _ (ha.right.rooted hr) hq)
      (ho.same _ _ h (ha.left.rooted hl) hrooted)
  | promise hl hr hp hp' h =>
    exact .promise (hx _ hl) (hy _ hr) hp hp' (ho.same _ _ h (ha.left.rooted hl) (ha.right.rooted hr))
  | object hl hr h =>
    exact .object (hx _ hl) (hy _ hr) (ho.same _ _ h (ha.left.rooted hl) (ha.right.rooted hr))

theorem Thing.Same.live (h : Thing.Same R pairs s t x y) :
    (∃ b, s.handles.get x.handle = .ok b) ∧ ∃ b, t.handles.get y.handle = .ok b := by
  cases h with
  | resolver hl hr => exact ⟨⟨_, hl⟩, _, hr⟩
  | promise hl hr => exact ⟨⟨_, hl⟩, _, hr⟩
  | object hl hr => exact ⟨⟨_, hl⟩, _, hr⟩

/-- Resolvers are passed on neither side. Other things are passed by their handles, and are the same by any
handles for what they stand for. -/
theorem Thing.Same.passed (h : Thing.Same R pairs s t x y) :
    x.value? = none ∧ y.value? = none ∨
    x.value? = some (.handle x.handle) ∧ y.value? = some (.handle y.handle) ∧
      ∃ b b', s.handles.get x.handle = .ok b ∧ t.handles.get y.handle = .ok b' ∧ R b.object b'.object ∧
        ∀ {s' t' : Isolate Agent φ} {handle handle' : HandleId}, s'.handles.get handle = .ok b →
          t'.handles.get handle' = .ok b' → Thing.Same R pairs s' t' (x.moved handle) (y.moved handle') := by
  cases h with
  | resolver => exact .inl ⟨rfl, rfl⟩
  | promise hl hr hp hp' h =>
    exact .inr ⟨rfl, rfl, _, _, hl, hr, h, fun hget hget' => .promise hget hget' hp hp' h⟩
  | object hl hr h => exact .inr ⟨rfl, rfl, _, _, hl, hr, h, fun hget hget' => .object hget hget' h⟩

/-- The marks of the open scopes, where what was in hand when a scope was opened lies under it. -/
inductive Layered : ℕ → List HandleId → List ℕ → List (ScopeMark × ℕ) → Prop
  | none {size : ℕ} {handles : List HandleId} : Layered size handles [] []
  | scope {size start count : ℕ} {handles : List HandleId} {starts : List ℕ} {scopes : List (ScopeMark × ℕ)}
    (hstart : start ≤ size) (hcount : count ≤ handles.length)
    (hunder : ∀ h ∈ handles.take count, h.index.toNat < start)
    (h : Layered start (handles.take count) starts scopes) :
    Layered size handles (start :: starts) ((⟨starts.length + 1, start⟩, count) :: scopes)

theorem Layered.more {size size' : ℕ} {handles : List HandleId} {starts : List ℕ}
    {scopes : List (ScopeMark × ℕ)} (h : Layered size handles starts scopes) (hsize : size ≤ size')
    (more : List HandleId) :
    Layered size' (handles ++ more) starts scopes := by
  cases h with
  | none => exact .none
  | @scope _ _ count _ _ _ hstart hcount hunder h =>
    have htake : (handles ++ more).take count = handles.take count := List.take_append_of_le_length hcount
    refine .scope (hstart.trans hsize) ?_ (htake ▸ hunder) (htake ▸ h)
    rw [List.length_append]
    omega

/-- The scopes of a notebook are those of the table. -/
def Notebook.Nested (n : Notebook) (table : HandleTable) : Prop :=
  Layered table.entries.size (n.things.map Thing.handle) table.scopes n.scopes

theorem Notebook.Nested.gain {table : HandleTable} (h : n.Nested table) (x : Thing) :
    (n.gain x).Nested table := by
  have hmore := Layered.more h (Nat.le_refl _) [x.handle]
  rw [Notebook.Nested, Notebook.gain, List.map_append]
  exact hmore

theorem Notebook.Nested.grown {table table' : HandleTable} (h : n.Nested table) (hg : table.Grown table') :
    n.Nested table' := by
  have hmore := Layered.more h hg.size_le []
  rw [List.append_nil] at hmore
  rw [Notebook.Nested, hg.scopes]
  exact hmore

theorem Notebook.Nested.opened {table : HandleTable} (h : n.Nested table)
    (hlive : ∀ x ∈ n.things, ∃ b, table.get x.handle = .ok b) :
    ({ n with scopes := (table.openScope.1, n.things.length) :: n.scopes } : Notebook).Nested
      table.openScope.2 := by
  have hall : (n.things.map Thing.handle).take n.things.length = n.things.map Thing.handle := by
    rw [← List.map_take, List.take_length]
  refine .scope (Nat.le_refl _) (by rw [List.length_map]) ?_ ?_
  · rw [hall]
    intro handle hhandle
    obtain ⟨x, hx, rfl⟩ := List.mem_map.1 hhandle
    obtain ⟨b, hb⟩ := hlive x hx
    exact HandleTable.lt_of_get hb
  · rw [hall]
    exact h

/-- The innermost scope, and what is around it. -/
theorem Notebook.Nested.inner {table : HandleTable} (h : n.Nested table) {mark : ScopeMark} {count : ℕ}
    {scopes : List (ScopeMark × ℕ)} (hn : n.scopes = (mark, count) :: scopes) :
    ∃ starts, table.scopes = mark.start :: starts ∧ mark.depth = starts.length + 1 ∧
      mark.start ≤ table.entries.size ∧ (∀ x ∈ n.things.take count, x.handle.index.toNat < mark.start) ∧
      Layered mark.start ((n.things.take count).map Thing.handle) starts scopes := by
  rw [Notebook.Nested, hn] at h
  generalize hscopes : table.scopes = all at h
  cases h with
  | @scope _ start _ _ starts _ hstart _ hunder h =>
    rw [← List.map_take] at hunder h
    exact ⟨starts, rfl, rfl, hstart, fun x hx => hunder _ (List.mem_map_of_mem hx), h⟩

/-- Counterparts go by the same name. -/
structure Named (R : ObjectRef → ObjectRef → Prop) (made made' : List ObjectRef) : Prop where
  length : made.length = made'.length
  name : ∀ p q, R p q → nameOf? p made = nameOf? q made'

theorem Named.mono {made made' : List ObjectRef} (h : Named R made made') (hr : ∀ p q, R' p q → R p q) :
    Named R' made made' := ⟨h.length, fun p q hpq => h.name p q (hr p q hpq)⟩

/-- New counterparts get a name of their own. -/
theorem Named.born {made made' : List ObjectRef} (h : Named R made made') {a c : ObjectRef}
    (hr : ∀ p q, R' p q → R p q ∧ p ≠ a ∧ q ≠ c ∨ p = a ∧ q = c) :
    Named R' (a :: made) (c :: made') := by
  refine ⟨by simp [h.length], fun p q hpq => ?_⟩
  rw [nameOf?, nameOf?]
  rcases hr p q hpq with ⟨hold, hp, hq⟩ | ⟨rfl, rfl⟩
  · rw [if_neg hp.symm, if_neg hq.symm, h.name p q hold]
  · rw [if_pos rfl, if_pos rfl, h.length]

/-- A script that has come equally far over two agents. -/
structure Alongside (R : ObjectRef → ObjectRef → Prop) (pairs : List (ObjectRef × ObjectRef))
    (s t : Isolate Agent φ) (n n' : Notebook) : Prop where
  abreast : Abreast R pairs s t
  things : List.Forall₂ (Thing.Same R pairs s t) n.things n'.things
  counts : n.scopes.map (·.2) = n'.scopes.map (·.2)
  left : n.Nested s.handles
  right : n'.Nested t.handles
  named : Named R n.made n'.made

namespace Alongside

/-- The isolates may go on while handles stay live. -/
theorem onward (h : Alongside R pairs s t n n') (ha : Abreast R' pairs' s' t')
    (hs : s.handles.Grown s'.handles) (ht : t.handles.Grown t'.handles)
    (ho : Onward R pairs s t R' pairs') {made made' : List ObjectRef} (hn : Named R' made made') :
    Alongside R' pairs' s' t' { n with made } { n' with made := made' } where
  abreast := ha
  things := h.things.imp fun _ _ hxy => hxy.onward h.abreast ho (fun _ => hs.get) fun _ => ht.get
  counts := h.counts
  left := h.left.grown hs
  right := h.right.grown ht
  named := hn

/-- The engines may go on side by side. -/
theorem engines (h : Alongside R pairs s t n n') {a b : Agent} {gained : List ObjectRef}
    (hadvance : Advance R s.engine t.engine R' a b gained)
    (hpairs : pairs'.map (·.2) = gained ++ pairs.map (·.2)) (honce : (pairs'.map (·.2)).Nodup)
    (hfound : ∀ r q, t.engine.heap.rootCount r ≠ 0 → pairs.lookup r = some q → pairs'.lookup r = some q)
    {made made' : List ObjectRef} (hn : Named R' made made') :
    Alongside R' pairs' { s with engine := a } { t with engine := b } { n with made }
      { n' with made := made' } :=
  h.onward (h.abreast.engines hadvance hpairs honce) (.refl _) (.refl _) ⟨hadvance.same, hfound⟩ hn

/-- The engines may go on side by side while nothing is made. -/
theorem steady (h : Alongside R pairs s t n n') {a b : Agent}
    (hadvance : Advance R s.engine t.engine R' a b []) (hr : ∀ p q, R' p q → R p q) :
    Alongside R' pairs { s with engine := a } { t with engine := b } n n' :=
  h.engines hadvance rfl h.abreast.right.held.once (fun _ _ _ hq => hq) (h.named.mono hr)

theorem strings (h : Alongside R pairs s t n n') (strings : StringTable) :
    Alongside R pairs { s with strings } { t with strings } n n' := by
  have ha : Abreast R pairs { s with strings } { t with strings } :=
    ⟨h.abreast.mirrored, h.abreast.handlerless, ⟨h.abreast.left.held.strings strings, h.abreast.left.fitted⟩,
      ⟨h.abreast.right.held.strings strings, h.abreast.right.fitted⟩, rfl⟩
  exact h.onward ha (.refl _) (.refl _) onward_self h.named

theorem entered_left (h : Alongside R pairs s t n n') (hb : s.engine.heap.kind? b.object = some b.kind)
    (hroom : s.handles.entries.size < HandleId.capacity) : Alongside R pairs (s.entered b) t n n' :=
  h.onward (h.abreast.entered_left hb hroom) (HandleTable.grown_pushed _ b) (.refl _) onward_self h.named

theorem entered_right (h : Alongside R pairs s t n n') (hb : t.engine.heap.kind? b.object = some b.kind)
    (hroom : t.handles.entries.size < HandleId.capacity) : Alongside R pairs s (t.entered b) n n' :=
  h.onward (h.abreast.entered_right hb hroom) (.refl _) (HandleTable.grown_pushed _ b) onward_self h.named

theorem gain (h : Alongside R pairs s t n n') (hxy : Thing.Same R pairs s t x y) :
    Alongside R pairs s t (n.gain x) (n'.gain y) where
  abreast := h.abreast
  things := List.rel_append h.things (.cons hxy .nil)
  counts := h.counts
  left := h.left.gain x
  right := h.right.gain y
  named := h.named

theorem opened (h : Alongside R pairs s t n n') :
    Alongside R pairs { s with handles := s.handles.openScope.2 } { t with handles := t.handles.openScope.2 }
      { n with scopes := (s.handles.openScope.1, n.things.length) :: n.scopes }
      { n' with scopes := (t.handles.openScope.1, n'.things.length) :: n'.scopes } where
  abreast :=
    { mirrored := h.abreast.mirrored
      handlerless := h.abreast.handlerless
      left := h.abreast.left.opened
      right := h.abreast.right.opened
      strings := h.abreast.strings }
  things := h.things.imp fun _ _ hxy => hxy.onward h.abreast onward_self (fun _ hb => hb) fun _ hb => hb
  counts := congrArg₂ List.cons h.things.length_eq h.counts
  left := h.left.opened fun x hx => by
    obtain ⟨y, -, hxy⟩ := exists_of_forall₂_left h.things hx
    exact hxy.live.1
  right := h.right.opened fun y hy => by
    obtain ⟨x, -, hxy⟩ := exists_of_forall₂_right h.things hy
    exact hxy.live.2
  named := h.named

theorem scopes_nil (h : Alongside R pairs s t n n') (hn : n.scopes = []) : n'.scopes = [] := by
  have hcounts := h.counts
  rw [hn] at hcounts
  exact List.map_eq_nil_iff.1 hcounts.symm

/-- A scope that is open on the left is open on the right, and both can be closed. -/
theorem closed (h : Alongside R pairs s t n n') {mark : ScopeMark} {count : ℕ}
    {scopes : List (ScopeMark × ℕ)} (hn : n.scopes = (mark, count) :: scopes) :
    ∃ mark' scopes' s' t', n'.scopes = (mark', count) :: scopes' ∧
      Isolate.closeScope mark s = .ok () s' ∧ Isolate.closeScope mark' t = .ok () t' ∧
      (∀ ref, s'.engine.heap.object? ref = s.engine.heap.object? ref) ∧
      (∀ ref, t'.engine.heap.object? ref = t.engine.heap.object? ref) ∧
      Alongside R pairs s' t' { n with things := n.things.take count, scopes }
        { n' with things := n'.things.take count, scopes := scopes' } := by
  obtain ⟨mark', scopes', hn', hcounts⟩ : ∃ mark' scopes', n'.scopes = (mark', count) :: scopes' ∧
      scopes.map (·.2) = scopes'.map (·.2) := by
    have hcounts := h.counts
    rw [hn] at hcounts
    cases hscopes : n'.scopes with
    | nil =>
      rw [hscopes] at hcounts
      cases hcounts
    | cons scope scopes' =>
      rw [hscopes] at hcounts
      obtain ⟨hcount, hrest⟩ := List.cons.inj hcounts
      have hcount : count = scope.2 := hcount
      exact ⟨scope.1, scopes', by rw [hcount], hrest⟩
  -- either table has the scope on top, and closing it leaves the things below
  obtain ⟨starts, hstarts, hdepth, hstart, hunder, hrest⟩ := h.left.inner hn
  obtain ⟨starts', hstarts', hdepth', hstart', hunder', hrest'⟩ := h.right.inner hn'
  obtain ⟨s', hs, hclosed⟩ := h.abreast.left.closed hstarts hdepth hstart
  obtain ⟨t', ht, hclosed'⟩ := h.abreast.right.closed hstarts' hdepth' hstart'
  refine ⟨mark', scopes', s', t', hn', hs, ht, hclosed.engine.object?, hclosed'.engine.object?, ?_⟩
  refine ⟨h.abreast.closed hclosed hclosed', ?_, hcounts, ?_, ?_, h.named⟩
  · apply forall₂_mono_of_mem (List.forall₂_take count h.things)
    intro x hx y hy hxy
    exact hxy.onward h.abreast onward_self (fun b hb => hclosed.get hb (hunder x hx))
      fun b hb => hclosed'.get hb (hunder' y hy)
  · rw [Notebook.Nested, hclosed.size, hclosed.scopes]
    exact hrest
  · rw [Notebook.Nested, hclosed'.size, hclosed'.scopes]
    exact hrest'

end Alongside

end Script

end Promises
