import Promises.Proofs.Agent.Advance
import Promises.Proofs.Handle.Table
import Promises.Proofs.Isolate.Served
import Promises.Proofs.Program.Escape

namespace Promises

open Agent (Advance Mirrored Rootings)

namespace Isolate

variable {φ : Type} {R R' : ObjectRef → ObjectRef → Prop} {pairs pairs' : List (ObjectRef × ObjectRef)}
  {s t s' t' : Isolate Agent φ} {owed : List ObjectRef} {b : Binding}

/-- The handles are held, and each entry has a serial. -/
structure Firm (s : Isolate Agent φ) (owed : List ObjectRef) : Prop where
  held : s.Held False owed
  fitted : s.handles.Fitted

theorem Firm.isPromise_eq (h : s.Firm owed) {handle : HandleId} (hg : s.handles.get handle = .ok b) :
    s.engine.heap.isPromise b.object = b.isPromise := by
  rw [Heap.isPromise, h.held.bound b (HandleTable.mem_of_get hg), Binding.isPromise]
  cases b.kind <;> rfl

theorem isPromise_bound (s : Isolate Agent φ) (ref : ObjectRef) :
    (s.bound ref).isPromise = s.engine.heap.isPromise ref := by
  rw [bound, Binding.isPromise]
  cases s.engine.heap.isPromise ref <;> rfl

/-- The isolate with a new entry. -/
def entered (s : Isolate Agent φ) (b : Binding) : Isolate Agent φ :=
  { s with engine := s.engine.retained b.object, handles := s.handles.pushed b }

theorem register_room (b : Binding) (hroom : s.handles.entries.size < HandleId.capacity) :
    register b s = .ok s.handles.nextId (s.entered b) := by
  rw [register_run, if_pos hroom]
  rfl

theorem register_full (b : Binding) (hfull : ¬ s.handles.entries.size < HandleId.capacity) :
    ∃ next, register b s = .error .tableFull next := by
  rw [register_run, if_neg hfull]
  exact ⟨_, rfl⟩

theorem Firm.entered (h : s.Firm owed) (hk : s.engine.heap.kind? b.object = some b.kind)
    (hroom : s.handles.entries.size < HandleId.capacity) : (s.entered b).Firm owed :=
  ⟨h.held.register hk (register_room b hroom), (HandleTable.grown_pushed _ b).fitted h.fitted⟩

theorem Firm.get_entered (h : s.Firm owed) (b : Binding)
    (hroom : s.handles.entries.size < HandleId.capacity) :
    (s.entered b).handles.get s.handles.nextId = .ok b := HandleTable.get_nextId h.fitted hroom

theorem Firm.rooted (h : s.Firm owed) {handle : HandleId} (hg : s.handles.get handle = .ok b) :
    s.engine.heap.rootCount b.object ≠ 0 := h.held.rooted_of_mem (HandleTable.mem_of_get hg)

theorem Firm.opened (h : s.Firm owed) :
    ({ s with handles := s.handles.openScope.2 } : Isolate Agent φ).Firm owed :=
  ⟨h.held.of_same rfl rfl, h.fitted⟩

theorem releaseAll_strings {popped : List Binding} (hr : releaseAll popped s = .ok () s') :
    s'.strings = s.strings := by
  induction popped generalizing s with
  | nil =>
    obtain ⟨-, rfl⟩ := EStateM.Result.ok.inj hr
    rfl
  | cons b popped ih =>
    obtain ⟨⟨⟩, mid, hb, hrest⟩ := bind_ok hr
    obtain ⟨e, -, rfl⟩ := onEngine_ok hb
    have hstrings := ih hrest
    exact hstrings

/-- What the innermost scope leaves when it is closed. -/
structure Closed (s : Isolate Agent φ) (owed : List ObjectRef) (mark : ScopeMark) (scopes : List ℕ)
    (s' : Isolate Agent φ) : Prop where
  firm : s'.Firm owed
  engine : Rootings s.engine s'.engine
  strings : s'.strings = s.strings
  scopes : s'.handles.scopes = scopes
  size : s'.handles.entries.size = mark.start
  get : ∀ {h b}, s.handles.get h = .ok b → h.index.toNat < mark.start → s'.handles.get h = .ok b

theorem Firm.closed (h : s.Firm owed) {mark : ScopeMark} {scopes : List ℕ}
    (hscopes : s.handles.scopes = mark.start :: scopes) (hdepth : mark.depth = scopes.length + 1)
    (hstart : mark.start ≤ s.handles.entries.size) :
    ∃ s', closeScope mark s = .ok () s' ∧ s.Closed owed mark scopes s' := by
  have hmark : mark = ⟨scopes.length + 1, mark.start⟩ := by rw [← hdepth]
  obtain ⟨popped, handles, hclose⟩ : ∃ popped u, s.handles.closeScope mark = (.ok popped, u) := by
    unfold HandleTable.closeScope
    rw [hscopes]
    exact ⟨_, _, if_pos hmark⟩
  obtain ⟨next, hnext⟩ := closeScope_total hclose
  obtain ⟨popped', hclose', hrelease⟩ := closeScope_popped hnext
  obtain ⟨hscopes', -, hentries, -⟩ := HandleTable.closeScope_ok hclose'
  have hstrings := releaseAll_strings hrelease
  refine ⟨next, hnext, ⟨(h.held.closeScope hnext).1, HandleTable.fitted_closed h.fitted hclose'⟩,
    closeScope_rootings hnext, hstrings, ?_, ?_, HandleTable.get_closed hclose'⟩
  · exact List.tail_eq_of_cons_eq (hscopes'.symm.trans hscopes)
  · rw [hentries, Array.size_shrink]
    omega

theorem toManaged_handle {ε : Type} {iso : Isolate ε φ} {h : HandleId}
    (hg : iso.handles.get h = .ok b) : iso.toManaged (.handle h) = .ok (.object b.object) := by
  rw [toManaged_of_handle? iso (Value.handle?_handle h), hg]
  rfl

/-- What is no handle means the same where the strings are the same. -/
theorem toManaged_word (hstrings : s.strings = t.strings) {v : Value} (hv : v.handle? = none) :
    s.toManaged v = t.toManaged v ∧ ∀ m, s.toManaged v = .ok m → m.Alike R m := by
  refine ⟨by simp only [toManaged, hv, hstrings], fun m hm => .plain ?_⟩
  simp only [toManaged, hv] at hm
  repeat' split at hm
  all_goals cases hm
  all_goals rfl

/-- What is no object becomes the same value, if any, where the strings are the same. -/
theorem toNative_word (hstrings : s.strings = t.strings) {m : ManagedValue} (hm : m.objectRef? = none) :
    (∃ v strings, toNative m s = .ok v { s with strings } ∧ toNative m t = .ok v { t with strings } ∧
      v.handle? = none) ∨
    ∃ fault s' t', toNative m s = .error fault s' ∧ toNative m t = .error fault t' := by
  cases m with
  | undefined => exact .inl ⟨_, s.strings, rfl, hstrings ▸ rfl, Value.handle?_tagged .undefined nofun _⟩
  | null => exact .inl ⟨_, s.strings, rfl, hstrings ▸ rfl, Value.handle?_tagged .null nofun _⟩
  | bool b => exact .inl ⟨_, s.strings, rfl, hstrings ▸ rfl, Value.handle?_tagged .bool nofun _⟩
  | int n =>
    rw [toNative_int, toNative_int]
    cases hn : Value.int n with
    | error fault => exact .inr ⟨fault, s, t, rfl, rfl⟩
    | ok v =>
      refine .inl ⟨v, s.strings, rfl, hstrings ▸ rfl, ?_⟩
      unfold Value.int at hn
      split at hn
      · obtain rfl := Except.ok.inj hn
        exact Value.handle?_ofInt32 n
      · cases hn
  | string text =>
    refine .inl ⟨_, (s.strings.intern text).2, rfl, ?_, Value.handle?_tagged .string nofun _⟩
    rw [hstrings]
    rfl
  | object ref => cases hm

/-- Isolates over agents that mirror each other, without handlers. The promises of the pairs are rooted on the
right. -/
structure Abreast (R : ObjectRef → ObjectRef → Prop) (pairs : List (ObjectRef × ObjectRef))
    (s t : Isolate Agent φ) : Prop where
  mirrored : Mirrored R s.engine t.engine
  handlerless : s.engine.Handlerless
  left : s.Firm []
  right : t.Firm (pairs.map (·.2))
  strings : s.strings = t.strings

namespace Abreast

theorem paces (h : Abreast R pairs s t) : Agent.Paces R s.engine t.engine :=
  ⟨h.mirrored, h.handlerless, h.left.held.fit, h.right.held.fit⟩

/-- The engines may go on side by side, and promises that have gained a root may be paired, each once. -/
theorem engines (h : Abreast R pairs s t) {a b : Agent} {gained : List ObjectRef}
    (hadvance : Advance R s.engine t.engine R' a b gained)
    (hpairs : pairs'.map (·.2) = gained ++ pairs.map (·.2)) (honce : (pairs'.map (·.2)).Nodup) :
    Abreast R' pairs' { s with engine := a } { t with engine := b } where
  mirrored := hadvance.paces.mirrored
  handlerless := hadvance.paces.handlerless
  left := ⟨⟨h.left.held.toOwes.engine hadvance.paces.left hadvance.left, .nil⟩, h.left.fitted⟩
  right := by
    refine ⟨⟨?_, honce⟩, h.right.fitted⟩
    rw [hpairs]
    exact h.right.held.toOwes.engine hadvance.paces.right hadvance.right
  strings := h.strings

/-- Roots may be given and taken back on either side. -/
theorem rootings (h : Abreast R pairs s t) (hs : Rootings s.engine s'.engine)
    (ht : Rootings t.engine t'.engine) (hleft : s'.Firm []) (hright : t'.Firm (pairs.map (·.2)))
    (hstrings : s'.strings = t'.strings) : Abreast R pairs s' t' where
  mirrored := by
    refine h.mirrored.of_objects ?_ hs.object? ht.object? ?_
    · rw [hs.same.2, ht.same.2, h.mirrored.terminating]
    · rw [hs.same.1, ht.same.1]
      exact h.mirrored.queue
  handlerless := by
    refine h.handlerless.of_objects hs.object? ?_
    rw [hs.same.1]
    exact List.Subset.refl _
  left := hleft
  right := hright
  strings := hstrings

theorem entered_left (h : Abreast R pairs s t) (hb : s.engine.heap.kind? b.object = some b.kind)
    (hroom : s.handles.entries.size < HandleId.capacity) : Abreast R pairs (s.entered b) t :=
  h.rootings (.single (.retain _ _)) .refl (h.left.entered hb hroom) h.right h.strings

theorem entered_right (h : Abreast R pairs s t) (hb : t.engine.heap.kind? b.object = some b.kind)
    (hroom : t.handles.entries.size < HandleId.capacity) : Abreast R pairs s (t.entered b) :=
  h.rootings .refl (.single (.retain _ _)) h.left (h.right.entered hb hroom) h.strings

theorem closed (h : Abreast R pairs s t) {mark mark' : ScopeMark} {scopes scopes' : List ℕ}
    (hs : s.Closed [] mark scopes s') (ht : t.Closed (pairs.map (·.2)) mark' scopes' t') :
    Abreast R pairs s' t' := by
  refine h.rootings hs.engine ht.engine hs.firm ht.firm ?_
  rw [hs.strings, ht.strings]
  exact h.strings

end Abreast

end Isolate

end Promises
