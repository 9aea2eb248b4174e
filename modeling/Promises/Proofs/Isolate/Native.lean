import Promises.Proofs.Isolate.Abreast
import Promises.Proofs.StringTable

namespace Promises

namespace HandleTable

variable {t u v : HandleTable} {h : HandleId} {b : Binding}

/-- The entries are the same. The serials of slots above them may have moved on. -/
structure Worn (t u : HandleTable) : Prop where
  under : t.Under u []
  entries : u.entries = t.entries

theorem Worn.refl (hf : t.Fitted) : t.Worn t := ⟨.refl hf, rfl⟩

theorem Worn.trans (h : t.Worn u) (h' : u.Worn v) : t.Worn v where
  under := {
    isolate := h'.under.isolate.trans h.under.isolate
    scopes := h'.under.scopes.trans h.under.scopes
    above := fun _ hmark => nomatch hmark
    entries := h.under.entries.trans h'.under.entries
    serials := fun i hi serial hserial => by
      refine h'.under.serials i ?_ serial (h.under.serials i hi serial hserial)
      rw [h.entries]
      exact hi
    fitted := h'.under.fitted }
  entries := h'.entries.trans h.entries

/-- A scope that got no entries. -/
theorem closeScope_opened (t : HandleTable) : t.openScope.2.closeScope t.openScope.1 = (.ok #[], t) := by
  have hmark : t.openScope.1 = ⟨t.scopes.length + 1, t.entries.size⟩ := rfl
  have hpopped : t.entries.extract t.entries.size = #[] := by simp
  have hkept : t.openScope.2.shrink t.entries.size = t.openScope.2 := by
    simp [shrink, openScope, retire]
  rw [closeScope, hmark]
  dsimp only [openScope]
  rw [if_pos rfl, hpopped]
  change (Except.ok #[], { t.openScope.2.shrink t.entries.size with scopes := t.scopes }) = _
  rw [hkept]
  rfl

/-- A scope that got one entry. -/
theorem closeScope_pushed (hf : t.Fitted) (b : Binding) :
    ∃ u, (t.openScope.2.pushed b).closeScope t.openScope.1 = (.ok #[b], u) ∧ t.Worn u := by
  have hunder : t.Under (t.openScope.2.pushed b) [t.openScope.1] :=
    (Under.refl hf).opened.grown (grown_pushed _ b)
  obtain ⟨popped, u, hclose⟩ := hunder.closes
  have hentries : u.entries = t.entries := Array.toList_inj.1 (hunder.emptied rfl hclose).1
  have hsplit : (t.openScope.2.pushed b).entries.toList = u.entries.toList ++ popped.toList :=
    entries_of_closeScope hclose
  have hpushed : (t.openScope.2.pushed b).entries.toList = t.entries.toList ++ [b] := Array.toList_push
  have hpopped : popped = #[b] := by
    rw [hpushed, hentries] at hsplit
    exact Array.toList_inj.1 (List.append_cancel_left hsplit).symm
  exact ⟨u, hpopped ▸ hclose, hunder.closed hclose, hentries⟩

end HandleTable

namespace Isolate

variable {φ α : Type} {iso next : Isolate Agent φ} {m : ManagedValue} {v : Value} {r : String → String}

/-- What a value of the engine is on the native side. -/
inductive Native (iso : Isolate Agent φ) : ManagedValue → Value → Prop
  | undefined : Native iso .undefined .undefined
  | null : Native iso .null .null
  | bool (b : Bool) : Native iso (.bool b) (.bool b)
  | int {n : Int32} (hn : Value.fits n = true) : Native iso (.int n) (.ofInt32 n)
  | string {text : String} {id : StringId} (hid : iso.strings.ids[text]? = some id) :
      Native iso (.string text) (.string id)
  | object {h : HandleId} {b : Binding} (hg : iso.handles.get h = .ok b)
      (hb : iso.engine.heap.kind? b.object = some b.kind) : Native iso (.object b.object) (.handle h)

namespace Native

theorem int?_eq (hn : Native iso m v) :
    (∃ n, m = .int n ∧ v.int? = some n) ∨ (∀ n, m ≠ .int n) ∧ v.int? = none := by
  cases hn with
  | @int n => exact .inl ⟨n, rfl, Value.int?_ofInt32 n⟩
  | undefined => exact .inr ⟨by simp, Value.int?_tagged _ _⟩
  | null => exact .inr ⟨by simp, Value.int?_tagged _ _⟩
  | bool b => exact .inr ⟨by simp, Value.int?_tagged _ _⟩
  | string => exact .inr ⟨by simp, Value.int?_tagged _ _⟩
  | object => exact .inr ⟨by simp, Value.int?_tagged _ _⟩

/-- A value goes back as it came over. -/
theorem toManaged (hn : Native iso m v) (hr : iso.strings.Reads r) : iso.toManaged v = .ok (m.read r) := by
  cases hn with
  | undefined => exact toManaged_undefined iso
  | null => exact toManaged_null iso
  | bool b => exact toManaged_bool iso b
  | int => exact toManaged_ofInt32 iso _
  | string hid =>
    rw [toManaged_of_stringId? iso (Value.stringId?_string _), hr _ _ hid]
    rfl
  | object hg => exact toManaged_handle hg

theorem contents_run (v : Value) (iso : Isolate Agent φ) :
    contents v iso = .ok (v.stringId?.bind iso.strings.get?) iso := rfl

/-- The text of a value on the native side. -/
theorem display_string {text : String} {id : StringId} (hid : iso.strings.ids[text]? = some id)
    (hr : iso.strings.Reads r) : display (.string id) iso = .ok (Text.quote (r text)) iso := by
  have hcontents : contents (.string id) iso = .ok (some (r text)) iso := by
    rw [contents_run, Value.stringId?_string, Option.bind_some, hr text id hid]
  exact bind_run _ hcontents

theorem display_handle {h : HandleId} {b : Binding} (hg : iso.handles.get h = .ok b) :
    display (.handle h) iso = .ok s!"[object {b.kind}]" iso := by
  have hcontents : contents (.handle h) iso = .ok none iso := by
    rw [contents_run, Value.handle, Value.stringId?_tagged .handle (by decide)]
    rfl
  have hkind : kindOf (.handle h) iso = .ok (some b.kind) iso := by
    rw [kindOf, Value.handle?_handle]
    exact bind_run _ (binding_run hg)
  exact (bind_run _ hcontents).trans (bind_run _ hkind)

/-- The text of a value that is no string and no handle. -/
theorem display_word (hs : v.stringId? = none) (hh : v.handle? = none) :
    display v iso = .ok v.text iso := by
  have hcontents : contents v iso = .ok none iso := by
    rw [contents_run, hs]
    rfl
  have hkind : kindOf v iso = .ok none iso := by
    rw [kindOf, hh]
    rfl
  exact (bind_run _ hcontents).trans (bind_run _ hkind)

end Native

theorem toNative_ne_object (hm : ∀ ref, m ≠ .object ref) (hf : m.Fits) (iso : Isolate Agent φ) :
    ∃ v strings, toNative m iso = .ok v { iso with strings } ∧
      Native { iso with strings } m v ∧ iso.strings.Grown strings := by
  have hsame := StringTable.Grown.refl iso.strings
  cases m with
  | undefined => exact ⟨_, iso.strings, rfl, .undefined, hsame⟩
  | null => exact ⟨_, iso.strings, rfl, .null, hsame⟩
  | bool b => exact ⟨_, iso.strings, rfl, .bool b, hsame⟩
  | int n =>
    have hn : Value.int n = .ok (Value.ofInt32 n) := if_pos hf
    refine ⟨Value.ofInt32 n, iso.strings, ?_, .int hf, hsame⟩
    rw [toNative_int, hn]
  | string text =>
    exact ⟨_, _, rfl, .string (iso.strings.ids_intern text), iso.strings.grown_intern text⟩
  | object ref => exact absurd rfl (hm ref)

/-- An object gets a handle. -/
theorem toNative_object (iso : Isolate Agent φ) {ref : ObjectRef} (hf : iso.handles.Fitted)
    (hl : iso.engine.heap.isLive ref = true)
    (hroom : iso.handles.entries.size < HandleId.capacity) :
    toNative (.object ref) iso = .ok (.handle iso.handles.nextId) (iso.entered (iso.bound ref)) ∧
      Native (iso.entered (iso.bound ref)) (.object ref) (.handle iso.handles.nextId) := by
  have hwrap : wrap ref iso = .ok iso.handles.nextId (iso.entered (iso.bound ref)) :=
    (wrap_run ref iso).trans (register_room _ hroom)
  refine ⟨?_, ?_⟩
  · rw [toNative, bind_run _ hwrap]
    rfl
  · refine .object (b := iso.bound ref) (HandleTable.get_nextId hf hroom) ?_
    exact (Heap.kind?_congr (Heap.object?_retain iso.engine.heap ref ref)).trans (kind?_bound hl)

theorem toNative_full (iso : Isolate Agent φ) (ref : ObjectRef)
    (hfull : ¬ iso.handles.entries.size < HandleId.capacity) :
    toNative (.object ref) iso = .error .tableFull { iso with engine := iso.engine.retained ref } := by
  have hwrap : wrap ref iso = .error .tableFull { iso with engine := iso.engine.retained ref } := by
    rw [wrap_run, register_run, if_neg hfull]
    rfl
  exact bind_error _ hwrap

/-- A scope that got no handle leaves nothing. -/
theorem closeScope_idle (iso : Isolate Agent φ) {t : HandleTable} (h : iso.handles = t.openScope.2) :
    closeScope t.openScope.1 iso = .ok () { iso with handles := t } := by
  have hclose : iso.handles.closeScope t.openScope.1 = (.ok #[], t) := by
    rw [h]
    exact t.closeScope_opened
  rw [closeScope_run hclose]
  rfl

/-- A scope that got one handle takes its root back. -/
theorem closeScope_single (iso : Isolate Agent φ) {t : HandleTable} (hf : t.Fitted) {b : Binding}
    (h : iso.handles = t.openScope.2.pushed b) :
    ∃ u, t.Worn u ∧ closeScope t.openScope.1 iso =
      .ok () { iso with handles := u, engine := iso.engine.released b.object } := by
  obtain ⟨u, hclose, hworn⟩ := HandleTable.closeScope_pushed hf b
  rw [← h] at hclose
  refine ⟨u, hworn, ?_⟩
  rw [closeScope_run hclose]
  rfl

end Isolate

end Promises
