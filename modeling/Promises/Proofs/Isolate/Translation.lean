import Promises.Proofs.Handle.Table
import Promises.Proofs.Isolate.Checked
import Promises.Proofs.StringTable

namespace Promises

/-- An engine that tells of any object whether it is a promise, and gives a root to any. -/
structure Engine.Obliging (ε : Type) [Engine ε] : Prop where
  isPromise : ∀ (ref : ObjectRef) (e : ε), ∃ answer e', Engine.isPromise ref e = .ok answer e'
  retain : ∀ (ref : ObjectRef) (e : ε), ∃ e', Engine.retain ref e = .ok () e'

theorem Agent.obliging : Engine.Obliging Agent where
  isPromise _ _ := ⟨_, _, rfl⟩
  retain _ _ := ⟨_, rfl⟩

namespace Isolate

variable {ε φ : Type}

/-- An object of the engine that has a handle, once it has come over again. It has a further handle, which
stood for nothing before, on top of the scope that is open; the live handles stand for what they stood for,
and no string has changed. -/
structure Rewraps [Engine ε] (iso : Isolate ε φ) (b : Binding) (h' : HandleId) (b' : Binding)
    (next : Isolate ε φ) : Prop where
  run : toNative (.object b.object) iso = .ok (.handle h') next
  fresh : ∀ c, iso.handles.get h' ≠ .ok c
  get : next.handles.get h' = .ok b'
  object : b'.object = b.object
  entries : next.handles.entries.toList = iso.handles.entries.toList ++ [b']
  scopes : next.handles.scopes = iso.handles.scopes
  kept : ∀ h c, iso.handles.get h = .ok c → next.handles.get h = .ok c
  strings : next.strings = iso.strings

/-- What becomes of a value that goes to the other side and comes back. -/
structure Translates [Engine ε] (iso : Isolate ε φ) : Prop where
  /-- Only an integer of more than 31 bits is a programming error. -/
  faults : ∀ m fault next, toNative m iso = .error fault next ↔
    fault = .intOutOfRange ∧ next = iso ∧ ∃ n, m = .int n ∧ ¬Value.Short n
  /-- Any other value comes back, a string as long as its number is its own. -/
  returns : ∀ m, (∀ n, m = .int n → Value.Short n) →
    ∃ v next, toNative m iso = .ok v next ∧
      (next.toManaged v = .ok m ↔ ∀ text, m = .string text → next.strings.Tells text)
  /-- A word that is no handle comes back, and nothing has changed. -/
  words : ∀ v m, v.Checked → v.handle? = none → iso.toManaged v = .ok m → toNative m iso = .ok v iso
  /-- A handle comes back as another handle of its object. -/
  handles : ∀ h m, iso.toManaged (.handle h) = .ok m →
    ∃ b, iso.handles.get h = .ok b ∧ m = .object b.object ∧ ∃ h' b' next, iso.Rewraps b h' b' next
  /-- The way to the engine changes nothing. -/
  manages : ∀ v, manage v iso =
    match iso.toManaged v with
    | .ok m => .ok m iso
    | .error error => .error (.misuse error) iso
  /-- Only the number of a string that was not seen yet, or a handle that the table rejects, is an error. -/
  rejects : ∀ v error, iso.toManaged v = .error error ↔
    (∃ id, v.stringId? = some id ∧ (∀ text : String, iso.strings.ids[text]? ≠ some id) ∧
      error = .invalidString id.number.toNat) ∨
    ∃ h, v.handle? = some h ∧ iso.handles.get h = .error error

variable {iso : Isolate ε φ} {v : Value} {m : ManagedValue}

/-- The tables alone reject a word. -/
theorem toManaged_total (iso : Isolate ε φ) (hs : v.stringId? = none) (hh : v.handle? = none) :
    ∃ m, iso.toManaged v = .ok m := by
  simp only [toManaged, hs, hh]
  repeat' split
  all_goals exact ⟨_, rfl⟩

theorem toManaged_error_iff (ht : iso.strings.Indexed) {error : Misuse} :
    iso.toManaged v = .error error ↔
      (∃ id, v.stringId? = some id ∧ (∀ text : String, iso.strings.ids[text]? ≠ some id) ∧
        error = .invalidString id.number.toNat) ∨
      ∃ h, v.handle? = some h ∧ iso.handles.get h = .error error := by
  -- a word is a string, a handle, or neither, and the last fails never
  cases hs : v.stringId? with
  | some id =>
    have hhandle : v.handle? = none := by
      rw [← Value.tagged_of_stringId? hs]
      exact Value.handle?_tagged .string (by decide) _
    rw [toManaged_of_stringId? iso hs, hhandle]
    cases hget : iso.strings.get? id with
    | some text =>
      have hseen : iso.strings.ids[text]? = some id := ht.ids_of_get? hget
      constructor
      · rintro ⟨⟩
      · rintro (⟨id', hid, hnever, -⟩ | ⟨h, hh, -⟩)
        · obtain rfl := Option.some.inj hid
          exact absurd hseen (hnever text)
        · cases hh
    | none =>
      have hnever := ht.get?_eq_none_iff.1 hget
      constructor
      · intro herror
        exact .inl ⟨id, rfl, hnever, (Except.error.inj herror).symm⟩
      · rintro (⟨id', hid, -, rfl⟩ | ⟨h, hh, -⟩)
        · obtain rfl := Option.some.inj hid
          rfl
        · cases hh
  | none =>
    cases hh : v.handle? with
    | some h =>
      rw [toManaged_of_handle? iso hh]
      cases hget : iso.handles.get h with
      | ok b => simp [Except.map, hget]
      | error e => simp [Except.map, hget]
    | none =>
      obtain ⟨m, hm⟩ := toManaged_total iso hs hh
      simp [hm]

theorem manage_eq (v : Value) (iso : Isolate ε φ) :
    manage v iso =
      match iso.toManaged v with
      | .ok m => .ok m iso
      | .error error => .error (.misuse error) iso := by
  show (Action.ofMisuse (iso.toManaged v) : Action (Isolate ε φ) ManagedValue) iso = _
  cases iso.toManaged v <;> rfl

section

variable [Engine ε]

/-- A word that is no handle is that of its value: strings are found again by their numbers. -/
theorem toNative_of_word (ht : iso.strings.Indexed) (hv : v.Checked) (hh : v.handle? = none)
    (hm : iso.toManaged v = .ok m) : toNative m iso = .ok v iso := by
  cases hv with
  | null =>
    obtain rfl := Except.ok.inj ((toManaged_null iso).symm.trans hm)
    rfl
  | undefined =>
    obtain rfl := Except.ok.inj ((toManaged_undefined iso).symm.trans hm)
    rfl
  | bool b =>
    obtain rfl := Except.ok.inj ((toManaged_bool iso b).symm.trans hm)
    rfl
  | @int n _ hn =>
    have hword : v = Value.ofInt32 n := by
      unfold Value.int at hn
      split at hn
      · exact (Except.ok.inj hn).symm
      · cases hn
    rw [hword] at hm
    obtain rfl := Except.ok.inj ((toManaged_ofInt32 iso n).symm.trans hm)
    rw [toNative_int, hn]
  | string id =>
    rw [toManaged_of_stringId? iso (Value.stringId?_string id)] at hm
    cases hget : iso.strings.get? id with
    | none =>
      rw [hget] at hm
      cases hm
    | some text =>
      rw [hget] at hm
      obtain rfl := Except.ok.inj hm
      -- a string that has a number keeps it
      have hsame : iso.strings.intern text = (id, iso.strings) :=
        StringTable.intern_of_some (ht.ids_of_get? hget)
      show EStateM.Result.ok (Value.string (iso.strings.intern text).1)
        { iso with strings := (iso.strings.intern text).2 } = _
      rw [hsame]
  | handle h =>
    rw [Value.handle?_handle] at hh
    cases hh

/-- Any object gets a handle, if there is room. -/
theorem wrap_obliging (ho : Engine.Obliging ε) (hroom : iso.handles.entries.size < HandleId.capacity)
    (ref : ObjectRef) : ∃ kind e, wrap ref iso =
      .ok iso.handles.nextId { iso with engine := e, handles := iso.handles.pushed ⟨iso.id, ref, kind⟩ } := by
  obtain ⟨answer, e, hanswer⟩ := ho.isPromise ref iso.engine
  obtain ⟨e', hretain⟩ := ho.retain ref e
  let b : Binding := ⟨iso.id, ref, if answer then .promise else .object⟩
  have hbound : (onEngine (Engine.bindingOf iso.id ref) : Action (Isolate ε φ) Binding) iso =
      .ok b { iso with engine := e } := by
    have hbinding : Engine.bindingOf iso.id ref iso.engine = .ok b e := bind_run _ hanswer
    rw [onEngine_run, hbinding]
  have hrooted : (onEngine (Engine.retain ref) : Action (Isolate ε φ) Unit) { iso with engine := e } =
      .ok () { iso with engine := e' } := by
    rw [onEngine_run, hretain]
  have hpushed : (onHandles (HandleTable.push b) : Action (Isolate ε φ) HandleId)
      { iso with engine := e' } =
        .ok iso.handles.nextId { iso with engine := e', handles := iso.handles.pushed b } := by
    rw [onHandles_run, HandleTable.push, if_pos hroom]
    rfl
  exact ⟨b.kind, e', (bind_run _ hbound).trans ((bind_run _ hrooted).trans hpushed)⟩

theorem rewraps_obliging (ho : Engine.Obliging ε) (hf : iso.handles.Fitted)
    (hroom : iso.handles.entries.size < HandleId.capacity) (b : Binding) :
    ∃ h' b' next, iso.Rewraps b h' b' next := by
  obtain ⟨kind, e, hwrap⟩ := wrap_obliging ho hroom b.object
  let b' : Binding := ⟨iso.id, b.object, kind⟩
  let next : Isolate ε φ := { iso with engine := e, handles := iso.handles.pushed b' }
  have hrun : toNative (.object b.object) iso = .ok (.handle iso.handles.nextId) next := by
    rw [toNative, bind_run _ hwrap]
    rfl
  have hfresh (c : Binding) : iso.handles.get iso.handles.nextId ≠ .ok c := by
    intro hc
    -- the slot of the new handle had no entry
    have hlt := HandleTable.lt_of_get hc
    rw [HandleTable.index_nextId hroom] at hlt
    exact Nat.lt_irrefl _ hlt
  have hgrown : iso.handles.Grown next.handles := HandleTable.grown_pushed iso.handles b'
  exact ⟨iso.handles.nextId, b', next, hrun, hfresh, HandleTable.get_nextId hf hroom, rfl,
    Array.toList_push, hgrown.scopes, fun _ _ => hgrown.get, rfl⟩

theorem toNative_string (text : String) (iso : Isolate ε φ) :
    toNative (.string text) iso =
      .ok (.string (iso.strings.intern text).1)
        { iso with strings := (iso.strings.intern text).2 } := rfl

/-- A string comes back as what is at the place that its number leads to. -/
theorem returns_string (ht : iso.strings.Indexed) (text : String) :
    ∃ v next, toNative (.string text) iso = .ok v next ∧
      (next.toManaged v = .ok (.string text) ↔ next.strings.Tells text) := by
  let next : Isolate ε φ := { iso with strings := (iso.strings.intern text).2 }
  let id : StringId := (iso.strings.intern text).1
  have hindexed : next.strings.Indexed := ht.intern text
  have hid : next.strings.ids[text]? = some id := iso.strings.ids_intern text
  refine ⟨.string id, next, toNative_string text iso, ?_⟩
  rw [toManaged_of_stringId? next (Value.stringId?_string id), ← hindexed.get?_iff hid]
  cases next.strings.get? id with
  | none => simp
  | some found => simp

theorem toNative_wide {n : Int32} (hn : ¬Value.Short n) (iso : Isolate ε φ) :
    toNative (.int n) iso = .error .intOutOfRange iso := by
  have hint : Value.int n = .error .intOutOfRange := if_neg (mt Value.fits_iff_short.1 hn)
  rw [toNative_int, hint]

/-- What fits comes over, and comes back. -/
theorem returns_obliging (ho : Engine.Obliging ε) (hf : iso.handles.Fitted)
    (hroom : iso.handles.entries.size < HandleId.capacity) (ht : iso.strings.Indexed)
    (hm : ∀ n, m = .int n → Value.Short n) :
    ∃ v next, toNative m iso = .ok v next ∧
      (next.toManaged v = .ok m ↔ ∀ text, m = .string text → next.strings.Tells text) := by
  cases m with
  | undefined => exact ⟨_, iso, rfl, iff_of_true (toManaged_undefined iso) nofun⟩
  | null => exact ⟨_, iso, rfl, iff_of_true (toManaged_null iso) nofun⟩
  | bool b => exact ⟨_, iso, rfl, iff_of_true (toManaged_bool iso b) nofun⟩
  | int n =>
    have hn : Value.int n = .ok (.ofInt32 n) := if_pos (Value.fits_iff_short.2 (hm n rfl))
    have hrun : toNative (.int n) iso = .ok (.ofInt32 n) iso := by
      rw [toNative_int, hn]
    exact ⟨_, iso, hrun, iff_of_true (toManaged_ofInt32 iso n) nofun⟩
  | string text =>
    obtain ⟨v, next, hrun, hback⟩ := returns_string ht text
    refine ⟨v, next, hrun, hback.trans ⟨fun htells => ?_, fun htells => htells text rfl⟩⟩
    rintro _ ⟨⟩
    exact htells
  | object ref =>
    obtain ⟨h', b', next, hwraps⟩ := rewraps_obliging ho hf hroom ⟨iso.id, ref, .object⟩
    have hback : next.toManaged (.handle h') = .ok (.object ref) := by
      rw [toManaged_of_handle? next (Value.handle?_handle h'), hwraps.get]
      exact congrArg (fun ref => Except.ok (ManagedValue.object ref)) hwraps.object
    exact ⟨.handle h', next, hwraps.run, iff_of_true hback nofun⟩

/-- Over an engine that answers, a value is translated without loss wherever there is room for a handle. -/
theorem translates_obliging (ho : Engine.Obliging ε) (hf : iso.handles.Fitted)
    (hroom : iso.handles.entries.size < HandleId.capacity) (ht : iso.strings.Indexed) :
    iso.Translates where
  faults m fault next := by
    -- an integer that is too wide is the only value that cannot come over
    by_cases hwide : ∃ n, m = .int n ∧ ¬Value.Short n
    · obtain ⟨n, rfl, hn⟩ := hwide
      rw [toNative_wide hn]
      constructor
      · intro hfault
        obtain ⟨rfl, rfl⟩ := EStateM.Result.error.inj hfault
        exact ⟨rfl, rfl, n, rfl, hn⟩
      · rintro ⟨rfl, rfl, -⟩
        rfl
    · have hm (n : Int32) (hn : m = .int n) : Value.Short n :=
        not_not.1 fun hout => hwide ⟨n, hn, hout⟩
      obtain ⟨v, next', hrun, -⟩ := returns_obliging ho hf hroom ht hm
      rw [hrun]
      exact iff_of_false nofun fun hfault => hwide hfault.2.2
  returns m hm := returns_obliging ho hf hroom ht hm
  words v m hv hh hm := toNative_of_word ht hv hh hm
  handles h m hm := by
    rw [toManaged_of_handle? iso (Value.handle?_handle h)] at hm
    cases hget : iso.handles.get h with
    | error e =>
      rw [hget] at hm
      cases hm
    | ok b =>
      rw [hget] at hm
      exact ⟨b, rfl, (Except.ok.inj hm).symm, rewraps_obliging ho hf hroom b⟩
  manages v := manage_eq v iso
  rejects v error := toManaged_error_iff ht

/-- A word that a value has got stands for it, a string as long as its number is its own. -/
theorem toManaged_of_toNative {iso next : Isolate Agent φ} (hf : iso.handles.Fitted)
    (ht : iso.strings.Indexed) (hr : toNative m iso = .ok v next)
    (htells : ∀ text, m = .string text → next.strings.Tells text) : next.toManaged v = .ok m := by
  cases m with
  | undefined =>
    obtain ⟨rfl, rfl⟩ := EStateM.Result.ok.inj hr
    exact toManaged_undefined iso
  | null =>
    obtain ⟨rfl, rfl⟩ := EStateM.Result.ok.inj hr
    exact toManaged_null iso
  | bool b =>
    obtain ⟨rfl, rfl⟩ := EStateM.Result.ok.inj hr
    exact toManaged_bool iso b
  | int n =>
    rw [toNative_int] at hr
    by_cases hn : Value.fits n = true
    · rw [Value.int, if_pos hn] at hr
      obtain ⟨rfl, rfl⟩ := EStateM.Result.ok.inj hr
      exact toManaged_ofInt32 iso n
    · rw [Value.int, if_neg hn] at hr
      cases hr
  | string text =>
    obtain ⟨w, last, hrun, hback⟩ := returns_string ht text
    obtain ⟨rfl, rfl⟩ := EStateM.Result.ok.inj (hr.symm.trans hrun)
    exact hback.2 (htells text rfl)
  | object ref =>
    obtain ⟨id, mid, hwrap, hrest⟩ := bind_ok hr
    obtain ⟨rfl, rfl⟩ := EStateM.Result.ok.inj hrest
    -- the new handle leads to the object
    rw [wrap_run, register_run] at hwrap
    split at hwrap
    · rename_i hroom
      obtain ⟨rfl, rfl⟩ := EStateM.Result.ok.inj hwrap
      rw [toManaged_of_handle? _ (Value.handle?_handle _), HandleTable.get_nextId hf hroom]
      rfl
    · cases hwrap

end

end Isolate

end Promises
