import Promises.Proofs.Isolate.Held
import Promises.Proofs.Value

namespace Promises

namespace Value

/-- The values that the checked constructors make. -/
inductive Checked : Value → Prop
  | null : Checked .null
  | undefined : Checked .undefined
  | bool (b : Bool) : Checked (.bool b)
  | int {n : Int32} {v : Value} (h : Value.int n = .ok v) : Checked v
  | string (id : StringId) : Checked (.string id)
  | handle (h : HandleId) : Checked (.handle h)

/-- The integer of a checked value has 31 bits. -/
theorem Checked.fits {v : Value} (h : v.Checked) {n : Int32} (hn : v.int? = some n) :
    Value.fits n = true := by
  have htagged (tag : Tag) (payload : BitVec 59) (ht : (tagged tag payload).int? = some n) :
      Value.fits n = true := by
    rw [int?_tagged] at ht
    cases ht
  -- only the words of integers have an even low bit
  cases h with
  | null => exact htagged _ _ hn
  | undefined => exact htagged _ _ hn
  | bool b => exact htagged _ _ hn
  | string id => exact htagged _ _ hn
  | handle h => exact htagged _ _ hn
  | @int k _ h =>
    unfold Value.int at h
    split at h
    · rename_i hfits
      obtain rfl := Except.ok.inj h
      rw [int?_ofInt32, Option.some.injEq] at hn
      rw [← hn]
      exact hfits
    · cases h

end Value

namespace Isolate

section

variable {ε φ : Type} {v : Value}

theorem toManaged_ofInt32 (iso : Isolate ε φ) (n : Int32) : iso.toManaged (.ofInt32 n) = .ok (.int n) := by
  simp only [toManaged, Value.int?_ofInt32]

theorem toManaged_bool (iso : Isolate ε φ) (b : Bool) : iso.toManaged (.bool b) = .ok (.bool b) := by
  have hint : (Value.bool b).int? = none := Value.int?_tagged .bool _
  simp only [toManaged, hint, Value.bool?_bool]

theorem toManaged_null (iso : Isolate ε φ) : iso.toManaged .null = .ok .null := by
  have hint : Value.null.int? = none := Value.int?_tagged .null _
  have hbool : Value.null.bool? = none := Value.bool?_tagged .null (by decide) _
  have hnull : Value.null.isNull = true := beq_self_eq_true _
  simp only [toManaged, hint, hbool, hnull]
  rfl

theorem toManaged_undefined (iso : Isolate ε φ) : iso.toManaged .undefined = .ok .undefined := by
  have hint : Value.undefined.int? = none := Value.int?_tagged .undefined _
  have hbool : Value.undefined.bool? = none := Value.bool?_tagged .undefined (by decide) _
  have hnull : Value.undefined.isNull = false := Value.isNull_tagged .undefined (by decide) _
  have hstring : Value.undefined.stringId? = none := Value.stringId?_tagged .undefined (by decide) _
  have hhandle : Value.undefined.handle? = none := Value.handle?_tagged .undefined (by decide) _
  simp only [toManaged, hint, hbool, hnull, hstring, hhandle]
  rfl

theorem toManaged_of_stringId? (iso : Isolate ε φ) {id : StringId} (hv : v.stringId? = some id) :
    iso.toManaged v =
      match iso.strings.get? id with
      | some text => .ok (.string text)
      | none => .error (.invalidString id.number.toNat) := by
  -- a word of another kind has another tag
  have hword : Value.tagged .string v.payload = v := Value.tagged_of_stringId? hv
  have hint : v.int? = none := by
    rw [← hword]
    exact Value.int?_tagged .string _
  have hbool : v.bool? = none := by
    rw [← hword]
    exact Value.bool?_tagged .string (by decide) _
  have hnull : v.isNull = false := by
    rw [← hword]
    exact Value.isNull_tagged .string (by decide) _
  simp only [toManaged, hint, hbool, hnull, hv]
  rfl

theorem toManaged_of_handle? (iso : Isolate ε φ) {h : HandleId} (hv : v.handle? = some h) :
    iso.toManaged v = (iso.handles.get h).map fun b => .object b.object := by
  have hword : Value.tagged .handle h.toBits = v := Value.handle_of_handle? hv
  have hint : v.int? = none := by
    rw [← hword]
    exact Value.int?_tagged .handle _
  have hbool : v.bool? = none := by
    rw [← hword]
    exact Value.bool?_tagged .handle (by decide) _
  have hnull : v.isNull = false := by
    rw [← hword]
    exact Value.isNull_tagged .handle (by decide) _
  have hstring : v.stringId? = none := by
    rw [← hword]
    exact Value.stringId?_tagged .handle (by decide) _
  simp only [toManaged, hint, hbool, hnull, hstring, hv]
  rfl

theorem toNative_int [Engine ε] (n : Int32) (iso : Isolate ε φ) :
    toNative (.int n) iso =
      match Value.int n with
      | .ok v => .ok v iso
      | .error fault => .error fault iso := by
  rw [toNative]
  cases Value.int n <;> rfl

end

variable {φ : Type} {iso next : Isolate Agent φ} {narrow : Prop} {owed : List ObjectRef}

/-- A checked value of the native side may be stored. -/
theorem Held.toManaged (h : iso.Held narrow owed) {v : Value} (hv : narrow → v.Checked)
    {m : ManagedValue} (hm : iso.toManaged v = .ok m) : iso.engine.Admits narrow .reject m := by
  unfold Isolate.toManaged at hm
  split at hm
  · rename_i n hn
    obtain rfl := Except.ok.inj hm
    exact ⟨fun hnarrow => (hv hnarrow).fits hn, by simp, by simp⟩
  · split at hm
    · obtain rfl := Except.ok.inj hm
      exact Agent.admits_of_no_object _ _ trivial (by simp)
    · split at hm
      · obtain rfl := Except.ok.inj hm
        exact Agent.admits_of_no_object _ _ trivial (by simp)
      · split at hm
        · split at hm
          · obtain rfl := Except.ok.inj hm
            exact Agent.admits_of_no_object _ _ trivial (by simp)
          · cases hm
        · split at hm
          · rename_i handle _
            -- the object of a live handle is live
            cases hg : iso.handles.get handle with
            | error e => simp [hg, Except.map] at hm
            | ok b =>
              rw [hg] at hm
              obtain rfl := Except.ok.inj hm
              refine ⟨fun _ => trivial, ?_, by simp⟩
              rintro ref ⟨⟩
              exact h.isLive (HandleTable.mem_of_get hg)
          · obtain rfl := Except.ok.inj hm
            exact Agent.admits_undefined _ _

/-- The strings are nothing to the handles. -/
theorem Held.strings (h : iso.Held narrow owed) (strings : StringTable) :
    ({ iso with strings } : Isolate Agent φ).Held narrow owed := h.of_same rfl rfl

/-- What an engine stores can be given to the native side, unless the handle table is full. -/
theorem Held.toNative (h : iso.Held narrow owed) {m : ManagedValue}
    (hm : iso.engine.Admits narrow .reject m) {v : Value} (hr : Isolate.toNative m iso = .ok v next) :
    next.Held narrow owed ∧ v.Checked := by
  cases m with
  | undefined =>
    obtain ⟨rfl, rfl⟩ := EStateM.Result.ok.inj hr
    exact ⟨h, .undefined⟩
  | null =>
    obtain ⟨rfl, rfl⟩ := EStateM.Result.ok.inj hr
    exact ⟨h, .null⟩
  | bool b =>
    obtain ⟨rfl, rfl⟩ := EStateM.Result.ok.inj hr
    exact ⟨h, .bool b⟩
  | int n =>
    rw [toNative_int] at hr
    cases hn : Value.int n with
    | error fault =>
      rw [hn] at hr
      cases hr
    | ok u =>
      rw [hn] at hr
      obtain ⟨rfl, rfl⟩ := EStateM.Result.ok.inj hr
      exact ⟨h, .int hn⟩
  | string text =>
    obtain ⟨rfl, rfl⟩ := EStateM.Result.ok.inj hr
    exact ⟨h.strings _, .string _⟩
  | object ref =>
    obtain ⟨id, mid, hw, hr⟩ := bind_ok hr
    obtain ⟨rfl, rfl⟩ := EStateM.Result.ok.inj hr
    exact ⟨h.wrap (hm.live ref rfl) hw, .handle id⟩

theorem register_total (b : Binding) (hs : iso.handles.size < HandleId.capacity) :
    ∃ id next, Isolate.register b iso = .ok id next := by
  rw [register_run]
  exact ⟨_, _, if_pos hs⟩

theorem toNative_total {m : ManagedValue} (hm : m.Fits)
    (hs : iso.handles.size < HandleId.capacity) :
    ∃ v next, Isolate.toNative m iso = .ok v next := by
  cases m with
  | int n =>
    have hn : Value.int n = .ok (Value.ofInt32 n) := if_pos hm
    refine ⟨Value.ofInt32 n, iso, ?_⟩
    rw [toNative_int, hn]
  | object ref =>
    obtain ⟨id, next, hw⟩ := register_total (iso.bound ref) hs
    refine ⟨.handle id, next, ?_⟩
    have hwrap : Isolate.wrap ref iso = .ok id next := (wrap_run ref iso).trans hw
    rw [Isolate.toNative, bind_run _ hwrap]
    rfl
  | _ => exact ⟨_, _, rfl⟩

end Isolate

end Promises
