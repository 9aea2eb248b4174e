import Mathlib.Data.List.Infix
import Mathlib.Logic.Relation
import Promises.Object
import Promises.StringTable

namespace Promises

/-- A value of an engine as it comes back from the native side. -/
def ManagedValue.read (r : String → String) : ManagedValue → ManagedValue
  | string text => string (r text)
  | value => value

namespace StringTable

variable {t u v : StringTable} {s : String} {id : StringId} {r : String → String}

/-- The numbers that were given lead to strings. -/
structure Sound (t : StringTable) : Prop where
  isSome : ∀ (s : String) (id : StringId), t.ids[s]? = some id → (t.get? id).isSome = true
  /-- After so many strings the numbers come round. -/
  get? : t.size ≤ UInt32.size → ∀ (s : String) (id : StringId), t.ids[s]? = some id → t.get? id = some s

/-- Further strings were seen, and nothing else was done. -/
structure Grown (t u : StringTable) : Prop where
  strings : t.strings.toList <+: u.strings.toList
  ids : ∀ (s : String) (id : StringId), t.ids[s]? = some id → u.ids[s]? = some id
  sound : t.Sound → u.Sound

/-- Whether strings come back as `r` says. -/
def Reads (t : StringTable) (r : String → String) : Prop :=
  ∀ (s : String) (id : StringId), t.ids[s]? = some id → t.get? id = some (r s)

/-- How strings come back. -/
def reading (t : StringTable) (s : String) : String := (t.ids[s]?.bind t.get?).getD s

theorem sound_empty : StringTable.empty.Sound where
  isSome s id h := by simp [empty] at h
  get? _ s id h := by simp [empty] at h

theorem Grown.refl (t : StringTable) : t.Grown t := ⟨List.prefix_rfl, fun _ _ h => h, fun h => h⟩

theorem Grown.trans (h : t.Grown u) (h' : u.Grown v) : t.Grown v :=
  ⟨h.strings.trans h'.strings, fun s id hs => h'.ids s id (h.ids s id hs), fun ht => h'.sound (h.sound ht)⟩

theorem Grown.size_le (h : t.Grown u) : t.size ≤ u.size := by
  simpa [size] using h.strings.length_le

/-- What a number leads to does not change. -/
theorem Grown.get? (h : t.Grown u) (hs : t.get? id = some s) : u.get? id = some s := by
  obtain ⟨rest, hrest⟩ := h.strings
  rw [StringTable.get?, ← Array.getElem?_toList] at hs ⊢
  rw [← hrest, List.getElem?_append_left (List.getElem?_eq_some_iff.1 hs).1]
  exact hs

theorem Sound.reads (h : t.Sound) : t.Reads t.reading := by
  intro s id hs
  obtain ⟨text, ht⟩ := Option.isSome_iff_exists.1 (h.isSome s id hs)
  rw [StringTable.reading, hs, Option.bind_some, ht]
  rfl

/-- While there are numbers enough, strings come back as they were given. -/
theorem Sound.reading_eq (h : t.Sound) (hsize : t.size ≤ UInt32.size) : t.reading = fun s => s := by
  funext s
  rw [StringTable.reading]
  cases hs : t.ids[s]? with
  | none => rfl
  | some id =>
    rw [Option.bind_some, h.get? hsize s id hs]
    rfl

/-- Strings that were known before come back as they do later. -/
theorem Grown.reads (h : t.Grown u) (ht : t.Sound) (hr : u.Reads r) : t.Reads r := by
  intro s id hs
  obtain ⟨text, htext⟩ := Option.isSome_iff_exists.1 (ht.isSome s id hs)
  have hlater : u.get? id = some (r s) := hr s id (h.ids s id hs)
  rw [h.get? htext] at hlater
  rw [htext, hlater]

theorem intern_of_some (hs : t.ids[s]? = some id) : t.intern s = (id, t) := by
  rw [intern, hs]

theorem intern_of_none (hs : t.ids[s]? = none) :
    t.intern s = (t.nextId, ⟨t.strings.push s, t.ids.insert s t.nextId⟩) := by
  rw [intern, hs]
  rfl

/-- A string gets the same number whichever side has it. -/
theorem internShared_eq (t : StringTable) (s : String) : t.internShared s = t.intern s := rfl

/-- The number of a string is known after it was asked for. -/
theorem ids_intern (t : StringTable) (s : String) : (t.intern s).2.ids[s]? = some (t.intern s).1 := by
  cases hs : t.ids[s]? with
  | some id => rw [intern_of_some hs, hs]
  | none =>
    rw [intern_of_none hs]
    exact Std.HashMap.getElem?_insert_self

theorem Sound.intern (h : t.Sound) (s : String) : (t.intern s).2.Sound := by
  cases hs : t.ids[s]? with
  | some id =>
    rw [intern_of_some hs]
    exact h
  | none =>
    rw [intern_of_none hs]
    -- the new string has the number of its place, and the others have those of before
    have hsplit {other : String} {id : StringId} (hid : (t.ids.insert s t.nextId)[other]? = some id) :
        s = other ∧ id = t.nextId ∨ t.ids[other]? = some id := by
      rw [Std.HashMap.getElem?_insert] at hid
      split at hid
      · exact .inl ⟨eq_of_beq ‹_›, (Option.some.inj hid).symm⟩
      · exact .inr hid
    have hkept {id : StringId} {text : String} (htext : t.get? id = some text) :
        (t.strings.push s)[id.number.toNat]? = some text := by
      rw [StringTable.get?] at htext
      rw [Array.getElem?_push_lt (Array.getElem?_eq_some_iff.1 htext).1]
      exact (Array.getElem?_eq_getElem _).symm.trans htext
    have hnext : t.nextId.number.toNat = t.strings.size % UInt32.size := rfl
    refine ⟨fun other id hid => ?_, fun hsize other id hid => ?_⟩
    · rcases hsplit hid with ⟨rfl, rfl⟩ | hold
      · have hlt : t.nextId.number.toNat < (t.strings.push s).size := by
          have hle := Nat.mod_le t.strings.size UInt32.size
          rw [hnext, Array.size_push]
          omega
        exact Option.isSome_iff_exists.2 ⟨_, Array.getElem?_eq_getElem hlt⟩
      · obtain ⟨text, htext⟩ := Option.isSome_iff_exists.1 (h.isSome other id hold)
        exact Option.isSome_iff_exists.2 ⟨text, hkept htext⟩
    · have hsize : t.strings.size + 1 ≤ UInt32.size := by simpa [size] using hsize
      rcases hsplit hid with ⟨rfl, rfl⟩ | hold
      · have hplace : t.nextId.number.toNat = t.strings.size := by
          rw [hnext]
          exact Nat.mod_eq_of_lt hsize
        rw [StringTable.get?, hplace]
        exact Array.getElem?_push_size
      · exact hkept (h.get? (Nat.le_of_succ_le hsize) other id hold)

theorem size_intern_le (t : StringTable) (s : String) : (t.intern s).2.size ≤ t.size + 1 := by
  cases hs : t.ids[s]? with
  | some id =>
    rw [intern_of_some hs]
    exact Nat.le_succ _
  | none =>
    rw [intern_of_none hs, size, Array.size_push]
    exact Nat.le_refl _

theorem grown_intern (t : StringTable) (s : String) : t.Grown (t.intern s).2 := by
  cases hs : t.ids[s]? with
  | some id =>
    rw [intern_of_some hs]
    exact .refl t
  | none =>
    rw [intern_of_none hs]
    refine ⟨?_, fun other id hother => ?_, fun ht => ?_⟩
    · rw [Array.toList_push]
      exact List.prefix_append _ _
    · rw [Std.HashMap.getElem?_insert]
      split
      · rename_i heq
        rw [← eq_of_beq heq, hs] at hother
        cases hother
      · exact hother
    · have hsound := ht.intern s
      rw [intern_of_none hs] at hsound
      exact hsound

/-- A table as it was some strings later. -/
abbrev Later : StringTable → StringTable → Prop :=
  Relation.ReflTransGen fun t u => ∃ s, u = (t.intern s).2

/-- Each string has one place, and its number from there. -/
structure Indexed (t : StringTable) : Prop where
  place : ∀ (s : String) (id : StringId), t.ids[s]? = some id →
    ∃ i : ℕ, t.strings[i]? = some s ∧ id = ⟨i.toUInt32⟩
  number : ∀ (i : ℕ) (s : String), t.strings[i]? = some s → t.ids[s]? = some ⟨i.toUInt32⟩
  once : ∀ (i j : ℕ) (s : String), t.strings[i]? = some s → t.strings[j]? = some s → i = j

theorem indexed_empty : StringTable.empty.Indexed where
  place s id h := by simp [empty] at h
  number i s h := by simp [empty] at h
  once i j s h := by simp [empty] at h

theorem Indexed.intern (h : t.Indexed) (s : String) : (t.intern s).2.Indexed := by
  cases hs : t.ids[s]? with
  | some id =>
    rw [intern_of_some hs]
    exact h
  | none =>
    rw [intern_of_none hs]
    have hsplit {i : ℕ} {text : String} (hi : (t.strings.push s)[i]? = some text) :
        i = t.strings.size ∧ s = text ∨ t.strings[i]? = some text := by
      rw [Array.getElem?_push] at hi
      split at hi
      · exact .inl ⟨‹_›, Option.some.inj hi⟩
      · exact .inr hi
    -- a string that has a place is not the new one, which had no number
    have hold {i : ℕ} (hi : t.strings[i]? = some s) : False := by
      rw [h.number i s hi] at hs
      cases hs
    refine ⟨fun text id hid => ?_, fun i text hi => ?_, fun i j text hi hj => ?_⟩
    · rw [Std.HashMap.getElem?_insert] at hid
      split at hid
      · obtain rfl := eq_of_beq ‹_›
        exact ⟨t.strings.size, Array.getElem?_push_size, (Option.some.inj hid).symm⟩
      · obtain ⟨i, hi, hnumber⟩ := h.place text id hid
        have hlt : i < t.strings.size := (Array.getElem?_eq_some_iff.1 hi).1
        refine ⟨i, ?_, hnumber⟩
        rw [Array.getElem?_push, if_neg (Nat.ne_of_lt hlt)]
        exact hi
    · rcases hsplit hi with ⟨rfl, rfl⟩ | hi
      · exact Std.HashMap.getElem?_insert_self
      · rw [Std.HashMap.getElem?_insert]
        split
        · obtain rfl := eq_of_beq ‹_›
          exact (hold hi).elim
        · exact h.number i text hi
    · rcases hsplit hi with ⟨rfl, rfl⟩ | hi
      · rcases hsplit hj with ⟨rfl, -⟩ | hj
        · rfl
        · exact (hold hj).elim
      · rcases hsplit hj with ⟨-, rfl⟩ | hj
        · exact (hold hi).elim
        · exact h.once i j text hi hj

theorem Later.indexed (h : t.Later u) (ht : t.Indexed) : u.Indexed := by
  induction h with
  | refl => exact ht
  | tail _ hstep ih =>
    obtain ⟨s, rfl⟩ := hstep
    exact ih.intern s

/-- What a number leads to has that number. -/
theorem Indexed.ids_of_get? (h : t.Indexed) (hs : t.get? id = some s) : t.ids[s]? = some id := by
  have hnumber := h.number id.number.toNat s hs
  have hback : id.number.toNat.toUInt32 = id.number := UInt32.ofNat_toNat
  rw [hback] at hnumber
  exact hnumber

/-- A number leads nowhere only before it is given. -/
theorem Indexed.get?_eq_none_iff (h : t.Indexed) : t.get? id = none ↔ ∀ s : String, t.ids[s]? ≠ some id := by
  constructor
  · intro hnone s hs
    obtain ⟨i, hi, rfl⟩ := h.place s id hs
    have hplace : i.toUInt32.toNat = i % UInt32.size := rfl
    have hlt : i % UInt32.size < t.strings.size :=
      Nat.lt_of_le_of_lt (Nat.mod_le _ _) (Array.getElem?_eq_some_iff.1 hi).1
    rw [StringTable.get?, hplace, Array.getElem?_eq_none_iff] at hnone
    omega
  · intro hnever
    cases hs : t.get? id with
    | none => rfl
    | some s => exact absurd (h.ids_of_get? hs) (hnever s)

/-- Whether the place of a string is among those that have numbers of their own. -/
def Tells (t : StringTable) (s : String) : Prop := ∀ i : ℕ, t.strings[i]? = some s → i < UInt32.size

/-- The number of a string leads back to it, unless the numbers have come round before its place. -/
theorem Indexed.get?_iff (h : t.Indexed) (hs : t.ids[s]? = some id) : t.get? id = some s ↔ t.Tells s := by
  obtain ⟨i, hi, rfl⟩ := h.place s id hs
  have hplace : i.toUInt32.toNat = i % UInt32.size := rfl
  rw [StringTable.get?, hplace]
  constructor
  · intro hback j hj
    have hsame : j = i % UInt32.size := h.once j _ s hj hback
    rw [hsame]
    exact Nat.mod_lt _ (by decide)
  · intro hbound
    rw [Nat.mod_eq_of_lt (hbound i hi)]
    exact hi

end StringTable

end Promises
