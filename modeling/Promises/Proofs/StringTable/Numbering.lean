import Mathlib.Data.Finset.Card
import Mathlib.Data.List.Nodup
import Promises.Proofs.StringTable

namespace Promises

namespace StringTable

/-- A call for the number of a string, with a text or with a string that is shared. -/
inductive Inquiry
  | text (s : String)
  | shared (s : String)

def Inquiry.string : Inquiry → String
  | text s => s
  | shared s => s

def perform (t : StringTable) : Inquiry → StringId × StringTable
  | .text s => t.intern s
  | .shared s => t.internShared s

/-- The answers to some calls, in their order, and the table they leave. -/
def performAll (t : StringTable) : List Inquiry → List StringId × StringTable
  | [] => ([], t)
  | call :: calls =>
    let (id, u) := t.perform call
    let (ids, v) := u.performAll calls
    (id :: ids, v)

variable {t u : StringTable} {s : String} {id : StringId}

/-- The two ways to ask come to the same. -/
theorem perform_eq (t : StringTable) (call : Inquiry) : t.perform call = t.intern call.string := by
  cases call with
  | text s => rfl
  | shared s => exact t.internShared_eq s

theorem performAll_cons (t : StringTable) (call : Inquiry) (calls : List Inquiry) :
    t.performAll (call :: calls) =
      ((t.intern call.string).1 :: ((t.intern call.string).2.performAll calls).1,
        ((t.intern call.string).2.performAll calls).2) := by
  rw [performAll, perform_eq]

theorem mem_strings_intern (t : StringTable) (s : String) {other : String} (ht : t.Indexed) :
    other ∈ (t.intern s).2.strings ↔ other = s ∨ other ∈ t.strings := by
  cases hs : t.ids[s]? with
  | some id =>
    -- a string that has a number has a place as well
    have hmem : s ∈ t.strings := by
      obtain ⟨i, hi, -⟩ := ht.place s id hs
      exact Array.mem_of_getElem? hi
    rw [intern_of_some hs]
    constructor
    · exact Or.inr
    · rintro (rfl | hother)
      · exact hmem
      · exact hother
  | none =>
    rw [intern_of_none hs, Array.mem_push]
    exact Or.comm

theorem grown_performAll (calls : List Inquiry) (t : StringTable) : t.Grown (t.performAll calls).2 := by
  induction calls generalizing t with
  | nil => exact .refl t
  | cons call calls ih =>
    rw [performAll_cons]
    exact (t.grown_intern call.string).trans (ih _)

theorem Indexed.performAll (ht : t.Indexed) (calls : List Inquiry) : (t.performAll calls).2.Indexed := by
  induction calls generalizing t with
  | nil => exact ht
  | cons call calls ih =>
    rw [performAll_cons]
    exact ih (ht.intern call.string)

/-- The strings of a table are those that were asked for. -/
theorem mem_strings_performAll (ht : t.Indexed) (calls : List Inquiry) :
    s ∈ (t.performAll calls).2.strings ↔ s ∈ t.strings ∨ s ∈ calls.map Inquiry.string := by
  induction calls generalizing t with
  | nil => simp [StringTable.performAll]
  | cons call calls ih =>
    rw [performAll_cons, ih (ht.intern call.string), mem_strings_intern t call.string ht, List.map_cons,
      List.mem_cons]
    tauto

theorem length_performAll (t : StringTable) (calls : List Inquiry) :
    (t.performAll calls).1.length = calls.length := by
  induction calls generalizing t with
  | nil => rfl
  | cons call calls ih =>
    rw [performAll_cons, List.length_cons, List.length_cons, ih]

/-- Each answer is the number that the string has at the end. -/
theorem ids_performAll (calls : List Inquiry) (t : StringTable) {i : ℕ} {call : Inquiry}
    (hcall : calls[i]? = some call) (hid : (t.performAll calls).1[i]? = some id) :
    (t.performAll calls).2.ids[call.string]? = some id := by
  induction calls generalizing t i with
  | nil => cases hcall
  | cons first calls ih =>
    rw [performAll_cons] at hid ⊢
    cases i with
    | zero =>
      obtain rfl : first = call := by simpa using hcall
      obtain rfl : (t.intern first.string).1 = id := by simpa using hid
      -- later calls take no number back
      exact (grown_performAll calls _).ids _ _ (t.ids_intern first.string)
    | succ i => exact ih _ (by simpa using hcall) (by simpa using hid)

theorem Indexed.nodup (ht : t.Indexed) : t.strings.toList.Nodup := by
  rw [List.nodup_iff_injective_get]
  intro i j hij
  have hi : t.strings[i.1]? = some (t.strings.toList.get i) := by
    rw [← Array.getElem?_toList]
    exact List.getElem?_eq_getElem i.2
  have hj : t.strings[j.1]? = some (t.strings.toList.get i) := by
    rw [hij, ← Array.getElem?_toList]
    exact List.getElem?_eq_getElem j.2
  exact Fin.ext (ht.once i.1 j.1 _ hi hj)

/-- A table from scratch has one place for each string that was asked for. -/
theorem size_performAll_empty (calls : List Inquiry) :
    (empty.performAll calls).2.size = (calls.map Inquiry.string).toFinset.card := by
  have hnodup : (empty.performAll calls).2.strings.toList.Nodup := (indexed_empty.performAll calls).nodup
  have hsame : (empty.performAll calls).2.strings.toList.toFinset = (calls.map Inquiry.string).toFinset := by
    ext s
    rw [List.mem_toFinset, List.mem_toFinset, Array.mem_toList_iff, mem_strings_performAll indexed_empty]
    simp [empty]
  calc (empty.performAll calls).2.size
      = (empty.performAll calls).2.strings.toList.length := Array.length_toList.symm
    _ = (empty.performAll calls).2.strings.toList.toFinset.card := (List.toFinset_card_of_nodup hnodup).symm
    _ = (calls.map Inquiry.string).toFinset.card := by rw [hsame]

/-- While there are numbers enough, a number and a string lead to each other or not at all. -/
theorem Indexed.ids_iff_get? (ht : t.Indexed) (hsize : t.size ≤ UInt32.size) :
    t.ids[s]? = some id ↔ t.get? id = some s := by
  constructor
  · intro hs
    refine (ht.get?_iff hs).2 fun i hi => ?_
    have hlt : i < t.strings.size := (Array.getElem?_eq_some_iff.1 hi).1
    have hle : t.strings.size ≤ UInt32.size := hsize
    omega
  · exact ht.ids_of_get?

/-- What is known of a table and of the answers it gave to `calls`. -/
structure Numbers (calls : List Inquiry) (ids : List StringId) (t : StringTable) : Prop where
  /-- Every call has its answer. -/
  answered : ids.length = calls.length
  /-- As many strings as there were different ones. -/
  size_eq : t.size = (calls.map Inquiry.string).toFinset.card
  /-- The numbers from 0 on, without gaps. -/
  numbers : ∀ n : ℕ, (∃ id ∈ ids, id.number.toNat = n) ↔ n < t.size
  /-- One number for each string, however it is asked for. -/
  eq_iff : ∀ (i j : ℕ) (call call' : Inquiry) (id id' : StringId), calls[i]? = some call → ids[i]? = some id →
    calls[j]? = some call' → ids[j]? = some id' → (id = id' ↔ call.string = call'.string)
  /-- A number leads back to its string, and goes on to. -/
  get?_eq : ∀ (i : ℕ) (call : Inquiry) (id : StringId), calls[i]? = some call → ids[i]? = some id →
    ∀ later : List Inquiry, (t.performAll later).2.get? id = some call.string
  /-- Other numbers lead nowhere. -/
  get?_eq_none : ∀ id : StringId, id ∉ ids → t.get? id = none
  /-- The two halves of the table are one mapping. -/
  ids_iff_get? : ∀ (s : String) (id : StringId), t.ids[s]? = some id ↔ t.get? id = some s

/-- A table numbers the strings it is asked for, one to one, whatever the calls. -/
theorem numbers_performAll (calls : List Inquiry)
    (hcard : (calls.map Inquiry.string).toFinset.card ≤ UInt32.size) :
    Numbers calls (empty.performAll calls).1 (empty.performAll calls).2 := by
  generalize hids : (empty.performAll calls).1 = ids
  generalize ht : (empty.performAll calls).2 = t
  have hindexed : t.Indexed := ht ▸ indexed_empty.performAll calls
  have hsize : t.size = (calls.map Inquiry.string).toFinset.card := ht ▸ size_performAll_empty calls
  have hlength : ids.length = calls.length := hids ▸ length_performAll empty calls
  have hback {s : String} {id : StringId} : t.ids[s]? = some id ↔ t.get? id = some s :=
    hindexed.ids_iff_get? (hsize.le.trans hcard)
  have hanswer {i : ℕ} {call : Inquiry} {id : StringId} (hcall : calls[i]? = some call)
      (hid : ids[i]? = some id) : t.get? id = some call.string := by
    subst hids ht
    exact hback.1 (ids_performAll calls empty hcall hid)
  -- a number that leads to a string is the answer to the call that asked for it
  have hgiven {id : StringId} {s : String} (hs : t.get? id = some s) : id ∈ ids := by
    have hmem : s ∈ calls.map Inquiry.string := by
      have hplace : s ∈ t.strings := Array.mem_of_getElem? hs
      rw [← ht, mem_strings_performAll indexed_empty] at hplace
      simpa [empty] using hplace
    obtain ⟨call, hcall, rfl⟩ := List.mem_map.1 hmem
    obtain ⟨i, hi, hget⟩ := List.getElem_of_mem hcall
    have hlt : i < ids.length := by omega
    have hid : ids[i]? = some ids[i] := List.getElem?_eq_getElem hlt
    have hnumber := hback.2 (hanswer (List.getElem?_eq_some_iff.2 ⟨hi, hget⟩) hid)
    rw [hback.2 hs] at hnumber
    rw [Option.some.inj hnumber]
    exact List.getElem_mem _
  refine ⟨hlength, hsize, fun n => ?_, fun i j call call' id id' hcall hid hcall' hid' => ?_,
    fun i call id hcall hid later => ?_, fun id hid => ?_, fun s id => hback⟩
  · constructor
    · rintro ⟨id, hid, rfl⟩
      obtain ⟨i, hi, hget⟩ := List.getElem_of_mem hid
      have hlt : i < calls.length := by omega
      have hcall : calls[i]? = some calls[i] := List.getElem?_eq_getElem hlt
      have hs := hanswer hcall (List.getElem?_eq_some_iff.2 ⟨hi, hget⟩)
      exact (Array.getElem?_eq_some_iff.1 hs).1
    · intro hn
      have hlt : n < UInt32.size := by omega
      have hplace : (n.toUInt32).toNat = n := Nat.mod_eq_of_lt hlt
      have hin : n < t.strings.size := hn
      have hs : t.get? ⟨n.toUInt32⟩ = some t.strings[n] := by
        rw [StringTable.get?, hplace]
        exact Array.getElem?_eq_getElem hin
      exact ⟨_, hgiven hs, hplace⟩
  · have hs := hanswer hcall hid
    have hs' := hanswer hcall' hid'
    constructor
    · rintro rfl
      exact Option.some.inj (hs.symm.trans hs')
    · intro hsame
      rw [← hsame] at hs'
      exact Option.some.inj ((hback.2 hs).symm.trans (hback.2 hs'))
  · exact (grown_performAll later t).get? (hanswer hcall hid)
  · cases hs : t.get? id with
    | none => rfl
    | some s => exact absurd (hgiven hs) hid

/-- Three calls for two strings, one of them asked for in both ways. -/
theorem numbers_performAll_shared :
    (([.text "err", .shared "err", .text "ok"] : List Inquiry).map Inquiry.string).toFinset.card ≤ UInt32.size ∧
      Numbers [.text "err", .shared "err", .text "ok"]
        (empty.performAll [.text "err", .shared "err", .text "ok"]).1
        (empty.performAll [.text "err", .shared "err", .text "ok"]).2 := by
  have hcard : (([.text "err", .shared "err", .text "ok"] : List Inquiry).map Inquiry.string).toFinset.card ≤
      UInt32.size :=
    (List.toFinset_card_le _).trans (by decide)
  exact ⟨hcard, numbers_performAll _ hcard⟩

end StringTable

end Promises
