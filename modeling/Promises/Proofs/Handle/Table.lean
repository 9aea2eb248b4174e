import Mathlib.Data.List.Infix
import Promises.Proofs.Isolate.Held

namespace Promises

namespace HandleTable

variable {t u v : HandleTable} {h : HandleId} {b : Binding} {mark : ScopeMark}
  {marks : List ScopeMark} {popped : Array Binding} {i : ℕ}

theorem get_eq_ok_iff : t.get h = .ok b ↔
    h.isolate = t.isolate.tag ∧ t.entries[h.index.toNat]? = some b ∧
      t.serials[h.index.toNat]? = some h.serial := by
  unfold get
  by_cases htag : h.isolate = t.isolate.tag
  · cases hentry : t.entries[h.index.toNat]? with
    | none => simp [htag]
    | some c =>
      by_cases hserial : t.serials[h.index.toNat]? = some h.serial <;> simp [htag, hserial]
  · simp [htag]

/-- A handle is no live one once its slot was popped, until the serials of the slot come round. -/
theorem get_eq_invalid (htag : h.isolate = t.isolate.tag) {count : ℕ}
    (hserial : t.serials[h.index.toNat]? = some (h.serial + BitVec.ofNat 16 count))
    (hpos : 0 < count) (hround : count < 65536) : t.get h = .error (.invalidHandle h) := by
  have hother : t.serials[h.index.toNat]? ≠ some h.serial := by
    rw [hserial]
    intro hsame
    have hback := congrArg BitVec.toNat (Option.some.inj hsame)
    rw [BitVec.toNat_add, BitVec.toNat_ofNat] at hback
    have hbound := h.serial.isLt
    omega
  unfold get
  rw [if_pos htag]
  cases t.entries[h.index.toNat]? with
  | none => rfl
  | some c => exact if_neg hother

theorem lt_of_get (hg : t.get h = .ok b) : h.index.toNat < t.entries.size :=
  (Array.getElem?_eq_some_iff.1 (get_eq_ok_iff.1 hg).2.1).1

/-- Every entry has a serial. -/
def Fitted (t : HandleTable) : Prop := t.entries.size ≤ t.serials.size

theorem index_nextId (hroom : t.entries.size < HandleId.capacity) :
    t.nextId.index.toNat = t.entries.size := by
  rw [nextId, BitVec.toNat_ofNat]
  exact Nat.mod_eq_of_lt hroom

/-- The handle of a new entry stands for it. -/
theorem get_nextId (hf : t.Fitted) (hroom : t.entries.size < HandleId.capacity) :
    (t.pushed b).get t.nextId = .ok b := by
  have hindex := index_nextId hroom
  refine get_eq_ok_iff.2 ⟨rfl, ?_, ?_⟩
  · rw [hindex]
    exact Array.getElem?_push_size
  · rw [hindex]
    change (if t.entries.size < t.serials.size then t.serials else t.serials.push 0)[t.entries.size]? =
      some (t.serials[t.entries.size]?.getD 0)
    by_cases hold : t.entries.size < t.serials.size
    · rw [if_pos hold, Array.getElem?_eq_getElem hold]
      rfl
    · have hsize : t.entries.size = t.serials.size := Nat.le_antisymm hf (Nat.le_of_not_lt hold)
      rw [if_neg hold, hsize, Array.getElem?_push_size, Array.getElem?_eq_none (Nat.le_refl _)]
      rfl

theorem entry_of_prefix (hp : t.entries.toList <+: u.entries.toList) (hi : t.entries[i]? = some b) :
    u.entries[i]? = some b := by
  obtain ⟨rest, hrest⟩ := hp
  have hlt : i < t.entries.toList.length := (Array.getElem?_eq_some_iff.1 hi).1
  rw [← Array.getElem?_toList] at hi ⊢
  rw [← hrest, List.getElem?_append_left hlt]
  exact hi

/-- Entries were put on top and nothing else was done. -/
structure Grown (t u : HandleTable) : Prop where
  isolate : u.isolate = t.isolate
  scopes : u.scopes = t.scopes
  entries : t.entries.toList <+: u.entries.toList
  serials : ∀ (i : ℕ) (serial : BitVec 16), t.serials[i]? = some serial → u.serials[i]? = some serial
  fitted : t.Fitted → u.Fitted

theorem Grown.refl (t : HandleTable) : t.Grown t where
  isolate := rfl
  scopes := rfl
  entries := List.prefix_rfl
  serials _ _ h := h
  fitted h := h

theorem Grown.trans (h : t.Grown u) (h' : u.Grown v) : t.Grown v where
  isolate := h'.isolate.trans h.isolate
  scopes := h'.scopes.trans h.scopes
  entries := h.entries.trans h'.entries
  serials i serial hi := h'.serials i serial (h.serials i serial hi)
  fitted hf := h'.fitted (h.fitted hf)

theorem grown_pushed (t : HandleTable) (b : Binding) : t.Grown (t.pushed b) where
  isolate := rfl
  scopes := rfl
  entries := by
    rw [pushed, Array.toList_push]
    exact List.prefix_append _ _
  serials i serial hi := by
    change (if t.entries.size < t.serials.size then t.serials else t.serials.push 0)[i]? = some serial
    split
    · exact hi
    · have hlt : i < t.serials.size := (Array.getElem?_eq_some_iff.1 hi).1
      rw [Array.getElem?_push_lt hlt]
      exact (Array.getElem?_eq_getElem hlt).symm.trans hi
  fitted hf := by
    have hf : t.entries.size ≤ t.serials.size := hf
    change (t.entries.push b).size ≤ (if t.entries.size < t.serials.size then t.serials
      else t.serials.push 0).size
    rw [Array.size_push]
    split
    · omega
    · rw [Array.size_push]
      omega

theorem Grown.size_le (hu : t.Grown u) : t.entries.size ≤ u.entries.size := by
  simpa using hu.entries.length_le

/-- What a handle stands for does not change under new entries. -/
theorem Grown.get (hu : t.Grown u) (hg : t.get h = .ok b) : u.get h = .ok b := by
  obtain ⟨htag, hentry, hserial⟩ := get_eq_ok_iff.1 hg
  refine get_eq_ok_iff.2 ⟨?_, entry_of_prefix hu.entries hentry, hu.serials _ _ hserial⟩
  rw [hu.isolate]
  exact htag

/-- Closing pops what lies above the mark of the innermost scope, and moves its slots on. -/
theorem closeScope_ok (hc : t.closeScope mark = (.ok popped, u)) :
    t.scopes = mark.start :: u.scopes ∧ u.isolate = t.isolate ∧
      u.entries = t.entries.shrink mark.start ∧
      u.serials = retire t.serials mark.start (t.entries.size - mark.start) := by
  unfold closeScope at hc
  split at hc
  · rename_i start scopes hs
    split at hc
    · rename_i hmark
      obtain ⟨-, rfl⟩ := Prod.mk.inj hc
      rw [hmark]
      exact ⟨hs, rfl, rfl, rfl⟩
    · cases (Prod.mk.inj hc).1
  · cases (Prod.mk.inj hc).1

theorem size_retire (serials : Array (BitVec 16)) (start count : ℕ) :
    (retire serials start count).size = serials.size := by
  induction count generalizing serials start with
  | zero => rfl
  | succ count ih => rw [retire, ih, Array.size_modify]

theorem serial_closed (hc : t.closeScope mark = (.ok popped, u)) {serial : BitVec 16}
    (hi : t.serials[i]? = some serial) :
    u.serials[i]? =
      some (if mark.start ≤ i ∧ i < t.entries.size then serial + 1 else serial) := by
  obtain ⟨-, -, -, hserials⟩ := closeScope_ok hc
  have hslots : (mark.start ≤ i ∧ i < mark.start + (t.entries.size - mark.start)) ↔
      mark.start ≤ i ∧ i < t.entries.size := by omega
  rw [hserials, getElem?_retire, hi]
  simp only [hslots]
  split
  · rfl
  · rfl

theorem entry_closed (hc : t.closeScope mark = (.ok popped, u)) (hi : t.entries[i]? = some b)
    (hlow : i < mark.start) : u.entries[i]? = some b := by
  obtain ⟨-, -, hentries, -⟩ := closeScope_ok hc
  rw [← Array.getElem?_toList] at hi ⊢
  rw [hentries, Array.toList_shrink, List.getElem?_take_of_lt hlow]
  exact hi

/-- What a handle stands for below the mark does not change. -/
theorem get_closed (hc : t.closeScope mark = (.ok popped, u)) (hg : t.get h = .ok b)
    (hlow : h.index.toNat < mark.start) : u.get h = .ok b := by
  obtain ⟨htag, hentry, hserial⟩ := get_eq_ok_iff.1 hg
  obtain ⟨-, hisolate, -, -⟩ := closeScope_ok hc
  refine get_eq_ok_iff.2 ⟨?_, entry_closed hc hentry hlow, ?_⟩
  · rw [hisolate]
    exact htag
  · rw [serial_closed hc hserial, if_neg (by omega)]

theorem fitted_closed (hf : t.Fitted) (hc : t.closeScope mark = (.ok popped, u)) : u.Fitted := by
  obtain ⟨-, -, hentries, hserials⟩ := closeScope_ok hc
  have hf : t.entries.size ≤ t.serials.size := hf
  change u.entries.size ≤ u.serials.size
  rw [hentries, hserials, size_retire, Array.size_shrink]
  omega

/-- A table while scopes are open above it, the innermost of them first. -/
structure Under (t u : HandleTable) (marks : List ScopeMark) : Prop where
  isolate : u.isolate = t.isolate
  scopes : u.scopes = marks.map (·.start) ++ t.scopes
  above : ∀ mark ∈ marks, t.entries.size ≤ mark.start
  entries : t.entries.toList <+: u.entries.toList
  serials : ∀ i < t.entries.size, ∀ serial : BitVec 16,
    t.serials[i]? = some serial → u.serials[i]? = some serial
  fitted : u.Fitted

namespace Under

theorem refl (hf : t.Fitted) : t.Under t [] where
  isolate := rfl
  scopes := rfl
  above _ hmark := nomatch hmark
  entries := List.prefix_rfl
  serials _ _ _ h := h
  fitted := hf

theorem grown (h : t.Under u marks) (hg : u.Grown v) : t.Under v marks where
  isolate := hg.isolate.trans h.isolate
  scopes := hg.scopes.trans h.scopes
  above := h.above
  entries := h.entries.trans hg.entries
  serials i hi serial hserial := hg.serials i serial (h.serials i hi serial hserial)
  fitted := hg.fitted h.fitted

theorem opened (h : t.Under u marks) : t.Under u.openScope.2 (u.openScope.1 :: marks) where
  isolate := h.isolate
  scopes := congrArg (u.entries.size :: ·) h.scopes
  above := by
    intro mark hmark
    rcases List.mem_cons.1 hmark with rfl | hmark
    · exact h.entries.length_le
    · exact h.above mark hmark
  entries := h.entries
  serials := h.serials
  fitted := h.fitted

theorem closed (h : t.Under u (mark :: marks)) (hc : u.closeScope mark = (.ok popped, v)) :
    t.Under v marks := by
  obtain ⟨hscopes, hisolate, hentries, -⟩ := closeScope_ok hc
  have hstart : t.entries.size ≤ mark.start := h.above mark List.mem_cons_self
  refine ⟨hisolate.trans h.isolate, ?_, ?_, ?_, ?_, fitted_closed h.fitted hc⟩
  · exact List.tail_eq_of_cons_eq (hscopes.symm.trans h.scopes)
  · intro other hother
    exact h.above other (List.mem_cons_of_mem mark hother)
  · rw [hentries, Array.toList_shrink]
    exact List.prefix_take_iff.2 ⟨h.entries, by simpa using hstart⟩
  · intro i hi serial hserial
    have hlow : ¬ (mark.start ≤ i ∧ i < u.entries.size) := by omega
    rw [serial_closed hc (h.serials i hi serial hserial), if_neg hlow]

/-- The scope that was opened on a table gives the table back. -/
theorem emptied (h : t.Under u [mark]) (hstart : mark.start = t.entries.size)
    (hc : u.closeScope mark = (.ok popped, v)) :
    v.entries.toList = t.entries.toList ∧ v.scopes = t.scopes := by
  obtain ⟨hscopes, -, hentries, -⟩ := closeScope_ok hc
  refine ⟨?_, List.tail_eq_of_cons_eq (hscopes.symm.trans h.scopes)⟩
  rw [hentries, Array.toList_shrink, hstart, ← Array.length_toList]
  exact (List.prefix_iff_eq_take.1 h.entries).symm

/-- What a handle stands for below does not change. -/
theorem get (h : t.Under u marks) {handle : HandleId} (hg : t.get handle = .ok b) :
    u.get handle = .ok b := by
  obtain ⟨htag, hentry, hserial⟩ := get_eq_ok_iff.1 hg
  have hlt : handle.index.toNat < t.entries.size := (Array.getElem?_eq_some_iff.1 hentry).1
  refine get_eq_ok_iff.2 ⟨?_, ?_, h.serials _ hlt _ hserial⟩
  · rw [h.isolate]
    exact htag
  · exact entry_of_prefix h.entries hentry

/-- The innermost scope can be closed. -/
theorem closes (h : t.Under u [t.openScope.1]) :
    ∃ popped v, u.closeScope t.openScope.1 = (.ok popped, v) := by
  have hscopes : u.scopes = t.entries.size :: t.scopes := h.scopes
  unfold closeScope
  rw [hscopes]
  exact ⟨_, _, if_pos rfl⟩

end Under

end HandleTable

end Promises
