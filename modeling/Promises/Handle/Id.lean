/-!
Names of handles. A handle names a slot of one isolate's table at one of its serials, and packs
into 59 bits: the isolate's tag, the serial, the index. `ofBits_toBits` and `toBits_ofBits` say
that the packing loses nothing and leaves no bit over.
-/

namespace Promises

/-- The number of an isolate. -/
structure IsolateId where
  number : Nat
deriving DecidableEq

instance : ToString IsolateId where
  toString id := s!"isolate#{id.number}"

/-- What a handle remembers of its isolate: the low 19 bits of the number. -/
def IsolateId.tag (id : IsolateId) : BitVec 19 :=
  BitVec.ofNat 19 id.number

/-- The name of a handle: a slot of the table of the isolate with that tag, at that serial. -/
structure HandleId where
  isolate : BitVec 19
  serial : BitVec 16
  index : BitVec 24
deriving DecidableEq

instance : ToString HandleId where
  toString h := s!"#{h.index.toNat}.{h.serial.toNat}"

namespace HandleId

/-- How many slots a table can have. -/
abbrev capacity : Nat := 1 <<< 24

/-- The tag, the serial and the index, from the high end down. -/
def toBits (h : HandleId) : BitVec 59 :=
  h.isolate ++ h.serial ++ h.index

def ofBits (bits : BitVec 59) : HandleId where
  isolate := bits.extractLsb' 40 19
  serial := bits.extractLsb' 24 16
  index := bits.extractLsb' 0 24

@[simp] theorem ofBits_toBits (h : HandleId) : ofBits h.toBits = h := by
  obtain ⟨tag, serial, index⟩ := h
  simp only [ofBits, toBits, mk.injEq]
  refine ⟨?_, ?_, ?_⟩
  all_goals
    apply BitVec.eq_of_getLsbD_eq
    intro i hi
    simp only [BitVec.getLsbD_extractLsb', BitVec.getLsbD_append, hi, decide_true, Bool.true_and]
  · rw [if_neg (by omega), if_neg (by omega)]
    exact congrArg tag.getLsbD (by omega)
  · rw [if_neg (by omega), if_pos (by omega)]
    exact congrArg serial.getLsbD (by omega)
  · rw [if_pos (by omega)]
    exact congrArg index.getLsbD (by omega)

@[simp] theorem toBits_ofBits (bits : BitVec 59) : (ofBits bits).toBits = bits := by
  simp only [ofBits, toBits]
  apply BitVec.eq_of_getLsbD_eq
  intro i hi
  simp only [BitVec.getLsbD_extractLsb', BitVec.getLsbD_append]
  by_cases hindex : i < 24
  · simp [hindex]
  · by_cases hserial : i - 24 < 16
    · rw [if_neg hindex, if_pos hserial, decide_eq_true hserial, Bool.true_and]
      exact congrArg bits.getLsbD (by omega)
    · have hisolate : i - 24 - 16 < 19 := by omega
      rw [if_neg hindex, if_neg hserial, decide_eq_true hisolate, Bool.true_and]
      exact congrArg bits.getLsbD (by omega)

theorem toBits_inj {h k : HandleId} : h.toBits = k.toBits ↔ h = k :=
  ⟨fun e => by rw [← ofBits_toBits h, e, ofBits_toBits], fun e => e ▸ rfl⟩

end HandleId

end Promises
