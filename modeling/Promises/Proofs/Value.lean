import Promises.Value

namespace Promises

namespace Value

variable {v : Value} {tag : Tag}

theorem payload_tagged (tag : Tag) (payload : BitVec 59) : (tagged tag payload).payload = payload := by
  apply BitVec.eq_of_getLsbD_eq
  intro i hi
  have hhigh : ¬ 5 + i < 5 := by omega
  have hindex : 5 + i - 5 = i := by omega
  rw [Value.payload, tagged, BitVec.getLsbD_extractLsb', BitVec.getLsbD_append, if_neg hhigh, hindex]
  simp [hi]

theorem setWidth_tagged (tag : Tag) (payload : BitVec 59) {n : Nat} (hn : n ≤ 5) :
    (tagged tag payload).word.setWidth n = tag.bits.setWidth n := by
  apply BitVec.eq_of_getLsbD_eq
  intro i hi
  have hlow : i < 5 := by omega
  rw [BitVec.getLsbD_setWidth, BitVec.getLsbD_setWidth, tagged, BitVec.getLsbD_append, if_pos hlow]

theorem tagBits_tagged (tag : Tag) (payload : BitVec 59) : (tagged tag payload).tagBits = tag.bits := by
  have hspecial : (tagged tag payload).isSpecial = true := by
    rw [isSpecial, setWidth_tagged tag payload (by decide)]
    cases tag <;> rfl
  rw [tagBits, if_pos hspecial, setWidth_tagged tag payload (Nat.le_refl 5), BitVec.setWidth_eq]

theorem Tag.bits_ne_zero (tag : Tag) : tag.bits ≠ 0 := by
  cases tag <;> decide

/-- A word with a tag is that of the tag and its payload. -/
theorem tagged_payload (h : v.tagBits = tag.bits) : tagged tag v.payload = v := by
  rw [tagBits] at h
  split at h
  case isFalse => exact absurd h.symm tag.bits_ne_zero
  have hword : v.payload ++ tag.bits = v.word := by
    apply BitVec.eq_of_getLsbD_eq
    intro i hi
    rw [BitVec.getLsbD_append]
    by_cases hlow : i < 5
    · rw [if_pos hlow, ← h, BitVec.getLsbD_setWidth, decide_eq_true hlow, Bool.true_and]
    · have hpayload : i - 5 < 59 := by omega
      have hback : 5 + (i - 5) = i := by omega
      rw [if_neg hlow, payload, BitVec.getLsbD_extractLsb', decide_eq_true hpayload, Bool.true_and,
        hback]
  exact congrArg Value.mk hword

theorem handle?_handle (h : HandleId) : (handle h).handle? = some h := by
  have hhandle : (handle h).isHandle = true := by
    rw [isHandle, handle, tagBits_tagged]
    rfl
  rw [handle?, if_pos hhandle, handle, payload_tagged, HandleId.ofBits_toBits]

theorem handle?_tagged (tag : Tag) (ht : tag ≠ .handle) (payload : BitVec 59) :
    (tagged tag payload).handle? = none := by
  have hother : (tagged tag payload).isHandle = false := by
    rw [isHandle, tagBits_tagged]
    cases tag with
    | handle => exact absurd rfl ht
    | _ => rfl
  rw [handle?, hother]
  rfl

theorem handle_of_handle? {h : HandleId} (hv : v.handle? = some h) : handle h = v := by
  unfold handle? at hv
  split at hv
  · rename_i hhandle
    obtain rfl := Option.some.inj hv
    rw [handle, HandleId.toBits_ofBits]
    exact tagged_payload (eq_of_beq hhandle)
  · cases hv

theorem bool?_bool (b : Bool) : (bool b).bool? = some b := by
  have hbool : (bool b).isBool = true := by
    rw [isBool, bool, tagBits_tagged]
    rfl
  rw [bool?, if_pos hbool, bool, payload_tagged]
  cases b <;> rfl

theorem bool?_tagged (tag : Tag) (ht : tag ≠ .bool) (payload : BitVec 59) :
    (tagged tag payload).bool? = none := by
  have hother : (tagged tag payload).isBool = false := by
    rw [isBool, tagBits_tagged]
    cases tag with
    | bool => exact absurd rfl ht
    | _ => rfl
  rw [bool?, hother]
  rfl

theorem isNull_tagged (tag : Tag) (ht : tag ≠ .null) (payload : BitVec 59) :
    (tagged tag payload).isNull = false := by
  rw [isNull, beq_eq_false_iff_ne]
  intro hsame
  have hbits := congrArg tagBits hsame
  rw [null, tagBits_tagged, tagBits_tagged] at hbits
  cases tag with
  | null => exact ht rfl
  | _ => cases hbits

theorem stringId?_string (id : StringId) : (string id).stringId? = some id := by
  have hstring : (string id).isString = true := by
    rw [isString, string, tagBits_tagged]
    rfl
  rw [stringId?, if_pos hstring, string, payload_tagged]
  simp

theorem stringId?_tagged (tag : Tag) (ht : tag ≠ .string) (payload : BitVec 59) :
    (tagged tag payload).stringId? = none := by
  have hother : (tagged tag payload).isString = false := by
    rw [isString, tagBits_tagged]
    cases tag with
    | string => exact absurd rfl ht
    | _ => rfl
  rw [stringId?, hother]
  rfl

theorem tagged_of_stringId? {id : StringId} (hv : v.stringId? = some id) :
    tagged .string v.payload = v := by
  unfold stringId? at hv
  split at hv
  · rename_i hstring
    exact tagged_payload (eq_of_beq hstring)
  · cases hv

theorem fits_iff {n : Int32} : fits n = true ↔ minInt.toInt ≤ n.toInt ∧ n.toInt ≤ maxInt.toInt := by
  simp only [fits, Bool.and_eq_true, decide_eq_true_eq, Int32.le_iff_toInt_le]

/-- The integers of 31 bits. -/
def Short (n : Int32) : Prop := -1073741824 ≤ n.toInt ∧ n.toInt ≤ 1073741823

instance (n : Int32) : Decidable (Short n) :=
  inferInstanceAs (Decidable (-1073741824 ≤ n.toInt ∧ n.toInt ≤ 1073741823))

theorem fits_iff_short {n : Int32} : fits n = true ↔ Short n := fits_iff

theorem isInt_tagged (tag : Tag) (payload : BitVec 59) : (tagged tag payload).isInt = false := by
  have hbit : (tagged tag payload).word.getLsbD 0 = tag.bits.getLsbD 0 := by
    rw [tagged, BitVec.getLsbD_append]
    rfl
  rw [isInt, hbit]
  cases tag <;> rfl

theorem isInt_ofInt32 (n : Int32) : (ofInt32 n).isInt = true := by
  simp [isInt, ofInt32]

theorem isSpecial_ofInt32 (n : Int32) : (ofInt32 n).isSpecial = false := by
  have hbit : ((ofInt32 n).word.setWidth 2).getLsbD 0 = false := by
    simp [ofInt32]
  rw [isSpecial, beq_eq_false_iff_ne]
  intro hthree
  rw [hthree] at hbit
  cases hbit

theorem handle?_ofInt32 (n : Int32) : (ofInt32 n).handle? = none := by
  rw [handle?, isHandle, tagBits, isSpecial_ofInt32]
  rfl

/-- The word of an integer holds it in full. -/
theorem intPart_ofInt32 (n : Int32) : (ofInt32 n).intPart = n := by
  have hbits : ((n.toBitVec.signExtend 64 <<< 1).sshiftRight 1).setWidth 32 = n.toBitVec := by
    apply BitVec.eq_of_getLsbD_eq
    intro i hi
    have hlow : 1 + i < 64 := by omega
    have hback : 1 + i - 1 = i := by omega
    have hin : ¬ 64 ≤ i := by omega
    have hwide : i < 64 := by omega
    rw [BitVec.getLsbD_setWidth, BitVec.getLsbD_sshiftRight, BitVec.getLsbD_shiftLeft,
      BitVec.getLsbD_signExtend]
    simp [hi, hlow, hback, hin, hwide]
  have hpart : (ofInt32 n).intPart =
      ⟨⟨((n.toBitVec.signExtend 64 <<< 1).sshiftRight 1).setWidth 32⟩⟩ := rfl
  exact hpart.trans (congrArg (fun word => (⟨⟨word⟩⟩ : Int32)) hbits)

theorem int?_ofInt32 (n : Int32) : (ofInt32 n).int? = some n := by
  rw [int?, isInt_ofInt32, if_pos rfl, intPart_ofInt32]

theorem int?_tagged (tag : Tag) (payload : BitVec 59) : (tagged tag payload).int? = none := by
  rw [int?, isInt_tagged]
  rfl

theorem stringId?_ofInt32 (n : Int32) : (ofInt32 n).stringId? = none := by
  rw [stringId?, isString, tagBits, isSpecial_ofInt32]
  rfl

end Value

end Promises
