import Promises.Proofs.Value

namespace Promises

/-- What a native value is made from. Integers have 31 bits, and the index of a handle has 24. -/
inductive Content
  | null
  | undefined
  | bool (b : Bool)
  | int (n : Int32) (hn : Value.Short n)
  | string (id : StringId)
  | handle (isolate : IsolateId) (index : Nat) (serial : BitVec 16) (hi : index < 16777216)

/-- All that a value shows of its word. A handle shows the tag of its isolate, of 19 bits, its serial and its
index. -/
structure Views where
  isNull : Bool
  isUndefined : Bool
  isNullish : Bool
  isBool : Bool
  isInt : Bool
  isString : Bool
  isHandle : Bool
  bool? : Option Bool
  int? : Option Int32
  stringId? : Option StringId
  handle? : Option (Nat × Nat × Nat)

namespace Views

/-- The views of a word of no kind. -/
def none : Views where
  isNull := false
  isUndefined := false
  isNullish := false
  isBool := false
  isInt := false
  isString := false
  isHandle := false
  bool? := .none
  int? := .none
  stringId? := .none
  handle? := .none

end Views

namespace Content

/-- The value that is made from a content. -/
def encode : Content → Except Fault Value
  | null => .ok .null
  | undefined => .ok .undefined
  | bool b => .ok (.bool b)
  | int n _ => Value.int n
  | string id => .ok (.string id)
  | handle isolate index serial _ => .handle <$> HandleId.ofIndex isolate index serial

/-- What a value that is made from the content has to show: the content, where it is asked for, and nothing
where another kind of content is. -/
def views : Content → Views
  | null => { Views.none with isNull := true, isNullish := true }
  | undefined => { Views.none with isUndefined := true, isNullish := true }
  | bool b => { Views.none with isBool := true, bool? := some b }
  | int n _ => { Views.none with isInt := true, int? := some n }
  | string id => { Views.none with isString := true, stringId? := some id }
  | handle isolate index serial _ =>
    { Views.none with
      isHandle := true
      handle? := some (isolate.number % 524288, serial.toNat, index) }

/-- Contents of one word: they are the same, up to what a handle does not remember of its isolate. -/
inductive Same : Content → Content → Prop
  | refl (c : Content) : Same c c
  | handle {i j : IsolateId} {index : Nat} {serial : BitVec 16} {hi : index < 16777216}
    (h : i.number % 524288 = j.number % 524288) :
    Same (.handle i index serial hi) (.handle j index serial hi)

theorem same_of_views {c d : Content} (h : c.views = d.views) : c.Same d := by
  cases c with
  | null =>
    cases d with
    | null => exact .refl _
    | _ => cases h
  | undefined =>
    cases d with
    | undefined => exact .refl _
    | _ => cases h
  | bool b =>
    cases d with
    | bool b' =>
      obtain rfl : b = b' := Option.some.inj (congrArg Views.bool? h)
      exact .refl _
    | _ => cases h
  | int n =>
    cases d with
    | int n' =>
      obtain rfl : n = n' := Option.some.inj (congrArg Views.int? h)
      exact .refl _
    | _ => cases h
  | string id =>
    cases d with
    | string id' =>
      obtain rfl : id = id' := Option.some.inj (congrArg Views.stringId? h)
      exact .refl _
    | _ => cases h
  | handle isolate index serial =>
    cases d with
    | handle isolate' index' serial' =>
      have hparts := Option.some.inj (congrArg Views.handle? h)
      obtain ⟨hisolate, hrest⟩ := Prod.mk.inj hparts
      obtain ⟨hserial, rfl⟩ := Prod.mk.inj hrest
      obtain rfl := BitVec.eq_of_toNat_eq hserial
      exact .handle hisolate
    | _ => cases h

end Content

namespace Value

variable {v w : Value} {tag : Tag}

def views (v : Value) : Views where
  isNull := v.isNull
  isUndefined := v.isUndefined
  isNullish := v.isNullish
  isBool := v.isBool
  isInt := v.isInt
  isString := v.isString
  isHandle := v.isHandle
  bool? := v.bool?
  int? := v.int?
  stringId? := v.stringId?
  handle? := v.handle?.map fun h => (h.isolate.toNat, h.serial.toNat, h.index.toNat)

theorem Tag.bits_inj {tag other : Tag} (h : tag.bits = other.bits) : tag = other := by
  cases tag <;> cases other <;> first | rfl | cases h

/-- The unchecked constructor makes the same word of a tag and a payload that fits. -/
theorem special_bits (tag : Tag) (payload : BitVec 59) :
    special (tag.bits.setWidth 8) (payload.setWidth 64) = tagged tag payload := by
  have hword : (tag.bits.setWidth 8).setWidth 64 ||| payload.setWidth 64 <<< 5 =
      payload ++ tag.bits := by
    apply BitVec.eq_of_getLsbD_eq
    intro i hi
    rw [BitVec.getLsbD_or, BitVec.getLsbD_append, BitVec.getLsbD_shiftLeft]
    by_cases hlow : i < 5
    · simp [hlow, hi]
    · have hpayload : i - 5 < 64 := by omega
      simp [hlow, hi, hpayload, BitVec.getLsbD_of_ge tag.bits i (by omega)]
  exact congrArg Value.mk hword

theorem tagged_inj {other : Tag} {p q : BitVec 59} (h : tagged tag p = tagged other q) :
    tag = other ∧ p = q := by
  constructor
  · apply Tag.bits_inj
    rw [← tagBits_tagged tag p, h, tagBits_tagged]
  · rw [← payload_tagged tag p, h, payload_tagged]

/-- The kinds that a word can be of, each with the tag that it has then. -/
def kinds (v : Value) : List (BitVec 5 × Bool) :=
  [(0, v.isInt), (3, v.isBool), (7, v.isNull), (11, v.isUndefined), (15, v.isString),
    (19, v.isHandle)]

theorem tagBits_of_isInt (h : v.isInt = true) : v.tagBits = 0 := by
  have hspecial : v.isSpecial = false := by
    rw [isSpecial, beq_eq_false_iff_ne]
    intro hthree
    have hbit : (v.word.setWidth 2).getLsbD 0 = true := by
      rw [hthree]
      rfl
    rw [isInt, Bool.not_eq_true'] at h
    rw [BitVec.getLsbD_setWidth, h] at hbit
    cases hbit
  rw [tagBits, hspecial]
  rfl

theorem tagBits_of_kind : ∀ kind ∈ v.kinds, kind.2 = true → v.tagBits = kind.1 := by
  have hnull (h : v.isNull = true) : v.tagBits = 7 := by
    rw [eq_of_beq h]
    exact tagBits_tagged .null 0
  have hundefined (h : v.isUndefined = true) : v.tagBits = 11 := by
    rw [eq_of_beq h]
    exact tagBits_tagged .undefined 0
  simp only [kinds, List.forall_mem_cons]
  exact ⟨tagBits_of_isInt, eq_of_beq, hnull, hundefined, eq_of_beq, eq_of_beq, nofun⟩

/-- No two kinds have a tag in common, and so no word is of two kinds. -/
theorem pairwise_kinds (v : Value) : v.kinds.Pairwise fun k l => ¬(k.2 = true ∧ l.2 = true) := by
  have htags : (v.kinds.map (·.1)).Nodup := by
    show [0, 3, 7, 11, 15, 19].Nodup
    decide
  rw [List.Nodup, List.pairwise_map] at htags
  refine htags.imp_of_mem fun hk hl hne => ?_
  rintro ⟨hktrue, hltrue⟩
  exact hne ((tagBits_of_kind _ hk hktrue).symm.trans (tagBits_of_kind _ hl hltrue))

/-- What a word with a tag shows, and what it does not. -/
theorem views_tagged (tag : Tag) (p : BitVec 59) :
    (tagged tag p).views =
      { isNull := decide (tag = .null ∧ p = 0)
        isUndefined := decide (tag = .undefined ∧ p = 0)
        isNullish := decide (tag = .null ∧ p = 0) || decide (tag = .undefined ∧ p = 0)
        isBool := decide (tag = .bool)
        isInt := false
        isString := decide (tag = .string)
        isHandle := decide (tag = .handle)
        bool? := if tag = .bool then some (p != 0) else .none
        int? := .none
        stringId? := if tag = .string then some ⟨⟨p.setWidth 32⟩⟩ else .none
        handle? :=
          if tag = .handle then
            let h := HandleId.ofBits p
            some (h.isolate.toNat, h.serial.toNat, h.index.toNat)
          else .none } := by
  have hsame (other : Tag) :
      (tagged tag p == tagged other 0) = decide (tag = other ∧ p = 0) := by
    rw [Bool.eq_iff_iff, beq_iff_eq, decide_eq_true_iff]
    exact ⟨tagged_inj, fun h => by rw [h.1, h.2]⟩
  have htag (other : Tag) : ((tagged tag p).tagBits == other.bits) = decide (tag = other) := by
    rw [tagBits_tagged, Bool.eq_iff_iff, beq_iff_eq, decide_eq_true_iff]
    exact ⟨Tag.bits_inj, congrArg Tag.bits⟩
  simp only [views, isNullish, isNull, isUndefined, null, undefined, isBool, isString, isHandle, bool?,
    stringId?, handle?, hsame, htag, isInt_tagged, int?_tagged, payload_tagged, decide_eq_true_eq]
  cases tag <;> rfl

/-- What the word of an integer shows, of whatever size. -/
theorem views_ofInt32 (n : Int32) :
    (ofInt32 n).views = { Views.none with isInt := true, int? := some n } := by
  have htag : (ofInt32 n).tagBits = 0 := tagBits_of_isInt (isInt_ofInt32 n)
  have hother (tag : Tag) (p : BitVec 59) : (ofInt32 n == tagged tag p) = false := by
    rw [beq_eq_false_iff_ne]
    intro hsame
    rw [hsame, tagBits_tagged] at htag
    exact tag.bits_ne_zero htag
  have hnone (tag : Tag) : ((0 : BitVec 5) == tag.bits) = false :=
    beq_eq_false_iff_ne.2 tag.bits_ne_zero.symm
  simp only [views, isNullish, isNull, isUndefined, null, undefined, isBool, isString, isHandle, bool?,
    stringId?, handle?, htag, hother, hnone, isInt_ofInt32, int?_ofInt32]
  rfl

end Value

namespace Content

open Value

/-- The index and the serial of a handle come back in full, and the number of its isolate up to its low 19
bits. -/
theorem ofIndex_parts (isolate : IsolateId) {index : Nat} (serial : BitVec 16) (hi : index < 16777216) :
    ∃ h, HandleId.ofIndex isolate index serial = .ok h ∧ h.isolate = isolate.tag ∧ h.serial = serial ∧
      h.index.toNat = index := by
  have hbound : index < HandleId.capacity := hi
  refine ⟨_, if_pos hbound, rfl, rfl, ?_⟩
  exact Nat.mod_eq_of_lt hi

/-- Each content has its word, and the word shows that content and nothing else. -/
theorem encode_views (c : Content) : ∃ v, c.encode = .ok v ∧ v.views = c.views := by
  cases c with
  | null => exact ⟨_, rfl, views_tagged .null 0⟩
  | undefined => exact ⟨_, rfl, views_tagged .undefined 0⟩
  | bool b =>
    refine ⟨_, rfl, (views_tagged .bool _).trans ?_⟩
    cases b <;> rfl
  | int n hn =>
    exact ⟨_, if_pos (fits_iff_short.2 hn), views_ofInt32 n⟩
  | string id =>
    refine ⟨_, rfl, (views_tagged .string _).trans ?_⟩
    simp [views, Views.none]
  | handle isolate index serial hi =>
    obtain ⟨h, hh, hisolate, hserial, hindex⟩ := ofIndex_parts isolate serial hi
    refine ⟨.handle h, ?_, (views_tagged .handle _).trans ?_⟩
    · rw [encode, hh]
      rfl
    · have htag : h.isolate.toNat = isolate.number % 524288 := by
        rw [hisolate]
        exact BitVec.toNat_ofNat ..
      simp [views, Views.none, htag, hserial, hindex]

/-- Two contents have one word exactly when they are the same, up to what a handle does not remember. -/
theorem encode_eq_iff {c d : Content} {v w : Value} (hv : c.encode = .ok v) (hw : d.encode = .ok w) :
    v = w ↔ c.Same d := by
  obtain ⟨v', hv', hviews⟩ := c.encode_views
  obtain ⟨w', hw', hwviews⟩ := d.encode_views
  obtain rfl := Except.ok.inj (hv.symm.trans hv')
  obtain rfl := Except.ok.inj (hw.symm.trans hw')
  constructor
  · rintro rfl
    exact same_of_views (hviews.symm.trans hwviews)
  · intro hsame
    cases hsame with
    | refl => exact Except.ok.inj (hv.symm.trans hw)
    | @handle i j index serial hi hmod =>
      have htag : i.tag = j.tag := BitVec.eq_of_toNat_eq hmod
      have hencode : (handle i index serial hi).encode = (handle j index serial hi).encode := by
        rw [encode, encode, HandleId.ofIndex, HandleId.ofIndex, htag]
      exact Except.ok.inj (hv.symm.trans (hencode.trans hw))

end Content

/-- Words are told apart by what they are made from. Each content has a word, which shows that content in
full and nothing of another kind; two contents have the same word only if they are the same, up to all but the
low 19 bits of the number of an isolate. Of any word at all no two kinds hold. A word that names a handle is
the word of that handle, as the name takes up all 59 bits of the payload, and the payload all that the tag
leaves; and an integer of any size can be read from its word. -/
theorem encoding_unambiguous :
    (∀ c : Content, ∃ v, c.encode = .ok v ∧ v.views = c.views) ∧
      (∀ (c d : Content) (v w : Value), c.encode = .ok v → d.encode = .ok w → (v = w ↔ c.Same d)) ∧
      (∀ v : Value, [v.isInt, v.isBool, v.isNull, v.isUndefined, v.isString, v.isHandle].Pairwise
        fun p q => ¬(p = true ∧ q = true)) ∧
      (∀ (v : Value) (h : HandleId), v.handle? = some h → Value.handle h = v) ∧
      (∀ (tag : Value.Tag) (payload : BitVec 59),
        Value.special (tag.bits.setWidth 8) (payload.setWidth 64) = Value.tagged tag payload) ∧
      (∀ bits : BitVec 59, (HandleId.ofBits bits).toBits = bits) ∧
      (∀ h : HandleId, HandleId.ofBits h.toBits = h) ∧
      ∀ n : Int32, (Value.ofInt32 n).intPart = n := by
  refine ⟨Content.encode_views, fun c d v w hv hw => Content.encode_eq_iff hv hw, fun v => ?_,
    fun v h => Value.handle_of_handle?, Value.special_bits, HandleId.toBits_ofBits,
    HandleId.ofBits_toBits, Value.intPart_ofInt32⟩
  show (v.kinds.map (·.2)).Pairwise fun p q => ¬(p = true ∧ q = true)
  exact List.pairwise_map.2 v.pairwise_kinds

/-- Two isolates whose numbers differ by a bit that no handle holds share the widest of all handles. -/
theorem encoding_unambiguous_widest : ∃ v w,
    (Content.handle ⟨1048575⟩ 16777215 0xffff (by decide)).encode = .ok v ∧
      (Content.handle ⟨524287⟩ 16777215 0xffff (by decide)).encode = .ok w ∧ v = w ∧
      v.word = 0xfffffffffffffff3 ∧
      v.views.handle? = some (524287, 65535, 16777215) ∧ v.views.stringId? = .none := by
  obtain ⟨hshows, hsame, -⟩ := encoding_unambiguous
  obtain ⟨v, hv, hviews⟩ := hshows (.handle ⟨1048575⟩ 16777215 0xffff (by decide))
  obtain ⟨w, hw, -⟩ := hshows (.handle ⟨524287⟩ 16777215 0xffff (by decide))
  have hword : v.word = 0xfffffffffffffff3 := by
    obtain rfl := Except.ok.inj hv
    rfl
  refine ⟨v, w, hv, hw, (hsame _ _ v w hv hw).2 (.handle rfl), hword, ?_, ?_⟩
  · rw [hviews]
    rfl
  · rw [hviews]
    rfl

end Promises
