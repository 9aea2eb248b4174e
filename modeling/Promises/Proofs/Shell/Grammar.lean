import Promises.Proofs.Shell.Form
import Promises.Proofs.Text.Numeral
import Promises.Proofs.Value
import Promises.Shell.Basic

namespace Promises.Shell

open Text

/-- Whether a text is an integer: a numeral, with a minus sign before those below zero. A `strict` text has
no leading zeros, and no sign at zero. -/
def Integer (strict : Prop) (n : Int32) (cs : List Char) : Prop :=
  (0 ≤ n.toInt ∧ Numeral strict n.toInt.natAbs cs) ∨
    ∃ digits, cs = '-' :: digits ∧ n.toInt ≤ 0 ∧ (strict → n.toInt ≠ 0) ∧
      Numeral strict n.toInt.natAbs digits

/-- How an operand is written. -/
inductive Operand.Written (strict : Prop) : Operand → List Char → Prop
  | int {n : Int32} {cs : List Char} (h : Integer strict n cs) : Written strict (.int n) cs
  | bool (b : Bool) : Written strict (.bool b) (toString b).toList
  | null : Written strict .null "null".toList
  | undefined : Written strict .undefined "undefined".toList
  | text (s : String) : Written strict (.text s) ('"' :: (s.toList ++ ['"']))
  | slot {slot : Nat} {digits : List Char} (h : Numeral strict slot digits) :
    Written strict (.slot slot) ('$' :: digits)

/-- The tokens of an operation. -/
inductive Op.Tokens (strict : Prop) : Op → List (List Char) → Prop
  | add {n : Int32} {cs : List Char} (h : Integer strict n cs) :
    Tokens strict (.add n) ["add".toList, cs]
  | mul {n : Int32} {cs : List Char} (h : Integer strict n cs) :
    Tokens strict (.mul n) ["mul".toList, cs]
  | id : Tokens strict .id ["id".toList]
  | throw : Tokens strict .throw ["throw".toList]

/-- The tokens of a command. -/
inductive Command.Tokens (strict : Prop) : Command → List (List Char) → Prop
  | new : Tokens strict .new ["new".toList]
  | run : Tokens strict .run ["run".toList]
  | gc : Tokens strict .gc ["gc".toList]
  | stats : Tokens strict .stats ["stats".toList]
  | terminate : Tokens strict .terminate ["terminate".toList]
  | resume : Tokens strict .resume ["resume".toList]
  | help : Tokens strict .help ["help".toList]
  | settle {slot : Nat} {operand : Operand} {digits cs : List Char} (kind : ReactionKind)
    (hs : Numeral strict slot digits) (ho : operand.Written strict cs) :
    Tokens strict (.settle kind slot operand) [(settleName kind).toList, '$' :: digits, cs]
  | state {slot : Nat} {digits : List Char} (hs : Numeral strict slot digits) :
    Tokens strict (.state slot) ["state".toList, '$' :: digits]
  | result {slot : Nat} {digits : List Char} (hs : Numeral strict slot digits) :
    Tokens strict (.result slot) ["result".toList, '$' :: digits]
  | promise {slot : Nat} {digits : List Char} (hs : Numeral strict slot digits) :
    Tokens strict (.promise slot) ["promise".toList, '$' :: digits]
  | attach {slot : Nat} {op : Op} {digits : List Char} {tokens : List (List Char)} (kind : ReactionKind)
    (hs : Numeral strict slot digits) (ho : op.Tokens strict tokens) :
    Tokens strict (.attach kind slot op) ((attachName kind).toList :: ('$' :: digits) :: tokens)

/-- Whether a text writes a command, with blank characters between the tokens. -/
def Command.Written (strict : Prop) (command : Command) (cs : List Char) : Prop :=
  ∃ tokens, command.Tokens strict tokens ∧ Joined tokens cs

/-- Whether a line renders a command: it writes the command, perhaps with blank characters around. -/
def Command.Renders (strict : Prop) (command : Command) (line : List Char) : Prop :=
  ∃ before cs after, (∀ c ∈ before, isBlank c = true) ∧ (∀ c ∈ after, isBlank c = true) ∧
    line = before ++ cs ++ after ∧ command.Written strict cs

/-- Whether a slot is a word of the machine. -/
def SlotFits (slot : Nat) : Prop := slot < UInt64.size

/-- Whether an operand has an integer of 31 bits at most, a text without a line feed, a slot that fits. -/
def Operand.Fits : Operand → Prop
  | int n => Value.fits n = true
  | text s => '\n' ∉ s.toList
  | slot n => SlotFits n
  | bool _ | null | undefined => True

def Op.Fits : Op → Prop
  | add n | mul n => Value.fits n = true
  | id | throw => True

def Command.Fits : Command → Prop
  | settle _ slot operand => SlotFits slot ∧ operand.Fits
  | state slot | result slot | promise slot => SlotFits slot
  | attach _ slot op => SlotFits slot ∧ op.Fits
  | new | run | gc | stats | terminate | resume | help => True

variable {strict : Prop} {cs digits : List Char} {slot : Nat} {n : Int32}

theorem slotNumber?_eq_some_iff :
    slotNumber? digits = some slot ↔ Numeral False slot digits ∧ SlotFits slot := by
  rw [slotNumber?, Option.filter_eq_some_iff, numeral?_eq_some_iff, decide_eq_true_eq, SlotFits]

theorem Integer.loose (h : Integer strict n cs) : Integer False n cs := by
  rcases h with ⟨hn, h⟩ | ⟨digits, hcs, hn, -, h⟩
  · exact Or.inl ⟨hn, h.loose⟩
  · exact Or.inr ⟨digits, hcs, hn, False.elim, h.loose⟩

theorem isInteger_of_integer (h : Integer strict n cs) : isInteger cs = true := by
  rcases h with ⟨-, h⟩ | ⟨digits, rfl, -, -, h⟩
  · exact isInteger_iff.2 ⟨cs, h.digits, Or.inl rfl⟩
  · exact isInteger_iff.2 ⟨digits, h.digits, Or.inr rfl⟩

theorem not_numeral_minus {m : Nat} : ¬Numeral strict m ('-' :: digits) := by
  intro h
  have hminus := h.digits.2 '-' List.mem_cons_self
  rw [isDigit_minus] at hminus
  cases hminus

theorem wideInt?_eq_some_iff {m : Int} :
    wideInt? cs = some m ↔
      ((0 ≤ m ∧ Numeral False m.natAbs cs) ∨
        ∃ digits, cs = '-' :: digits ∧ m ≤ 0 ∧ Numeral False m.natAbs digits) ∧
      Int64.minValue.toInt ≤ m ∧ m ≤ Int64.maxValue.toInt := by
  -- without its sign, an integer is read as a numeral
  have hnumber (ds : List Char) (k : Int) :
      (do let a ← numeral? 10 ds; pure (a : Int)) = some k ↔ 0 ≤ k ∧ Numeral False k.natAbs ds := by
    simp only [Option.bind_eq_bind, Option.bind_eq_some_iff, numeral?_eq_some_iff, Option.pure_def,
      Option.some_inj]
    constructor
    · rintro ⟨a, ha, rfl⟩
      exact ⟨Int.natCast_nonneg a, ha⟩
    · rintro ⟨hk, h⟩
      exact ⟨k.natAbs, h, Int.natAbs_of_nonneg hk⟩
  unfold wideInt?
  rw [Option.filter_eq_some_iff, Bool.and_eq_true, decide_eq_true_eq, decide_eq_true_eq]
  refine and_congr_left fun _ => ?_
  split
  · rename_i digits
    simp only [Option.map_eq_some_iff, hnumber]
    constructor
    · rintro ⟨k, ⟨hk, h⟩, rfl⟩
      exact Or.inr ⟨digits, rfl, by omega, by rwa [Int.natAbs_neg]⟩
    · rintro (⟨-, h⟩ | ⟨digits', he, hm, h⟩)
      · exact absurd h not_numeral_minus
      · obtain rfl := (List.cons.inj he).2
        exact ⟨-m, ⟨by omega, by rwa [Int.natAbs_neg]⟩, Int.neg_neg m⟩
  · rename_i hnot
    simp only [Option.map_eq_some_iff, hnumber, exists_eq_right]
    constructor
    · exact Or.inl
    · rintro (h | ⟨digits, rfl, -⟩)
      · exact h
      · exact absurd rfl (hnot digits)

/-- The integers that are read are those that fit a value. -/
theorem smallInt_eq_ok_iff : smallInt cs = .ok n ↔ Integer False n cs ∧ Value.fits n = true := by
  have hmin : Value.minInt.toInt = -1073741824 := by decide
  have hmax : Value.maxInt.toInt = 1073741823 := by decide
  have hwide (m : Int) (hm : Value.minInt.toInt ≤ m ∧ m ≤ Value.maxInt.toInt) :
      Int64.minValue.toInt ≤ m ∧ m ≤ Int64.maxValue.toInt := by
    have : Int64.minValue.toInt = -9223372036854775808 := by decide
    have : Int64.maxValue.toInt = 9223372036854775807 := by decide
    omega
  rw [Value.fits_iff]
  constructor
  · intro h
    unfold smallInt at h
    split at h
    · rename_i m hm
      split at h
      · rename_i hrange
        obtain rfl := Except.ok.inj h
        have hn : (Int32.ofInt m).toInt = m := Int32.toInt_ofInt_of_le (by omega) (by omega)
        obtain ⟨hread, -⟩ := wideInt?_eq_some_iff.1 hm
        rw [Integer, hn]
        exact ⟨hread.imp_right fun ⟨digits, hcs, hle, h⟩ => ⟨digits, hcs, hle, False.elim, h⟩, hrange⟩
      · cases h
    · cases h
  · rintro ⟨h, hrange⟩
    have hread : wideInt? cs = some n.toInt := by
      refine wideInt?_eq_some_iff.2 ⟨?_, hwide _ hrange⟩
      exact h.imp_right fun ⟨digits, hcs, hle, _, h⟩ => ⟨digits, hcs, hle, h⟩
    rw [smallInt, hread]
    simp only [if_pos hrange, Int32.ofInt_toInt]

/-- The operands that are words. -/
def constants : List (String × Operand) :=
  [("true", .bool true), ("false", .bool false), ("null", .null), ("undefined", .undefined)]

theorem operand_eq (cs : List Char) :
    operand cs =
      match constants.lookup (String.ofList cs) with
      | some operand => .ok operand
      | none =>
        if isInteger cs then
          (smallInt cs).map .int
        else
          match quotedText? cs with
          | some text => .ok (.text (String.ofList text))
          | none =>
            match slotDigits? cs with
            | some (digits, []) =>
              match slotNumber? digits with
              | some slot => .ok (.slot slot)
              | none => .error (.malformed (String.ofList cs))
            | _ => .error (.malformed (String.ofList cs)) := rfl

theorem quotedText?_eq_some_iff {text : List Char} :
    quotedText? cs = some text ↔ cs = '"' :: (text ++ ['"']) ∧ '\n' ∉ text := by
  constructor
  · intro h
    unfold quotedText? at h
    split at h
    · rename_i rest
      split at h
      · rename_i hlast
        split at h
        · cases h
        · rename_i hfeed
          obtain rfl := Option.some.inj h
          refine ⟨congrArg _ (List.dropLast_append_getLast? _ hlast).symm, fun hm => hfeed ?_⟩
          exact List.contains_iff_mem.2 (List.dropLast_subset _ hm)
      · cases h
    · cases h
  · rintro ⟨rfl, hfeed⟩
    have hnone : (text ++ ['"']).contains '\n' = false := by simpa using hfeed
    simp only [quotedText?, List.getLast?_concat, hnone, List.dropLast_concat]
    rfl

/-- Texts that start like an integer, a quoted text or a slot are no words. -/
theorem lookup_constants_eq_none {c : Char} (hc : isDigit c = true ∨ c = '-' ∨ c = '"' ∨ c = '$')
    (cs : List Char) : constants.lookup (String.ofList (c :: cs)) = none := by
  have hfirst : ∀ entry ∈ constants, entry.1.toList.head?.map (fun d =>
      decide (isDigit d = true ∨ d = '-' ∨ d = '"' ∨ d = '$')) = some false := by
    decide
  refine List.lookup_eq_none_iff.2 fun entry hm => ?_
  obtain ⟨d, hd, hnot⟩ := Option.map_eq_some_iff.1 (hfirst entry hm)
  rw [bne_iff_ne]
  intro he
  rw [← he, String.toList_ofList] at hd
  obtain rfl := Option.some.inj hd
  exact of_decide_eq_false hnot hc

theorem exists_cons_of_isInteger (h : isInteger cs = true) :
    ∃ c rest, cs = c :: rest ∧ (isDigit c = true ∨ c = '-') := by
  obtain ⟨ds, ⟨hne, hd⟩, rfl | rfl⟩ := isInteger_iff.1 h
  · cases cs with
    | nil => exact absurd rfl hne
    | cons c cs => exact ⟨c, cs, rfl, Or.inl (hd c List.mem_cons_self)⟩
  · exact ⟨'-', ds, rfl, Or.inr rfl⟩

theorem isInteger_cons_eq_false (c : Char) (hd : isDigit c = false) (hm : c ≠ '-') (cs : List Char) :
    isInteger (c :: cs) = false := by
  rw [Bool.eq_false_iff]
  intro h
  obtain ⟨d, rest, he, hint | hint⟩ := exists_cons_of_isInteger h
  · rw [← (List.cons.inj he).1, hd] at hint
    cases hint
  · exact hm ((List.cons.inj he).1.trans hint)

/-- The operands that are read are those that fit. -/
theorem operand_eq_ok_iff {o : Operand} : operand cs = .ok o ↔ o.Written False cs ∧ o.Fits := by
  have hn : (constants.map Prod.fst).Nodup := by decide
  rw [operand_eq]
  constructor
  · -- the shapes are tried one after the other
    intro h
    split at h
    · rename_i constant hl
      obtain rfl := Except.ok.inj h
      have hm := (lookup_eq_some_iff_mem hn).1 hl
      obtain ⟨word, hword⟩ : ∃ word, word = String.ofList cs := ⟨_, rfl⟩
      have hcs : cs = word.toList := by rw [hword, String.toList_ofList]
      rw [← hword] at hm
      simp only [constants, List.mem_cons, List.not_mem_nil, or_false, Prod.mk.injEq] at hm
      rcases hm with ⟨rfl, rfl⟩ | ⟨rfl, rfl⟩ | ⟨rfl, rfl⟩ | ⟨rfl, rfl⟩
      · exact ⟨hcs ▸ .bool true, trivial⟩
      · exact ⟨hcs ▸ .bool false, trivial⟩
      · exact ⟨hcs ▸ .null, trivial⟩
      · exact ⟨hcs ▸ .undefined, trivial⟩
    · split at h
      · cases hs : smallInt cs with
        | error failure =>
          rw [hs] at h
          cases h
        | ok n =>
          rw [hs] at h
          obtain rfl := Except.ok.inj h
          obtain ⟨hread, hfits⟩ := smallInt_eq_ok_iff.1 hs
          exact ⟨.int hread, hfits⟩
      · split at h
        · rename_i text ht
          obtain rfl := Except.ok.inj h
          obtain ⟨rfl, hfeed⟩ := quotedText?_eq_some_iff.1 ht
          have hwritten : Operand.Written False _ _ := .text (String.ofList text)
          rw [String.toList_ofList] at hwritten
          exact ⟨hwritten, by rwa [Operand.Fits, String.toList_ofList]⟩
        · split at h
          · rename_i digits hd
            split at h
            · rename_i slot hs
              obtain rfl := Except.ok.inj h
              obtain ⟨hnumeral, hfits⟩ := slotNumber?_eq_some_iff.1 hs
              obtain ⟨-, -, rfl⟩ := slotDigits?_eq_some_iff.1 hd
              rw [List.append_nil]
              exact ⟨.slot hnumeral, hfits⟩
            · cases h
          · cases h
  · rintro ⟨hw, hf⟩
    cases hw with
    | @int n _ h =>
      have hint := isInteger_of_integer h
      have hread := smallInt_eq_ok_iff.2 ⟨h, hf⟩
      obtain ⟨c, rest, rfl, hc⟩ := exists_cons_of_isInteger hint
      -- no constant begins as an integer does, nor do the shapes below
      have hl := lookup_constants_eq_none (hc.imp_right Or.inl) rest
      simp only [hl, hint, if_true, hread]
      rfl
    | bool b => cases b <;> rfl
    | null => rfl
    | undefined => rfl
    | text s =>
      have hquoted := quotedText?_eq_some_iff.2 ⟨rfl, hf⟩
      have hl := lookup_constants_eq_none (Or.inr (Or.inr (Or.inl rfl))) (s.toList ++ ['"'])
      have hint := isInteger_cons_eq_false '"' (by decide) (by decide) (s.toList ++ ['"'])
      simp only [hl, hint, Bool.false_eq_true, if_false, hquoted, String.ofList_toList]
    | @slot slot digits h =>
      have hnone : quotedText? ('$' :: digits) = none := rfl
      have hdigits : slotDigits? ('$' :: digits) = some (digits, []) :=
        slotDigits?_eq_some_iff.2 ⟨h.digits, stops_nil, by rw [List.append_nil]⟩
      have hslot := slotNumber?_eq_some_iff.2 ⟨h, hf⟩
      have hl := lookup_constants_eq_none (Or.inr (Or.inr (Or.inr rfl))) digits
      have hint := isInteger_cons_eq_false '$' (by decide) (by decide) digits
      simp only [hl, hint, Bool.false_eq_true, if_false, hnone, hdigits, hslot]

/-- The commands that come of a form, which is one at most. -/
inductive Form.Means : Form → Command → Prop
  | word (command : Command) : Means (.word command) command
  | settle {kind : ReactionKind} {digits text : List Char} {slot : Nat} {o : Operand}
    (hs : slotNumber? digits = some slot) (ho : operand text = .ok o) :
    Means (.settle kind digits text) (.settle kind slot o)
  | query {query : Query} {digits : List Char} {slot : Nat} (hs : slotNumber? digits = some slot) :
    Means (.query query digits) (query.command slot)
  | attach {kind : ReactionKind} {digits : List Char} {slot : Nat} {name : OpName}
    {argument : Option (List Char)} {n : Option Int32} {op : Op}
    (hs : slotNumber? digits = some slot) (ha : argument.mapM smallInt = .ok n)
    (ho : name.op? n = some op) : Means (.attach kind digits name argument) (.attach kind slot op)

theorem except_bind_eq_ok_iff {ε α β : Type} {x : Except ε α} {f : α → Except ε β} {b : β} :
    (x >>= f) = .ok b ↔ ∃ a, x = .ok a ∧ f a = .ok b := by
  cases x with
  | error e => exact ⟨nofun, fun ⟨_, h, _⟩ => nomatch h⟩
  | ok a => exact ⟨fun h => ⟨a, rfl, h⟩, fun ⟨_, he, h⟩ => Except.ok.inj he ▸ h⟩

/-- A part of a line that cannot be read fails the line. -/
theorem part_eq_ok_iff {α : Type} {part : Option α} {failure : Failure} {v : α} :
    (match part with
      | some a => Except.ok a
      | none => .error failure) = .ok v ↔ part = some v := by
  cases part <;> simp

theorem part_eq_error {α : Type} {part : Option α} {failure other : Failure}
    (h : (match part with
      | some a => Except.ok a
      | none => .error failure) = .error other) : other = failure := by
  cases part with
  | some a => cases h
  | none => exact (Except.error.inj h).symm

theorem parse_eq_ok_iff_means {line : List Char} {command : Command} :
    parse line = .ok command ↔ ∃ form, form? line = some form ∧ form.Means command := by
  unfold parse
  cases hform : form? line with
  | none => simp
  | some form =>
    simp only [Option.some_inj, exists_eq_left']
    cases form with
    | word word =>
      rw [Except.ok.injEq]
      constructor
      · rintro rfl
        exact .word word
      · rintro ⟨⟩
        rfl
    | settle kind digits text =>
      simp only [except_bind_eq_ok_iff]
      constructor
      · rintro ⟨slot, hs, o, ho, h⟩
        obtain rfl := Except.ok.inj h
        exact .settle (part_eq_ok_iff.1 hs) ho
      · intro h
        cases h with
        | settle hs ho => exact ⟨_, part_eq_ok_iff.2 hs, _, ho, rfl⟩
    | query query digits =>
      simp only [except_bind_eq_ok_iff]
      constructor
      · rintro ⟨slot, hs, h⟩
        obtain rfl := Except.ok.inj h
        exact .query (part_eq_ok_iff.1 hs)
      · intro h
        cases h with
        | query hs => exact ⟨_, part_eq_ok_iff.2 hs, rfl⟩
    | attach kind digits name argument =>
      simp only [except_bind_eq_ok_iff]
      constructor
      · rintro ⟨slot, hs, n, ha, op, ho, h⟩
        obtain rfl := Except.ok.inj h
        exact .attach (part_eq_ok_iff.1 hs) ha (part_eq_ok_iff.1 ho)
      · intro h
        cases h with
        | attach hs ha ho => exact ⟨_, part_eq_ok_iff.2 hs, _, ha, _, part_eq_ok_iff.2 ho, rfl⟩

theorem mem_settleWords_iff {word : String} {kind : ReactionKind} :
    (word, kind) ∈ settleWords ↔ word = settleName kind := by
  cases kind <;> simp [settleWords, settleName]

theorem mem_attachWords_iff {word : String} {kind : ReactionKind} :
    (word, kind) ∈ attachWords ↔ word = attachName kind := by
  cases kind <;> simp [attachWords, attachName]

theorem Integer.solid (h : Integer strict n cs) : Solid cs := by
  rcases h with ⟨-, h⟩ | ⟨digits, rfl, -, -, h⟩
  · exact h.digits.solid
  · exact h.digits.solid.cons (by decide)

theorem Operand.Written.solid {o : Operand} (h : o.Written strict cs) : Solid cs := by
  cases h with
  | int h => exact h.solid
  | bool b => cases b <;> exact solid_of_any (by decide) (by decide)
  | null => exact solid_of_any (by decide) (by decide)
  | undefined => exact solid_of_any (by decide) (by decide)
  | text s => exact ⟨⟨'"', _, rfl, by decide⟩, '"' :: s.toList, '"', rfl, by decide⟩
  | slot h => exact h.digits.solid.cons (by decide)

theorem Operand.Written.loose {o : Operand} (h : o.Written strict cs) : o.Written False cs := by
  cases h with
  | int h => exact .int h.loose
  | bool b => exact .bool b
  | null => exact .null
  | undefined => exact .undefined
  | text s => exact .text s
  | slot h => exact .slot h.loose

theorem Operand.Written.no_feed {o : Operand} (h : o.Written strict cs) (hf : o.Fits) : '\n' ∉ cs := by
  have hdigits {ds : List Char} (hd : Digits ds) : '\n' ∉ ds := fun hm => by
    have hfeed : isDigit '\n' = false := by decide
    rw [hd.2 _ hm] at hfeed
    cases hfeed
  cases h with
  | int h =>
    obtain ⟨ds, hd, rfl | rfl⟩ := isInteger_iff.1 (isInteger_of_integer h)
    · exact hdigits hd
    · simpa using hdigits hd
  | bool b => cases b <;> decide
  | null => decide
  | undefined => decide
  | text s =>
    have hfeed : '\n' ∉ s.toList := hf
    simpa using hfeed
  | slot h => simpa using hdigits h.digits

theorem mapM_smallInt_eq_ok_iff {argument : Option Int32} :
    (some cs).mapM smallInt = .ok argument ↔
      ∃ n, argument = some n ∧ Integer False n cs ∧ Value.fits n = true := by
  simp only [← smallInt_eq_ok_iff]
  have hsome : (some cs).mapM smallInt = (smallInt cs).map some := rfl
  rw [hsome]
  cases smallInt cs with
  | error failure => exact ⟨nofun, fun ⟨_, _, h⟩ => nomatch h⟩
  | ok n =>
    constructor
    · intro h
      exact ⟨n, (Except.ok.inj h).symm, rfl⟩
    · rintro ⟨n, rfl, h⟩
      obtain rfl := Except.ok.inj h
      rfl

/-- A line whose form means a command has the tokens of that command. -/
theorem Form.Means.tokens {form : Form} {command : Command} {tokens : List (List Char)}
    (hm : form.Means command) (ht : form.Tokens tokens) :
    command.Fits ∧ command.Tokens False tokens := by
  cases hm with
  | word =>
    cases ht with
    | word hw =>
      simp only [bareWords, List.mem_cons, List.not_mem_nil, or_false, Prod.mk.injEq] at hw
      rcases hw with ⟨rfl, rfl⟩ | ⟨rfl, rfl⟩ | ⟨rfl, rfl⟩ | ⟨rfl, rfl⟩ | ⟨rfl, rfl⟩ | ⟨rfl, rfl⟩ |
        ⟨rfl, rfl⟩
      · exact ⟨trivial, .new⟩
      · exact ⟨trivial, .run⟩
      · exact ⟨trivial, .gc⟩
      · exact ⟨trivial, .stats⟩
      · exact ⟨trivial, .terminate⟩
      · exact ⟨trivial, .resume⟩
      · exact ⟨trivial, .help⟩
  | @settle kind digits text slot o hs ho =>
    obtain ⟨hslot, hfits⟩ := slotNumber?_eq_some_iff.1 hs
    obtain ⟨hwritten, hoperand⟩ := operand_eq_ok_iff.1 ho
    cases ht with
    | settle hw =>
      obtain rfl := mem_settleWords_iff.1 hw
      exact ⟨⟨hfits, hoperand⟩, .settle kind hslot hwritten⟩
  | query hs =>
    obtain ⟨hslot, hfits⟩ := slotNumber?_eq_some_iff.1 hs
    cases ht with
    | query hw =>
      simp only [queryWords, List.mem_cons, List.not_mem_nil, or_false, Prod.mk.injEq] at hw
      rcases hw with ⟨rfl, rfl⟩ | ⟨rfl, rfl⟩ | ⟨rfl, rfl⟩
      · exact ⟨hfits, .state hslot⟩
      · exact ⟨hfits, .result hslot⟩
      · exact ⟨hfits, .promise hslot⟩
  | @attach kind digits slot name argument n op hs ha hop =>
    obtain ⟨hslot, hfits⟩ := slotNumber?_eq_some_iff.1 hs
    cases ht with
    | attach hw _ ho =>
      obtain rfl := mem_attachWords_iff.1 hw
      -- an operation without an integer is one of two, and so is one with an integer
      obtain rfl := Except.ok.inj ha
      simp only [opWords, List.mem_cons, List.not_mem_nil, or_false, Prod.mk.injEq] at ho
      rcases ho with ⟨rfl, rfl⟩ | ⟨rfl, rfl⟩ | ⟨rfl, rfl⟩ | ⟨rfl, rfl⟩ <;> cases hop
      · exact ⟨⟨hfits, trivial⟩, .attach kind hslot .id⟩
      · exact ⟨⟨hfits, trivial⟩, .attach kind hslot .throw⟩
    | attachWith hw _ ho =>
      obtain rfl := mem_attachWords_iff.1 hw
      obtain ⟨m, rfl, hinteger, hm⟩ := mapM_smallInt_eq_ok_iff.1 ha
      simp only [opWords, List.mem_cons, List.not_mem_nil, or_false, Prod.mk.injEq] at ho
      rcases ho with ⟨rfl, rfl⟩ | ⟨rfl, rfl⟩ | ⟨rfl, rfl⟩ | ⟨rfl, rfl⟩ <;> cases hop
      · exact ⟨⟨hfits, hm⟩, .attach kind hslot (.add hinteger)⟩
      · exact ⟨⟨hfits, hm⟩, .attach kind hslot (.mul hinteger)⟩

/-- The tokens of a command that fits are those of a form that means it. -/
theorem Command.Tokens.exists_form {command : Command} {tokens : List (List Char)}
    (ht : command.Tokens strict tokens) (hf : command.Fits) :
    ∃ form : Form, form.Tokens tokens ∧ form.Means command := by
  have hslot {slot : Nat} {digits : List Char} (hs : Numeral strict slot digits) (hf : SlotFits slot) :
      slotNumber? digits = some slot := slotNumber?_eq_some_iff.2 ⟨hs.loose, hf⟩
  -- each command is written in one form
  cases ht with
  | new => exact ⟨_, .word (by decide), .word _⟩
  | run => exact ⟨_, .word (by decide), .word _⟩
  | gc => exact ⟨_, .word (by decide), .word _⟩
  | stats => exact ⟨_, .word (by decide), .word _⟩
  | terminate => exact ⟨_, .word (by decide), .word _⟩
  | resume => exact ⟨_, .word (by decide), .word _⟩
  | help => exact ⟨_, .word (by decide), .word _⟩
  | settle kind hs ho =>
    obtain ⟨hfits, hoperand⟩ := hf
    have hsolid := ho.solid
    have hread := operand_eq_ok_iff.2 ⟨ho.loose, hoperand⟩
    exact ⟨_, .settle (mem_settleWords_iff.2 rfl) hs.digits hsolid.ne_nil hsolid.stops (ho.no_feed hoperand),
      .settle (hslot hs hfits) hread⟩
  | state hs =>
    exact ⟨.query .state _, .query (by simp [queryWords]) hs.digits, .query (hslot hs hf)⟩
  | result hs =>
    exact ⟨.query .result _, .query (by simp [queryWords]) hs.digits, .query (hslot hs hf)⟩
  | promise hs =>
    exact ⟨.query .promise _, .query (by simp [queryWords]) hs.digits, .query (hslot hs hf)⟩
  | attach kind hs ho =>
    obtain ⟨hfits, hop⟩ := hf
    have hnumber := hslot hs hfits
    have hw : (attachName kind, kind) ∈ attachWords := mem_attachWords_iff.2 rfl
    have hargument {cs : List Char} {n : Int32} (h : Integer strict n cs) (hn : Value.fits n = true) :
        (some cs).mapM smallInt = .ok (some n) := mapM_smallInt_eq_ok_iff.2 ⟨n, rfl, h.loose, hn⟩
    cases ho with
    | add h =>
      exact ⟨.attach kind _ .add (some _),
        .attachWith hw hs.digits (by simp [opWords]) (isInteger_of_integer h),
        .attach hnumber (hargument h hop) rfl⟩
    | mul h =>
      exact ⟨.attach kind _ .mul (some _),
        .attachWith hw hs.digits (by simp [opWords]) (isInteger_of_integer h),
        .attach hnumber (hargument h hop) rfl⟩
    | id =>
      exact ⟨.attach kind _ .id none, .attach hw hs.digits (by simp [opWords]),
        .attach hnumber rfl rfl⟩
    | throw =>
      exact ⟨.attach kind _ .throw none, .attach hw hs.digits (by simp [opWords]),
        .attach hnumber rfl rfl⟩

/-- The parser reads what writes a command that fits, as that command, and nothing else. -/
theorem parse_eq_ok_iff {command : Command} :
    parse cs = .ok command ↔ command.Fits ∧ command.Written False cs := by
  rw [parse_eq_ok_iff_means]
  constructor
  · rintro ⟨form, hform, hm⟩
    obtain ⟨tokens, ht, hj⟩ := form?_eq_some_iff.1 hform
    obtain ⟨hf, htokens⟩ := hm.tokens ht
    exact ⟨hf, tokens, htokens, hj⟩
  · rintro ⟨hf, tokens, ht, hj⟩
    obtain ⟨form, hform, hm⟩ := ht.exists_form hf
    exact ⟨form, form?_eq_some_iff.2 ⟨tokens, hform, hj⟩, hm⟩

theorem Joined.solid {tokens : List (List Char)} (h : Joined tokens cs)
    (hs : ∀ token ∈ tokens, Solid token) : Solid cs := by
  induction h with
  | last token => exact hs token List.mem_cons_self
  | cons _ _ ih =>
    have hrest := ih fun token ht => hs token (List.mem_cons_of_mem _ ht)
    exact (hs _ List.mem_cons_self).append hrest _

/-- All the words of commands. -/
def keywords : List String :=
  bareWords.map Prod.fst ++ settleWords.map Prod.fst ++ queryWords.map Prod.fst ++
    attachWords.map Prod.fst ++ opWords.map Prod.fst

theorem solid_keyword {word : String} (h : word ∈ keywords) : Solid word.toList := by
  have hall : ∀ word ∈ keywords, word.toList ≠ [] ∧ word.toList.any isBlank = false := by decide
  exact solid_of_any (hall word h).1 (hall word h).2

theorem Op.Tokens.solid {op : Op} {tokens : List (List Char)} (ht : op.Tokens strict tokens) :
    ∀ token ∈ tokens, Solid token := by
  cases ht with
  | add h => exact List.forall_mem_cons.2 ⟨solid_keyword (by decide), List.forall_mem_singleton.2 h.solid⟩
  | mul h => exact List.forall_mem_cons.2 ⟨solid_keyword (by decide), List.forall_mem_singleton.2 h.solid⟩
  | id => exact List.forall_mem_singleton.2 (solid_keyword (by decide))
  | throw => exact List.forall_mem_singleton.2 (solid_keyword (by decide))

theorem Command.Tokens.solid {command : Command} {tokens : List (List Char)}
    (ht : command.Tokens strict tokens) : ∀ token ∈ tokens, Solid token := by
  have hslot {slot : Nat} {digits : List Char} (hs : Numeral strict slot digits) :
      Solid ('$' :: digits) := hs.digits.solid.cons (by decide)
  have hquery {word : String} {slot : Nat} {digits : List Char} (hw : word ∈ keywords)
      (hs : Numeral strict slot digits) : ∀ token ∈ [word.toList, '$' :: digits], Solid token :=
    List.forall_mem_cons.2 ⟨solid_keyword hw, List.forall_mem_singleton.2 (hslot hs)⟩
  cases ht with
  | new | run | gc | stats | terminate | resume | help =>
    exact List.forall_mem_singleton.2 (solid_keyword (by decide))
  | settle kind hs ho =>
    have hw : settleName kind ∈ keywords := by cases kind <;> decide
    have hrest := List.forall_mem_cons.2 ⟨hslot hs, List.forall_mem_singleton.2 ho.solid⟩
    exact List.forall_mem_cons.2 ⟨solid_keyword hw, hrest⟩
  | state hs | result hs | promise hs => exact hquery (by decide) hs
  | attach kind hs ho =>
    have hw : attachName kind ∈ keywords := by cases kind <;> decide
    exact List.forall_mem_cons.2 ⟨solid_keyword hw, List.forall_mem_cons.2 ⟨hslot hs, ho.solid⟩⟩

/-- The line of a command, without the blank characters around, is what writes the command. -/
theorem Command.Renders.written {command : Command} {line : List Char}
    (h : command.Renders strict line) : command.Written strict (trim line) := by
  obtain ⟨before, cs, after, hb, ha, rfl, tokens, ht, hj⟩ := h
  rw [trim_eq (hj.solid ht.solid) hb ha]
  exact ⟨tokens, ht, hj⟩

theorem Command.Written.renders {command : Command} {line : List Char}
    (h : command.Written strict (trim line)) : command.Renders strict line := by
  obtain ⟨before, after, hb, ha, hline⟩ := exists_trim line
  exact ⟨before, trim line, after, hb, ha, hline, h⟩

theorem Op.Tokens.loose {op : Op} {tokens : List (List Char)} (ht : op.Tokens strict tokens) :
    op.Tokens False tokens := by
  cases ht with
  | add h => exact .add h.loose
  | mul h => exact .mul h.loose
  | id => exact .id
  | throw => exact .throw

theorem Command.Tokens.loose {command : Command} {tokens : List (List Char)}
    (ht : command.Tokens strict tokens) : command.Tokens False tokens := by
  cases ht with
  | new => exact .new
  | run => exact .run
  | gc => exact .gc
  | stats => exact .stats
  | terminate => exact .terminate
  | resume => exact .resume
  | help => exact .help
  | settle kind hs ho => exact .settle kind hs.loose ho.loose
  | state hs => exact .state hs.loose
  | result hs => exact .result hs.loose
  | promise hs => exact .promise hs.loose
  | attach kind hs ho => exact .attach kind hs.loose ho.loose

theorem Command.Renders.loose {command : Command} {line : List Char}
    (h : command.Renders strict line) : command.Renders False line := by
  obtain ⟨tokens, ht, hj⟩ := h.written
  exact Command.Written.renders ⟨tokens, ht.loose, hj⟩

/-- On every line, the parser either gives back the command that the line renders, if it fits, or fails.
A command is rendered with zeros before its numerals or a sign at zero, or strictly without them; either
way it is read back. -/
theorem parse_trim (line : List Char) :
    (∀ command : Command, command.Fits → command.Renders True line →
      parse (trim line) = .ok command) ∧
    (∀ command : Command,
      parse (trim line) = .ok command ↔ command.Fits ∧ command.Renders False line) ∧
    ((∀ command : Command, command.Fits → ¬command.Renders False line) →
      ∃ failure, parse (trim line) = .error failure) := by
  have hparse (command : Command) :
      parse (trim line) = .ok command ↔ command.Fits ∧ command.Renders False line := by
    rw [parse_eq_ok_iff]
    exact and_congr_right fun _ => ⟨Command.Written.renders, Command.Renders.written⟩
  refine ⟨fun command hf hr => (hparse command).2 ⟨hf, hr.loose⟩, hparse, fun hnone => ?_⟩
  cases h : parse (trim line) with
  | error failure => exact ⟨failure, rfl⟩
  | ok command =>
    obtain ⟨hf, hr⟩ := (hparse command).1 h
    exact absurd hr (hnone command hf)

/-- A quoted text is read as it stands, and a numeral is read after zeros. -/
theorem parse_trim_quotes_and_zeros :
    parse (trim "  reject $0\t\"a \"b\" $1\" ".toList) =
        .ok (.settle .reject 0 (.text "a \"b\" $1")) ∧
      parse (trim "then $007\nadd  -0012".toList) = .ok (.attach .fulfill 7 (.add (-12))) := by
  have hspace : Blanks [' '] := ⟨by decide, List.all_eq_true.1 (by decide)⟩
  have hspaces : Blanks [' ', ' '] := ⟨by decide, List.all_eq_true.1 (by decide)⟩
  have htab : Blanks ['\t'] := ⟨by decide, List.all_eq_true.1 (by decide)⟩
  have hfeed : Blanks ['\n'] := ⟨by decide, List.all_eq_true.1 (by decide)⟩
  constructor
  · have hfits : (Command.settle .reject 0 (.text "a \"b\" $1")).Fits :=
      ⟨(by decide : 0 < UInt64.size), (by decide : '\n' ∉ "a \"b\" $1".toList)⟩
    have hslot : Numeral True 0 ['0'] := ⟨0, fun _ => rfl, rfl⟩
    have hwritten : (Command.settle .reject 0 (.text "a \"b\" $1")).Written True
        "reject $0\t\"a \"b\" $1\"".toList :=
      ⟨_, .settle .reject hslot (.text _), .cons hspace (.cons htab (.last _))⟩
    exact (parse_trim _).1 _ hfits ⟨_, _, _, hspaces.2, hspace.2, rfl, hwritten⟩
  · have hfits : (Command.attach .fulfill 7 (.add (-12))).Fits :=
      ⟨(by decide : 7 < UInt64.size), (by decide : Value.fits (-12) = true)⟩
    have hslot : Numeral False 7 ['0', '0', '7'] := ⟨2, False.elim, rfl⟩
    have hdigits : Numeral False 12 ['0', '0', '1', '2'] := ⟨2, False.elim, rfl⟩
    have hinteger : Integer False (-12) ['-', '0', '0', '1', '2'] :=
      Or.inr ⟨_, rfl, by decide, False.elim, hdigits⟩
    have hwritten : (Command.attach .fulfill 7 (.add (-12))).Written False
        "then $007\nadd  -0012".toList :=
      ⟨_, .attach .fulfill hslot (.add hinteger), .cons hspace (.cons hfeed (.cons hspaces (.last _)))⟩
    exact ((parse_trim _).2.1 _).2 ⟨hfits, [], _, [], nofun, nofun, rfl, hwritten⟩

end Promises.Shell
