import Promises.Proofs.Text.Span
import Promises.Shell.Grammar

namespace Promises.Shell

open Text

/-- Tokens with blank characters between them. -/
inductive Joined : List (List Char) → List Char → Prop
  | last (token : List Char) : Joined [token] token
  | cons {token blanks cs : List Char} {tokens : List (List Char)} (hb : Blanks blanks)
    (h : Joined tokens cs) : Joined (token :: tokens) (token ++ (blanks ++ cs))

variable {α : Type} {words : List (String × α)} {a : α} {c : Char} {cs ds rest line : List Char}

@[simp] theorem joined_singleton_iff {token : List Char} : Joined [token] cs ↔ cs = token := by
  constructor
  · intro h
    cases h with
    | last => rfl
    | cons _ h => cases h
  · rintro rfl
    exact .last _

@[simp] theorem joined_cons_iff {t u : List Char} {tokens : List (List Char)} :
    Joined (t :: u :: tokens) cs ↔
      ∃ blanks rest, Blanks blanks ∧ Joined (u :: tokens) rest ∧ cs = t ++ (blanks ++ rest) := by
  constructor
  · intro h
    cases h with
    | cons hb h => exact ⟨_, _, hb, h, rfl⟩
  · rintro ⟨blanks, rest, hb, h, rfl⟩
    exact .cons hb h

theorem afterBlanks?_eq_some_iff :
    afterBlanks? cs = some rest ↔ ∃ blanks, Blanks blanks ∧ Stops isBlank rest ∧ cs = blanks ++ rest := by
  constructor
  · intro h
    cases cs with
    | nil => cases h
    | cons c cs =>
      simp only [afterBlanks?] at h
      split at h
      · rename_i hc
        obtain rfl := Option.some.inj h
        refine ⟨c :: cs.takeWhile isBlank, ⟨List.cons_ne_nil _ _, ?_⟩, stops_dropWhile _ _, ?_⟩
        · intro d hd
          rcases List.mem_cons.1 hd with rfl | hd
          · exact hc
          · exact List.mem_takeWhile_imp hd
        · rw [List.cons_append, List.takeWhile_append_dropWhile]
      · cases h
  · rintro ⟨blanks, ⟨hne, hall⟩, hs, rfl⟩
    cases blanks with
    | nil => exact absurd rfl hne
    | cons c blanks =>
      rw [List.cons_append, afterBlanks?, if_pos (hall c List.mem_cons_self),
        dropWhile_run (fun d hd => hall d (List.mem_cons_of_mem c hd)) hs]

theorem digits?_eq_some_iff :
    digits? cs = some (ds, rest) ↔ Digits ds ∧ Stops isDigit rest ∧ cs = ds ++ rest := by
  constructor
  · intro h
    unfold digits? at h
    split at h
    · cases h
    · rename_i hne
      obtain ⟨rfl, rfl⟩ := Prod.mk.inj (Option.some.inj h)
      exact ⟨⟨hne, fun c => List.mem_takeWhile_imp⟩, stops_dropWhile _ _,
        List.takeWhile_append_dropWhile.symm⟩
  · rintro ⟨⟨hne, hall⟩, hs, rfl⟩
    unfold digits?
    rw [takeWhile_run hall hs, dropWhile_run hall hs]
    cases ds with
    | nil => exact absurd rfl hne
    | cons => rfl

theorem slotDigits?_eq_some_iff :
    slotDigits? cs = some (ds, rest) ↔ Digits ds ∧ Stops isDigit rest ∧ cs = '$' :: (ds ++ rest) := by
  unfold slotDigits?
  split
  · rename_i cs
    simp [digits?_eq_some_iff]
  · rename_i hnot
    constructor
    · nofun
    · rintro ⟨-, -, rfl⟩
      exact absurd rfl (hnot _)

theorem isDigit_minus : isDigit '-' = false := by decide

theorem isInteger_iff : isInteger cs = true ↔ ∃ ds, Digits ds ∧ (cs = ds ∨ cs = '-' :: ds) := by
  have hdigits (ds : List Char) : (!ds.isEmpty && ds.all isDigit) = true ↔ Digits ds := by
    simp [Digits]
  unfold isInteger
  split
  · rename_i ds
    rw [hdigits]
    constructor
    · exact fun hd => ⟨ds, hd, Or.inr rfl⟩
    · rintro ⟨ds', hd, rfl | he⟩
      · have hminus := hd.2 '-' List.mem_cons_self
        rw [isDigit_minus] at hminus
        cases hminus
      · rwa [(List.cons.inj he).2]
  · rename_i hnot
    rw [hdigits]
    constructor
    · exact fun hd => ⟨cs, hd, Or.inl rfl⟩
    · rintro ⟨ds, hd, rfl | rfl⟩
      · exact hd
      · exact absurd rfl (hnot ds)

/-- Whether no word of one list is the start of a word of the other one, or the other way round. -/
def Apart {β : Type} (words : List (String × α)) (others : List (String × β)) : Prop :=
  ∀ u ∈ words, ∀ v ∈ others, ¬u.1.toList <+: v.1.toList ∧ ¬v.1.toList <+: u.1.toList

/-- Whether no word of a list is the start of another one. -/
def Distinct (words : List (String × α)) : Prop :=
  words.Pairwise fun u v => ¬u.1.toList <+: v.1.toList ∧ ¬v.1.toList <+: u.1.toList

theorem afterWord?_eq_some_iff {word : List Char} :
    afterWord? word cs = some rest ↔ cs = word ++ rest := by
  unfold afterWord?
  split
  · rename_i h
    obtain ⟨tail, rfl⟩ := List.isPrefixOf_iff_prefix.1 h
    simp
  · rename_i h
    constructor
    · nofun
    · rintro rfl
      exact absurd (List.isPrefixOf_iff_prefix.2 (List.prefix_append word rest)) h

/-- Two words of which none is the start of the other do not start the same text. -/
theorem not_both_start {u v more : List Char} (hu : ¬u <+: v) (hv : ¬v <+: u) :
    u ++ rest ≠ v ++ more := by
  intro h
  have hprefix : u <+: v ++ more := h ▸ List.prefix_append u rest
  rcases List.prefix_or_prefix_of_prefix hprefix (List.prefix_append v more) with h | h
  · exact hu h
  · exact hv h

theorem keyword?_eq_some_iff (hw : Distinct words) :
    keyword? words cs = some (a, rest) ↔ ∃ word, (word, a) ∈ words ∧ cs = word.toList ++ rest := by
  -- the induction is on the words, of which the first one that fits is taken
  induction words with
  | nil => simp [keyword?]
  | cons first words ih =>
    obtain ⟨word, b⟩ := first
    obtain ⟨hfirst, hrest⟩ := List.pairwise_cons.1 hw
    have hcons : keyword? ((word, b) :: words) cs =
        ((afterWord? word.toList cs).map (b, ·)).or (keyword? words cs) := by
      simp only [keyword?, List.findSome?_cons]
      cases (afterWord? word.toList cs).map (b, ·) <;> rfl
    rw [hcons]
    cases hafter : afterWord? word.toList cs with
    | none =>
      have hnot : ¬cs = word.toList ++ rest := fun h => by
        rw [afterWord?_eq_some_iff.2 h] at hafter
        cases hafter
      rw [Option.map_none, Option.none_or, ih hrest]
      constructor
      · rintro ⟨u, hu, hcs⟩
        exact ⟨u, List.mem_cons_of_mem _ hu, hcs⟩
      · rintro ⟨u, hu, hcs⟩
        rcases List.mem_cons.1 hu with he | hu
        · obtain ⟨rfl, rfl⟩ := Prod.mk.inj he
          exact absurd hcs hnot
        · exact ⟨u, hu, hcs⟩
    | some tail =>
      obtain rfl := afterWord?_eq_some_iff.1 hafter
      rw [Option.map_some, Option.some_or, Option.some_inj, Prod.mk.injEq]
      constructor
      · rintro ⟨rfl, rfl⟩
        exact ⟨word, List.mem_cons_self, rfl⟩
      · rintro ⟨u, hu, hcs⟩
        rcases List.mem_cons.1 hu with he | hu
        · obtain ⟨rfl, rfl⟩ := Prod.mk.inj he
          exact ⟨rfl, List.append_cancel_left hcs⟩
        · exact absurd hcs (not_both_start (hfirst _ hu).1 (hfirst _ hu).2)

theorem keyword?_eq_none {β : Type} {others : List (String × β)} (ha : Apart words others)
    {word : String} {b : β} (hm : (word, b) ∈ others) (rest : List Char) :
    keyword? words (word.toList ++ rest) = none := by
  refine List.findSome?_eq_none_iff.2 fun u hu => ?_
  rw [Option.map_eq_none_iff, Option.eq_none_iff_forall_ne_some]
  intro more hafter
  have hboth := afterWord?_eq_some_iff.1 hafter
  exact not_both_start (ha u hu _ hm).2 (ha u hu _ hm).1 hboth

theorem lookup_eq_some_iff_mem {α β : Type} [BEq α] [LawfulBEq α] {entries : List (α × β)} {key : α}
    {value : β} (hn : (entries.map Prod.fst).Nodup) :
    entries.lookup key = some value ↔ (key, value) ∈ entries := by
  rw [List.lookup_eq_some_iff]
  constructor
  · rintro ⟨before, after, rfl, -⟩
    simp
  · intro hm
    obtain ⟨before, after, rfl⟩ := List.append_of_mem hm
    refine ⟨before, after, rfl, fun other hother => ?_⟩
    rw [List.map_append, List.map_cons, List.nodup_append] at hn
    have hne := hn.2.2 other.1 (List.mem_map_of_mem hother) key List.mem_cons_self
    simpa using hne.symm

theorem distinct_settleWords : Distinct settleWords := by
  unfold Distinct
  decide

theorem distinct_queryWords : Distinct queryWords := by
  unfold Distinct
  decide

theorem distinct_attachWords : Distinct attachWords := by
  unfold Distinct
  decide

theorem distinct_opWords : Distinct opWords := by
  unfold Distinct
  decide

/-- The tokens of a form. -/
inductive Form.Tokens : Form → List (List Char) → Prop
  | word {word : String} {command : Command} (hw : (word, command) ∈ bareWords) :
    Tokens (.word command) [word.toList]
  | settle {word : String} {kind : ReactionKind} {slot operand : List Char}
    (hw : (word, kind) ∈ settleWords) (hs : Digits slot) (ho : operand ≠ [])
    (hb : Stops isBlank operand) (hn : '\n' ∉ operand) :
    Tokens (.settle kind slot operand) [word.toList, '$' :: slot, operand]
  | query {word : String} {query : Query} {slot : List Char} (hw : (word, query) ∈ queryWords)
    (hs : Digits slot) : Tokens (.query query slot) [word.toList, '$' :: slot]
  | attach {word name : String} {kind : ReactionKind} {op : OpName} {slot : List Char}
    (hw : (word, kind) ∈ attachWords) (hs : Digits slot) (ho : (name, op) ∈ opWords) :
    Tokens (.attach kind slot op none) [word.toList, '$' :: slot, name.toList]
  | attachWith {word name : String} {kind : ReactionKind} {op : OpName} {slot argument : List Char}
    (hw : (word, kind) ∈ attachWords) (hs : Digits slot) (ho : (name, op) ∈ opWords)
    (ha : isInteger argument = true) :
    Tokens (.attach kind slot op (some argument)) [word.toList, '$' :: slot, name.toList, argument]

theorem word?_eq_some_iff {form : Form} :
    word? line = some form ↔
      ∃ word command, (word, command) ∈ bareWords ∧ line = word.toList ∧ form = .word command := by
  have hn : (bareWords.map Prod.fst).Nodup := by decide
  rw [word?, Option.map_eq_some_iff]
  constructor
  · rintro ⟨command, hl, rfl⟩
    exact ⟨_, command, (lookup_eq_some_iff_mem hn).1 hl, (String.toList_ofList).symm, rfl⟩
  · rintro ⟨word, command, hm, rfl, rfl⟩
    refine ⟨command, (lookup_eq_some_iff_mem hn).2 ?_, rfl⟩
    rwa [String.ofList_toList]

theorem atSlot?_eq_some_iff (hw : Distinct words) {slot : List Char} :
    atSlot? words line = some (a, slot, rest) ↔
      ∃ word, (word, a) ∈ words ∧ Digits slot ∧ Stops isDigit rest ∧
        Joined [word.toList, '$' :: (slot ++ rest)] line := by
  simp only [atSlot?, Option.bind_eq_bind, Option.bind_eq_some_iff, Prod.exists, keyword?_eq_some_iff hw,
    afterBlanks?_eq_some_iff, slotDigits?_eq_some_iff, joined_cons_iff, joined_singleton_iff,
    Option.pure_def, Option.some_inj, Prod.mk.injEq]
  constructor
  · rintro ⟨b, cs, ⟨word, hm, rfl⟩, ds, ⟨blanks, hb, -, rfl⟩, slot', rest', ⟨hd, hs, rfl⟩, rfl, rfl, rfl⟩
    exact ⟨word, hm, hd, hs, blanks, _, hb, rfl, rfl⟩
  · rintro ⟨word, hm, hd, hs, blanks, ds, hb, rfl, rfl⟩
    have hdollar : Stops isBlank ('$' :: (slot ++ rest)) := stops_cons (by decide)
    exact ⟨a, _, ⟨word, hm, rfl⟩, _, ⟨blanks, hb, hdollar, rfl⟩, slot, rest, ⟨hd, hs, rfl⟩, rfl, rfl, rfl⟩

theorem settle?_eq_some_iff {form : Form} :
    settle? line = some form ↔
      ∃ word kind slot operand, (word, kind) ∈ settleWords ∧ Digits slot ∧ operand ≠ [] ∧
        Stops isBlank operand ∧ '\n' ∉ operand ∧
        Joined [word.toList, '$' :: slot, operand] line ∧ form = .settle kind slot operand := by
  simp only [settle?, Option.bind_eq_bind, Option.bind_eq_some_iff, Prod.exists,
    atSlot?_eq_some_iff distinct_settleWords, afterBlanks?_eq_some_iff, joined_cons_iff,
    joined_singleton_iff, ite_eq_iff, Option.some_inj, reduceCtorEq, and_false, false_or,
    Bool.or_eq_true, List.isEmpty_iff, List.contains_iff_mem, not_or]
  constructor
  · rintro ⟨kind, slot, rest, ⟨word, hm, hd, -, blanks, _, hb, rfl, rfl⟩, operand,
      ⟨more, hmore, hs, rfl⟩, ⟨ho, hn⟩, rfl⟩
    exact ⟨word, kind, slot, operand, hm, hd, ho, hs, hn, ⟨blanks, _, hb, ⟨more, _, hmore, rfl, rfl⟩, rfl⟩,
      rfl⟩
  · rintro ⟨word, kind, slot, operand, hm, hd, ho, hs, hn, ⟨blanks, _, hb, ⟨more, _, hmore, rfl, rfl⟩, rfl⟩,
      rfl⟩
    exact ⟨kind, slot, _, ⟨word, hm, hd, hmore.stops _, blanks, _, hb, rfl, rfl⟩, _,
      ⟨more, hmore, hs, rfl⟩, ⟨ho, hn⟩, rfl⟩

theorem query?_eq_some_iff {form : Form} :
    query? line = some form ↔
      ∃ word query slot, (word, query) ∈ queryWords ∧ Digits slot ∧
        Joined [word.toList, '$' :: slot] line ∧ form = .query query slot := by
  simp only [query?, Option.bind_eq_bind, Option.bind_eq_some_iff, Prod.exists,
    atSlot?_eq_some_iff distinct_queryWords, ite_eq_iff, Option.some_inj, reduceCtorEq, and_false,
    or_false, List.isEmpty_iff]
  constructor
  · rintro ⟨query, slot, rest, ⟨word, hm, hd, -, hj⟩, rfl, rfl⟩
    exact ⟨word, query, slot, hm, hd, by simpa using hj, rfl⟩
  · rintro ⟨word, query, slot, hm, hd, hj, rfl⟩
    exact ⟨query, slot, [], ⟨word, hm, hd, stops_nil, by simpa using hj⟩, rfl, rfl⟩

theorem stops_opWord {name : String} {op : OpName} (ho : (name, op) ∈ opWords) (rest : List Char) :
    Stops isBlank (name.toList ++ rest) := by
  have hfirst : ∀ word ∈ opWords, word.1.toList.head?.map isBlank = some false := by decide
  obtain ⟨c, hc, hblank⟩ := Option.map_eq_some_iff.1 (hfirst _ ho)
  obtain ⟨tail, hword⟩ := List.head?_eq_some_iff.1 hc
  rw [show name.toList = c :: tail from hword]
  exact stops_cons hblank

theorem stops_of_isInteger (h : isInteger cs = true) : Stops isBlank cs := by
  obtain ⟨ds, ⟨hne, hd⟩, rfl | rfl⟩ := isInteger_iff.1 h
  · cases cs with
    | nil => exact stops_nil
    | cons c cs => exact stops_cons (isBlank_of_isDigit (hd c List.mem_cons_self))
  · exact stops_cons (by decide)

theorem attach?_eq_some_iff {form : Form} :
    attach? line = some form ↔
      ∃ word kind slot name op, (word, kind) ∈ attachWords ∧ Digits slot ∧ (name, op) ∈ opWords ∧
        (Joined [word.toList, '$' :: slot, name.toList] line ∧ form = .attach kind slot op none ∨
          ∃ argument, isInteger argument = true ∧
            Joined [word.toList, '$' :: slot, name.toList, argument] line ∧
            form = .attach kind slot op (some argument)) := by
  simp only [attach?, Option.bind_eq_bind, Option.bind_eq_some_iff, Prod.exists,
    atSlot?_eq_some_iff distinct_attachWords, afterBlanks?_eq_some_iff,
    keyword?_eq_some_iff distinct_opWords, joined_cons_iff, joined_singleton_iff, ite_eq_iff,
    Option.some_inj, reduceCtorEq, and_false, or_false, List.isEmpty_iff]
  constructor
  · rintro ⟨kind, slot, _, ⟨word, hm, hd, -, blanks, _, hb, rfl, rfl⟩, _, ⟨more, hmore, -, rfl⟩, op, rest,
      ⟨name, ho, rfl⟩, ⟨rfl, rfl⟩ | ⟨-, argument, ⟨last, hlast, -, rfl⟩, ha, rfl⟩⟩
    · refine ⟨word, kind, slot, name, op, hm, hd, ho, Or.inl ⟨⟨blanks, _, hb, ⟨more, _, hmore, rfl, rfl⟩, ?_⟩,
        rfl⟩⟩
      simp
    · exact ⟨word, kind, slot, name, op, hm, hd, ho, Or.inr ⟨argument, ha,
        ⟨blanks, _, hb, ⟨more, _, hmore, ⟨last, _, hlast, rfl, rfl⟩, rfl⟩, rfl⟩, rfl⟩⟩
  · rintro ⟨word, kind, slot, name, op, hm, hd, ho, ⟨⟨blanks, _, hb, ⟨more, _, hmore, rfl, rfl⟩, rfl⟩, rfl⟩ |
      ⟨argument, ha, ⟨blanks, _, hb, ⟨more, _, hmore, ⟨last, _, hlast, rfl, rfl⟩, rfl⟩, rfl⟩, rfl⟩⟩
    · refine ⟨kind, slot, _, ⟨word, hm, hd, hmore.stops _, blanks, _, hb, rfl, rfl⟩, _,
        ⟨more, hmore, ?_, rfl⟩, op, [], ⟨name, ho, ?_⟩, Or.inl ⟨rfl, rfl⟩⟩
      · simpa using stops_opWord ho []
      · simp
    · refine ⟨kind, slot, _, ⟨word, hm, hd, hmore.stops _, blanks, _, hb, rfl, rfl⟩, _,
        ⟨more, hmore, stops_opWord ho _, rfl⟩, op, _, ⟨name, ho, rfl⟩, Or.inr ⟨?_, _,
          ⟨last, hlast, stops_of_isInteger ha, rfl⟩, ha, rfl⟩⟩
      have hne := hlast.1
      simp [hne]

/-- Words that start no bare word start no line that is a bare word. -/
theorem word?_eq_none (ha : Apart words bareWords) {word : String} (hm : (word, a) ∈ words)
    (rest : List Char) : word? (word.toList ++ rest) = none := by
  rw [Option.eq_none_iff_forall_ne_some]
  intro form h
  obtain ⟨bare, command, hbare, hline, -⟩ := word?_eq_some_iff.1 h
  exact (ha _ hm _ hbare).1 ⟨rest, hline⟩

theorem atSlot?_eq_none {β : Type} {others : List (String × β)} (ha : Apart words others)
    {word : String} {b : β} (hm : (word, b) ∈ others) (rest : List Char) :
    atSlot? words (word.toList ++ rest) = none := by
  rw [atSlot?, keyword?_eq_none ha hm]
  rfl

theorem settle?_eq_none {β : Type} {others : List (String × β)} (ha : Apart settleWords others)
    {word : String} {b : β} (hm : (word, b) ∈ others) (rest : List Char) :
    settle? (word.toList ++ rest) = none := by
  rw [settle?, atSlot?_eq_none ha hm]
  rfl

theorem query?_eq_none {β : Type} {others : List (String × β)} (ha : Apart queryWords others)
    {word : String} {b : β} (hm : (word, b) ∈ others) (rest : List Char) :
    query? (word.toList ++ rest) = none := by
  rw [query?, atSlot?_eq_none ha hm]
  rfl

theorem apart_settle_bare : Apart settleWords bareWords := by
  unfold Apart
  decide

theorem apart_query_bare : Apart queryWords bareWords := by
  unfold Apart
  decide

theorem apart_attach_bare : Apart attachWords bareWords := by
  unfold Apart
  decide

theorem apart_settle_query : Apart settleWords queryWords := by
  unfold Apart
  decide

theorem apart_settle_attach : Apart settleWords attachWords := by
  unfold Apart
  decide

theorem apart_query_attach : Apart queryWords attachWords := by
  unfold Apart
  decide

theorem Joined.starts {token : List Char} {tokens : List (List Char)} (h : Joined (token :: tokens) line) :
    ∃ rest, line = token ++ rest := by
  cases h with
  | last => exact ⟨[], (List.append_nil _).symm⟩
  | cons => exact ⟨_, rfl⟩

/-- A line has a form just when it is the tokens of that form. -/
theorem form?_eq_some_iff {form : Form} :
    form? line = some form ↔ ∃ tokens, form.Tokens tokens ∧ Joined tokens line := by
  have halternatives : form? line = some form ↔ (word? line = some form ∨ word? line = none ∧
      (settle? line = some form ∨ settle? line = none ∧
        (query? line = some form ∨ query? line = none ∧ attach? line = some form))) := by
    simp only [form?, Option.orElse_eq_orElse, Option.orElse_eq_or, Option.or_eq_some_iff]
  rw [halternatives]
  constructor
  · rintro (h | ⟨-, h | ⟨-, h | ⟨-, h⟩⟩⟩)
    · obtain ⟨word, command, hm, rfl, rfl⟩ := word?_eq_some_iff.1 h
      exact ⟨_, .word hm, .last _⟩
    · obtain ⟨word, kind, slot, operand, hm, hd, ho, hb, hn, hj, rfl⟩ := settle?_eq_some_iff.1 h
      exact ⟨_, .settle hm hd ho hb hn, hj⟩
    · obtain ⟨word, query, slot, hm, hd, hj, rfl⟩ := query?_eq_some_iff.1 h
      exact ⟨_, .query hm hd, hj⟩
    · obtain ⟨word, kind, slot, name, op, hm, hd, ho, ⟨hj, rfl⟩ | ⟨argument, ha, hj, rfl⟩⟩ :=
        attach?_eq_some_iff.1 h
      · exact ⟨_, .attach hm hd ho, hj⟩
      · exact ⟨_, .attachWith hm hd ho ha, hj⟩
  · rintro ⟨tokens, ht, hj⟩
    -- the first word of a line tells which alternative takes it
    have hlast {word : String} {kind : ReactionKind} (hm : (word, kind) ∈ attachWords)
        (hstarts : ∃ rest, line = word.toList ++ rest) (h : attach? line = some form) :
        word? line = some form ∨ word? line = none ∧ (settle? line = some form ∨ settle? line = none ∧
          (query? line = some form ∨ query? line = none ∧ attach? line = some form)) := by
      obtain ⟨rest, rfl⟩ := hstarts
      exact Or.inr ⟨word?_eq_none apart_attach_bare hm rest,
        Or.inr ⟨settle?_eq_none apart_settle_attach hm rest,
          Or.inr ⟨query?_eq_none apart_query_attach hm rest, h⟩⟩⟩
    cases ht with
    | word hm =>
      exact Or.inl (word?_eq_some_iff.2 ⟨_, _, hm, joined_singleton_iff.1 hj, rfl⟩)
    | settle hm hd ho hb hn =>
      have hsettle := settle?_eq_some_iff.2 ⟨_, _, _, _, hm, hd, ho, hb, hn, hj, rfl⟩
      obtain ⟨rest, rfl⟩ := hj.starts
      exact Or.inr ⟨word?_eq_none apart_settle_bare hm rest, Or.inl hsettle⟩
    | query hm hd =>
      have hquery := query?_eq_some_iff.2 ⟨_, _, _, hm, hd, hj, rfl⟩
      obtain ⟨rest, rfl⟩ := hj.starts
      exact Or.inr ⟨word?_eq_none apart_query_bare hm rest,
        Or.inr ⟨settle?_eq_none apart_settle_query hm rest, Or.inl hquery⟩⟩
    | attach hm hd ho =>
      exact hlast hm hj.starts
        (attach?_eq_some_iff.2 ⟨_, _, _, _, _, hm, hd, ho, Or.inl ⟨hj, rfl⟩⟩)
    | attachWith hm hd ho ha =>
      exact hlast hm hj.starts
        (attach?_eq_some_iff.2 ⟨_, _, _, _, _, hm, hd, ho, Or.inr ⟨_, ha, hj, rfl⟩⟩)

end Promises.Shell
