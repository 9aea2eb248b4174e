import Mathlib.Data.List.DropRight
import Mathlib.Data.List.TakeWhile
import Promises.Text.Blank
import Promises.Text.Digit

namespace Promises.Text

/-- Whether a text does not start with a character of a class. -/
def Stops (p : Char → Bool) (cs : List Char) : Prop := ∀ c, cs.head? = some c → p c = false

/-- One blank character or more, and no other. -/
def Blanks (cs : List Char) : Prop := cs ≠ [] ∧ ∀ c ∈ cs, isBlank c = true

/-- One digit or more, of any scripts, and no other character. -/
def Digits (cs : List Char) : Prop := cs ≠ [] ∧ ∀ c ∈ cs, isDigit c = true

/-- Whether a text starts and ends with characters that are not blank. -/
structure Solid (cs : List Char) : Prop where
  first : ∃ c rest, cs = c :: rest ∧ isBlank c = false
  last : ∃ rest c, cs = rest ++ [c] ∧ isBlank c = false

variable {p : Char → Bool} {c : Char} {cs run rest : List Char}

theorem stops_nil : Stops p [] := nofun

theorem stops_cons (h : p c = false) : Stops p (c :: cs) := by
  intro d hd
  obtain rfl := Option.some.inj hd
  exact h

theorem dropWhile_of_stops (h : Stops p rest) : rest.dropWhile p = rest := by
  cases rest with
  | nil => rfl
  | cons c rest => exact List.dropWhile_cons_of_neg (by simp [h c rfl])

theorem takeWhile_of_stops (h : Stops p rest) : rest.takeWhile p = [] := by
  cases rest with
  | nil => rfl
  | cons c rest => exact List.takeWhile_cons_of_neg (by simp [h c rfl])

theorem takeWhile_run (hr : ∀ c ∈ run, p c = true) (h : Stops p rest) :
    (run ++ rest).takeWhile p = run := by
  rw [List.takeWhile_append_of_pos hr, takeWhile_of_stops h, List.append_nil]

theorem dropWhile_run (hr : ∀ c ∈ run, p c = true) (h : Stops p rest) :
    (run ++ rest).dropWhile p = rest := by
  rw [List.dropWhile_append_of_pos hr, dropWhile_of_stops h]

theorem stops_dropWhile (p : Char → Bool) (cs : List Char) : Stops p (cs.dropWhile p) := by
  intro c hc
  have hnot := List.head?_dropWhile_not p cs
  rw [hc] at hnot
  exact hnot

/-- Classes of characters whose ranges are apart have no character in common. -/
theorem inRanges_of_apart {first second : List (Nat × Nat)}
    (h : ∀ r ∈ first, ∀ s ∈ second, r.2 < s.1 ∨ s.2 < r.1) (hc : inRanges first c = true) :
    inRanges second c = false := by
  simp only [inRanges, List.any_eq_true, Bool.and_eq_true, decide_eq_true_eq] at hc
  obtain ⟨r, hr, hlo, hhi⟩ := hc
  rw [inRanges, List.any_eq_false]
  intro s hs
  have hapart := h r hr s hs
  simp only [Bool.and_eq_true, decide_eq_true_eq, not_and, not_le]
  omega

theorem isDigit_of_isBlank (h : isBlank c = true) : isDigit c = false :=
  inRanges_of_apart (by decide) h

theorem isBlank_of_isDigit (h : isDigit c = true) : isBlank c = false :=
  inRanges_of_apart (by decide) h

theorem Blanks.stops (h : Blanks cs) (rest : List Char) : Stops isDigit (cs ++ rest) := by
  obtain ⟨hne, hall⟩ := h
  cases cs with
  | nil => exact absurd rfl hne
  | cons c cs => exact stops_cons (isDigit_of_isBlank (hall c List.mem_cons_self))

theorem solid_of_any (hne : cs ≠ []) (hany : cs.any isBlank = false) : Solid cs := by
  have h : ∀ c ∈ cs, isBlank c = false := by simpa [List.any_eq_false] using hany
  constructor
  case first =>
    cases cs with
    | nil => exact absurd rfl hne
    | cons c cs => exact ⟨c, cs, rfl, h c List.mem_cons_self⟩
  case last =>
    obtain rfl | ⟨rest, c, rfl⟩ := List.eq_nil_or_concat cs
    · exact absurd rfl hne
    · rw [List.concat_eq_append] at h ⊢
      exact ⟨rest, c, rfl, h c (by simp)⟩

theorem Digits.solid (h : Digits cs) : Solid cs :=
  solid_of_any h.1 (List.any_eq_false.2 fun c hc => by simp [isBlank_of_isDigit (h.2 c hc)])

theorem Solid.cons (h : Solid cs) (hc : isBlank c = false) : Solid (c :: cs) := by
  obtain ⟨-, rest, last, rfl, hl⟩ := h
  exact ⟨⟨c, _, rfl, hc⟩, c :: rest, last, rfl, hl⟩

theorem Solid.ne_nil (h : Solid cs) : cs ≠ [] := by
  obtain ⟨⟨c, rest, rfl, -⟩, -⟩ := h
  exact List.cons_ne_nil c rest

theorem Solid.stops (h : Solid cs) : Stops isBlank cs := by
  obtain ⟨⟨c, rest, rfl, hc⟩, -⟩ := h
  exact stops_cons hc

/-- What stands between two solid texts does not matter. -/
theorem Solid.append {ds : List Char} (h : Solid cs) (hd : Solid ds) (between : List Char) :
    Solid (cs ++ (between ++ ds)) := by
  obtain ⟨⟨c, tail, rfl, hc⟩, -⟩ := h
  obtain ⟨-, init, d, rfl, hlast⟩ := hd
  exact ⟨⟨c, _, rfl, hc⟩, c :: tail ++ (between ++ init), d, by simp, hlast⟩

/-- A text is blank, solid and blank again, unless it is all blank. -/
theorem exists_trim (cs : List Char) : ∃ before after, (∀ c ∈ before, isBlank c = true) ∧
    (∀ c ∈ after, isBlank c = true) ∧ cs = before ++ trim cs ++ after := by
  let inner := cs.dropWhile isBlank
  let tail := inner.reverse.takeWhile isBlank
  refine ⟨cs.takeWhile isBlank, tail.reverse, fun c => List.mem_takeWhile_imp, fun c hc => ?_, ?_⟩
  · exact List.mem_takeWhile_imp (List.mem_reverse.1 hc)
  · have hinner : inner = trim cs ++ tail.reverse := by
      rw [trim, ← List.reverse_append, List.takeWhile_append_dropWhile, List.reverse_reverse]
    rw [List.append_assoc, ← hinner, List.takeWhile_append_dropWhile]

theorem trim_eq (hs : Solid cs) {before after : List Char} (hb : ∀ c ∈ before, isBlank c = true)
    (ha : ∀ c ∈ after, isBlank c = true) : trim (before ++ cs ++ after) = cs := by
  obtain ⟨⟨first, tail, hfirst, hf⟩, init, last, hlast, hl⟩ := hs
  have hhead : Stops isBlank (cs ++ after) := by
    rw [hfirst]
    exact stops_cons hf
  have hend : Stops isBlank cs.reverse := by
    rw [hlast, List.reverse_append]
    exact stops_cons hl
  have hafter : ∀ c ∈ after.reverse, isBlank c = true := fun c hc => ha c (List.mem_reverse.1 hc)
  rw [trim, List.append_assoc, dropWhile_run hb hhead, List.reverse_append,
    dropWhile_run hafter hend, List.reverse_reverse]

end Promises.Text
