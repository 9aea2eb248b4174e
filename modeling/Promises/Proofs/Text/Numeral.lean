import Promises.Proofs.Text.Span
import Promises.Text.Numeral

namespace Promises.Text

/-- Whether a text is a numeral of a number, without leading zeros if it is to be `strict`. -/
def Numeral (strict : Prop) (n : Nat) (cs : List Char) : Prop :=
  ∃ zeros, (strict → zeros = 0) ∧ cs = List.replicate zeros '0' ++ Nat.toDigits 10 n

variable {strict : Prop} {n d : Nat} {c : Char} {cs : List Char}

theorem Numeral.loose (h : Numeral strict n cs) : Numeral False n cs := by
  obtain ⟨zeros, -, hcs⟩ := h
  exact ⟨zeros, False.elim, hcs⟩

theorem digit?_ten_eq_some_iff : digit? 10 c = some d ↔ d < 10 ∧ c = Nat.digitChar d := by
  have hle (a b : Char) : a ≤ b ↔ a.toNat ≤ b.toNat := by
    rw [Char.le_def, UInt32.le_iff_toNat_le]
    rfl
  constructor
  · intro h
    obtain ⟨hvalue, hd⟩ := Option.filter_eq_some_iff.1 h
    have hd : d < 10 := by simpa using hd
    refine ⟨hd, ?_⟩
    -- the letters stand for ten and more
    simp only [hle] at hvalue
    have hc : c.toNat = d + 48 := by
      have : '0'.toNat = 48 := rfl
      have : 'a'.toNat = 97 := rfl
      have : 'A'.toNat = 65 := rfl
      split at hvalue
      · have := Option.some.inj hvalue
        omega
      · split at hvalue
        · have := Option.some.inj hvalue
          omega
        · split at hvalue
          · have := Option.some.inj hvalue
            omega
          · cases hvalue
    apply Char.toNat_inj.1
    rw [hc, Nat.toNat_digitChar_of_lt_ten hd, Nat.add_comm]
  · rintro ⟨hd, rfl⟩
    have hc := Nat.toNat_digitChar_of_lt_ten hd
    have hzero : '0'.toNat = 48 := rfl
    have hnine : '9'.toNat = 57 := rfl
    have hdigit : '0' ≤ Nat.digitChar d ∧ Nat.digitChar d ≤ '9' := by
      simp only [hle]
      omega
    simp only [digit?, if_pos hdigit, hc, hzero, Nat.add_sub_cancel_left]
    simp [hd]

theorem digits?_append (base n : Nat) (cs ds : List Char) :
    digits? base n (cs ++ ds) = (digits? base n cs).bind fun m => digits? base m ds := by
  induction cs generalizing n with
  | nil => rfl
  | cons c cs ih =>
    simp only [List.cons_append, digits?, ih, Option.bind_assoc]

theorem digits?_append_singleton (base n : Nat) (cs : List Char) (c : Char) :
    digits? base n (cs ++ [c]) =
      (digits? base n cs).bind fun m => (digit? base c).map fun d => m * base + d := by
  rw [digits?_append]
  congr 1
  funext m
  simp only [digits?]
  cases digit? base c <;> rfl

theorem Numeral.ne_nil (h : Numeral strict n cs) : cs ≠ [] := by
  obtain ⟨zeros, -, rfl⟩ := h
  simp [Nat.toDigits_ne_nil]

/-- A digit after a numeral. The zero before it becomes a leading one. -/
theorem Numeral.append_digit (h : Numeral False n cs) (hd : d < 10) :
    Numeral False (n * 10 + d) (cs ++ [Nat.digitChar d]) := by
  obtain ⟨zeros, -, rfl⟩ := h
  have hdigit : Nat.toDigits 10 d = [Nat.digitChar d] := Nat.toDigits_of_lt_base hd
  rcases Nat.eq_zero_or_pos n with rfl | hn
  · refine ⟨zeros + 1, False.elim, ?_⟩
    rw [Nat.zero_mul, Nat.zero_add, hdigit, Nat.toDigits_zero, ← List.replicate_succ']
  · refine ⟨zeros, False.elim, ?_⟩
    rw [List.append_assoc, ← hdigit, Nat.toDigits_append_toDigits (by decide) hn hd, Nat.mul_comm]

theorem numeral_of_digits? (hne : cs ≠ []) (h : digits? 10 0 cs = some n) : Numeral False n cs := by
  induction cs using List.reverseRecOn generalizing n with
  | nil => exact absurd rfl hne
  | append_singleton cs c ih =>
    rw [digits?_append_singleton] at h
    obtain ⟨m, hm, h⟩ := Option.bind_eq_some_iff.1 h
    obtain ⟨d, hc, rfl⟩ := Option.map_eq_some_iff.1 h
    obtain ⟨hd, rfl⟩ := digit?_ten_eq_some_iff.1 hc
    by_cases hcs : cs = []
    · subst hcs
      obtain rfl : 0 = m := Option.some.inj hm
      refine ⟨0, False.elim, ?_⟩
      rw [Nat.zero_mul, Nat.zero_add, Nat.toDigits_of_lt_base hd]
      rfl
    · exact (ih hcs hm).append_digit hd

theorem digits?_toDigits (n : Nat) : digits? 10 0 (Nat.toDigits 10 n) = some n := by
  induction n using Nat.strongRecOn with
  | ind n ih =>
    have hdigit {d : Nat} (hd : d < 10) : digit? 10 (Nat.digitChar d) = some d :=
      digit?_ten_eq_some_iff.2 ⟨hd, rfl⟩
    by_cases hn : n < 10
    · rw [Nat.toDigits_of_lt_base hn]
      simp only [digits?, hdigit hn, Option.bind_some, Nat.zero_mul, Nat.zero_add]
    · have hless : n / 10 < n := by omega
      rw [Nat.toDigits_of_base_le (by decide) (by omega), digits?_append_singleton, ih _ hless,
        Option.bind_some, hdigit (Nat.mod_lt n (by decide)), Option.map_some, Nat.mul_comm,
        Nat.div_add_mod]

theorem digits?_replicate_zero (zeros : Nat) : digits? 10 0 (List.replicate zeros '0') = some 0 := by
  induction zeros with
  | zero => rfl
  | succ zeros ih => exact ih

/-- The text of a numeral is read as its number, and no other text is read. -/
theorem numeral?_eq_some_iff : numeral? 10 cs = some n ↔ Numeral False n cs := by
  constructor
  · intro h
    cases cs with
    | nil => cases h
    | cons c cs => exact numeral_of_digits? (List.cons_ne_nil c cs) h
  · intro h
    have hne := h.ne_nil
    obtain ⟨zeros, -, rfl⟩ := h
    have hread : numeral? 10 (List.replicate zeros '0' ++ Nat.toDigits 10 n) =
        digits? 10 0 (List.replicate zeros '0' ++ Nat.toDigits 10 n) := by
      cases hcs : List.replicate zeros '0' ++ Nat.toDigits 10 n with
      | nil => exact absurd hcs hne
      | cons => rfl
    rw [hread, digits?_append, digits?_replicate_zero, Option.bind_some, digits?_toDigits]

theorem isDigit_of_ascii (h : c.isDigit = true) : isDigit c = true := by
  simp only [Char.isDigit, ge_iff_le, Bool.and_eq_true, decide_eq_true_eq, UInt32.le_iff_toNat_le] at h
  refine List.any_eq_true.2 ⟨(0x30, 0x39), List.mem_cons_self, ?_⟩
  simpa using h

theorem Numeral.digits (h : Numeral strict n cs) : Digits cs := by
  refine ⟨h.ne_nil, fun c hc => ?_⟩
  obtain ⟨zeros, -, rfl⟩ := h
  rcases List.mem_append.1 hc with hc | hc
  · rw [List.eq_of_mem_replicate hc]
    rfl
  · exact isDigit_of_ascii (Nat.isDigit_of_mem_toDigits (by decide) (by decide) hc)

end Promises.Text
