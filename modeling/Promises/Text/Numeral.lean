namespace Promises.Text

/-- What a character counts as a digit of a base. -/
def digit? (base : Nat) (c : Char) : Option Nat :=
  let value :=
    if '0' ≤ c ∧ c ≤ '9' then some (c.toNat - '0'.toNat)
    else if 'a' ≤ c ∧ c ≤ 'f' then some (c.toNat - 'a'.toNat + 10)
    else if 'A' ≤ c ∧ c ≤ 'F' then some (c.toNat - 'A'.toNat + 10)
    else none
  value.filter (· < base)

/-- The number that digits stand for after those of `n`, the most significant first. -/
def digits? (base n : Nat) : List Char → Option Nat
  | [] => some n
  | c :: cs => (digit? base c).bind fun d => digits? base (n * base + d) cs

/-- The number that one digit or more stand for. -/
def numeral? (base : Nat) : List Char → Option Nat
  | [] => none
  | cs => digits? base 0 cs

/-- A number of 32 bits in base ten, before which a plus sign may stand. -/
def word32? (cs : List Char) : Option UInt32 :=
  let n? := match cs with
    | '+' :: digits => numeral? 10 digits
    | digits => numeral? 10 digits
  (n?.filter (· < UInt32.size)).map Nat.toUInt32

end Promises.Text
