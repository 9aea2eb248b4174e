import Promises.Proofs.Shell.Checkpoint
import Promises.Proofs.Value.Encoding

namespace Promises

namespace Shell

/-- A value that is no object, with an integer of any size. -/
inductive Datum
  | undefined
  | null
  | bool (b : Bool)
  | int (n : Int)
  | text (s : String)
deriving DecidableEq

/-- The value of an operand, unless it is that of a slot. -/
def Operand.datum? : Operand → Option Datum
  | .int n => some (.int n.toInt)
  | .bool b => some (.bool b)
  | .null => some .null
  | .undefined => some .undefined
  | .text s => some (.text s)
  | .slot _ => none

/-- What is printed for a value. -/
def Datum.printed : Datum → String
  | undefined => "undefined"
  | null => "null"
  | bool b => toString b
  | int n => toString n
  | text s => Text.quote s

/-- How a promise is settled, and with what. -/
abbrev Fate := ReactionKind × Datum

def Fate.state (o : Fate) : PromiseState :=
  match o.1 with
  | .fulfill => .fulfilled
  | .reject => .rejected

/-- A reaction to attach: to what way to settle, and the operation that it runs. -/
structure Link where
  kind : ReactionKind
  op : Op
deriving DecidableEq

/-- What an operation makes of a value: the exact sum or product if it has 31 bits. -/
def Op.fate (op : Op) (d : Datum) : Fate :=
  let exact (n : Int) : Fate := if -2 ^ 30 ≤ n ∧ n < 2 ^ 30 then (.fulfill, .int n) else (.reject, d)
  match op, d with
  | .id, _ => (.fulfill, d)
  | .throw, _ => (.reject, d)
  | .add n, .int i => exact (i + n.toInt)
  | .mul n, .int i => exact (i * n.toInt)
  | _, _ => (.reject, d)

/-- What becomes of the promise of a link. One that does not act passes on what it gets. -/
def Link.pass (o : Fate) (l : Link) : Fate := if l.kind = o.1 then l.op.fate o.2 else o

/-- What the links of a chain make of an outcome. -/
def folded (links : List Link) (o : Fate) : Fate := links.foldl Link.pass o

/-- How many links of a chain act. -/
def acting : List Link → Fate → ℕ
  | [], _ => 0
  | l :: links, o => (if l.kind = o.1 then 1 else 0) + acting links (l.pass o)

theorem acting_append (links more : List Link) (o : Fate) :
    acting (links ++ more) o = acting links o + acting more (folded links o) := by
  induction links generalizing o with
  | nil => exact (Nat.zero_add _).symm
  | cons l links ih =>
    rw [List.cons_append, acting, acting, ih, Nat.add_assoc]
    rfl

/-- The value as an engine stores it. -/
def Datum.managed : Datum → ManagedValue
  | undefined => .undefined
  | null => .null
  | bool b => .bool b
  | int n => .int (Int32.ofInt n)
  | text s => .string s

/-- Whether a value stays what it is: an integer has 31 bits, and a text is read as it was given. -/
structure Datum.Stays (r : String → String) (d : Datum) : Prop where
  small : ∀ n : Int, d = .int n → -2 ^ 30 ≤ n ∧ n < 2 ^ 30
  read : ∀ s : String, d = .text s → r s = s

variable {r : String → String} {d : Datum} {o : Fate}

/-- The operands of commands have 31 bits. -/
theorem Operand.Fits.stays {operand : Operand} (hf : operand.Fits) (hd : operand.datum? = some d)
    (hr : ∀ s : String, d = .text s → r s = s) : d.Stays r := by
  refine ⟨fun n hn => ?_, hr⟩
  subst hn
  cases operand with
  | int m =>
    obtain rfl : m.toInt = n := Datum.int.inj (Option.some.inj hd)
    have hmin : Value.minInt.toInt = -1073741824 := by decide
    have hmax : Value.maxInt.toInt = 1073741823 := by decide
    have hrange := Value.fits_iff.1 hf
    omega
  | _ => cases hd

/-- The value of an operand goes to the engine. -/
theorem Desk.operand_of_datum? {desk : Desk} {operand : Operand} (hd : operand.datum? = some d)
    (h : d.Stays desk.reading) : desk.operand operand = .ok d.managed := by
  cases operand with
  | int n =>
    obtain rfl := Option.some.inj hd
    show Except.ok (ManagedValue.int n) = .ok (.int (Int32.ofInt n.toInt))
    rw [Int32.ofInt_toInt]
  | text s =>
    obtain rfl := Option.some.inj hd
    exact congrArg (fun text => Except.ok (ManagedValue.string text)) (h.read s rfl)
  | slot slot => cases hd
  | _ =>
    obtain rfl := Option.some.inj hd
    rfl

theorem text_ofInt32 (n : Int32) : (Value.ofInt32 n).text = toString n.toInt := by
  have hviews := Value.views_ofInt32 n
  have hnull : (Value.ofInt32 n).isNull = false := congrArg Views.isNull hviews
  have hundefined : (Value.ofInt32 n).isUndefined = false := congrArg Views.isUndefined hviews
  have hbool : (Value.ofInt32 n).bool? = none := congrArg Views.bool? hviews
  rw [Value.text, hnull, hundefined, hbool, Value.int?_ofInt32]
  rfl

/-- What is printed for a value of the engine. -/
theorem Desk.shown_managed {desk : Desk} (h : d.Stays desk.reading) (a : Agent) :
    desk.shown d.managed a = d.printed := by
  cases d with
  | int n =>
    have hn := h.small n rfl
    have hback : (Int32.ofInt n).toInt = n := Int32.toInt_ofInt_of_le (by omega) (by omega)
    show (Value.ofInt32 (Int32.ofInt n)).text = toString n
    rw [text_ofInt32, hback]
  | text s => exact congrArg Text.quote (h.read s rfl)
  | bool b =>
    have hboth : ∀ b, (Value.bool b).text = toString b := by decide
    exact hboth b
  | undefined =>
    have hword : Value.undefined.text = "undefined" := by decide
    exact hword
  | null =>
    have hword : Value.null.text = "null" := by decide
    exact hword

theorem Datum.managed_ne_object (d : Datum) (ref : ObjectRef) : d.managed ≠ .object ref := by
  cases d <;> exact ManagedValue.noConfusion

theorem Datum.Stays.managed_read (h : d.Stays r) : d.managed.read r = d.managed := by
  cases d with
  | text s => exact congrArg ManagedValue.string (h.read s rfl)
  | _ => rfl

/-- An operation gives its argument on, or an integer of 31 bits. -/
theorem Op.fate_cases (op : Op) (d : Datum) :
    (op.fate d).2 = d ∨ ∃ n : Int, (op.fate d).2 = .int n ∧ -2 ^ 30 ≤ n ∧ n < 2 ^ 30 := by
  have hexact (n : Int) : (if -2 ^ 30 ≤ n ∧ n < 2 ^ 30 then (.fulfill, .int n) else (.reject, d) : Fate).2 = d ∨
      ∃ m : Int, (if -2 ^ 30 ≤ n ∧ n < 2 ^ 30 then (.fulfill, .int n) else (.reject, d) : Fate).2 = .int m ∧
        -2 ^ 30 ≤ m ∧ m < 2 ^ 30 := by
    split
    · exact .inr ⟨n, rfl, ‹_›⟩
    · exact .inl rfl
  cases op with
  | id => exact .inl rfl
  | throw => exact .inl rfl
  | add n =>
    cases d with
    | int i => exact hexact (i + n.toInt)
    | _ => exact .inl rfl
  | mul n =>
    cases d with
    | int i => exact hexact (i * n.toInt)
    | _ => exact .inl rfl

theorem Datum.Stays.fate (h : d.Stays r) (op : Op) : (op.fate d).2.Stays r := by
  rcases op.fate_cases d with hsame | ⟨n, hn, hsmall⟩
  · rw [hsame]
    exact h
  · rw [hn]
    exact ⟨fun m hm => by cases hm; exact hsmall, fun s hs => by cases hs⟩

theorem Datum.Stays.pass (h : o.2.Stays r) (l : Link) : (l.pass o).2.Stays r := by
  rw [Link.pass]
  split
  · exact h.fate l.op
  · exact h

theorem Datum.Stays.folded (h : o.2.Stays r) (links : List Link) : (folded links o).2.Stays r := by
  induction links generalizing o with
  | nil => exact h
  | cons l links ih => exact ih (h.pass l)

theorem isSome_ofInt?_iff (n : Int) : (Value.ofInt? n).isSome = true ↔ -2 ^ 30 ≤ n ∧ n < 2 ^ 30 := by
  have hmin : Value.minInt.toInt = -1073741824 := by decide
  have hmax : Value.maxInt.toInt = 1073741823 := by decide
  rw [Value.ofInt?, hmin, hmax]
  split
  · rename_i hin
    exact ⟨fun _ => by omega, fun _ => rfl⟩
  · rename_i hout
    constructor
    · intro h
      cases h
    · intro h
      omega

/-- The sum or the product of 32-bit words is the exact one, where the argument has 31 bits. -/
theorem Op.settlement_managed (op : Op) (h : d.Stays r) :
    op.settlement d.managed = ((op.fate d).1, (op.fate d).2.managed) := by
  have hexact (n : Int) :
      (if (Value.ofInt? n).isSome then (.fulfill, .int (Int32.ofInt n)) else (.reject, d.managed) :
        ReactionKind × ManagedValue) =
      let o : Fate := if -2 ^ 30 ≤ n ∧ n < 2 ^ 30 then (.fulfill, .int n) else (.reject, d)
      (o.1, o.2.managed) := by
    by_cases hn : -2 ^ 30 ≤ n ∧ n < 2 ^ 30
    · rw [if_pos ((isSome_ofInt?_iff n).2 hn), if_pos hn]
      rfl
    · rw [if_neg fun hs => hn ((isSome_ofInt?_iff n).1 hs), if_neg hn]
  cases d with
  | int i =>
    have hi := h.small i rfl
    have hback : (Int32.ofInt i).toInt = i := Int32.toInt_ofInt_of_le (by omega) (by omega)
    cases op with
    | id => rfl
    | throw => rfl
    | add n =>
      show (if (Value.ofInt? ((Int32.ofInt i).toInt + n.toInt)).isSome then _ else _) = _
      rw [hback]
      exact hexact (i + n.toInt)
    | mul n =>
      show (if (Value.ofInt? ((Int32.ofInt i).toInt * n.toInt)).isSome then _ else _) = _
      rw [hback]
      exact hexact (i * n.toInt)
  | _ => cases op <;> rfl

end Shell

end Promises
