/-!
# Reading and writing integers

An integer is written as an optional sign and one or more ASCII digits. `read?` gives the value of
such a text and refuses every other, `readWord?` also refuses a value outside the range of 64 bits,
and `write` is the shortest such text. Reading what was written gives the integer back
(`read_write`, `readWord_write`).
-/

set_option autoImplicit false

namespace TypedHeaders.Number

/-- Whether a text begins with a minus sign, and what follows its sign if it has one. -/
def takeSign : List Char → Bool × List Char
  | '+' :: cs => (false, cs)
  | '-' :: cs => (true, cs)
  | cs => (false, cs)

/-- A numeral: one or more ASCII digits. -/
def isNumeral (cs : List Char) : Bool := !cs.isEmpty && cs.all Char.isDigit

/-- The value of a numeral. -/
def readNat? (cs : List Char) : Option Nat :=
  if isNumeral cs then some (Nat.ofDigitChars 10 cs 0) else none

namespace Integer

/-- The value of an optional sign followed by a numeral. -/
def read? (cs : List Char) : Option Int :=
  (readNat? (takeSign cs).2).map fun n => if (takeSign cs).1 then -(n : Int) else n

/-- The integers that 64 bits hold. -/
def InRange (n : Int) : Prop := Int64.minValue.toInt ≤ n ∧ n ≤ Int64.maxValue.toInt

instance (n : Int) : Decidable (InRange n) := inferInstanceAs (Decidable (_ ∧ _))

/-- The value of an integer's text, if 64 bits hold it. -/
def readWord? (cs : List Char) : Option Int64 :=
  (read? cs).bind fun n => if InRange n then some (Int64.ofInt n) else none

/-- The text of an integer: a minus sign if it is negative, and no leading zeros. -/
def write (n : Int) : List Char :=
  if n < 0 then '-' :: Nat.toDigits 10 n.natAbs else Nat.toDigits 10 n.natAbs

/-- The text of a 64-bit integer. -/
def text (n : Int64) : String := String.ofList (write n.toInt)

end Integer

theorem isNumeral_toDigits (n : Nat) : isNumeral (Nat.toDigits 10 n) = true := by
  have hall : (Nat.toDigits 10 n).all Char.isDigit = true :=
    List.all_eq_true.mpr fun c hc => Nat.isDigit_of_mem_toDigits (by decide) (by decide) hc
  have hne : (Nat.toDigits 10 n).isEmpty = false := by
    rw [Nat.toDigits_eq_if (by decide)]
    split <;> simp
  rw [isNumeral, hall, hne]
  rfl

/-- Reading the digits of a number gives the number. -/
theorem readNat_toDigits (n : Nat) : readNat? (Nat.toDigits 10 n) = some n := by
  rw [readNat?, if_pos (isNumeral_toDigits n), Nat.ofDigitChars_ten_toDigits]

/-- A text that begins with a digit has no sign to take. -/
theorem takeSign_of_isNumeral {cs : List Char} (h : isNumeral cs = true) :
    takeSign cs = (false, cs) := by
  cases cs with
  | nil => rfl
  | cons c rest =>
      have hc : c.isDigit = true := by
        simp [isNumeral] at h
        exact h.1
      unfold takeSign
      split
      · next heq => cases heq; exact absurd hc (by decide)
      · next heq => cases heq; exact absurd hc (by decide)
      · rfl

namespace Integer

/-- Reading the text of an integer gives the integer. -/
theorem read_write (n : Int) : read? (write n) = some n := by
  unfold write
  split
  · next hneg =>
      rw [read?, show takeSign ('-' :: Nat.toDigits 10 n.natAbs)
        = (true, Nat.toDigits 10 n.natAbs) from rfl, readNat_toDigits]
      show some (-(n.natAbs : Int)) = some n
      exact congrArg some (by omega)
  · next hpos =>
      rw [read?, takeSign_of_isNumeral (isNumeral_toDigits _), readNat_toDigits]
      show some (n.natAbs : Int) = some n
      exact congrArg some (by omega)

theorem inRange_toInt (n : Int64) : InRange n.toInt :=
  ⟨Int64.minValue_le_toInt n, Int64.toInt_le n⟩

/-- Reading the text of a 64-bit integer gives the integer. -/
theorem readWord_write (n : Int64) : readWord? (write n.toInt) = some n := by
  rw [readWord?, read_write, Option.bind_some, if_pos (inRange_toInt n), Int64.ofInt_toInt]

end Integer

end TypedHeaders.Number
