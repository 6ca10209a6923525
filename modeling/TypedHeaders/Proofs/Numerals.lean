import TypedHeaders.Proofs.IntegerLists
import TypedHeaders.Proofs.Trimming

/-!
# Which tokens are integers

The texts of integers are given by a grammar: `Digits` relates a numeral to its number, digit by
digit, and `Integer.Denotes` adds the sign. A token is converted to an integer exactly if it is such
a text, blanks around it aside, and 64 bits hold what it denotes (`integer_iff`). No other integer
comes out: a numeral that is too long, by one or by a thousand digits, is refused like a text that is
no numeral at all.

The reader reads a numeral as it is, without a bound, and looks at the range afterwards. So each of
its stages has an exact law: the digits (`readNat_eq_some_iff`), the sign (`read_eq_some_iff`), and
the range, the two ends of which differ by one (`readWord_eq_some_iff`).
-/

set_option autoImplicit false

namespace TypedHeaders.Number

open TypedHeaders.Text

/-- A numeral and its number. One more digit makes ten times as much of the number, and the digit. -/
inductive Digits : List Char → Nat → Prop
  /-- A numeral of one digit. -/
  | single {c : Char} : c.isDigit = true → Digits [c] (c.toNat - '0'.toNat)
  /-- A numeral with one more digit at its end. -/
  | concat {cs : List Char} {n : Nat} {c : Char} :
      Digits cs n → c.isDigit = true → Digits (cs ++ [c]) (10 * n + (c.toNat - '0'.toNat))

namespace Integer

/-- The text of an integer and the integer: a numeral with a sign in front of it, or without. -/
inductive Denotes : List Char → Int → Prop
  | unsigned {cs : List Char} {n : Nat} : Digits cs n → Denotes cs n
  | plus {cs : List Char} {n : Nat} : Digits cs n → Denotes ('+' :: cs) n
  | minus {cs : List Char} {n : Nat} : Digits cs n → Denotes ('-' :: cs) (-n)

end Integer

/-! ## Numerals -/

theorem isNumeral_iff {cs : List Char} :
    isNumeral cs = true ↔ cs ≠ [] ∧ ∀ c ∈ cs, c.isDigit = true := by
  rw [isNumeral, Bool.and_eq_true, Bool.not_eq_true', List.isEmpty_eq_false_iff, List.all_eq_true]

/-- One more digit at the end of a numeral. -/
theorem ofDigitChars_concat (cs : List Char) (c : Char) :
    Nat.ofDigitChars 10 (cs ++ [c]) 0 =
      10 * Nat.ofDigitChars 10 cs 0 + (c.toNat - '0'.toNat) := by
  rw [Nat.ofDigitChars_append, Nat.ofDigitChars_cons]
  rfl

theorem digits_of_isNumeral {cs : List Char} (h : isNumeral cs = true) :
    Digits cs (Nat.ofDigitChars 10 cs 0) := by
  -- the reader folds from the front, but the value is known digit by digit from the end
  induction cs using List.reverseRecOn with
  | nil => cases h
  | append_singleton cs c ih =>
      obtain ⟨-, hdigits⟩ := isNumeral_iff.mp h
      have hc : c.isDigit = true := hdigits c (List.mem_append_right cs List.mem_cons_self)
      rw [ofDigitChars_concat]
      by_cases hnil : cs = []
      · subst hnil
        have hsingle := Digits.single hc
        rwa [← Nat.zero_add (c.toNat - '0'.toNat)] at hsingle
      · have hcs : ∀ d ∈ cs, d.isDigit = true := fun d hd => hdigits d (List.mem_append_left [c] hd)
        exact .concat (ih (isNumeral_iff.mpr ⟨hnil, hcs⟩)) hc

theorem Digits.isNumeral {cs : List Char} {n : Nat} (h : Digits cs n) :
    isNumeral cs = true ∧ Nat.ofDigitChars 10 cs 0 = n := by
  induction h with
  | single hc =>
      refine ⟨isNumeral_iff.mpr ⟨List.cons_ne_nil _ _, ?_⟩, ?_⟩
      · intro d hd
        rwa [List.mem_singleton.mp hd]
      · exact Nat.zero_add _
  | concat _ hc ih =>
      obtain ⟨hnumeral, hvalue⟩ := ih
      obtain ⟨-, hdigits⟩ := isNumeral_iff.mp hnumeral
      refine ⟨isNumeral_iff.mpr ⟨List.append_ne_nil_of_right_ne_nil _ (List.cons_ne_nil _ _), ?_⟩, ?_⟩
      · intro d hd
        rcases List.mem_append.mp hd with hfirst | hlast
        · exact hdigits d hfirst
        · rwa [List.mem_singleton.mp hlast]
      · rw [ofDigitChars_concat, hvalue]

/-- The numerals are what is read, each as its number. -/
theorem readNat_eq_some_iff {cs : List Char} {n : Nat} : readNat? cs = some n ↔ Digits cs n := by
  rw [readNat?]
  constructor
  · intro h
    obtain ⟨hnumeral, hvalue⟩ := Option.ite_none_right_eq_some.mp h
    have hdigits := digits_of_isNumeral hnumeral
    rwa [Option.some.inj hvalue] at hdigits
  · intro h
    obtain ⟨hnumeral, hvalue⟩ := h.isNumeral
    rw [if_pos hnumeral, hvalue]

/-! ## Signs -/

/-- A sign is taken from a text that begins with one, and nothing from any other. -/
theorem takeSign_eq (cs : List Char) :
    (∃ rest, cs = '+' :: rest ∧ takeSign cs = (false, rest)) ∨
      (∃ rest, cs = '-' :: rest ∧ takeSign cs = (true, rest)) ∨ takeSign cs = (false, cs) := by
  unfold takeSign
  split
  · next rest => exact Or.inl ⟨rest, rfl, rfl⟩
  · next rest => exact Or.inr (Or.inl ⟨rest, rfl, rfl⟩)
  · exact Or.inr (Or.inr rfl)

namespace Integer

/-- A minus sign changes the sign of the number behind it. -/
theorem read_eq_map (cs : List Char) :
    read? cs = Option.map (fun n : Nat => if (takeSign cs).1 then -(n : Int) else (n : Int))
      (readNat? (takeSign cs).2) := by
  rw [read?]
  cases readNat? (takeSign cs).2 with
  | none => rfl
  | some n => rfl

/-- The texts of integers are what is read, each as the integer. -/
theorem read_eq_some_iff {cs : List Char} {z : Int} : read? cs = some z ↔ Denotes cs z := by
  constructor
  · intro h
    rw [read_eq_map, Option.map_eq_some_iff] at h
    obtain ⟨n, hn, rfl⟩ := h
    have hdigits : Digits (takeSign cs).2 n := readNat_eq_some_iff.mp hn
    -- the sign that was taken says which rule of the grammar applies
    rcases takeSign_eq cs with ⟨rest, rfl, hsign⟩ | ⟨rest, rfl, hsign⟩ | hsign
    · rw [hsign] at hdigits ⊢
      exact .plus hdigits
    · rw [hsign] at hdigits ⊢
      exact .minus hdigits
    · rw [hsign] at hdigits ⊢
      exact .unsigned hdigits
  · intro h
    cases h with
    | unsigned hdigits =>
        rw [read?, takeSign_of_isNumeral hdigits.isNumeral.1, readNat_eq_some_iff.mpr hdigits]
        rfl
    | plus hdigits =>
        rw [read?, takeSign, readNat_eq_some_iff.mpr hdigits]
        rfl
    | minus hdigits =>
        rw [read?, takeSign, readNat_eq_some_iff.mpr hdigits]
        rfl

/-! ## The range -/

/-- The range has one integer more below zero than above. -/
theorem inRange_iff {z : Int} :
    InRange z ↔ -9223372036854775808 ≤ z ∧ z ≤ 9223372036854775807 := by
  have hleast : Int64.minValue.toInt = -9223372036854775808 := by decide
  have hgreatest : Int64.maxValue.toInt = 9223372036854775807 := by decide
  rw [InRange, hleast, hgreatest]

/-- Within the range nothing is lost. -/
theorem toInt_ofInt_of_inRange {z : Int} (h : InRange z) : (Int64.ofInt z).toInt = z := by
  obtain ⟨hleast, hgreatest⟩ := inRange_iff.mp h
  apply Int64.toInt_ofInt_of_le
  · omega
  · omega

theorem readWord_eq_some_iff {cs : List Char} {n : Int64} :
    readWord? cs = some n ↔ Denotes cs n.toInt := by
  rw [readWord?, Option.bind_eq_some_iff]
  constructor
  · rintro ⟨z, hz, hword⟩
    obtain ⟨hrange, hn⟩ := Option.ite_none_right_eq_some.mp hword
    rw [← Option.some.inj hn, toInt_ofInt_of_inRange hrange]
    exact read_eq_some_iff.mp hz
  · intro h
    exact ⟨n.toInt, read_eq_some_iff.mpr h, by rw [if_pos (inRange_toInt n), Int64.ofInt_toInt]⟩

/-- A text is refused exactly if it denotes nothing that 64 bits hold. -/
theorem readWord_eq_none_iff {cs : List Char} :
    readWord? cs = none ↔ ∀ z, Denotes cs z → ¬InRange z := by
  rw [readWord?, Option.bind_eq_none_iff]
  constructor
  · intro h z hz hrange
    have hword := h z (read_eq_some_iff.mpr hz)
    rw [if_pos hrange] at hword
    cases hword
  · intro h z hz
    exact if_neg (h z (read_eq_some_iff.mp hz))

end Integer

end TypedHeaders.Number

namespace TypedHeaders

open TypedHeaders.Text TypedHeaders.Number

theorem convert_integer_eq_ok_iff {raw : String} {v : Value} :
    convert .integer raw = .ok v ↔
      ∃ n : Int64, Integer.Denotes (trimList raw.toList) n.toInt ∧ v = .integer n := by
  unfold convert
  dsimp only
  constructor
  · intro h
    cases hread : Integer.readWord? (trimList raw.toList) with
    | none =>
        rw [hread] at h
        cases h
    | some n =>
        rw [hread] at h
        cases h
        exact ⟨n, Integer.readWord_eq_some_iff.mp hread, rfl⟩
  · rintro ⟨n, hdenotes, rfl⟩
    rw [Integer.readWord_eq_some_iff.mpr hdenotes]

theorem convert_integer_eq_error_iff {raw : String} {fault : Fault} :
    convert .integer raw = .error fault ↔
      fault = .invalidInteger ∧
        ∀ z, Integer.Denotes (trimList raw.toList) z → ¬Integer.InRange z := by
  rw [← Integer.readWord_eq_none_iff]
  unfold convert
  dsimp only
  cases Integer.readWord? (trimList raw.toList) with
  | none => simp [eq_comm]
  | some n => simp

/-- A token is converted to an integer exactly if it is the text of one within the range of 64 bits,
blanks around it aside, and it is converted to just that integer. In any other case the fault is that
it is no integer. So the text of each integer is converted back to it, with any blanks around it. -/
theorem integer_iff (raw : String) :
    (∀ v, convert .integer raw = .ok v ↔
      ∃ z, Integer.Denotes (trimList raw.toList) z ∧
        -9223372036854775808 ≤ z ∧ z ≤ 9223372036854775807 ∧
        ∃ n : Int64, n.toInt = z ∧ v = .integer n) ∧
      (∀ fault, convert .integer raw = .error fault ↔
        fault = .invalidInteger ∧ ∀ z, Integer.Denotes (trimList raw.toList) z →
          z < -9223372036854775808 ∨ 9223372036854775807 < z) ∧
      ∀ (n : Int64) (front back : String), isBlankText front = true → isBlankText back = true →
        convert .integer (front ++ Integer.text n ++ back) = .ok (.integer n) := by
  refine ⟨?_, ?_, ?_⟩
  · intro v
    rw [convert_integer_eq_ok_iff]
    constructor
    · rintro ⟨n, hdenotes, rfl⟩
      obtain ⟨hleast, hgreatest⟩ := Integer.inRange_iff.mp (Integer.inRange_toInt n)
      exact ⟨n.toInt, hdenotes, hleast, hgreatest, n, rfl, rfl⟩
    · rintro ⟨z, hdenotes, -, -, n, rfl, rfl⟩
      exact ⟨n, hdenotes, rfl⟩
  · intro fault
    rw [convert_integer_eq_error_iff]
    refine and_congr_right fun _ => forall_congr' fun z => imp_congr_right fun _ => ?_
    rw [Integer.inRange_iff]
    omega
  · intro n front back hfront hback
    have hkind : ScalarKind.integer ≠ .text := nofun
    rw [convert_padded hkind hfront hback, convert_text]

/-- The least integer of the range with blanks around it, one more than the greatest, and a numeral
with a plus sign and zeros in front. -/
theorem integer_iff_at_ends :
    isBlankText "\u3000 " = true ∧ isBlankText "\t" = true ∧
      convert .integer ("\u3000 " ++ Integer.text Int64.minValue ++ "\t") =
        .ok (.integer Int64.minValue) ∧
      convert .integer "9223372036854775808" = .error .invalidInteger ∧
      convert .integer " +007 " = .ok (.integer 7) := by
  have hfront : isBlankText "\u3000 " = true := by decide +kernel
  have hback : isBlankText "\t" = true := by decide +kernel
  refine ⟨hfront, hback, ?_, ?_, ?_⟩
  · exact (integer_iff "").2.2 Int64.minValue "\u3000 " "\t" hfront hback
  · refine ((integer_iff _).2.1 _).mpr ⟨rfl, ?_⟩
    intro z hz
    have hread : Integer.read? (trimList "9223372036854775808".toList) =
        some 9223372036854775808 := by decide +kernel
    have hvalue := Integer.read_eq_some_iff.mpr hz
    rw [hread] at hvalue
    cases hvalue
    right
    decide
  · refine ((integer_iff _).1 _).mpr ⟨7, ?_, by decide, by decide, 7, rfl, rfl⟩
    apply Integer.read_eq_some_iff.mp
    decide +kernel

end TypedHeaders
