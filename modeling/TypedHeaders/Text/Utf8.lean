/-!
# UTF-8 encoding and lossy decoding

`encode` writes a text as octets and `decode` reads any octets as a text. Decoding never fails:
each longest run of octets that begins a character and is then broken off, and each octet that
cannot begin one, becomes a single U+FFFD.

The reader is a machine that takes one octet at a time. Between octets it holds the character that
it has begun, if any: the bits so far, the octets still owed, and the bounds on the next one. An
octet out of bounds ends the begun character with U+FFFD and is then read as a first octet. An
ASCII octet therefore always comes out as its own character, whatever stands before it
(`toList_decode_append_ascii`).
-/

set_option autoImplicit false

namespace TypedHeaders.Text.Utf8

/-- The UTF-8 octets of a text. -/
def encode (s : String) : List UInt8 := s.toList.flatMap String.utf8EncodeChar

/-- What stands for an ill-formed run of octets: U+FFFD. -/
def replacement : Char := Char.ofNat 0xFFFD

/-- A character whose first octets have been read: the value of their bits, how many octets are
owed, and the least and the greatest octet that may come next. No ASCII octet may come next. -/
structure Begun where
  bits : Nat
  owed : Nat
  least : Nat
  greatest : Nat
  ascii_lt_least : 0x7F < least

/-- The reading of one octet: the characters that it completes, and the character begun after it. -/
abbrev Decoded := List Char × Option Begun

/-- Read an octet that follows no begun character. The tighter bounds after E0 and F0 rule out
longer forms than needed, after ED the surrogates, and after F4 all beyond U+10FFFF. -/
def first (b : UInt8) : Decoded :=
  let n := b.toNat
  if n < 0x80 then ([Char.ofNat n], none)
  else if 0xC2 ≤ n ∧ n ≤ 0xDF then ([], some ⟨n - 0xC0, 1, 0x80, 0xBF, by decide⟩)
  else if n = 0xE0 then ([], some ⟨0, 2, 0xA0, 0xBF, by decide⟩)
  else if n = 0xED then ([], some ⟨n - 0xE0, 2, 0x80, 0x9F, by decide⟩)
  else if 0xE1 ≤ n ∧ n ≤ 0xEF then ([], some ⟨n - 0xE0, 2, 0x80, 0xBF, by decide⟩)
  else if n = 0xF0 then ([], some ⟨0, 3, 0x90, 0xBF, by decide⟩)
  else if n = 0xF4 then ([], some ⟨n - 0xF0, 3, 0x80, 0x8F, by decide⟩)
  else if 0xF1 ≤ n ∧ n ≤ 0xF3 then ([], some ⟨n - 0xF0, 3, 0x80, 0xBF, by decide⟩)
  else ([replacement], none)

/-- Add an octet within bounds to a begun character. -/
def Begun.extend (p : Begun) (b : UInt8) : Decoded :=
  let bits := p.bits * 64 + (b.toNat - 0x80)
  if p.owed ≤ 1 then ([Char.ofNat bits], none)
  else ([], some ⟨bits, p.owed - 1, 0x80, 0xBF, by decide⟩)

/-- Read one octet. -/
def step : Option Begun → UInt8 → Decoded
  | none, b => first b
  | some p, b =>
      if p.least ≤ b.toNat ∧ b.toNat ≤ p.greatest then p.extend b
      else (replacement :: (first b).1, (first b).2)

/-- The characters of the octets, read after the begun character if there is one. -/
def decodeFrom : Option Begun → List UInt8 → List Char
  | none, [] => []
  | some _, [] => [replacement]
  | p, b :: bs => (step p b).1 ++ decodeFrom (step p b).2 bs

/-- The text that the octets stand for. -/
def decode (bs : List UInt8) : String := String.ofList (decodeFrom none bs)

@[simp] theorem toList_decode (bs : List UInt8) : (decode bs).toList = decodeFrom none bs := by
  simp [decode]

@[simp] theorem decode_nil : decode [] = "" := rfl

/-- What the octets read so far still put out if no further octet comes. -/
def flush : Option Begun → List Char
  | none => []
  | some _ => [replacement]

theorem decodeFrom_nil (p : Option Begun) : decodeFrom p [] = flush p := by
  cases p with
  | none => rfl
  | some b => rfl

theorem decodeFrom_cons (p : Option Begun) (b : UInt8) (bs : List UInt8) :
    decodeFrom p (b :: bs) = (step p b).1 ++ decodeFrom (step p b).2 bs := by
  cases p with
  | none => rfl
  | some q => rfl

theorem first_ascii {b : UInt8} (h : b.toNat < 0x80) : first b = ([Char.ofNat b.toNat], none) := by
  simp [first, h]

/-- An ASCII octet ends the begun character and comes out as itself. -/
theorem step_ascii (p : Option Begun) {b : UInt8} (h : b.toNat < 0x80) :
    step p b = (flush p ++ [Char.ofNat b.toNat], none) := by
  cases p with
  | none => simp [step, flush, first_ascii h]
  | some q =>
      have hq : ¬ (q.least ≤ b.toNat ∧ b.toNat ≤ q.greatest) := by
        have := q.ascii_lt_least
        omega
      simp [step, flush, if_neg hq, first_ascii h]

/-- Octets after an ASCII octet are read as if nothing stood before them. -/
theorem decodeFrom_append_ascii (p : Option Begun) (front back : List UInt8) {b : UInt8}
    (h : b.toNat < 0x80) :
    decodeFrom p (front ++ b :: back)
      = decodeFrom p front ++ Char.ofNat b.toNat :: decodeFrom none back := by
  induction front generalizing p with
  | nil => simp [decodeFrom_cons, decodeFrom_nil, step_ascii p h]
  | cons a rest ih => simp [decodeFrom_cons, ih]

/-- An ASCII octet parts the octets before it from those after it. -/
theorem toList_decode_append_ascii (front back : List UInt8) {b : UInt8} (h : b.toNat < 0x80) :
    (decode (front ++ b :: back)).toList
      = (decode front).toList ++ Char.ofNat b.toNat :: (decode back).toList := by
  simp [decodeFrom_append_ascii none front back h]

end TypedHeaders.Text.Utf8
