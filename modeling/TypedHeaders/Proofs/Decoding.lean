import TypedHeaders.Text.Utf8

/-!
# Decoding undoes encoding

Lossy decoding loses nothing of what was encoded: `decode_encode`. The octets of one character are
read as that character, and nothing is left begun after them (`decodeFrom_utf8EncodeChar`), so the
characters of a text come out one after another.

A character has one to four octets. The first tells how many there are and bounds the second
(`first_of_two`, `first_of_three`, `first_of_four`); each of the others carries six bits.
-/

set_option autoImplicit false

namespace TypedHeaders.Text.Utf8

theorem toNat_ofNat_octet {n : Nat} (h : n < 256) : (UInt8.ofNat n).toNat = n := by
  rw [UInt8.toNat_ofNat', Nat.mod_eq_of_lt h]

/-- The last octet of a begun character completes it. -/
theorem decodeFrom_last {p : Begun} {b : UInt8} {n : Nat} (bs : List UInt8)
    (hb : b.toNat = n + 128) (howed : p.owed = 1) (hleast : p.least ≤ n + 128)
    (hgreatest : n + 128 ≤ p.greatest) :
    decodeFrom (some p) (b :: bs) = Char.ofNat (p.bits * 64 + n) :: decodeFrom none bs := by
  simp [decodeFrom_cons, step, Begun.extend, hb, hleast, hgreatest, howed]

/-- An octet before the last one adds its bits to the begun character. -/
theorem decodeFrom_next {p : Begun} {b : UInt8} {n : Nat} (bs : List UInt8)
    (hb : b.toNat = n + 128) (howed : 1 < p.owed) (hleast : p.least ≤ n + 128)
    (hgreatest : n + 128 ≤ p.greatest) :
    decodeFrom (some p) (b :: bs)
      = decodeFrom (some ⟨p.bits * 64 + n, p.owed - 1, 0x80, 0xBF, by decide⟩) bs := by
  simp [decodeFrom_cons, step, Begun.extend, hb, hleast, hgreatest, Nat.not_le.mpr howed]

/-- The first of two octets. -/
theorem first_of_two {b : UInt8} {n : Nat} (hb : b.toNat = n + 192) (hleast : 2 ≤ n)
    (hn : n < 32) : first b = ([], some ⟨n, 1, 0x80, 0xBF, by decide⟩) := by
  unfold first
  simp only [hb]
  rw [if_neg (by omega), if_pos (by omega)]
  simp

/-- What the first of three octets begins takes any octet that leads neither to a longer form than
needed nor to a surrogate. -/
theorem first_of_three {b : UInt8} {n m : Nat} (hb : b.toNat = n + 224) (hn : n < 16)
    (hm : m < 64) (hform : 0 < n ∨ 32 ≤ m) (hsurrogate : n ≠ 13 ∨ m < 32) :
    ∃ p, first b = ([], some p) ∧ p.bits = n ∧ p.owed = 2
      ∧ p.least ≤ m + 128 ∧ m + 128 ≤ p.greatest := by
  unfold first
  simp only [hb]
  rw [if_neg (by omega), if_neg (by omega)]
  -- E0 and ED have bounds of their own
  by_cases hzero : n = 0
  · rw [if_pos (by omega)]
    exact ⟨_, rfl, hzero.symm, rfl, by simp only; omega, by simp only; omega⟩
  rw [if_neg (by omega)]
  by_cases hthirteen : n = 13
  · rw [if_pos (by omega)]
    exact ⟨_, rfl, by simp, rfl, by simp, by simp only; omega⟩
  rw [if_neg (by omega), if_pos (by omega)]
  exact ⟨_, rfl, by simp, rfl, by simp, by simp only; omega⟩

/-- What the first of four octets begins takes any octet that leads neither to a longer form than
needed nor beyond the last character. -/
theorem first_of_four {b : UInt8} {n m : Nat} (hb : b.toNat = n + 240) (hn : n < 5)
    (hm : m < 64) (hform : 0 < n ∨ 16 ≤ m) (hlast : n ≠ 4 ∨ m < 16) :
    ∃ p, first b = ([], some p) ∧ p.bits = n ∧ p.owed = 3
      ∧ p.least ≤ m + 128 ∧ m + 128 ≤ p.greatest := by
  unfold first
  simp only [hb]
  rw [if_neg (by omega), if_neg (by omega), if_neg (by omega), if_neg (by omega),
    if_neg (by omega)]
  -- F0 and F4 have bounds of their own
  by_cases hzero : n = 0
  · rw [if_pos (by omega)]
    exact ⟨_, rfl, hzero.symm, rfl, by simp only; omega, by simp only; omega⟩
  rw [if_neg (by omega)]
  by_cases hfour : n = 4
  · rw [if_pos (by omega)]
    exact ⟨_, rfl, by simp, rfl, by simp, by simp only; omega⟩
  rw [if_neg (by omega), if_pos (by omega)]
  exact ⟨_, rfl, by simp, rfl, by simp, by simp only; omega⟩

/-- Two octets of a character are read as it. -/
theorem decodeFrom_two {b₁ b₂ : UInt8} {x y : Nat} (bs : List UInt8) (h₁ : b₁.toNat = x + 192)
    (h₂ : b₂.toNat = y + 128) (hleast : 2 ≤ x) (hx : x < 32) (hy : y < 64) :
    decodeFrom none (b₁ :: b₂ :: bs) = Char.ofNat (x * 64 + y) :: decodeFrom none bs := by
  rw [decodeFrom_cons, step, first_of_two h₁ hleast hx, List.nil_append]
  exact decodeFrom_last bs h₂ rfl (Nat.le_add_left 128 y) (by simp only; omega)

/-- Three octets of a character are read as it. -/
theorem decodeFrom_three {b₁ b₂ b₃ : UInt8} {x y z : Nat} (bs : List UInt8)
    (h₁ : b₁.toNat = x + 224) (h₂ : b₂.toNat = y + 128) (h₃ : b₃.toNat = z + 128) (hx : x < 16)
    (hy : y < 64) (hz : z < 64) (hform : 0 < x ∨ 32 ≤ y) (hsurrogate : x ≠ 13 ∨ y < 32) :
    decodeFrom none (b₁ :: b₂ :: b₃ :: bs)
      = Char.ofNat ((x * 64 + y) * 64 + z) :: decodeFrom none bs := by
  obtain ⟨p, hfirst, rfl, howed, hleast, hgreatest⟩ := first_of_three h₁ hx hy hform hsurrogate
  rw [decodeFrom_cons, step, hfirst, List.nil_append,
    decodeFrom_next _ h₂ (by omega) hleast hgreatest]
  exact decodeFrom_last bs h₃ (by simp [howed]) (Nat.le_add_left 128 z) (by simp only; omega)

/-- Four octets of a character are read as it. -/
theorem decodeFrom_four {b₁ b₂ b₃ b₄ : UInt8} {x y z t : Nat} (bs : List UInt8)
    (h₁ : b₁.toNat = x + 240) (h₂ : b₂.toNat = y + 128) (h₃ : b₃.toNat = z + 128)
    (h₄ : b₄.toNat = t + 128) (hx : x < 5) (hy : y < 64) (hz : z < 64) (ht : t < 64)
    (hform : 0 < x ∨ 16 ≤ y) (hlast : x ≠ 4 ∨ y < 16) :
    decodeFrom none (b₁ :: b₂ :: b₃ :: b₄ :: bs)
      = Char.ofNat (((x * 64 + y) * 64 + z) * 64 + t) :: decodeFrom none bs := by
  obtain ⟨p, hfirst, rfl, howed, hleast, hgreatest⟩ := first_of_four h₁ hx hy hform hlast
  rw [decodeFrom_cons, step, hfirst, List.nil_append,
    decodeFrom_next _ h₂ (by omega) hleast hgreatest,
    decodeFrom_next _ h₃ (by simp [howed]) (Nat.le_add_left 128 z) (by simp only; omega)]
  exact decodeFrom_last bs h₄ (by simp [howed]) (Nat.le_add_left 128 t) (by simp only; omega)

/-- The octets of a character are read as that character. -/
theorem decodeFrom_utf8EncodeChar (c : Char) (bs : List UInt8) :
    decodeFrom none (String.utf8EncodeChar c ++ bs) = c :: decodeFrom none bs := by
  have hvalid : c.val.toNat < 0xD800 ∨ 0xDFFF < c.val.toNat ∧ c.val.toNat < 0x110000 := c.valid
  have hchar : Char.ofNat c.val.toNat = c := Char.ofNat_toNat c
  rw [String.utf8EncodeChar.eq_def]
  dsimp only
  generalize c.val.toNat = v at hvalid hchar
  subst hchar
  -- one case for each number of octets
  split
  · rw [List.singleton_append, decodeFrom_cons, step, first_ascii, toNat_ofNat_octet]
    · rfl
    · omega
    · rw [toNat_ofNat_octet] <;> omega
  split
  · have hv : v = v / 64 % 32 * 64 + v % 64 := by omega
    rw [List.cons_append, List.singleton_append]
    rw [decodeFrom_two bs (toNat_ofNat_octet (by omega)) (toNat_ofNat_octet (by omega))
      (by omega) (by omega) (by omega), ← hv]
  split
  · have hv : v = (v / 4096 % 16 * 64 + v / 64 % 64) * 64 + v % 64 := by omega
    rw [List.cons_append, List.cons_append, List.singleton_append]
    rw [decodeFrom_three bs (toNat_ofNat_octet (by omega)) (toNat_ofNat_octet (by omega))
      (toNat_ofNat_octet (by omega)) (by omega) (by omega) (by omega) (by omega) (by omega), ← hv]
  · have hv : v = ((v / 262144 % 8 * 64 + v / 4096 % 64) * 64 + v / 64 % 64) * 64 + v % 64 := by
      omega
    rw [List.cons_append, List.cons_append, List.cons_append, List.singleton_append]
    rw [decodeFrom_four bs (toNat_ofNat_octet (by omega)) (toNat_ofNat_octet (by omega))
      (toNat_ofNat_octet (by omega)) (toNat_ofNat_octet (by omega)) (by omega) (by omega)
      (by omega) (by omega) (by omega) (by omega), ← hv]

/-- A text is read back from its octets. -/
theorem decode_encode (s : String) : decode (encode s) = s := by
  have hchars : ∀ cs : List Char, decodeFrom none (cs.flatMap String.utf8EncodeChar) = cs := by
    intro cs
    induction cs with
    | nil => rfl
    | cons c rest ih => rw [List.flatMap_cons, decodeFrom_utf8EncodeChar, ih]
  rw [decode, encode, hchars, String.ofList_toList]

end TypedHeaders.Text.Utf8
