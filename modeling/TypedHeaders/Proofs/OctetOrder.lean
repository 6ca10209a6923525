import TypedHeaders.Proofs.Decoding
import Mathlib.Tactic.SplitIfs

/-!
# The order of texts and of their octets

Texts are ordered by their code points, and UTF-8 keeps this order: of two texts the one that comes
first also has the octets that come first (`encode_lt_encode_iff`). Sorting by octets is therefore
sorting by code points.

A character with more octets starts with a greater one. Two characters with as many octets carry
their numbers in groups of six bits, the highest first, so the first group that differs decides
(`utf8EncodeChar_append_lt`).
-/

set_option autoImplicit false

namespace TypedHeaders.Text.Utf8

theorem ofNat_cons_lt_iff {x y : Nat} {s t : List UInt8} (hx : x < 256) (hy : y < 256) :
    UInt8.ofNat x :: s < UInt8.ofNat y :: t ↔ x < y ∨ x = y ∧ s < t := by
  rw [List.cons_lt_cons_iff, UInt8.lt_iff_toNat_lt, ← UInt8.toNat_inj, toNat_ofNat_octet hx,
    toNat_ofNat_octet hy]

/-- The last six bits of two numbers count only if the rest of them is the same. -/
theorem lt_iff_div_mod {x y : Nat} :
    x < y ↔ x / 64 < y / 64 ∨ x / 64 = y / 64 ∧ x % 64 < y % 64 := by
  omega

/-- The octets of a character come before those of a greater one, whatever follows them. -/
theorem utf8EncodeChar_append_lt {a b : Char} (h : a < b) (s t : List UInt8) :
    String.utf8EncodeChar a ++ s < String.utf8EncodeChar b ++ t := by
  have hlt : a.val.toNat < b.val.toNat := h
  have hvalid : b.val.toNat < 0xD800 ∨ 0xDFFF < b.val.toNat ∧ b.val.toNat < 0x110000 := b.valid
  rw [String.utf8EncodeChar.eq_def, String.utf8EncodeChar.eq_def]
  dsimp only
  generalize a.val.toNat = x at hlt
  generalize b.val.toNat = y at hlt hvalid
  have hlow : x / 64 < y / 64 ∨ x / 64 = y / 64 ∧ x % 64 < y % 64 := lt_iff_div_mod.mp hlt
  have hmiddle : x / 64 < y / 64 ↔
      x / 4096 < y / 4096 ∨ x / 4096 = y / 4096 ∧ x / 64 % 64 < y / 64 % 64 := by
    rw [lt_iff_div_mod, Nat.div_div_eq_div_mul, Nat.div_div_eq_div_mul]
  have hhigh : x / 4096 < y / 4096 ↔
      x / 262144 < y / 262144 ∨ x / 262144 = y / 262144 ∧ x / 4096 % 64 < y / 4096 % 64 := by
    rw [lt_iff_div_mod, Nat.div_div_eq_div_mul, Nat.div_div_eq_div_mul]
  have hx : x / 262144 % 8 = x / 262144 := by omega
  have hy : y / 262144 % 8 = y / 262144 := by omega
  -- one case for each number of octets of the one and of the other
  split_ifs
  all_goals
    simp (disch := omega) only [List.cons_append, List.nil_append, ofNat_cons_lt_iff]
    omega

/-- The first characters that differ decide which octets come first. -/
theorem flatMap_utf8EncodeChar_lt {cs ds : List Char} (h : List.Lex (· < ·) cs ds) :
    cs.flatMap String.utf8EncodeChar < ds.flatMap String.utf8EncodeChar := by
  induction h with
  | @nil d rest =>
      have hne : (d :: rest).flatMap String.utf8EncodeChar ≠ [] := by
        rw [List.flatMap_cons]
        exact List.append_ne_nil_of_left_ne_nil String.utf8EncodeChar_ne_nil _
      obtain ⟨octet, more, hcons⟩ := List.exists_cons_of_ne_nil hne
      rw [hcons]
      exact List.nil_lt_cons octet more
  | @rel c _ d _ hlt => exact utf8EncodeChar_append_lt hlt _ _
  | @cons _ _ _ _ ih => exact List.append_left_lt ih

theorem encode_lt_encode {s t : String} (h : s < t) : encode s < encode t :=
  flatMap_utf8EncodeChar_lt h

/-- UTF-8 keeps the order of texts. -/
theorem encode_lt_encode_iff {s t : String} : encode s < encode t ↔ s < t := by
  refine ⟨fun h => ?_, encode_lt_encode⟩
  apply String.not_le.mp
  intro hle
  -- the second text would come first, or be the same
  by_cases hlt : t < s
  · exact List.lt_asymm h (encode_lt_encode hlt)
  · obtain rfl : s = t := String.le_antisymm (String.not_lt.mp hlt) hle
    exact List.lt_irrefl _ h

end TypedHeaders.Text.Utf8
