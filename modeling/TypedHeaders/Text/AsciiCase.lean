/-!
# Equality that ignores ASCII case

Header names, keys and variant names are compared with `sameName`, which lets `A` to `Z` stand for
`a` to `z` and tells all other characters apart. `foldCase` gives the lower-case form that decides
it, so the comparison is an equivalence (`sameName_refl`, `sameName_symm`, `sameName_trans`).
-/

set_option autoImplicit false

namespace TypedHeaders.Text

/-- The text with `A` to `Z` in lower case and every other character as it is. -/
def foldCase (s : String) : String := s.map Char.toLower

/-- Equality of two texts up to the case of ASCII letters. -/
def sameName (a b : String) : Bool := foldCase a == foldCase b

@[simp] theorem toList_foldCase (s : String) :
    (foldCase s).toList = s.toList.map Char.toLower := by
  simp [foldCase]

/-- A character is its own small letter unless it is one of the 26 capital letters. -/
theorem toLower_eq_or_capital (c : Char) :
    c.toLower = c ∨ ∃ n : Fin 26, c = Char.ofNat (n.val + 65) := by
  by_cases hcapital : c.val ≥ 'A'.val ∧ c.val ≤ 'Z'.val
  · right
    have hleast : 65 ≤ c.val.toNat := hcapital.1
    have hgreatest : c.val.toNat ≤ 90 := hcapital.2
    refine ⟨⟨c.val.toNat - 65, by omega⟩, ?_⟩
    rw [Nat.sub_add_cancel hleast]
    exact (Char.ofNat_toNat c).symm
  · left
    exact dif_neg hcapital

theorem toLower_toLower (c : Char) : c.toLower.toLower = c.toLower := by
  rcases toLower_eq_or_capital c with hsame | ⟨n, rfl⟩
  · rw [hsame, hsame]
  · -- each of the 26 capital letters
    revert n
    decide

/-- A text in lower case stays as it is. -/
theorem foldCase_foldCase (s : String) : foldCase (foldCase s) = foldCase s := by
  rw [← String.toList_inj, toList_foldCase, toList_foldCase, List.map_map]
  exact List.map_congr_left fun c _ => toLower_toLower c

theorem sameName_iff {a b : String} : sameName a b = true ↔ foldCase a = foldCase b := by
  simp [sameName]

@[simp] theorem sameName_refl (a : String) : sameName a a = true := by
  simp [sameName]

theorem sameName_symm (a b : String) : sameName a b = sameName b a := by
  rw [sameName, sameName, Bool.beq_comm]

theorem sameName_trans {a b c : String} (hab : sameName a b = true) (hbc : sameName b c = true) :
    sameName a c = true :=
  sameName_iff.mpr ((sameName_iff.mp hab).trans (sameName_iff.mp hbc))

end TypedHeaders.Text
