/-!
# Blank characters and trimming

A character is blank when it has the Unicode property White_Space. `blankRanges` is the table of
that property and `isBlank` the test. `trim` removes the blanks at both ends of a text.

Trimming removes nothing but blanks (`exists_eq_append_trimList`), its result has no blank at
either end (`head_trimList`, `getLast_trimList`), and a text with none there is left as it is
(`trimList_eq_self`).
-/

set_option autoImplicit false

namespace TypedHeaders.Text

/-- The code points with the property White_Space, as ranges with both ends included. -/
def blankRanges : List (Nat × Nat) :=
  [(0x09, 0x0D), (0x20, 0x20), (0x85, 0x85), (0xA0, 0xA0), (0x1680, 0x1680), (0x2000, 0x200A),
    (0x2028, 0x2029), (0x202F, 0x202F), (0x205F, 0x205F), (0x3000, 0x3000)]

/-- A character is blank when its code point lies in one of the ranges. -/
def isBlank (c : Char) : Bool :=
  blankRanges.any fun r => r.1 ≤ c.toNat && c.toNat ≤ r.2

/-- A text is blank when all its characters are. -/
def isBlankText (s : String) : Bool := s.toList.all isBlank

/-- Drop the blanks at the end. -/
def trimEndList (cs : List Char) : List Char :=
  (cs.reverse.dropWhile isBlank).reverse

/-- Drop the blanks at both ends. -/
def trimList (cs : List Char) : List Char :=
  trimEndList (cs.dropWhile isBlank)

/-- The text without the blanks at its ends. -/
def trim (s : String) : String := String.ofList (trimList s.toList)

/-- The table holds every character that the core library counts as white space. -/
theorem isBlank_of_isWhitespace {c : Char} (h : c.isWhitespace = true) : isBlank c = true := by
  simp only [Char.isWhitespace, Bool.or_eq_true, decide_eq_true_eq] at h
  rcases h with ((rfl | rfl) | rfl) | rfl <;> decide

@[simp] theorem toList_trim (s : String) : (trim s).toList = trimList s.toList := by
  simp [trim]

@[simp] theorem trimEndList_nil : trimEndList [] = [] := rfl

/-- A blank at the end does not count. -/
theorem trimEndList_concat_of_blank {c : Char} (cs : List Char) (h : isBlank c = true) :
    trimEndList (cs ++ [c]) = trimEndList cs := by
  simp [trimEndList, h]

/-- A text that does not end in a blank has nothing to drop there. -/
theorem trimEndList_concat_of_not_blank {c : Char} (cs : List Char) (h : isBlank c = false) :
    trimEndList (cs ++ [c]) = cs ++ [c] := by
  simp [trimEndList, h]

/-- What is dropped at the end is a run of blanks. -/
theorem exists_eq_trimEndList_append (cs : List Char) :
    ∃ back, (∀ c ∈ back, isBlank c = true) ∧ cs = trimEndList cs ++ back := by
  refine ⟨(cs.reverse.takeWhile isBlank).reverse, fun c hc => ?_, ?_⟩
  · exact List.all_eq_true.mp (List.all_takeWhile (l := cs.reverse)) c (List.mem_reverse.mp hc)
  · rw [trimEndList, ← List.reverse_append, List.takeWhile_append_dropWhile, List.reverse_reverse]

/-- Trimming removes a run of blanks in front and one at the end, and nothing else. -/
theorem exists_eq_append_trimList (cs : List Char) :
    ∃ front back, (∀ c ∈ front, isBlank c = true) ∧ (∀ c ∈ back, isBlank c = true) ∧
      cs = front ++ trimList cs ++ back := by
  obtain ⟨back, hback, hsplit⟩ := exists_eq_trimEndList_append (cs.dropWhile isBlank)
  refine ⟨cs.takeWhile isBlank, back, fun c hc => ?_, hback, ?_⟩
  · exact List.all_eq_true.mp (List.all_takeWhile (l := cs)) c hc
  · rw [trimList, List.append_assoc, ← hsplit, List.takeWhile_append_dropWhile]

/-- The last character of a trimmed text is not blank. -/
theorem getLast_trimEndList {cs : List Char} {c : Char}
    (h : (trimEndList cs).getLast? = some c) : isBlank c = false := by
  rw [trimEndList, List.getLast?_reverse] at h
  cases hd : cs.reverse.dropWhile isBlank with
  | nil => simp [hd] at h
  | cons d rest =>
      have := List.head?_dropWhile_not isBlank cs.reverse
      simp_all

/-- The last character of a trimmed text is not blank. -/
theorem getLast_trimList {cs : List Char} {c : Char}
    (h : (trimList cs).getLast? = some c) : isBlank c = false :=
  getLast_trimEndList h

/-- The first character of a trimmed text is not blank. -/
theorem head_trimList {cs : List Char} {c : Char}
    (h : (trimList cs).head? = some c) : isBlank c = false := by
  obtain ⟨back, -, hsplit⟩ := exists_eq_trimEndList_append (cs.dropWhile isBlank)
  have hhead : (cs.dropWhile isBlank).head? = some c := by
    have htrim : trimEndList (cs.dropWhile isBlank) = trimList cs := rfl
    rw [hsplit, List.head?_append, htrim, h]
    rfl
  have := List.head?_dropWhile_not isBlank cs
  rw [hhead] at this
  simpa using this

/-- A text with no blank at either end is its own trimmed form. -/
theorem trimList_eq_self {cs : List Char} (hhead : ∀ c, cs.head? = some c → isBlank c = false)
    (hlast : ∀ c, cs.getLast? = some c → isBlank c = false) : trimList cs = cs := by
  cases cs with
  | nil => rfl
  | cons d rest =>
      have hd : isBlank d = false := hhead d rfl
      rw [trimList, List.dropWhile_cons_of_neg (by simp [hd])]
      have hne : d :: rest ≠ [] := List.cons_ne_nil _ _
      rw [← List.dropLast_concat_getLast hne]
      exact trimEndList_concat_of_not_blank _ (hlast _ (List.getLast?_eq_some_getLast hne))

end TypedHeaders.Text
