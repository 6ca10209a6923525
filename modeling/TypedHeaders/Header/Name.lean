import TypedHeaders.Text.AsciiCase
import TypedHeaders.Text.Size

/-!
# Header names

A header name is a text of one to 65535 token characters: ASCII letters, digits and fifteen marks.
Its lower-case form has the same size and is a header name too (`isName_foldCase`), so of two texts
that differ only in case both are header names or neither is (`isName_eq_of_sameName`).
-/

set_option autoImplicit false

namespace TypedHeaders.Header

open TypedHeaders.Text

/-- The marks that may stand in a header name. -/
def nameMarks : List Char :=
  ['!', '#', '$', '%', '&', '\'', '*', '+', '-', '.', '^', '_', '\x60', '|', '~']

/-- The characters that may stand in a header name. -/
def isNameChar (c : Char) : Bool := c.isAlphanum || nameMarks.contains c

/-- The greatest number of octets in a header name. -/
def maxNameSize : Nat := 0xFFFF

/-- Whether a text is a header name. -/
def isName (s : String) : Bool :=
  !s.isEmpty && s.utf8ByteSize ≤ maxNameSize && s.toList.all isNameChar

/-! ## Names in lower case -/

theorem isNameChar_toLower (c : Char) : isNameChar c.toLower = isNameChar c := by
  rcases toLower_eq_or_capital c with hsame | ⟨n, rfl⟩
  · rw [hsame]
  · -- each of the 26 capital letters
    revert n
    decide

theorem utf8Size_toLower (c : Char) : c.toLower.utf8Size = c.utf8Size := by
  rcases toLower_eq_or_capital c with hsame | ⟨n, rfl⟩
  · rw [hsame]
  · -- each of the 26 capital letters
    revert n
    decide

theorem size_map_toLower (cs : List Char) : size (cs.map Char.toLower) = size cs := by
  induction cs with
  | nil => rfl
  | cons c rest ih => rw [List.map_cons, size, size, utf8Size_toLower, ih]

theorem isName_foldCase (s : String) : isName (foldCase s) = isName s := by
  have hsize : (foldCase s).utf8ByteSize = s.utf8ByteSize := by
    rw [utf8ByteSize_eq_size, utf8ByteSize_eq_size, toList_foldCase, size_map_toLower]
  have hchars : (foldCase s).toList.all isNameChar = s.toList.all isNameChar := by
    rw [toList_foldCase, List.all_map]
    exact congrArg s.toList.all (funext isNameChar_toLower)
  rw [isName, isName, String.isEmpty, String.isEmpty, hsize, hchars]

/-- Of two texts that differ only in case both are header names or neither is. -/
theorem isName_eq_of_sameName {a b : String} (h : sameName a b = true) : isName a = isName b := by
  rw [← isName_foldCase a, ← isName_foldCase b, sameName_iff.mp h]

end TypedHeaders.Header
