import TypedHeaders.Value.Conversion
import Mathlib.Data.List.TakeWhile

/-!
# What trimming does not see

Trimming forgets the blanks around a text, however many there are (`trimList_padded`), and nothing
more: trimming again does nothing (`trimList_trimList`), and nothing is left exactly of a blank text
(`trimList_eq_nil_iff`). Blanks have no case, so trimming and changing the case of letters commute
(`trimList_map_toLower`).

Every kind of scalar but text is converted from the trimmed token, so two tokens that are trimmed
alike are converted alike (`convert_eq_of_trimList_eq`).
-/

set_option autoImplicit false

namespace TypedHeaders.Text

variable {front cs back : List Char}

/-! ## Blanks at the ends -/

/-- Blanks at the end do not count. -/
theorem trimEndList_append (h : ∀ c ∈ back, isBlank c = true) :
    trimEndList (cs ++ back) = trimEndList cs := by
  have hreverse : ∀ c ∈ back.reverse, isBlank c = true :=
    fun c hc => h c (List.mem_reverse.mp hc)
  rw [trimEndList, List.reverse_append, List.dropWhile_append_of_pos hreverse, trimEndList]

/-- Blanks around a text do not count. -/
theorem trimList_padded (hfront : ∀ c ∈ front, isBlank c = true)
    (hback : ∀ c ∈ back, isBlank c = true) : trimList (front ++ cs ++ back) = trimList cs := by
  rw [trimList, List.append_assoc, List.dropWhile_append_of_pos hfront, List.dropWhile_append]
  split
  · next hblank =>
      -- a text of blanks only is dropped in front, and so are the blanks behind it
      have hnil : cs.dropWhile isBlank = [] := List.isEmpty_iff.mp hblank
      have hbehind : back.dropWhile isBlank = [] := List.dropWhile_eq_nil_iff.mpr hback
      rw [trimList, hnil, hbehind]
  · exact trimEndList_append hback

theorem trimList_trimList (cs : List Char) : trimList (trimList cs) = trimList cs :=
  trimList_eq_self (fun _ hc => head_trimList hc) (fun _ hc => getLast_trimList hc)

@[simp] theorem trim_trim (s : String) : trim (trim s) = trim s := by
  rw [trim, toList_trim, trimList_trimList, trim]

/-- Nothing is left of a text exactly if all its characters are blank. -/
theorem trimList_eq_nil_iff : trimList cs = [] ↔ ∀ c ∈ cs, isBlank c = true := by
  constructor
  · intro hnil c hc
    obtain ⟨front, back, hfront, hback, hsplit⟩ := exists_eq_append_trimList cs
    rw [hsplit, hnil, List.append_nil] at hc
    rcases List.mem_append.mp hc with hmem | hmem
    · exact hfront c hmem
    · exact hback c hmem
  · intro hblank
    have hpadded : trimList (cs ++ [] ++ []) = trimList [] :=
      trimList_padded hblank (List.forall_mem_nil _)
    rwa [List.append_nil, List.append_nil] at hpadded

theorem isBlankText_eq_false_iff {s : String} :
    isBlankText s = false ↔ trimList s.toList ≠ [] := by
  rw [Ne, trimList_eq_nil_iff, ← Bool.not_eq_true, isBlankText, List.all_eq_true]

/-! ## Case -/

theorem isBlank_toLower (c : Char) : isBlank c.toLower = isBlank c := by
  rcases toLower_eq_or_capital c with hsame | ⟨n, rfl⟩
  · rw [hsame]
  · revert n
    decide

/-- It does not matter whether a text is trimmed before its letters are made small or after. -/
theorem trimList_map_toLower (cs : List Char) :
    trimList (cs.map Char.toLower) = (trimList cs).map Char.toLower := by
  have hblank : isBlank ∘ Char.toLower = isBlank := funext isBlank_toLower
  have hend : ∀ ds : List Char,
      trimEndList (ds.map Char.toLower) = (trimEndList ds).map Char.toLower := by
    intro ds
    rw [trimEndList, ← List.map_reverse, List.dropWhile_map, hblank, ← List.map_reverse,
      trimEndList]
  rw [trimList, List.dropWhile_map, hblank, hend, trimList]

end TypedHeaders.Text

namespace TypedHeaders

open TypedHeaders.Text

/-- Only a text is more than what is left of it when it is trimmed. -/
theorem convert_eq_of_trimList_eq {kind : ScalarKind} {a b : String} (hkind : kind ≠ .text)
    (h : trimList a.toList = trimList b.toList) : convert kind a = convert kind b := by
  have htrim : trim a = trim b := congrArg String.ofList h
  unfold convert
  cases kind with
  | text => exact absurd rfl hkind
  | integer =>
      dsimp only
      rw [h]
  | float =>
      dsimp only
      rw [h]
  | boolean =>
      dsimp only
      rw [htrim]
  | enumeration variants =>
      dsimp only
      rw [htrim]

/-- A token is converted as it is without the blanks around it. -/
theorem convert_trim {kind : ScalarKind} (hkind : kind ≠ .text) (raw : String) :
    convert kind (trim raw) = convert kind raw := by
  apply convert_eq_of_trimList_eq hkind
  rw [toList_trim, trimList_trimList]

/-- A token is converted as it is with blanks around it. -/
theorem convert_padded {kind : ScalarKind} {front back : String} (hkind : kind ≠ .text)
    (hfront : isBlankText front = true) (hback : isBlankText back = true) (raw : String) :
    convert kind (front ++ raw ++ back) = convert kind raw := by
  apply convert_eq_of_trimList_eq hkind
  rw [String.toList_append, String.toList_append]
  exact trimList_padded (List.all_eq_true.mp hfront) (List.all_eq_true.mp hback)

end TypedHeaders
