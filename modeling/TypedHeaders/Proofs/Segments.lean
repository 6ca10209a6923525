import TypedHeaders.TokenList.Reading
import Mathlib.Data.List.DropRight

/-!
# Laws of the grammar of a token list

The items of a text, their segments, and the token of a segment, told piece by piece. The items of
two texts in a row are those of the first and then those of the second, read from where the first
one ends (`items_append`). A separator parts the segments before it from those after it
(`segments_append_separator`).

One more item at the end of a segment does one of three things to the token: an item that is dropped
in front does nothing while there is no character, a blank outside quotes waits for an item that
protects it (`token_concat_of_isPlainBlank`), and any other item makes the token all of the `body`,
the characters that have waited included (`token_concat_of_not_isPlainBlank`).
-/

set_option autoImplicit false

namespace TypedHeaders.TokenList

open TypedHeaders.Text

/-! ## Items -/

/-- The item that a character is, if it is one. -/
def itemOf? : Quoting → Char → Option Item
  | .outside, c => if c = '"' then some .mark else some (.plain c)
  | .inside, c => if c = '"' then some .mark else if c = '\\' then none else some (.quoted c)
  | .escaped, c => some (.quoted c)

theorem items_cons (q : Quoting) (c : Char) (cs : List Char) :
    items q (c :: cs) = (itemOf? q c).toList ++ items (q.next c) cs := by
  cases q with
  | outside =>
      rw [items, itemOf?, Quoting.next]
      split
      · rfl
      · rfl
  | inside =>
      rw [items, itemOf?, Quoting.next]
      split
      · rfl
      · split
        · rfl
        · rfl
  | escaped => rfl

/-- The items of a text that comes after another depend on where the other one ends. -/
theorem items_append (q : Quoting) (as bs : List Char) :
    items q (as ++ bs) = items q as ++ items (as.foldl Quoting.next q) bs := by
  induction as generalizing q with
  | nil => rfl
  | cons c rest ih =>
      rw [List.cons_append, items_cons, ih, items_cons, List.append_assoc, List.foldl_cons]

/-- Without a double quote all characters stand outside quotes, and so does what follows them. -/
theorem items_of_no_quote {cs : List Char} (h : '"' ∉ cs) :
    items .outside cs = cs.map .plain ∧ cs.foldl Quoting.next .outside = .outside := by
  induction cs with
  | nil => exact ⟨rfl, rfl⟩
  | cons c rest ih =>
      obtain ⟨hc, hrest⟩ := not_or.mp (mt List.mem_cons.mpr h)
      obtain ⟨hitems, hends⟩ := ih hrest
      rw [items, if_neg (Ne.symm hc), hitems, List.foldl_cons, Quoting.next, if_neg (Ne.symm hc)]
      exact ⟨rfl, hends⟩

/-- Only a backslash inside quotes is no item. -/
theorem ne_outside_of_itemOf?_eq_none {q : Quoting} {c : Char} (h : itemOf? q c = none) :
    q ≠ .outside := by
  rintro rfl
  rw [itemOf?] at h
  split at h
  · cases h
  · cases h

/-- An item outside quotes is followed by one outside quotes, or by a mark. -/
theorem next_of_itemOf?_eq_plain {q : Quoting} {c d : Char} (h : itemOf? q c = some (.plain d)) :
    q.next c = .outside := by
  cases q with
  | outside =>
      rw [itemOf?] at h
      split at h
      · cases h
      · next hc => rw [Quoting.next, if_neg hc]
  | inside =>
      rw [itemOf?] at h
      split at h
      · cases h
      · split at h
        · cases h
        · cases h
  | escaped => cases h

/-- Only a mark has no character. -/
theorem char?_eq_none_iff {i : Item} : i.char? = none ↔ i = .mark := by
  cases i with
  | mark => simp [Item.char?]
  | quoted c => simp [Item.char?]
  | plain c => simp [Item.char?]

/-! ## Segments -/

theorem segments_eq_splitOnP (is : List Item) : segments is = is.splitOnP Item.isSeparator := by
  induction is with
  | nil => rfl
  | cons i rest ih =>
      rw [segments, ih, List.splitOnP_cons_eq_if_modifyHead]
      split
      · rfl
      · cases hrest : List.splitOnP Item.isSeparator rest with
        | nil => exact absurd hrest (List.splitOnP_ne_nil _ _)
        | cons s more => rfl

/-- A character outside quotes goes on in its segment unless it is a comma. -/
theorem isSeparator_plain {c : Char} (h : c ≠ ',') : (Item.plain c).isSeparator = false :=
  beq_false_of_ne h

/-- Characters outside quotes are in one segment if there is no comma among them. -/
theorem isSeparator_of_mem_map_plain {cs : List Char} (h : ',' ∉ cs) :
    ∀ i ∈ cs.map Item.plain, i.isSeparator = false := by
  intro i hi
  obtain ⟨c, hc, rfl⟩ := List.mem_map.mp hi
  apply isSeparator_plain
  rintro rfl
  exact h hc

/-- Items without a separator are one segment. -/
theorem segments_of_open {is : List Item} (h : ∀ i ∈ is, i.isSeparator = false) :
    segments is = [is] := by
  rw [segments_eq_splitOnP, List.splitOnP_eq_singleton h]

/-- A separator parts the segments before it from those after it. -/
theorem segments_append_separator (as bs : List Item) {i : Item} (hi : i.isSeparator = true) :
    segments (as ++ i :: bs) = segments as ++ segments bs := by
  rw [segments_eq_splitOnP, segments_eq_splitOnP, segments_eq_splitOnP,
    List.splitOnP_append_cons as bs hi]

/-- Any other item goes in front of the first segment of what follows it. -/
theorem exists_segments_cons (rest : List Item) {i : Item} (hi : i.isSeparator = false) :
    ∃ s more, segments rest = s :: more ∧ segments (i :: rest) = (i :: s) :: more := by
  cases hrest : segments rest with
  | nil => exact absurd hrest (segments_ne_nil rest)
  | cons s more => exact ⟨s, more, rfl, by simp [segments, hi, hrest]⟩

/-- The segments hold all items but the separators, in order. -/
theorem flatten_segments (is : List Item) :
    (segments is).flatten = is.filter fun i => !i.isSeparator := by
  induction is with
  | nil => rfl
  | cons i rest ih =>
      cases hi : i.isSeparator with
      | true => simp [segments, hi, ih]
      | false =>
          obtain ⟨s, more, hrest, hcons⟩ := exists_segments_cons rest hi
          rw [hrest] at ih
          simp [hcons, hi, ← ih]

/-! ## The token of a segment -/

/-- The characters of a segment from the first item on that is not dropped in front of its token. -/
def body (s : List Item) : List Char := (s.dropWhile Item.isLeading).filterMap Item.char?

theorem trimSegment_eq_rdropWhile (s : List Item) :
    trimSegment s = (s.dropWhile Item.isLeading).rdropWhile Item.isPlainBlank := rfl

/-- A body without characters has no items: the first one would not be a mark. -/
theorem body_eq_nil_iff (s : List Item) : body s = [] ↔ s.dropWhile Item.isLeading = [] := by
  rw [body]
  cases hs : s.dropWhile Item.isLeading with
  | nil => simp
  | cons i rest =>
      have hi : i.isLeading = false := by
        have := List.head?_dropWhile_not Item.isLeading s
        rw [hs] at this
        simpa using this
      cases i with
      | mark => cases hi
      | quoted c => simp [Item.char?]
      | plain c => simp [Item.char?]

theorem dropWhile_concat (s : List Item) (i : Item) :
    (s ++ [i]).dropWhile Item.isLeading =
      if body s = [] ∧ i.isLeading then [] else s.dropWhile Item.isLeading ++ [i] := by
  simp only [List.dropWhile_append, body_eq_nil_iff]
  cases s.dropWhile Item.isLeading with
  | nil => cases hi : i.isLeading <;> simp [hi]
  | cons j rest => simp

/-- One more item adds its character, unless it is dropped in front of the token. -/
theorem body_concat (s : List Item) (i : Item) :
    body (s ++ [i]) = if body s = [] ∧ i.isLeading then [] else body s ++ i.char?.toList := by
  rw [body, dropWhile_concat]
  split
  · rfl
  · rw [List.filterMap_append, body]
    cases i with
    | mark => rfl
    | quoted c => rfl
    | plain c => rfl

/-- A blank outside quotes adds nothing to the token as long as it comes last. -/
theorem token_concat_of_isPlainBlank (s : List Item) {i : Item} (hi : i.isPlainBlank = true) :
    token (s ++ [i]) = token s := by
  rw [token, token, trimSegment_eq_rdropWhile, trimSegment_eq_rdropWhile, dropWhile_concat]
  split
  · next hnil => rw [(body_eq_nil_iff s).mp hnil.1]
  · rw [List.rdropWhile_concat_pos _ _ _ hi]

/-- Blanks outside quotes at the end add nothing to the token. -/
theorem token_append_blanks (s : List Item) {w : List Char} (hw : ∀ c ∈ w, isBlank c = true) :
    token (s ++ w.map .plain) = token s := by
  induction w generalizing s with
  | nil => simp
  | cons c rest ih =>
      have hc : (Item.plain c).isPlainBlank = true := hw c List.mem_cons_self
      have hsplit : s ++ (c :: rest).map .plain = (s ++ [.plain c]) ++ rest.map .plain := by simp
      rw [hsplit, ih _ fun d hd => hw d (List.mem_cons_of_mem c hd),
        token_concat_of_isPlainBlank s hc]

/-- Any other item protects all that stands in front of it, a mark too. -/
theorem token_concat_of_not_isPlainBlank (s : List Item) {i : Item}
    (hi : i.isPlainBlank = false) : token (s ++ [i]) = body (s ++ [i]) := by
  rw [token, body, trimSegment_eq_rdropWhile, dropWhile_concat]
  split
  · rfl
  · rw [List.rdropWhile_concat_neg _ _ _ (by simp [hi])]

/-- What the body has beyond the token is blank. -/
theorem exists_body_eq (s : List Item) :
    ∃ back, (∀ c ∈ back, isBlank c = true) ∧ body s = token s ++ back := by
  let counted := s.dropWhile Item.isLeading
  refine ⟨(counted.rtakeWhile Item.isPlainBlank).filterMap Item.char?, ?_, ?_⟩
  · intro c hc
    obtain ⟨i, hi, hchar⟩ := List.mem_filterMap.mp hc
    have hblank := List.mem_rtakeWhile_imp hi
    cases i with
    | mark => cases hchar
    | quoted d => cases hblank
    | plain d =>
        cases hchar
        exact hblank
  · rw [token, trimSegment_eq_rdropWhile, ← List.filterMap_append,
      List.rdropWhile_append_rtakeWhile]
    rfl

/-- The texts of the tokens of segments, those without a character left out. -/
def texts (segs : List (List Item)) : List String :=
  ((segs.map token).filter (· ≠ [])).map String.ofList

theorem texts_append (as bs : List (List Item)) : texts (as ++ bs) = texts as ++ texts bs := by
  simp [texts]

theorem texts_singleton (s : List Item) :
    texts [s] = if token s = [] then [] else [String.ofList (token s)] := by
  rw [texts, List.map_singleton, List.filter_singleton]
  by_cases h : token s = []
  · simp [h]
  · simp [h]

end TypedHeaders.TokenList
