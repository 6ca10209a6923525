import TypedHeaders.Proofs.OnePass

/-!
# Blanks at the ends of tokens

Blanks around a token belong to it only if they stand inside quotes. In front of a token the pass
keeps to that: no token begins with a blank from outside quotes. At the end of a token there is one
case in which it does not: quotes without a character in them, as in `a ""`, add nothing to the
token and yet protect the blanks in front of them (`blanks_at_ends`).

To tell where a character of a token comes from, a token is read off as the items that it is made of
(`letters`), instead of as their characters only. All of them are items of the header value, in the
order in which they stand there.
-/

set_option autoImplicit false

namespace TypedHeaders.TokenList

open TypedHeaders.Text

/-! ## Tokens as items -/

/-- The segments of a header value: its items, parted at the commas outside quotes. -/
def segmentsOf (value : String) : List (List Item) := segments (items .outside value.toList)

/-- The items that make up the token of a segment: its characters, each with where it stands. -/
def letters (s : List Item) : List Item := (trimSegment s).filter fun i => i ≠ .mark

/-- The text of the characters of items. -/
def spell (s : List Item) : String := String.ofList (s.filterMap Item.char?)

/-- The tokens of a header value, each as the items that it is made of. -/
def spelledTokens (value : String) : List (List Item) :=
  ((segmentsOf value).map letters).filter (· ≠ [])

theorem token_eq_letters (s : List Item) : token s = (letters s).filterMap Item.char? := by
  rw [token, letters, List.filterMap_filter]
  congr 1
  funext i
  cases i with
  | mark => rfl
  | quoted c => rfl
  | plain c => rfl

/-- A token has no character exactly if it has no items. -/
theorem token_eq_nil_iff (s : List Item) : token s = [] ↔ letters s = [] := by
  rw [token_eq_letters, List.filterMap_eq_nil_iff]
  constructor
  · intro hnone
    apply List.eq_nil_iff_forall_not_mem.mpr
    intro i hi
    have hmark : i = .mark := char?_eq_none_iff.mp (hnone i hi)
    simp [letters, hmark] at hi
  · intro hnil
    rw [hnil]
    exact nofun

theorem split_eq_map_spell (value : String) : split value = (spelledTokens value).map spell := by
  have hspell : String.ofList ∘ token = spell ∘ letters := by
    funext s
    rw [Function.comp_apply, Function.comp_apply, token_eq_letters, spell]
  have hnil : ((fun cs : List Char => decide (cs ≠ [])) ∘ token) =
      (fun s : List Item => decide (s ≠ [])) ∘ letters := by
    funext s
    simp [token_eq_nil_iff]
  rw [split_eq_texts, texts, spelledTokens, segmentsOf, List.filter_map, List.map_map,
    List.filter_map, List.map_map, hspell, hnil]

/-! ## What a segment is trimmed to -/

theorem letters_sublist (s : List Item) : List.Sublist (letters s) s := by
  have hprefix : List.Sublist (trimSegment s) (s.dropWhile Item.isLeading) :=
    (List.rdropWhile_prefix Item.isPlainBlank (s.dropWhile Item.isLeading)).sublist
  exact (List.filter_sublist.trans hprefix).trans (List.dropWhile_sublist _)

/-- The tokens of a header value are made of its items, in order and none of them twice. -/
theorem flatten_spelledTokens_sublist (value : String) :
    List.Sublist (spelledTokens value).flatten (items .outside value.toList) := by
  have hsegments : ∀ segs : List (List Item),
      List.Sublist ((segs.map letters).filter (· ≠ [])).flatten segs.flatten := by
    intro segs
    induction segs with
    | nil => exact List.Sublist.slnil
    | cons s more ih =>
        rw [List.map_cons, List.filter_cons, List.flatten_cons]
        split
        · exact (letters_sublist s).append ih
        · exact ih.trans (List.sublist_append_right s more.flatten)
  refine (hsegments _).trans ?_
  rw [segmentsOf, flatten_segments]
  exact List.filter_sublist

/-- Trimming removes leading items in front and blanks outside quotes at the end. -/
theorem exists_eq_append_trimSegment (s : List Item) :
    ∃ front back, (∀ i ∈ front, i.isLeading = true) ∧ (∀ i ∈ back, i.isPlainBlank = true) ∧
      s = front ++ trimSegment s ++ back := by
  refine ⟨s.takeWhile Item.isLeading,
    (s.dropWhile Item.isLeading).rtakeWhile Item.isPlainBlank, ?_, ?_, ?_⟩
  · exact fun i hi => List.mem_takeWhile_imp hi
  · exact fun i hi => List.mem_rtakeWhile_imp hi
  · rw [trimSegment_eq_rdropWhile, List.append_assoc, List.rdropWhile_append_rtakeWhile,
      List.takeWhile_append_dropWhile]

/-- The first item of a trimmed segment is not dropped in front. -/
theorem head_trimSegment {s : List Item} {i : Item} (h : (trimSegment s).head? = some i) :
    i.isLeading = false := by
  obtain ⟨rest, hrest⟩ := List.rdropWhile_prefix Item.isPlainBlank (s.dropWhile Item.isLeading)
  have hhead : (s.dropWhile Item.isLeading).head? = some i := by
    rw [← hrest, List.head?_append, ← trimSegment_eq_rdropWhile, h]
    rfl
  have hnot := List.head?_dropWhile_not Item.isLeading s
  rw [hhead] at hnot
  simpa using hnot

/-- The last item of a trimmed segment is not a blank outside quotes. -/
theorem getLast_trimSegment {s : List Item} {i : Item} (h : (trimSegment s).getLast? = some i) :
    i.isPlainBlank = false := by
  rw [trimSegment, List.getLast?_reverse] at h
  have hnot := List.head?_dropWhile_not Item.isPlainBlank (s.dropWhile Item.isLeading).reverse
  rw [h] at hnot
  simpa using hnot

/-! ## The ends of a token -/

/-- No token begins with a blank outside quotes. -/
theorem head_letters {s : List Item} {i : Item} (h : (letters s).head? = some i) :
    i.isPlainBlank = false := by
  cases htrim : trimSegment s with
  | nil => simp [letters, htrim] at h
  | cons j rest =>
      have hj : j.isLeading = false := head_trimSegment (by rw [htrim]; rfl)
      have hmark : j ≠ .mark := by
        rintro rfl
        cases hj
      rw [letters, htrim, List.filter_cons_of_pos (by simpa using hmark)] at h
      cases h
      cases i with
      | mark => rfl
      | quoted c => rfl
      | plain c => exact hj

/-- A mark guards a blank outside quotes: the blank comes after the first character of the token, the
mark is right behind it, and no character follows but blanks outside quotes. -/
def GuardsBlank (s : List Item) : Prop :=
  ∃ front c back, s = front ++ .plain c :: .mark :: back ∧ isBlank c = true ∧
    (∃ i ∈ front, i.isLeading = false) ∧ ∀ i ∈ back, i.isLeading = true

theorem isLeading_of_isPlainBlank {i : Item} (h : i.isPlainBlank = true) : i.isLeading = true := by
  cases i with
  | mark => rfl
  | quoted c => cases h
  | plain c => exact h

/-- A leading item that is no mark is a blank outside quotes. -/
theorem isPlainBlank_of_isLeading {i : Item} (h : i.isLeading = true) (hmark : i ≠ .mark) :
    i.isPlainBlank = true := by
  cases i with
  | mark => exact absurd rfl hmark
  | quoted c => cases h
  | plain c => exact h

/-- In a trimmed segment no item that would be dropped in front comes first. -/
theorem exists_of_trimSegment_eq {s front back : List Item} {i : Item}
    (h : trimSegment s = front ++ i :: back) (hi : i.isLeading = true) :
    ∃ j ∈ front, j.isLeading = false := by
  cases front with
  | nil =>
      have hfirst : i.isLeading = false := head_trimSegment (by rw [h]; rfl)
      rw [hi] at hfirst
      cases hfirst
  | cons j front =>
      have hfirst : (trimSegment s).head? = some j := by
        rw [h]
        rfl
      exact ⟨j, List.mem_cons_self, head_trimSegment hfirst⟩

/-- Behind a blank that ends a token there are marks only, and at least one. -/
theorem trimSegment_of_getLast {s : List Item} {i : Item} (h : (letters s).getLast? = some i)
    (hi : i.isPlainBlank = true) :
    ∃ front marks, trimSegment s = front ++ i :: .mark :: marks ∧ ∀ j ∈ marks, j = .mark := by
  obtain ⟨init, hletters⟩ := List.getLast?_eq_some_iff.mp h
  obtain ⟨before, rest, htrim, -, hrest⟩ := List.filter_eq_append_iff.mp hletters
  obtain ⟨front, behind, rfl, -, -, hbehind⟩ := List.filter_eq_cons_iff.mp hrest
  have hmarks : ∀ j ∈ behind, j = .mark := by
    intro j hj
    simpa using List.filter_eq_nil_iff.mp hbehind j hj
  cases behind with
  | nil =>
      have hlast : i.isPlainBlank = false := getLast_trimSegment (by rw [htrim]; simp)
      rw [hi] at hlast
      cases hlast
  | cons m marks =>
      obtain rfl : m = .mark := hmarks m List.mem_cons_self
      refine ⟨before ++ front, marks, ?_, fun j hj => hmarks j (List.mem_cons_of_mem _ hj)⟩
      rw [htrim, List.append_assoc]

theorem guardsBlank_of_getLast {s : List Item} {i : Item} (h : (letters s).getLast? = some i)
    (hi : i.isPlainBlank = true) : GuardsBlank s := by
  obtain ⟨lead, trail, -, htrail, hsplit⟩ := exists_eq_append_trimSegment s
  obtain ⟨front, marks, htrim, hmarks⟩ := trimSegment_of_getLast h hi
  obtain ⟨j, hj, hfirst⟩ := exists_of_trimSegment_eq htrim (isLeading_of_isPlainBlank hi)
  cases i with
  | mark => cases hi
  | quoted c => cases hi
  | plain c =>
      refine ⟨lead ++ front, c, marks ++ trail, ?_, hi, ⟨j, ?_, hfirst⟩, ?_⟩
      · rw [hsplit, htrim]
        simp
      · exact List.mem_append_right lead hj
      · intro k hk
        rcases List.mem_append.mp hk with hmark | hblank
        · rw [hmarks k hmark]
          rfl
        · exact isLeading_of_isPlainBlank (htrail k hblank)

/-- What stands behind an item that is not dropped is all that is dropped at the end. -/
theorem rdropWhile_append_cons {p : Item → Bool} {i : Item} (hi : p i = false)
    (front back : List Item) :
    (front ++ i :: back).rdropWhile p = front ++ i :: back.rdropWhile p := by
  induction back using List.reverseRecOn with
  | nil => exact List.rdropWhile_concat_neg _ _ _ (by simp [hi])
  | append_singleton back j ih =>
      have hconcat : front ++ i :: (back ++ [j]) = (front ++ i :: back) ++ [j] := by simp
      rw [hconcat, List.rdropWhile_concat, List.rdropWhile_concat]
      split
      · exact ih
      · exact hconcat.symm

theorem getLast_of_guardsBlank {s : List Item} (h : GuardsBlank s) :
    ∃ i, (letters s).getLast? = some i ∧ i.isPlainBlank = true := by
  obtain ⟨front, c, back, rfl, hc, ⟨j, hj, hjlead⟩, hback⟩ := h
  have hfront : (front.dropWhile Item.isLeading).isEmpty = false := by
    simp only [List.isEmpty_eq_false_iff, ne_eq, List.dropWhile_eq_nil_iff, not_forall]
    exact ⟨j, hj, by simp [hjlead]⟩
  have htrim : trimSegment (front ++ .plain c :: .mark :: back) =
      front.dropWhile Item.isLeading ++ .plain c :: .mark :: back.rdropWhile Item.isPlainBlank := by
    rw [trimSegment_eq_rdropWhile, List.dropWhile_append, hfront, if_neg Bool.false_ne_true,
      List.append_cons, rdropWhile_append_cons rfl]
    simp
  -- the blank is in the token, and so are at most blanks behind it
  have hletters : ∃ init, letters (front ++ .plain c :: .mark :: back) =
      init ++ .plain c :: (back.rdropWhile Item.isPlainBlank).filter fun i => i ≠ .mark := by
    refine ⟨(front.dropWhile Item.isLeading).filter fun i => i ≠ .mark, ?_⟩
    rw [letters, htrim, List.filter_append]
    simp
  obtain ⟨init, hinit⟩ := hletters
  obtain ⟨i, hi⟩ : ∃ i, (letters (front ++ .plain c :: .mark :: back)).getLast? = some i := by
    rw [hinit]
    exact ⟨_, List.getLast?_eq_some_getLast (by simp)⟩
  refine ⟨i, hi, ?_⟩
  rw [hinit, List.getLast?_append_of_ne_nil _ (List.cons_ne_nil _ _)] at hi
  rcases List.mem_cons.mp (List.mem_of_getLast? hi) with rfl | hlater
  · exact hc
  · obtain ⟨hmem, hmark⟩ := List.mem_filter.mp hlater
    have hlead := hback i ((List.rdropWhile_prefix _ _).subset hmem)
    exact isPlainBlank_of_isLeading hlead (by simpa using hmark)

/-- The tokens of a header value are made of its items. None begins with a blank outside quotes, and
one ends with such a blank exactly if a mark guards a blank in its segment. So blanks outside quotes
are removed at both ends of all tokens exactly if no mark guards a blank. -/
theorem blanks_at_ends (value : String) :
    split value = (spelledTokens value).map spell ∧
      List.Sublist (spelledTokens value).flatten (items .outside value.toList) ∧
      (∀ t ∈ spelledTokens value, ∀ i, t.head? = some i → i.isPlainBlank = false) ∧
      (∀ s ∈ segmentsOf value,
        (∃ i, (letters s).getLast? = some i ∧ i.isPlainBlank = true) ↔ GuardsBlank s) ∧
      ((∀ t ∈ spelledTokens value, ∀ i, t.head? = some i ∨ t.getLast? = some i →
        i.isPlainBlank = false) ↔ ∀ s ∈ segmentsOf value, ¬GuardsBlank s) := by
  have hletters : ∀ t ∈ spelledTokens value, ∃ s ∈ segmentsOf value, letters s = t := by
    intro t ht
    exact List.mem_map.mp (List.mem_filter.mp ht).1
  have hhead : ∀ t ∈ spelledTokens value, ∀ i, t.head? = some i → i.isPlainBlank = false := by
    intro t ht i hi
    obtain ⟨s, -, rfl⟩ := hletters t ht
    exact head_letters hi
  have hlast : ∀ s, (∃ i, (letters s).getLast? = some i ∧ i.isPlainBlank = true) ↔
      GuardsBlank s := by
    intro s
    constructor
    · rintro ⟨i, hi, hblank⟩
      exact guardsBlank_of_getLast hi hblank
    · exact getLast_of_guardsBlank
  refine ⟨split_eq_map_spell value, flatten_spelledTokens_sublist value, hhead,
    fun s _ => hlast s, ?_⟩
  constructor
  · intro htrimmed s hs hguards
    obtain ⟨i, hi, hblank⟩ := (hlast s).mpr hguards
    have hmem : letters s ∈ spelledTokens value := by
      refine List.mem_filter.mpr ⟨List.mem_map_of_mem hs, ?_⟩
      apply decide_eq_true
      intro hnil
      rw [hnil] at hi
      cases hi
    rw [htrimmed _ hmem i (Or.inr hi)] at hblank
    cases hblank
  · intro hguards t ht i hi
    rcases hi with hfirst | hi
    · exact hhead t ht i hfirst
    · obtain ⟨s, hs, rfl⟩ := hletters t ht
      rw [Bool.eq_false_iff]
      intro hblank
      exact hguards s hs ((hlast s).mp ⟨i, hi, hblank⟩)

/-- Blanks outside quotes stay at the end of a token when empty quotes follow, and only there: blanks
in front of the token are gone, and so is the one behind the quotes. -/
theorem blanks_at_ends_empty_quotes :
    let value := " a\t \"\" , \" b\""
    let kept : List Item := [.plain 'a', .plain '\t', .plain ' ']
    let quoted : List Item := [.quoted ' ', .quoted 'b']
    split value = ["a\t ", " b"] ∧ spelledTokens value = [kept, quoted] ∧
      (∀ i, kept.head? = some i → i.isPlainBlank = false) ∧
      ∃ s ∈ segmentsOf value, letters s = kept ∧ GuardsBlank s := by
  intro value kept quoted
  have htokens : spelledTokens value = [kept, quoted] := by decide +kernel
  obtain ⟨hsplit, -, hhead, hlast, -⟩ := blanks_at_ends value
  obtain ⟨s, hs, hletters⟩ : ∃ s ∈ segmentsOf value, letters s = kept := by decide +kernel
  refine ⟨?_, htokens, ?_, s, hs, hletters, ?_⟩
  · rw [hsplit, htokens]
    decide +kernel
  · exact hhead kept (by rw [htokens]; exact List.mem_cons_self)
  · apply (hlast s hs).mp
    rw [hletters]
    exact ⟨.plain ' ', rfl, by decide⟩

/-- A blank in front of empty quotes is the end of a token, although it stands outside quotes. -/
theorem blank_kept_before_empty_quotes :
    let value := "a \"\""
    split value = ["a "] ∧ spelledTokens value = [[.plain 'a', .plain ' ']] ∧
      ¬∀ t ∈ spelledTokens value, ∀ i, t.head? = some i ∨ t.getLast? = some i →
        i.isPlainBlank = false := by
  intro value
  have htokens : spelledTokens value = [[.plain 'a', .plain ' ']] := by decide +kernel
  refine ⟨by decide +kernel, htokens, ?_⟩
  intro htrimmed
  have hblank : (Item.plain ' ').isPlainBlank = false := by
    apply htrimmed [.plain 'a', .plain ' ']
    · rw [htokens]
      exact List.mem_cons_self
    · exact Or.inr rfl
  cases hblank

end TypedHeaders.TokenList
