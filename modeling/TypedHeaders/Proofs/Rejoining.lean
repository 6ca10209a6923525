import TypedHeaders.Binding.FromHeader
import TypedHeaders.Proofs.RoundTrip

/-!
# Cutting joined tokens again

What is recorded of a collection is its tokens joined by commas, for a person to read. The tokens are
written there as they are, without quotes. So they come out again when the record is cut exactly if
each of them may be written bare: it holds no comma and no double quote, and has no blank at either
end (`rejoined_iff`).

That bare tokens come out is a case of `split_bare`. For the converse the characters are counted. The
tokens of a text, its marks, and its separators are not more than its characters
(`length_split_add_le`), and the commas that join the tokens leave no room for a mark. A text without
double quotes in turn has bare tokens only (`mayBeBare_of_mem_split`).
-/

set_option autoImplicit false

namespace TypedHeaders.TokenList

open TypedHeaders.Text TypedHeaders.Header

/-! ## Counting characters -/

/-- There is one segment more than there are separators. -/
theorem length_segments (is : List Item) :
    (segments is).length = is.countP Item.isSeparator + 1 := by
  induction is with
  | nil => rfl
  | cons i rest ih =>
      cases hi : i.isSeparator with
      | true => simp [segments, hi, ih]
      | false =>
          obtain ⟨s, more, hrest, hcons⟩ := exists_segments_cons rest hi
          rw [hrest] at ih
          simp [hcons, hi, ← ih]

/-- Every item is a character of the text. -/
theorem length_items_le (q : Quoting) (cs : List Char) : (items q cs).length ≤ cs.length := by
  induction cs generalizing q with
  | nil => exact Nat.le_refl 0
  | cons c rest ih =>
      have hitem : (itemOf? q c).toList.length ≤ 1 := by
        cases itemOf? q c with
        | none => exact Nat.zero_le 1
        | some i => exact Nat.le_refl 1
      have hrest := ih (q.next c)
      rw [items_cons, List.length_append, List.length_cons]
      omega

/-- Every item has a character, or is a mark. -/
theorem length_filterMap_char? (s : List Item) :
    (s.filterMap Item.char?).length + s.count .mark = s.length := by
  have hsome : ∀ i : Item, i.char?.isSome ↔ ¬(i == .mark) = true := by
    intro i
    rw [beq_iff_eq, ← char?_eq_none_iff, Option.isSome_iff_ne_none]
  rw [List.length_filterMap_eq_countP, List.count_eq_countP,
    List.length_eq_countP_add_countP (· == Item.mark), Nat.add_comm]
  exact congrArg _ (List.countP_congr fun i _ => by simpa using hsome i)

/-- A token has no more characters than its segment has items besides its marks. -/
theorem length_token_add_count_le (s : List Item) :
    (token s).length + s.count .mark ≤ s.length := by
  have htrim : List.Sublist (trimSegment s) s :=
    (List.rdropWhile_prefix _ _).sublist.trans (List.dropWhile_sublist _)
  have hchars : (token s).length ≤ (s.filterMap Item.char?).length :=
    (htrim.filterMap Item.char?).length_le
  have hcount := length_filterMap_char? s
  omega

/-- The characters of texts, in order. -/
def charsOf (tokens : List String) : List Char := tokens.flatMap String.toList

theorem length_texts_le (segs : List (List Item)) : (texts segs).length ≤ segs.length := by
  rw [texts, List.length_map, ← List.length_map token]
  exact List.length_filter_le _ _

theorem length_charsOf_texts_add_count_le (segs : List (List Item)) :
    (charsOf (texts segs)).length + segs.flatten.count .mark ≤ segs.flatten.length := by
  induction segs with
  | nil => exact Nat.le_refl 0
  | cons s more ih =>
      have htoken := length_token_add_count_le s
      have hfirst : (charsOf (texts [s])).length = (token s).length := by
        rw [texts_singleton]
        split
        · next hnil => rw [hnil]; rfl
        · simp [charsOf]
      have hmore : charsOf (texts (s :: more)) = charsOf (texts [s]) ++ charsOf (texts more) := by
        rw [← List.singleton_append, texts_append, charsOf, List.flatMap_append]
        rfl
      rw [hmore, List.flatten_cons, List.count_append, List.length_append, List.length_append]
      omega

/-- The characters of the tokens, the marks, and the separators, of which there is at least one
between two tokens, are no more than the characters of the text. -/
theorem length_split_add_le (value : String) :
    (charsOf (split value)).length + (items .outside value.toList).count .mark +
      (split value).length ≤ value.toList.length + 1 := by
  let is := items .outside value.toList
  have hchars := length_charsOf_texts_add_count_le (segments is)
  have htokens := length_texts_le (segments is)
  have hitems : is.length ≤ value.toList.length := length_items_le _ _
  have hmarks : (is.filter fun i => !i.isSeparator).count .mark = is.count .mark :=
    List.count_filter rfl
  have hparts : is.length = is.countP Item.isSeparator +
      (is.filter fun i => !i.isSeparator).length := by
    simpa [List.countP_eq_length_filter] using List.length_eq_countP_add_countP Item.isSeparator
  rw [flatten_segments, hmarks] at hchars
  rw [length_segments] at htokens
  rw [split_eq_texts]
  show (charsOf (texts (segments is))).length + is.count .mark + (texts (segments is)).length ≤ _
  omega

theorem length_intercalate {tokens : List String} (h : tokens ≠ []) :
    (",".intercalate tokens).toList.length + 1 = (charsOf tokens).length + tokens.length := by
  induction tokens with
  | nil => exact absurd rfl h
  | cons t rest ih =>
      cases rest with
      | nil => simp [charsOf]
      | cons next rest =>
          have hrest := ih (List.cons_ne_nil next rest)
          have hcons : charsOf (t :: next :: rest) = t.toList ++ charsOf (next :: rest) := rfl
          rw [String.intercalate_cons_cons, hcons]
          simp only [String.toList_append, List.length_append, List.length_cons] at hrest ⊢
          have hcomma : ",".toList.length = 1 := rfl
          omega

/-! ## Double quotes -/

theorem mark_mem_items {cs : List Char} (h : '"' ∈ cs) : .mark ∈ items .outside cs := by
  induction cs with
  | nil => cases h
  | cons c rest ih =>
      rw [items]
      by_cases hc : c = '"'
      · rw [if_pos hc]
        exact List.mem_cons_self
      · rw [if_neg hc]
        rcases List.mem_cons.mp h with hfirst | hrest
        · exact absurd hfirst.symm hc
        · exact List.mem_cons_of_mem _ (ih hrest)

/-- Tokens that come out when they are cut again hold no double quote: it would be a mark, and so a
character would be missing. -/
theorem quote_not_mem_of_split_intercalate {tokens : List String}
    (h : split (",".intercalate tokens) = tokens) : '"' ∉ (",".intercalate tokens).toList := by
  intro hquote
  cases tokens with
  | nil => cases hquote
  | cons t rest =>
      have hmark := List.count_pos_iff.mpr (mark_mem_items hquote)
      have hcount := length_split_add_le (",".intercalate (t :: rest))
      rw [h] at hcount
      have hlength := length_intercalate (List.cons_ne_nil t rest)
      omega

/-- A character of a trimmed text is one of the text. -/
theorem mem_of_mem_trimList {cs : List Char} {c : Char} (h : c ∈ trimList cs) : c ∈ cs := by
  obtain ⟨front, back, -, -, hsplit⟩ := exists_eq_append_trimList cs
  rw [hsplit]
  exact List.mem_append_left back (List.mem_append_right front h)

theorem eq_map_plain {s : List Item} (h : ∀ i ∈ s, ∃ c, i = .plain c) :
    s = (s.filterMap Item.char?).map .plain := by
  induction s with
  | nil => rfl
  | cons i rest ih =>
      obtain ⟨c, rfl⟩ := h i List.mem_cons_self
      have hchars : (Item.plain c :: rest).filterMap Item.char? =
          c :: rest.filterMap Item.char? := rfl
      rw [hchars, List.map_cons, ← ih fun i hi => h i (List.mem_cons_of_mem _ hi)]

/-- A text without double quotes has tokens that may be written bare. -/
theorem mayBeBare_of_mem_split {value t : String} (hvalue : '"' ∉ value.toList)
    (ht : t ∈ split value) : MayBeBare t.toList := by
  rw [split_eq_texts, (items_of_no_quote hvalue).1] at ht
  obtain ⟨cs, hcs, rfl⟩ := List.mem_map.mp ht
  obtain ⟨s, hs, rfl⟩ := List.mem_map.mp (List.mem_filter.mp hcs).1
  -- the items of the segment are characters of the text, but no commas
  have hitems : ∀ i ∈ s, ∃ c ∈ value.toList, i = .plain c ∧ c ≠ ',' := by
    intro i hi
    have hmem := List.mem_flatten_of_mem hs hi
    rw [flatten_segments] at hmem
    obtain ⟨hplain, hopen⟩ := List.mem_filter.mp hmem
    obtain ⟨c, hc, rfl⟩ := List.mem_map.mp hplain
    refine ⟨c, hc, rfl, ?_⟩
    rintro rfl
    cases hopen
  have hplain : s = (s.filterMap Item.char?).map .plain := by
    apply eq_map_plain
    intro i hi
    obtain ⟨c, -, rfl, -⟩ := hitems i hi
    exact ⟨c, rfl⟩
  have htoken : token s = trimList (s.filterMap Item.char?) := by
    rw [hplain, token_map_plain, ← hplain]
  have hchars : ∀ c ∈ token s, c ∈ value.toList ∧ c ≠ ',' := by
    intro c hc
    rw [htoken] at hc
    obtain ⟨i, hi, hchar⟩ := List.mem_filterMap.mp (mem_of_mem_trimList hc)
    obtain ⟨d, hd, rfl, hcomma⟩ := hitems i hi
    cases hchar
    exact ⟨hd, hcomma⟩
  rw [String.toList_ofList]
  refine ⟨fun hquote => hvalue (hchars _ hquote).1, fun hcomma => (hchars _ hcomma).2 rfl, ?_, ?_⟩
  · intro c hc
    rw [htoken] at hc
    exact head_trimList hc
  · intro c hc
    rw [htoken] at hc
    exact getLast_trimList hc

/-- Tokens with a character each come out when they are joined by commas and cut again, exactly if
all of them may be written bare. -/
theorem split_intercalate_eq_self_iff {tokens : List String} (h : ∀ t ∈ tokens, t.toList ≠ []) :
    split (",".intercalate tokens) = tokens ↔ ∀ t ∈ tokens, MayBeBare t.toList := by
  constructor
  · intro hsplit t ht
    rw [← hsplit] at ht
    exact mayBeBare_of_mem_split (quote_not_mem_of_split_intercalate hsplit) ht
  · intro hbare
    have hclosed : ∀ t ∈ tokens.dropLast, IsClosed t := by
      intro t ht
      obtain ⟨hquote, -⟩ := hbare t (List.dropLast_subset tokens ht)
      exact isClosed_of_no_quote hquote
    have hself : ∀ t ∈ tokens, split t = [t] := by
      intro t ht
      have hsplit := split_bare (h t ht) (hbare t ht)
      rwa [String.ofList_toList] at hsplit
    rw [split_intercalate hclosed, List.flatMap_congr hself, List.flatMap_singleton']

end TypedHeaders.TokenList

namespace TypedHeaders

open TypedHeaders.Header TypedHeaders.TokenList

/-- A collection takes the tokens of the joined value of its header. -/
theorem tokens_extract_collection (headers : HeaderStore) (name : String) (container : Container)
    (element : Element) :
    (extract headers name (.collection container element)).tokens =
      headers.getCommaSeparated name := by
  rw [extract, HeaderStore.getCommaSeparated]
  cases headers.getJoined name with
  | none => rfl
  | some joined =>
      show (Extraction.ofJoined joined (.collection container element)).tokens = split joined
      rw [Extraction.ofJoined_collection]

/-- The tokens of a collection are recorded joined by commas. When this text is cut again, they come
out exactly if each of them may be written bare. -/
theorem rejoined_iff (headers : HeaderStore) (name : String) (container : Container)
    (element : Element) :
    let shape : Shape := .collection container element
    let x := extract headers name shape
    (x.record shape).attempted = ",".intercalate x.tokens ∧
      (split (",".intercalate x.tokens) = x.tokens ↔ ∀ t ∈ x.tokens, MayBeBare t.toList) := by
  intro shape x
  have hchars : ∀ t ∈ x.tokens, t.toList ≠ [] := by
    intro t ht
    rw [tokens_extract_collection, getCommaSeparated_eq_split] at ht
    exact ne_empty_of_mem_split ht
  exact ⟨rfl, split_intercalate_eq_self_iff hchars⟩

/-- A token with double quotes in it and one with blanks at its ends hold no comma, and yet neither of
them comes out again. -/
theorem rejoined_tokens_differ :
    let value := "\"say \\\"hi\\\"\", \" padded \""
    let x := extract (.owned ⟨[("X", value)]⟩) "X" (.collection .list (.simple .text))
    x.tokens = ["say \"hi\"", " padded "] ∧ (∀ t ∈ x.tokens, ',' ∉ t.toList) ∧
      split (",".intercalate x.tokens) = ["say hi", "padded"] ∧
      split (",".intercalate x.tokens) ≠ x.tokens := by
  decide +kernel

end TypedHeaders
