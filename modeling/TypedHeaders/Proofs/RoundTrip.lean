import TypedHeaders.Proofs.Lines
import TypedHeaders.TokenList.Written

/-!
# Reading back a written list

A list of tokens is written with each token in quotes or, if its characters allow that, bare, and
with blanks around it. `split` gives the tokens back, whatever characters they have and whichever
form is chosen for each (`split_write`). In particular, the tokens of any header value are read back
when they are written anew, all of them in quotes.

Inside quotes the backslash that `escape` puts in front of a character is no item, and the character
behind it is one like any other (`items_escape`). So a quoted token is a mark, its characters, and a
mark, and nothing of that is trimmed. A bare token is trimmed like any text (`token_map_plain`), so
it may not have blanks at its ends.
-/

set_option autoImplicit false

namespace TypedHeaders.TokenList

open TypedHeaders.Text

/-! ## A quoted token -/

theorem items_escape (cs rest : List Char) :
    items .inside (escape cs ++ rest) = cs.map .quoted ++ items .inside rest := by
  induction cs with
  | nil => rfl
  | cons c cs ih =>
      rw [escape_cons]
      by_cases hc : c = '"' ∨ c = '\\'
      · simp [items, hc, ih]
      · obtain ⟨hquote, hbackslash⟩ := not_or.mp hc
        simp [items, hquote, hbackslash, ih]

/-- No character of a token in quotes ends the quotes. -/
theorem foldl_next_escape (cs : List Char) :
    (escape cs).foldl Quoting.next .inside = .inside := by
  induction cs with
  | nil => rfl
  | cons c cs ih =>
      rw [escape_cons]
      by_cases hc : c = '"' ∨ c = '\\'
      · simp [Quoting.next, hc, ih]
      · obtain ⟨hquote, hbackslash⟩ := not_or.mp hc
        simp [Quoting.next, hquote, hbackslash, ih]

theorem items_quote (cs : List Char) :
    items .outside (quote cs) = (.mark :: cs.map .quoted) ++ [.mark] := by
  show .mark :: items .inside (escape cs ++ ['"']) = _
  rw [items_escape]
  rfl

theorem isClosed_quote (cs : List Char) : IsClosed (String.ofList (quote cs)) := by
  rw [IsClosed, endQuoting, String.toList_ofList]
  show (escape cs ++ ['"']).foldl Quoting.next .inside = _
  rw [List.foldl_append, foldl_next_escape]
  rfl

/-- The characters between two marks are the token, blanks and all. -/
theorem token_quoted (cs : List Char) :
    token ((.mark :: cs.map .quoted) ++ [.mark]) = cs := by
  have hbody : body (.mark :: cs.map .quoted) = cs := by
    have hchar : Item.char? ∘ Item.quoted = some := rfl
    show ((cs.map .quoted).dropWhile Item.isLeading).filterMap Item.char? = cs
    cases cs with
    | nil => rfl
    | cons c cs =>
        show ((c :: cs).map Item.quoted).filterMap Item.char? = c :: cs
        rw [List.filterMap_map, hchar, List.filterMap_some]
  rw [token_concat_of_not_isPlainBlank _ rfl, body_concat, hbody]
  cases cs with
  | nil => rfl
  | cons c cs => simp [Item.char?]

theorem split_quote {cs : List Char} (hcs : cs ≠ []) :
    split (String.ofList (quote cs)) = [String.ofList cs] := by
  have hopen : ∀ i ∈ (Item.mark :: cs.map .quoted) ++ [.mark], i.isSeparator = false := by
    intro i hi
    simp only [List.mem_append, List.mem_cons, List.mem_map, List.not_mem_nil, or_false] at hi
    rcases hi with (rfl | ⟨c, -, rfl⟩) | rfl
    · rfl
    · rfl
    · rfl
  rw [split_eq_texts, String.toList_ofList, items_quote, segments_of_open hopen, texts_singleton,
    token_quoted, if_neg hcs]

/-! ## A bare token -/

/-- Characters outside quotes are trimmed like any text. -/
theorem token_map_plain (cs : List Char) : token (cs.map .plain) = trimList cs := by
  have hleading : Item.isLeading ∘ Item.plain = isBlank := rfl
  have hblank : Item.isPlainBlank ∘ Item.plain = isBlank := rfl
  have hchar : Item.char? ∘ Item.plain = some := rfl
  rw [token, trimSegment, List.dropWhile_map, hleading, ← List.map_reverse, List.dropWhile_map,
    hblank, ← List.map_reverse, List.filterMap_map, hchar, List.filterMap_some]
  rfl

theorem split_bare {cs : List Char} (hcs : cs ≠ []) (hbare : MayBeBare cs) :
    split (String.ofList cs) = [String.ofList cs] := by
  obtain ⟨hquote, hcomma, hfirst, hlast⟩ := hbare
  rw [split_eq_texts, String.toList_ofList, (items_of_no_quote hquote).1,
    segments_of_open (isSeparator_of_mem_map_plain hcomma), texts_singleton, token_map_plain,
    trimList_eq_self hfirst hlast, if_neg hcs]

/-! ## Lists -/

/-- A token in its form, without the blanks around it. -/
def Cell.encoded (x : Cell) : List Char := if x.form = .bare then x.token else quote x.token

theorem Cell.ofList_text (x : Cell) :
    String.ofList x.text =
      String.ofList x.front ++ String.ofList x.encoded ++ String.ofList x.back := by
  rw [← String.ofList_append, ← String.ofList_append, text, encoded]
  cases x.form with
  | bare => rfl
  | quoted => rfl

theorem isBlankText_ofList {w : List Char} (hw : ∀ c ∈ w, isBlank c = true) :
    isBlankText (String.ofList w) = true := by
  rw [isBlankText, String.toList_ofList]
  exact List.all_eq_true.mpr hw

namespace Cell.WellFormed

variable {x : Cell}

theorem isClosed_encoded (h : x.WellFormed) : IsClosed (String.ofList x.encoded) := by
  rw [encoded]
  cases hform : x.form with
  | bare =>
      obtain ⟨hquote, -⟩ := h.2.1 hform
      exact isClosed_of_no_quote (by simpa using hquote)
  | quoted => exact isClosed_quote x.token

theorem split_encoded (h : x.WellFormed) :
    split (String.ofList x.encoded) = [String.ofList x.token] := by
  rw [encoded]
  cases hform : x.form with
  | bare => exact split_bare h.1 (h.2.1 hform)
  | quoted => exact split_quote h.1

theorem isClosed_text (h : x.WellFormed) : IsClosed (String.ofList x.text) := by
  obtain ⟨hfront, hback⟩ := h.2.2
  rw [x.ofList_text]
  exact ((isClosed_of_isBlankText (isBlankText_ofList hfront)).append h.isClosed_encoded).append
    (isClosed_of_isBlankText (isBlankText_ofList hback))

/-- The text of an item has one token, without the blanks around it. -/
theorem split_text (h : x.WellFormed) :
    split (String.ofList x.text) = [String.ofList x.token] := by
  have hfront := isBlankText_ofList h.2.2.1
  have hback := isBlankText_ofList h.2.2.2
  have hclosed := (isClosed_of_isBlankText hfront).append h.isClosed_encoded
  rw [x.ofList_text, split_append_blanks hclosed hback, split_blanks_append hfront,
    h.split_encoded]

end Cell.WellFormed

theorem ofList_write (cells : List Cell) :
    String.ofList (write cells) = ",".intercalate (cells.map fun x => String.ofList x.text) := by
  apply String.toList_inj.mp
  rw [String.toList_ofList, String.toList_intercalate, write, List.map_map]
  congr 2
  funext x
  exact String.toList_ofList.symm

theorem isClosed_write {cells : List Cell} (h : ∀ x ∈ cells, x.WellFormed) :
    IsClosed (String.ofList (write cells)) := by
  rw [ofList_write]
  apply isClosed_intercalate
  intro part hpart
  obtain ⟨x, hx, rfl⟩ := List.mem_map.mp hpart
  exact (h x hx).isClosed_text

/-- A written list has the tokens of its items, in order. -/
theorem split_ofList_write {cells : List Cell} (h : ∀ x ∈ cells, x.WellFormed) :
    split (String.ofList (write cells)) = cells.map fun x => String.ofList x.token := by
  have hclosed : ∀ part ∈ (cells.map fun x => String.ofList x.text).dropLast, IsClosed part := by
    intro part hpart
    obtain ⟨x, hx, rfl⟩ := List.mem_map.mp (List.dropLast_subset _ hpart)
    exact (h x hx).isClosed_text
  rw [ofList_write, split_intercalate hclosed, List.flatMap_map, List.map_eq_flatMap]
  apply List.flatMap_congr
  intro x hx
  exact (h x hx).split_text

/-- No token is empty. -/
theorem ne_empty_of_mem_split {value t : String} (h : t ∈ split value) : t.toList ≠ [] := by
  rw [split_eq_texts, texts] at h
  obtain ⟨cs, hcs, rfl⟩ := List.mem_map.mp h
  rw [String.toList_ofList]
  exact of_decide_eq_true (List.mem_filter.mp hcs).2

/-- Reading a written list gives its tokens back, whichever of them are in quotes and whatever
blanks are around them. So the tokens of any header value are read back from a list in which all of
them are in quotes. -/
theorem split_write :
    (∀ cells : List Cell, (∀ x ∈ cells, x.WellFormed) →
      split (String.ofList (write cells)) = cells.map fun x => String.ofList x.token) ∧
    ∀ value : String, split (writeQuoted (split value)) = split value := by
  refine ⟨fun cells h => split_ofList_write h, ?_⟩
  intro value
  have hcells : ∀ x ∈ (split value).map fun t => ({ token := t.toList } : Cell), x.WellFormed := by
    intro x hx
    obtain ⟨t, ht, rfl⟩ := List.mem_map.mp hx
    refine ⟨ne_empty_of_mem_split ht, ?_, ?_, ?_⟩
    · rintro ⟨⟩
    · rintro c ⟨⟩
    · rintro c ⟨⟩
  rw [writeQuoted, split_ofList_write hcells, List.map_map]
  have hsame : (fun x : Cell => String.ofList x.token) ∘ (fun t => { token := t.toList }) = id := by
    funext t
    exact String.ofList_toList
  rw [hsame, List.map_id]

/-- A token with all that needs quotes, a bare one with a blank inside, and one that is a blank. -/
theorem split_write_mixed :
    let cells : List Cell :=
      [{ token := [' ', '"', ',', '\\'] },
        { token := ['a', '\t', 'b'], form := .bare, front := [' '], back := ['\u3000'] },
        { token := [' '], front := ['\t'] }]
    (∀ x ∈ cells, x.WellFormed) ∧
      String.ofList (write cells) = "\" \\\",\\\\\", a\tb\u3000,\t\" \"" ∧
      split (String.ofList (write cells)) = [" \",\\", "a\tb", " "] := by
  intro cells
  have hquoted : ∀ cs, cs ≠ [] → ∀ front, (∀ c ∈ front, isBlank c = true) →
      ({ token := cs, front } : Cell).WellFormed := by
    intro cs hcs front hfront
    exact ⟨hcs, nofun, hfront, nofun⟩
  have hbare : MayBeBare ['a', '\t', 'b'] := by
    refine ⟨by decide, by decide, ?_, ?_⟩
    · rintro c ⟨⟩
      decide
    · rintro c ⟨⟩
      decide
  have hcells : ∀ x ∈ cells, x.WellFormed := by
    intro x hx
    simp only [cells, List.mem_cons, List.not_mem_nil, or_false] at hx
    rcases hx with rfl | rfl | rfl
    · exact hquoted _ (List.cons_ne_nil _ _) [] nofun
    · exact ⟨List.cons_ne_nil _ _, fun _ => hbare, List.all_eq_true.mp rfl, List.all_eq_true.mp rfl⟩
    · exact hquoted _ (List.cons_ne_nil _ _) _ (List.all_eq_true.mp rfl)
  refine ⟨hcells, by decide +kernel, ?_⟩
  obtain ⟨hwritten, -⟩ := split_write
  rw [hwritten cells hcells]
  decide +kernel

end TypedHeaders.TokenList
