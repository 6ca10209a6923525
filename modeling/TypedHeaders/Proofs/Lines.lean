import TypedHeaders.Header.Store
import TypedHeaders.Proofs.OnePass

/-!
# Lists over several lines

The values of a header's lines are joined by commas before the tokens are cut. That a comma between
two texts parts their tokens, blanks around it or not, is so for every text that may follow exactly
if the text in front closes the quotes that it opens (`split_distributes`). Then the pass is where
it started, whatever it has kept; in an open quote the comma is a character of a token.

So a header whose lines are closed, the last one perhaps excepted, has the tokens of its lines one
after another, and it does not matter over how many lines a list is spread.
-/

set_option autoImplicit false

namespace TypedHeaders.TokenList

open TypedHeaders.Text TypedHeaders.Header

/-- Every quote that is opened in the text is closed in it. -/
def IsClosed (value : String) : Prop := endQuoting value.toList = .outside

instance (value : String) : Decidable (IsClosed value) := inferInstanceAs (Decidable (_ = _))

/-- Neither a double quote nor a comma is blank. -/
theorem ne_of_isBlank {c d : Char} (hc : isBlank c = true) (hd : isBlank d = false) : c ≠ d := by
  rintro rfl
  rw [hc] at hd
  cases hd

theorem isBlank_of_mem {w : String} (hw : isBlankText w = true) :
    ∀ c ∈ w.toList, isBlank c = true :=
  List.all_eq_true.mp hw

theorem quote_not_mem_of_isBlankText {w : String} (hw : isBlankText w = true) : '"' ∉ w.toList :=
  fun hquote => ne_of_isBlank (isBlank_of_mem hw _ hquote) (by decide) rfl

/-! ## Closed texts -/

theorem IsClosed.append {a b : String} (ha : IsClosed a) (hb : IsClosed b) : IsClosed (a ++ b) := by
  have hends : a.toList.foldl Quoting.next .outside = .outside := ha
  rw [IsClosed, endQuoting, String.toList_append, List.foldl_append, hends]
  exact hb

theorem isClosed_of_no_quote {a : String} (h : '"' ∉ a.toList) : IsClosed a :=
  (items_of_no_quote h).2

theorem isClosed_of_isBlankText {w : String} (hw : isBlankText w = true) : IsClosed w :=
  isClosed_of_no_quote (quote_not_mem_of_isBlankText hw)

/-- Closed texts that are joined by commas are closed. -/
theorem isClosed_intercalate {parts : List String} (h : ∀ part ∈ parts, IsClosed part) :
    IsClosed (",".intercalate parts) := by
  induction parts with
  | nil => decide
  | cons part rest ih =>
      have hpart : IsClosed part := h part List.mem_cons_self
      have hrest := ih fun p hp => h p (List.mem_cons_of_mem part hp)
      cases rest with
      | nil => simpa using hpart
      | cons next rest =>
          rw [String.intercalate_cons_cons]
          exact (hpart.append (by decide)).append hrest

/-! ## A comma outside quotes -/

/-- A comma after a closed text parts its tokens from those of the rest. -/
theorem split_append_comma {a : String} (ha : IsClosed a) (b : String) :
    split (a ++ "," ++ b) = split a ++ split b := by
  have hitems : items .outside (a ++ "," ++ b).toList =
      items .outside a.toList ++ .plain ',' :: items .outside b.toList := by
    have hends : a.toList.foldl Quoting.next .outside = .outside := ha
    have hcomma : (a ++ "," ++ b).toList = a.toList ++ ',' :: b.toList := by simp
    rw [hcomma, items_append, hends, items_cons]
    rfl
  rw [split_eq_texts, hitems, segments_append_separator _ _ rfl, texts_append, ← split_eq_texts,
    ← split_eq_texts]

/-- Blanks at the end of a closed text are not in any token. -/
theorem split_append_blanks {a w : String} (ha : IsClosed a) (hw : isBlankText w = true) :
    split (a ++ w) = split a := by
  obtain ⟨o, ho⟩ := (Scan.Reads.start #[]).exists_run a.toList
  have hends : (Scan.run {} a.toList).quoting = .outside := (Scan.quoting_run {} _).trans ha
  have hblanks := isBlank_of_mem hw
  have hcomma : ',' ∉ w.toList := fun h => ne_of_isBlank (hblanks _ h) (by decide) rfl
  have hopen : ∀ i ∈ o ++ w.toList.map .plain, i.isSeparator = false := by
    intro i hi
    rcases List.mem_append.mp hi with hold | hnew
    · exact ho.isOpen i hold
    · exact isSeparator_of_mem_map_plain hcomma i hnew
  -- the blanks are the last items of the segment in progress, and its token stays the same
  rw [split, split, String.toList_append, Scan.run_append, ho.tokens_run, hends,
    (items_of_no_quote (quote_not_mem_of_isBlankText hw)).1, segments_of_open hopen,
    texts_singleton, token_append_blanks o hblanks, ho.tokens_flush, texts_singleton]

/-- Blanks and commas in front of a token leave the pass where it started. -/
theorem run_fillers (tokens : Array String) {w : List Char}
    (hw : ∀ c ∈ w, isBlank c = true ∨ c = ',') : Scan.run { tokens } w = { tokens } := by
  induction w with
  | nil => rfl
  | cons c rest ih =>
      have hstep : ({ tokens } : Scan).step c = { tokens } := by
        rcases hw c List.mem_cons_self with hblank | rfl
        · have hquote : c ≠ '"' := ne_of_isBlank hblank (by decide)
          have hcomma : c ≠ ',' := ne_of_isBlank hblank (by decide)
          simp [Scan.step, Scan.absorb, Quoting.next, hquote, hcomma, hblank]
        · -- the token that the comma closes has no character
          rfl
      rw [Scan.run_cons, hstep]
      exact ih fun d hd => hw d (List.mem_cons_of_mem c hd)

/-- Blanks at the beginning of a text are not in any token. -/
theorem split_blanks_append {w : String} (hw : isBlankText w = true) (b : String) :
    split (w ++ b) = split b := by
  rw [split, split, String.toList_append, Scan.run_append,
    run_fillers #[] fun c hc => Or.inl (isBlank_of_mem hw c hc)]

/-- A text of blanks and commas has no token. -/
theorem split_of_fillers {w : String} (hw : ∀ c ∈ w.toList, isBlank c = true ∨ c = ',') :
    split w = [] := by
  rw [split, run_fillers #[] hw]
  rfl

/-! ## A comma inside quotes -/

/-- In an open quote a comma and a letter are the last characters of the token in progress. -/
theorem items_comma_of_open {q : Quoting} (hq : q ≠ .outside) :
    items q [',', 'x'] = [.quoted ',', .quoted 'x'] := by
  cases q with
  | outside => exact absurd rfl hq
  | inside => decide
  | escaped => decide

/-- After an open quote the comma does not part anything: the last token holds it. -/
theorem split_append_comma_ne {a : String} (ha : ¬IsClosed a) :
    split (a ++ "," ++ "x") ≠ split a ++ split "x" := by
  obtain ⟨o, ho⟩ := (Scan.Reads.start #[]).exists_run a.toList
  have hends : (Scan.run {} a.toList).quoting ≠ .outside := by
    rw [Scan.quoting_run]
    exact ha
  have hopen : ∀ i ∈ o ++ [.quoted ','] ++ [.quoted 'x'], i.isSeparator = false := by
    intro i hi
    simp only [List.append_assoc, List.mem_append, List.mem_singleton] at hi
    rcases hi with hold | rfl | rfl
    · exact ho.isOpen i hold
    · rfl
    · rfl
  have htoken : token (o ++ [.quoted ','] ++ [.quoted 'x']) = body o ++ [','] ++ ['x'] := by
    rw [token_concat_of_not_isPlainBlank _ rfl, body_concat, body_concat]
    simp [Item.isLeading, Item.isPlainBlank, Item.char?]
  have hjoined : split (a ++ "," ++ "x") =
      (Scan.run {} a.toList).tokens.toList ++ [String.ofList (body o ++ [','] ++ ['x'])] := by
    have hchars : (a ++ "," ++ "x").toList = a.toList ++ [',', 'x'] := by simp
    rw [split, hchars, Scan.run_append, ho.tokens_run, items_comma_of_open hends,
      List.append_cons, segments_of_open hopen, texts_singleton, htoken]
    simp
  have hletter : split "x" = ["x"] := by decide
  intro hsame
  rw [hjoined, hletter] at hsame
  -- the last tokens of the two sides differ in length
  have hlast := congrArg String.toList (List.append_inj_right' hsame rfl |> List.singleton_inj.mp)
  have hlength := congrArg List.length hlast
  simp at hlength

/-! ## Lines -/

/-- The tokens of closed texts that are joined by commas are those of the texts, in order. Nothing
follows the last text, so that one may be open. -/
theorem split_intercalate {parts : List String} (h : ∀ part ∈ parts.dropLast, IsClosed part) :
    split (",".intercalate parts) = parts.flatMap split := by
  induction parts with
  | nil => rfl
  | cons part rest ih =>
      cases rest with
      | nil => simp
      | cons next rest =>
          have hpart : IsClosed part := h part (by simp)
          have hrest : ∀ p ∈ (next :: rest).dropLast, IsClosed p := by
            intro p hp
            exact h p (List.mem_cons_of_mem part hp)
          rw [String.intercalate_cons_cons, split_append_comma hpart, ih hrest]
          rfl

theorem getCommaSeparated_eq_split (h : HeaderStore) (name : String) :
    h.getCommaSeparated name = split (",".intercalate (h.getAll name)) := by
  rw [HeaderStore.getCommaSeparated, HeaderStore.getJoined]
  cases h.getAll name with
  | nil => rfl
  | cons line rest => rfl

/-- Texts in groups, those of each group joined by commas and then the groups, are all joined by
commas. -/
theorem intercalate_map_intercalate {groups : List (List String)} (h : ∀ g ∈ groups, g ≠ []) :
    ",".intercalate (groups.map fun g => ",".intercalate g) = ",".intercalate groups.flatten := by
  induction groups with
  | nil => rfl
  | cons g rest ih =>
      cases rest with
      | nil => simp
      | cons g' rest =>
          have hg : g ≠ [] := h g List.mem_cons_self
          have hrest : ∀ x ∈ g' :: rest, x ≠ [] := fun x hx => h x (List.mem_cons_of_mem g hx)
          have hflatten : (g' :: rest).flatten ≠ [] := by
            have := hrest g' List.mem_cons_self
            simp [this]
          rw [List.flatten_cons, String.intercalate_append_of_ne_nil hg hflatten, ← ih hrest]
          simp

/-- A text parts from everything that follows it behind a comma and blanks exactly if it is closed.
So a header whose lines are closed, but for the last one, has the tokens of its lines in order, and
however closed parts of a list are spread over lines, the tokens are those of the parts. -/
theorem split_distributes :
    (∀ a : String,
      (∀ w₁ w₂ b : String, isBlankText w₁ = true → isBlankText w₂ = true →
        split (a ++ w₁ ++ "," ++ w₂ ++ b) = split a ++ split b) ↔ IsClosed a) ∧
    (∀ (h : HeaderStore) (name : String), (∀ line ∈ (h.getAll name).dropLast, IsClosed line) →
      h.getCommaSeparated name = (h.getAll name).flatMap split) ∧
    ∀ (h : HeaderStore) (name : String) (groups : List (List String)),
      h.getAll name = groups.map (fun parts => ",".intercalate parts) →
      (∀ parts ∈ groups, parts ≠ []) → (∀ part ∈ groups.flatten.dropLast, IsClosed part) →
      h.getCommaSeparated name = groups.flatten.flatMap split := by
  refine ⟨?_, ?_, ?_⟩
  · intro a
    constructor
    · intro hdistributes
      apply Decidable.byContradiction
      intro ha
      exact split_append_comma_ne ha (by simpa using hdistributes "" "" "x" rfl rfl)
    · intro ha w₁ w₂ b hw₁ hw₂
      rw [String.append_assoc, split_append_comma (ha.append (isClosed_of_isBlankText hw₁)),
        split_append_blanks ha hw₁, split_blanks_append hw₂]
  · intro h name hclosed
    rw [getCommaSeparated_eq_split, split_intercalate hclosed]
  · intro h name groups hlines hgroups hclosed
    rw [getCommaSeparated_eq_split, hlines, intercalate_map_intercalate hgroups,
      split_intercalate hclosed]

/-- A closed line of two parts, one with a comma in quotes, and a last line that opens a quote. -/
theorem split_distributes_two_lines :
    let first := "x , \"a,b\"\t"
    let last := "\"c, d"
    let h : HeaderStore := .owned ⟨[("X", first), ("X", last)]⟩
    let groups := [["x ", " \"a,b\"\t"], [last]]
    isBlankText " " = true ∧ isBlankText "\u3000\t" = true ∧ IsClosed first ∧ ¬IsClosed last ∧
      split (first ++ " " ++ "," ++ "\u3000\t" ++ last) = ["x", "a,b"] ++ ["c, d"] ∧
      (∀ line ∈ (h.getAll "X").dropLast, IsClosed line) ∧
      h.getCommaSeparated "X" = ["x", "a,b"] ++ ["c, d"] ∧
      h.getAll "X" = groups.map (fun parts => ",".intercalate parts) ∧
      (∀ parts ∈ groups, parts ≠ []) ∧ (∀ part ∈ groups.flatten.dropLast, IsClosed part) ∧
      h.getCommaSeparated "X" = ["x"] ++ ["a,b"] ++ ["c, d"] := by
  intro first last h groups
  have hspace : isBlankText " " = true := by decide +kernel
  have hblanks : isBlankText "\u3000\t" = true := by decide +kernel
  have hfirst : IsClosed first := by decide +kernel
  have hlast : ¬IsClosed last := by decide +kernel
  have hlines : ∀ line ∈ (h.getAll "X").dropLast, IsClosed line := by decide +kernel
  have hgroups : h.getAll "X" = groups.map (fun parts => ",".intercalate parts) := by
    decide +kernel
  have hnone : ∀ parts ∈ groups, parts ≠ [] := by decide +kernel
  have hparts : ∀ part ∈ groups.flatten.dropLast, IsClosed part := by decide +kernel
  obtain ⟨hcomma, hstore, hspread⟩ := split_distributes
  refine ⟨hspace, hblanks, hfirst, hlast, ?_, hlines, ?_, hgroups, hnone, hparts, ?_⟩
  · rw [(hcomma first).mpr hfirst " " "\u3000\t" last hspace hblanks]
    decide +kernel
  · rw [hstore h "X" hlines]
    decide +kernel
  · rw [hspread h "X" groups hgroups hnone hparts]
    decide +kernel

end TypedHeaders.TokenList
