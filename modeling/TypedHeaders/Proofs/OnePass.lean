import TypedHeaders.Proofs.Segments

/-!
# One pass gives what the grammar gives

`split` reads a header value once, while `read` parses it in phases: items, segments, tokens. They
give the same tokens for every text (`split_eq_read`).

Between two characters the pass holds the beginning of one segment, the segment in progress
(`Scan.Reads`): the token in progress has the characters of that segment's `body`, and the octets
that are kept are those of its `token`. A character either goes on in the segment or closes it
(`Scan.Reads.step`), so the tokens closed so far and the items still to come make up the whole
(`Scan.Reads.tokens_run`).

A backslash inside quotes is no item, and yet the pass then keeps all of the token in progress. That
changes nothing, because inside quotes all of it is kept already (`Scan.Reads.all_kept`).
-/

set_option autoImplicit false

namespace TypedHeaders.TokenList

open TypedHeaders.Text

/-! ## What an item does -/

/-- The segments that an item closes, when it comes after the items of the segment in progress. -/
def closedBy (o : List Item) : Option Item → List (List Item)
  | none => []
  | some i => if i.isSeparator then [o] else []

/-- The items of the segment in progress after one more item. -/
def openAfter (o : List Item) : Option Item → List Item
  | none => o
  | some i => if i.isSeparator then [] else o ++ [i]

theorem segments_resume {o : List Item} (ho : ∀ i ∈ o, i.isSeparator = false) (i : Option Item)
    (rest : List Item) :
    segments (o ++ (i.toList ++ rest)) = closedBy o i ++ segments (openAfter o i ++ rest) := by
  cases i with
  | none => rfl
  | some i =>
      rw [closedBy, openAfter]
      cases hi : i.isSeparator with
      | false => simp
      | true =>
          show segments (o ++ i :: rest) = [o] ++ segments rest
          rw [segments_append_separator o rest hi, segments_of_open ho]

/-- A segment that ends inside quotes does not end in a blank that is trimmed. -/
theorem token_openAfter {q : Quoting} {o : List Item} (c : Char)
    (h : q ≠ .outside → token o = body o) (hnext : q.next c ≠ .outside) :
    token (openAfter o (itemOf? q c)) = body (openAfter o (itemOf? q c)) := by
  cases hitem : itemOf? q c with
  | none => exact h (ne_outside_of_itemOf?_eq_none hitem)
  | some i =>
      cases i with
      | mark => exact token_concat_of_not_isPlainBlank o rfl
      | quoted d => exact token_concat_of_not_isPlainBlank o rfl
      | plain d => exact absurd (next_of_itemOf?_eq_plain hitem) hnext

namespace Scan

/-- What an item does to the tokens, or a backslash inside quotes, which is no item. -/
def take (s : Scan) : Option Item → Scan
  | none => s.keepAll
  | some .mark => s.keepAll
  | some (.quoted c) => (s.add c).keepAll
  | some (.plain c) =>
      if c = ',' then { s.flush with kept := 0 }
      else if isBlank c then (if s.current.isEmpty then s else s.add c)
      else (s.add c).keepAll

/-- What a character does to the tokens depends on its item only. -/
theorem absorb_eq_take (s : Scan) (c : Char) : s.absorb c = s.take (itemOf? s.quoting c) := by
  rw [absorb]
  cases s.quoting with
  | outside =>
      rw [itemOf?]
      dsimp only
      split
      · rfl
      · rfl
  | inside =>
      rw [itemOf?]
      dsimp only
      split
      · next h =>
          rcases h with rfl | rfl
          · rfl
          · rfl
      · next h =>
          obtain ⟨hquote, hbackslash⟩ := not_or.mp h
          rw [if_neg hquote, if_neg hbackslash]
          rfl
  | escaped => rfl

/-! ## The segment in progress -/

/-- The token in progress is that of a segment in progress: it has the characters of the body, and
those that are kept are the token. -/
structure InSegment (s : Scan) (o : List Item) : Prop where
  isOpen : ∀ i ∈ o, i.isSeparator = false
  current : s.current.toList = body o
  kept : s.kept = size (token o)

variable {s : Scan} {o : List Item} {i : Item}

namespace InSegment

theorem withQuoting (h : s.InSegment o) (quoting : Quoting) : InSegment { s with quoting } o :=
  ⟨h.isOpen, h.current, h.kept⟩

/-- Closing the token in progress gives the token of the segment. -/
theorem tokens_flush (h : s.InSegment o) :
    s.flush.tokens.toList = s.tokens.toList ++ texts [o] := by
  obtain ⟨back, -, hbody⟩ := exists_body_eq o
  have hcut : cut s.current s.kept = String.ofList (token o) := by
    rw [cut, h.current, h.kept, hbody, takeOctets_size_append]
  rw [flush, hcut, texts_singleton]
  by_cases ho : token o = []
  · simp [ho]
  · have hne : (String.ofList (token o)).isEmpty = false := by simp [ho]
    simp [hne, ho]

/-- One more item that does not close the segment. Unless it is a blank outside quotes, all of the
token in progress is kept from now on. -/
theorem concat (h : s.InSegment o) {s' : Scan} (hi : i.isSeparator = false)
    (hcurrent : s'.current.toList = body (o ++ [i]))
    (hkept : s'.kept = if i.isPlainBlank then s.kept else s'.current.utf8ByteSize) :
    s'.InSegment (o ++ [i]) where
  isOpen := by
    intro j hj
    rcases List.mem_append.mp hj with hold | hnew
    · exact h.isOpen j hold
    · rw [List.mem_singleton.mp hnew]
      exact hi
  current := hcurrent
  kept := by
    rw [hkept]
    cases hblank : i.isPlainBlank with
    | true => rw [if_pos rfl, token_concat_of_isPlainBlank o hblank, h.kept]
    | false =>
        rw [if_neg Bool.false_ne_true, token_concat_of_not_isPlainBlank o hblank,
          utf8ByteSize_eq_size, hcurrent]

theorem current_add (h : s.InSegment o) {c : Char} (hchar : i.char? = some c)
    (hcounts : ¬(body o = [] ∧ i.isLeading)) : (s.add c).current.toList = body (o ++ [i]) := by
  show (s.current.push c).toList = _
  rw [String.toList_push, h.current, body_concat, if_neg hcounts, hchar]
  rfl

theorem keepAll_mark (h : s.InSegment o) : s.keepAll.InSegment (o ++ [.mark]) := by
  refine h.concat rfl ?_ rfl
  show s.current.toList = _
  rw [h.current, body_concat]
  split
  · next hnil => exact hnil.1
  · exact (List.append_nil _).symm

theorem keepAll_quoted (h : s.InSegment o) (c : Char) :
    (s.add c).keepAll.InSegment (o ++ [.quoted c]) :=
  h.concat rfl (h.current_add rfl fun hnil => Bool.false_ne_true hnil.2) rfl

section Plain

variable {c : Char}

/-- A blank outside quotes is taken up once the token has a character, and is not kept. -/
theorem add_blank (h : s.InSegment o) (hcomma : c ≠ ',') (hblank : isBlank c = true) :
    (if s.current.isEmpty then s else s.add c).InSegment (o ++ [.plain c]) := by
  by_cases hbody : body o = []
  · have hempty : s.current.isEmpty = true := by
      rw [← h.current] at hbody
      simpa using hbody
    rw [if_pos hempty]
    refine h.concat (isSeparator_plain hcomma) ?_ (if_pos hblank).symm
    rw [body_concat, if_pos ⟨hbody, hblank⟩, h.current, hbody]
  · have hempty : s.current.isEmpty = false := by
      rw [← h.current] at hbody
      simpa using hbody
    rw [hempty, if_neg Bool.false_ne_true]
    exact h.concat (isSeparator_plain hcomma) (h.current_add rfl fun hnil => hbody hnil.1)
      (if_pos hblank).symm

theorem keepAll_plain (h : s.InSegment o) (hcomma : c ≠ ',') (hblank : isBlank c = false) :
    (s.add c).keepAll.InSegment (o ++ [.plain c]) := by
  have hcounts : ¬(body o = [] ∧ (Item.plain c).isLeading) := by
    simp [Item.isLeading, Item.isPlainBlank, hblank]
  refine h.concat (isSeparator_plain hcomma) (h.current_add rfl hcounts) ?_
  have hitem : (Item.plain c).isPlainBlank = false := hblank
  rw [hitem]
  rfl

end Plain

/-- An item goes on in the segment in progress or closes it. What is no item changes nothing if all
of the token in progress is kept already. -/
theorem take (h : s.InSegment o) (i : Option Item) (hnone : i = none → token o = body o) :
    (s.take i).InSegment (openAfter o i) ∧
      (s.take i).tokens.toList = s.tokens.toList ++ texts (closedBy o i) := by
  cases i with
  | none =>
      refine ⟨⟨h.isOpen, h.current, ?_⟩, (List.append_nil _).symm⟩
      show s.current.utf8ByteSize = size (token o)
      rw [hnone rfl, utf8ByteSize_eq_size, h.current]
  | some i =>
      cases i with
      | mark => exact ⟨h.keepAll_mark, (List.append_nil _).symm⟩
      | quoted c => exact ⟨h.keepAll_quoted c, (List.append_nil _).symm⟩
      | plain c =>
          rw [Scan.take]
          by_cases hcomma : c = ','
          · -- the state is that of a fresh start, whatever was kept before
            subst hcomma
            exact ⟨⟨by simp [openAfter, Item.isSeparator], rfl, rfl⟩, h.tokens_flush⟩
          · rw [if_neg hcomma, openAfter, closedBy, isSeparator_plain hcomma]
            cases hblank : isBlank c with
            | false => exact ⟨h.keepAll_plain hcomma hblank, (List.append_nil _).symm⟩
            | true =>
                refine ⟨h.add_blank hcomma hblank, ?_⟩
                rw [if_pos rfl]
                split
                · exact (List.append_nil _).symm
                · exact (List.append_nil _).symm

end InSegment

/-! ## The state between two characters -/

/-- The token in progress is that of a segment in progress, and inside quotes all of it is kept. -/
structure Reads (s : Scan) (o : List Item) : Prop extends InSegment s o where
  all_kept : s.quoting ≠ .outside → token o = body o

namespace Reads

theorem start (tokens : Array String) : Reads { tokens } [] :=
  ⟨⟨by simp, rfl, rfl⟩, fun _ => rfl⟩

/-- A character goes on in the segment in progress, or closes it and starts the next one. -/
theorem step (h : s.Reads o) (c : Char) :
    (s.step c).Reads (openAfter o (itemOf? s.quoting c)) ∧
      (s.step c).tokens.toList = s.tokens.toList ++ texts (closedBy o (itemOf? s.quoting c)) := by
  obtain ⟨hsegment, htokens⟩ := h.toInSegment.take (itemOf? s.quoting c)
    fun hnone => h.all_kept (ne_outside_of_itemOf?_eq_none hnone)
  rw [Scan.step, absorb_eq_take]
  exact ⟨⟨hsegment.withQuoting _, token_openAfter c h.all_kept⟩, htokens⟩

/-- Reading on from a state gives the tokens of the segments that the items to come make up with
those of the segment in progress. -/
theorem tokens_run (h : s.Reads o) (cs : List Char) :
    (s.run cs).flush.tokens.toList =
      s.tokens.toList ++ texts (segments (o ++ items s.quoting cs)) := by
  induction cs generalizing s o with
  | nil => rw [run_nil, h.tokens_flush, items, List.append_nil, segments_of_open h.isOpen]
  | cons c rest ih =>
      obtain ⟨hnext, htokens⟩ := h.step c
      rw [run_cons, ih hnext, htokens, items_cons, segments_resume h.isOpen, texts_append,
        List.append_assoc]
      rfl

/-- After any text there is a segment in progress. -/
theorem exists_run (h : s.Reads o) (cs : List Char) : ∃ o', (s.run cs).Reads o' := by
  induction cs generalizing s o with
  | nil => exact ⟨o, h⟩
  | cons c rest ih => exact ih (h.step c).1

end Reads

end Scan

/-! ## The whole pass -/

/-- The tokens of a header value are the texts of its segments. -/
theorem split_eq_texts (value : String) :
    split value = texts (segments (items .outside value.toList)) := by
  rw [split, (Scan.Reads.start #[]).tokens_run]
  rfl

/-- One pass over a header value gives the tokens that its grammar gives. -/
theorem split_eq_read (value : String) : split value = read value :=
  split_eq_texts value

end TypedHeaders.TokenList
