import TypedHeaders.TokenList.Scan

/-!
# The trim position

The pass over a header value holds the place up to which the token in progress is kept as a number
of octets, `Scan.kept`, while the token grows by characters of one to four octets each. A truncation
in the midst of a character fails (`truncate?`). That never happens: after any number of characters
`kept` is the size of a text that the token in progress begins with, and what follows there is held
back, blanks outside quotes that end the text read so far (`Scan.HoldsBack`).

A character does one of two things (`Scan.step_keeps_or_waits`): a blank outside quotes leaves the
trim position where it is, and after any other character all of the token in progress is kept. So
one step preserves the invariant (`Scan.HoldsBack.exists_step`), and the pass whose truncations may
fail gives the same tokens as the one whose cuts are total (`trim_position_valid`). All this is said
of the characters read, without the grammar that says which tokens they make up.
-/

set_option autoImplicit false

namespace TypedHeaders.Text

/-! ## Truncation -/

/-- A text truncated after `n` octets. This fails in the midst of a character, and a text with fewer
octets stays as it is. -/
def truncate? (s : String) (n : Nat) : Option String :=
  if s.utf8ByteSize < n then some s
  else if h : String.Pos.Raw.IsValid s ⟨n⟩ then
    some (String.ofByteArray (s.toByteArray.extract 0 n) h.isValidUTF8_extract_zero)
  else none

/-- The library's valid positions are the boundaries. -/
theorem isValid_iff_isBoundary (s : String) (n : Nat) :
    String.Pos.Raw.IsValid s ⟨n⟩ ↔ IsBoundary s.toList n := by
  rw [String.Pos.Raw.isValid_iff_exists_append]
  constructor
  · rintro ⟨front, back, rfl, hn⟩
    refine ⟨front.toList, back.toList, String.toList_append, ?_⟩
    rw [← utf8ByteSize_eq_size]
    exact congrArg String.Pos.Raw.byteIdx hn.symm
  · rintro ⟨front, back, hsplit, rfl⟩
    refine ⟨String.ofList front, String.ofList back, ?_, ?_⟩
    · rw [← String.toList_inj, hsplit]
      simp
    · rw [← utf8ByteSize_ofList]
      rfl

/-- At a boundary truncation does not fail, and keeps the octets in front of it. -/
theorem truncate?_of_isBoundary {s : String} {n : Nat} (h : IsBoundary s.toList n) :
    truncate? s n = some (cut s n) := by
  have hle : ¬s.utf8ByteSize < n := by
    rw [utf8ByteSize_eq_size]
    exact Nat.not_lt.mpr h.le_size
  rw [truncate?, if_neg hle, dif_pos ((isValid_iff_isBoundary s n).mpr h), Option.some_inj,
    ← String.toByteArray_inj]
  show s.toByteArray.extract 0 n = (cut s n).toByteArray
  obtain ⟨front, back, hsplit, rfl⟩ := h
  have hs : s = String.ofList front ++ String.ofList back := by
    rw [← String.toList_inj, hsplit]
    simp
  rw [cut, hsplit, takeOctets_size_append, hs, String.toByteArray_append, ← utf8ByteSize_ofList]
  exact ByteArray.extract_append_eq_left rfl

/-- Between the octets of a character there is no text to truncate to. -/
example : truncate? "aé" 2 = none ∧ truncate? "aé" 1 = some "a" ∧ truncate? "aé" 4 = some "aé" := by
  decide +kernel

end TypedHeaders.Text

namespace TypedHeaders.TokenList

open TypedHeaders.Text

/-! ## Blanks outside quotes at the end of a text -/

/-- The text ends in the given characters, each of which is a blank that stands outside quotes. -/
def EndsInPlainBlanks (seen back : List Char) : Prop :=
  ∃ before, seen = before ++ back ∧
    ∀ front c rest, back = front ++ c :: rest →
      isBlank c = true ∧ endQuoting (before ++ front) = .outside

namespace EndsInPlainBlanks

variable {seen back : List Char}

theorem nil (seen : List Char) : EndsInPlainBlanks seen [] := by
  refine ⟨seen, (List.append_nil seen).symm, ?_⟩
  intro front c rest hnil
  exact absurd hnil.symm (List.append_ne_nil_of_right_ne_nil front (List.cons_ne_nil c rest))

/-- One more blank outside quotes. -/
theorem concat (h : EndsInPlainBlanks seen back) {c : Char} (hblank : isBlank c = true)
    (hseen : endQuoting seen = .outside) : EndsInPlainBlanks (seen ++ [c]) (back ++ [c]) := by
  obtain ⟨before, rfl, hback⟩ := h
  refine ⟨before, List.append_assoc before back [c], ?_⟩
  intro front d rest hsplit
  -- the character is the one at the end or stands in front of it
  rcases List.eq_nil_or_concat rest with rfl | ⟨inner, e, rfl⟩
  · obtain ⟨rfl, hlast⟩ := List.append_inj' hsplit rfl
    cases hlast
    exact ⟨hblank, hseen⟩
  · have hcons : front ++ d :: (inner ++ [e]) = (front ++ d :: inner) ++ [e] := by simp
    rw [List.concat_eq_append, hcons] at hsplit
    obtain ⟨hinner, -⟩ := List.append_inj' hsplit rfl
    exact hback front d inner hinner

end EndsInPlainBlanks

theorem endQuoting_concat (cs : List Char) (c : Char) :
    endQuoting (cs ++ [c]) = (endQuoting cs).next c :=
  List.foldl_append

namespace Scan

/-! ## What a character does to the trim position -/

/-- After a character all of the token in progress is kept, unless the character is a blank outside
quotes. Such a blank is taken up once the token has a character, and the trim position stays. -/
theorem step_keeps_or_waits (s : Scan) (c : Char) :
    (s.step c).kept = (s.step c).current.utf8ByteSize ∨
      s.quoting = .outside ∧ isBlank c = true ∧ (s.step c).kept = s.kept ∧
        (s.step c).current = if s.current.isEmpty then s.current else s.current.push c := by
  show (s.absorb c).kept = (s.absorb c).current.utf8ByteSize ∨
    _ ∧ _ ∧ (s.absorb c).kept = s.kept ∧ (s.absorb c).current = _
  rw [absorb]
  cases s.quoting with
  | outside =>
      dsimp only
      split
      · exact Or.inl rfl
      · split
        · -- a comma leaves an empty token, and nothing of it is kept
          exact Or.inl rfl
        · split
          · next hblank =>
              refine Or.inr ⟨rfl, hblank, ?_⟩
              split
              · exact ⟨rfl, rfl⟩
              · exact ⟨rfl, rfl⟩
          · exact Or.inl rfl
  | inside =>
      dsimp only
      split
      · exact Or.inl rfl
      · exact Or.inl rfl
  | escaped => exact Or.inl rfl

/-- The token in progress consists of the characters that are kept and of those that are held back.
What is held back are the last characters read, blanks outside quotes, and there is none in front of
the first character that is kept. -/
structure HoldsBack (s : Scan) (seen front back : List Char) : Prop where
  quoting : s.quoting = endQuoting seen
  current : s.current.toList = front ++ back
  kept : s.kept = size front
  blanks : EndsInPlainBlanks seen back
  begun : front = [] → back = []

namespace HoldsBack

variable {s : Scan} {seen front back : List Char}

theorem start : HoldsBack {} [] [] [] :=
  ⟨rfl, rfl, rfl, EndsInPlainBlanks.nil [], fun _ => rfl⟩

theorem of_all_kept (hquoting : s.quoting = endQuoting seen)
    (hkept : s.kept = s.current.utf8ByteSize) : s.HoldsBack seen s.current.toList [] where
  quoting := hquoting
  current := (List.append_nil _).symm
  kept := by rw [hkept, utf8ByteSize_eq_size]
  blanks := EndsInPlainBlanks.nil seen
  begun := fun _ => rfl

/-- A token in progress of which nothing is kept has no character. -/
theorem current_isEmpty_iff (h : s.HoldsBack seen front back) :
    s.current.isEmpty = true ↔ front = [] := by
  rw [String.isEmpty_iff, ← String.toList_eq_nil_iff, h.current, List.append_eq_nil_iff]
  exact ⟨And.left, fun hfront => ⟨hfront, h.begun hfront⟩⟩

/-- Reading a character preserves the invariant. -/
theorem exists_step (h : s.HoldsBack seen front back) (c : Char) :
    ∃ front back, (s.step c).HoldsBack (seen ++ [c]) front back := by
  have hquoting : (s.step c).quoting = endQuoting (seen ++ [c]) := by
    rw [endQuoting_concat, ← h.quoting]
    rfl
  rcases s.step_keeps_or_waits c with hkept | ⟨houtside, hblank, hkept, hcurrent⟩
  · exact ⟨_, _, of_all_kept hquoting hkept⟩
  · by_cases hfront : front = []
    · -- in front of a token nothing is taken up, and nothing is kept
      have hempty := h.current_isEmpty_iff.mpr hfront
      rw [if_pos hempty] at hcurrent
      refine ⟨_, _, of_all_kept hquoting ?_⟩
      rw [hkept, hcurrent, String.isEmpty_iff.mp hempty, h.kept, hfront]
      rfl
    · have hne := mt h.current_isEmpty_iff.mp hfront
      rw [if_neg hne] at hcurrent
      refine ⟨front, back ++ [c], hquoting, ?_, hkept.trans h.kept, ?_, fun hnil => ?_⟩
      · rw [hcurrent, String.toList_push, h.current, List.append_assoc]
      · exact h.blanks.concat hblank (h.quoting.symm.trans houtside)
      · exact absurd hnil hfront

/-- Reading characters one after another preserves the invariant. -/
theorem exists_run (h : s.HoldsBack seen front back) (cs : List Char) :
    ∃ front back, (s.run cs).HoldsBack (seen ++ cs) front back := by
  induction cs generalizing s seen front back with
  | nil => exact ⟨front, back, by rwa [List.append_nil]⟩
  | cons c rest ih =>
      obtain ⟨front', back', hstep⟩ := h.exists_step c
      rw [List.append_cons]
      exact ih hstep

/-! ## Closing the token in progress -/

theorem isBoundary (h : s.HoldsBack seen front back) : IsBoundary s.current.toList s.kept :=
  ⟨front, back, h.current, h.kept.symm⟩

theorem toList_cut (h : s.HoldsBack seen front back) : (cut s.current s.kept).toList = front := by
  rw [Text.toList_cut, h.current, h.kept, takeOctets_size_append]

/-- The cut leaves a character exactly if the token in progress has one. -/
theorem cut_eq_empty_iff (h : s.HoldsBack seen front back) :
    cut s.current s.kept = "" ↔ s.current = "" := by
  rw [← String.toList_eq_nil_iff, h.toList_cut, ← String.isEmpty_iff, h.current_isEmpty_iff]

theorem utf8ByteSize_cut (h : s.HoldsBack seen front back) :
    (cut s.current s.kept).utf8ByteSize = s.kept := by
  rw [utf8ByteSize_eq_size, h.toList_cut, h.kept]

theorem kept_pos (h : s.HoldsBack seen front back) (hcurrent : s.current ≠ "") : 0 < s.kept := by
  rw [← h.utf8ByteSize_cut, Nat.pos_iff_ne_zero, ne_eq, String.utf8ByteSize_eq_zero_iff,
    h.cut_eq_empty_iff]
  exact hcurrent

theorem tokens_flush (h : s.HoldsBack seen front back) :
    s.flush.tokens =
      if s.current = "" then s.tokens else s.tokens.push (cut s.current s.kept) := by
  rw [flush]
  simp only [String.isEmpty_iff, h.cut_eq_empty_iff]

end HoldsBack

/-! ## The pass with truncations that may fail -/

/-- Close the token in progress by a truncation, unless that fails. -/
def flush? (s : Scan) : Option Scan :=
  (truncate? s.current s.kept).map fun token =>
    { s with tokens := if token.isEmpty then s.tokens else s.tokens.push token, current := "" }

/-- Read one character. A comma outside quotes truncates the token in progress. -/
def step? (s : Scan) (c : Char) : Option Scan :=
  if s.quoting = .outside ∧ c = ',' then s.flush?.map fun closed => { closed with kept := 0 }
  else some (s.step c)

/-- The state after `n` characters of a header value. A backslash inside quotes and the character
that it takes count as two. -/
def after (value : String) (n : Nat) : Scan := run {} (value.toList.take n)

theorem step_comma {s : Scan} (houtside : s.quoting = .outside) :
    s.step ',' = { s.flush with kept := 0 } := by
  obtain ⟨tokens, current, kept, quoting⟩ := s
  cases houtside
  rfl

theorem after_succ_of_comma {value : String} {n : Nat} (hcomma : value.toList[n]? = some ',') :
    after value (n + 1) = (after value n).step ',' := by
  rw [after, after, List.take_add_one, hcomma, Option.toList_some, run_append, run_cons, run_nil]

namespace HoldsBack

variable {s : Scan} {seen front back : List Char}

theorem flush?_eq (h : s.HoldsBack seen front back) : s.flush? = some s.flush := by
  rw [flush?, truncate?_of_isBoundary h.isBoundary]
  rfl

theorem step?_eq (h : s.HoldsBack seen front back) (c : Char) : s.step? c = some (s.step c) := by
  rw [step?]
  split
  · next hcomma =>
      obtain ⟨houtside, rfl⟩ := hcomma
      rw [h.flush?_eq, step_comma houtside]
      rfl
  · rfl

theorem exists_after (value : String) (n : Nat) :
    ∃ front back, (after value n).HoldsBack (value.toList.take n) front back :=
  start.exists_run (value.toList.take n)

/-- No truncation fails on the way, and the states are those of the total pass. -/
theorem foldlM_step?_eq (h : s.HoldsBack seen front back) (cs : List Char) :
    cs.foldlM step? s = some (s.run cs) := by
  induction cs generalizing s seen front back with
  | nil => rfl
  | cons c rest ih =>
      obtain ⟨front', back', hstep⟩ := h.exists_step c
      rw [List.foldlM_cons, h.step?_eq, run_cons]
      exact ih hstep

end HoldsBack

end Scan

/-- The tokens of a header value, unless a truncation on the way fails. -/
def split? (value : String) : Option (List String) := do
  let s ← value.toList.foldlM Scan.step? {}
  let closed ← s.flush?
  return closed.tokens.toList

theorem split?_eq (value : String) : split? value = some (split value) := by
  obtain ⟨front, back, h⟩ := Scan.HoldsBack.start.exists_run value.toList
  rw [split?, Scan.HoldsBack.start.foldlM_step?_eq, Option.bind_eq_bind, Option.bind_some,
    h.flush?_eq]
  rfl

/-- No truncation fails while a header value is cut into its tokens. After any number of characters
the trim position is a valid one in the token in progress. Behind it stand the last characters read,
blanks outside quotes only. It is positive unless the token in progress is empty, as it is after a
comma outside quotes. So closing the token in progress removes nothing but those blanks, and adds a
token, which has a character, exactly if there is one in progress. -/
theorem trim_position_valid (value : String) :
    split? value = some (split value) ∧
      ∀ n, let s := Scan.after value n
        s.kept ≤ s.current.utf8ByteSize ∧ String.Pos.Raw.IsValid s.current ⟨s.kept⟩ ∧
          (s.current ≠ "" → 0 < s.kept) ∧
          (s.quoting = .outside → value.toList[n]? = some ',' →
            (Scan.after value (n + 1)).current = "" ∧ (Scan.after value (n + 1)).kept = 0) ∧
          ∃ token back, truncate? s.current s.kept = some token ∧
            s.current.toList = token.toList ++ back ∧ token.utf8ByteSize = s.kept ∧
            EndsInPlainBlanks (value.toList.take n) back ∧
            (token ≠ "" ↔ s.current ≠ "") ∧
            s.flush.tokens = if s.current = "" then s.tokens else s.tokens.push token := by
  refine ⟨split?_eq value, fun n => ?_⟩
  intro s
  obtain ⟨front, back, h⟩ : ∃ front back, s.HoldsBack (value.toList.take n) front back :=
    Scan.HoldsBack.exists_after value n
  have hle : s.kept ≤ s.current.utf8ByteSize := by
    rw [utf8ByteSize_eq_size]
    exact h.isBoundary.le_size
  have hcomma : s.quoting = .outside → value.toList[n]? = some ',' →
      (Scan.after value (n + 1)).current = "" ∧ (Scan.after value (n + 1)).kept = 0 := by
    intro houtside hread
    rw [Scan.after_succ_of_comma hread, Scan.step_comma houtside]
    exact ⟨rfl, rfl⟩
  have hcurrent : s.current.toList = (cut s.current s.kept).toList ++ back := by
    rw [h.toList_cut]
    exact h.current
  exact ⟨hle, (isValid_iff_isBoundary _ _).mpr h.isBoundary, h.kept_pos, hcomma,
    cut s.current s.kept, back, truncate?_of_isBoundary h.isBoundary, hcurrent, h.utf8ByteSize_cut,
    h.blanks, not_congr h.cut_eq_empty_iff, h.tokens_flush⟩

/-- The letter has two octets, and the two blanks behind it have four, which are not kept. -/
example : let s := Scan.after "é\u3000 , x" 3
    s.current = "é\u3000 " ∧ s.kept = 2 ∧ s.flush.tokens = #["é"] := by
  decide +kernel

end TypedHeaders.TokenList
