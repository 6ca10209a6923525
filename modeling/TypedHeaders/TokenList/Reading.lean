import TypedHeaders.TokenList.Scan

/-!
# The grammar of a token list, read in two phases

`items` says what each character of a header value is: a quote mark, a character that stands inside
quotes, or one that stands outside. `segments` then parts the items at the commas outside quotes,
and `token` trims a segment and drops its marks. `read` gives the texts of the segments that are
not empty.

No state is carried from one phase to the next, so this is the definition of the format; the one
pass of `split` is measured against it.
-/

set_option autoImplicit false

namespace TypedHeaders.TokenList

open TypedHeaders.Text

/-- What a character of a header value is. -/
inductive Item where
  /-- A double quote that opens or closes a quoted part. -/
  | mark
  /-- A character of a token that stands inside quotes. -/
  | quoted (c : Char)
  /-- A character that stands outside quotes. -/
  | plain (c : Char)
  deriving DecidableEq, Repr

namespace Item

/-- A comma outside quotes, which ends a segment. -/
def isSeparator : Item → Bool
  | .plain c => c == ','
  | _ => false

/-- A blank outside quotes. -/
def isPlainBlank : Item → Bool
  | .plain c => isBlank c
  | _ => false

/-- A mark or a blank outside quotes; such items are dropped in front of a token. -/
def isLeading : Item → Bool
  | .mark => true
  | i => i.isPlainBlank

/-- The character that an item adds to its token. -/
def char? : Item → Option Char
  | .mark => none
  | .quoted c => some c
  | .plain c => some c

end Item

/-- The items of a text that starts in the given place. A backslash inside quotes is no item, and at
the very end it takes nothing. -/
def items : Quoting → List Char → List Item
  | _, [] => []
  | .outside, c :: cs =>
      if c = '"' then .mark :: items .inside cs else .plain c :: items .outside cs
  | .inside, c :: cs =>
      if c = '"' then .mark :: items .outside cs
      else if c = '\\' then items .escaped cs
      else .quoted c :: items .inside cs
  | .escaped, c :: cs => .quoted c :: items .inside cs

/-- The runs of items between separators; there is one more of them than there are separators. -/
def segments : List Item → List (List Item)
  | [] => [[]]
  | i :: rest =>
      if i.isSeparator then [] :: segments rest
      else match segments rest with
        | [] => [[i]]
        | s :: more => (i :: s) :: more

/-- A segment without leading marks and blanks and without trailing blanks. A mark at the end
stays, and protects what stands in front of it. -/
def trimSegment (s : List Item) : List Item :=
  ((s.dropWhile Item.isLeading).reverse.dropWhile Item.isPlainBlank).reverse

/-- The characters of a segment's token. -/
def token (s : List Item) : List Char := (trimSegment s).filterMap Item.char?

/-- The tokens of a header value by its grammar. -/
def read (value : String) : List String :=
  (((segments (items .outside value.toList)).map token).filter (· ≠ [])).map String.ofList

theorem segments_ne_nil (is : List Item) : segments is ≠ [] := by
  cases is with
  | nil => simp [segments]
  | cons i rest =>
      rw [segments]
      split
      · simp
      · split <;> simp

end TypedHeaders.TokenList
