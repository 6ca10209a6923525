import TypedHeaders.TokenList.Scan

/-!
# Writing a token list

A token is written quoted, with a backslash in front of each double quote and each backslash, or
bare if its characters allow that. `Cell` is a token together with the form it is written in and the
blanks that surround it, and `write` joins the written cells with commas.
-/

set_option autoImplicit false

namespace TypedHeaders.TokenList

open TypedHeaders.Text

/-- How a token is written. -/
inductive Form where
  | bare
  | quoted
  deriving DecidableEq, Repr

/-- The characters with a backslash in front of each double quote and each backslash. -/
def escape (cs : List Char) : List Char :=
  cs.flatMap fun c => if c = '"' ∨ c = '\\' then ['\\', c] else [c]

/-- A token in double quotes. -/
def quote (cs : List Char) : List Char := '"' :: escape cs ++ ['"']

/-- A token may be written bare if it holds no double quote and no comma and has no blank at either
end. -/
def MayBeBare (cs : List Char) : Prop :=
  '"' ∉ cs ∧ ',' ∉ cs ∧ (∀ c, cs.head? = some c → isBlank c = false) ∧
    ∀ c, cs.getLast? = some c → isBlank c = false

/-- One item of a written list: a token, its form, and the text in front of it and behind it. -/
structure Cell where
  token : List Char
  form : Form := .quoted
  front : List Char := []
  back : List Char := []
  deriving DecidableEq, Repr

namespace Cell

/-- The text of an item. -/
def text (x : Cell) : List Char :=
  x.front ++ (match x.form with | .bare => x.token | .quoted => quote x.token) ++ x.back

/-- An item is well formed if it has a character, is written bare only where it may be, and is
surrounded by blanks only. -/
def WellFormed (x : Cell) : Prop :=
  x.token ≠ [] ∧ (x.form = .bare → MayBeBare x.token) ∧
    (∀ c ∈ x.front, isBlank c = true) ∧ ∀ c ∈ x.back, isBlank c = true

end Cell

/-- The text of a list of items. -/
def write (xs : List Cell) : List Char := List.intercalate [','] (xs.map Cell.text)

/-- The text of a list of tokens, all of them quoted. -/
def writeQuoted (tokens : List String) : String :=
  String.ofList (write (tokens.map fun t => { token := t.toList }))

@[simp] theorem escape_nil : escape [] = [] := rfl

theorem escape_cons (c : Char) (cs : List Char) :
    escape (c :: cs) = (if c = '"' ∨ c = '\\' then ['\\', c] else [c]) ++ escape cs := by
  simp [escape]

end TypedHeaders.TokenList
