import TypedHeaders.Text.Blank
import TypedHeaders.Text.Size

/-!
# Cutting a header value into its tokens

A header value that holds a list separates its items with commas. A comma inside double quotes
separates nothing, the quotes themselves are no part of a token, and a backslash inside quotes takes
the next character as it is. Blanks around an item count only inside quotes, and an item without a
character is no token.

`split` reads the value once, from left to right. Its state, `Scan`, holds the token in progress and
a number of octets of it that the removal of trailing blanks must leave alone. `step` reads one
character and `flush` closes the token in progress.
-/

set_option autoImplicit false

namespace TypedHeaders.TokenList

open TypedHeaders.Text

/-- Where the next character stands: outside quotes, inside them, or after a backslash inside
them. -/
inductive Quoting where
  | outside
  | inside
  | escaped
  deriving DecidableEq, Repr

/-- The state between two characters: the tokens closed so far, the token in progress, how many
octets of it are kept when it is closed, and where the next character stands. -/
structure Scan where
  tokens : Array String := #[]
  current : String := ""
  kept : Nat := 0
  quoting : Quoting := .outside
  deriving DecidableEq, Repr

/-- How quoting goes on after a character. -/
def Quoting.next : Quoting → Char → Quoting
  | .outside, c => if c = '"' then .inside else .outside
  | .inside, c => if c = '"' then .outside else if c = '\\' then .escaped else .inside
  | .escaped, _ => .inside

namespace Scan

/-- Keep all of the token in progress. -/
def keepAll (s : Scan) : Scan := { s with kept := s.current.utf8ByteSize }

/-- Add a character to the token in progress. -/
def add (s : Scan) (c : Char) : Scan := { s with current := s.current.push c }

/-- Close the token in progress: drop what is not kept, and forget the token if nothing is left. -/
def flush (s : Scan) : Scan :=
  let token := cut s.current s.kept
  { s with tokens := if token.isEmpty then s.tokens else s.tokens.push token, current := "" }

/-- What a character does to the tokens. -/
def absorb (s : Scan) (c : Char) : Scan :=
  match s.quoting with
  | .outside =>
      if c = '"' then s.keepAll
      else if c = ',' then { s.flush with kept := 0 }
      else if isBlank c then (if s.current.isEmpty then s else s.add c)
      else (s.add c).keepAll
  | .inside => if c = '"' ∨ c = '\\' then s.keepAll else (s.add c).keepAll
  | .escaped => (s.add c).keepAll

/-- Read one character. -/
def step (s : Scan) (c : Char) : Scan :=
  let quoting := s.quoting.next c
  { s.absorb c with quoting }

/-- Read characters one after another. -/
def run (s : Scan) (cs : List Char) : Scan := cs.foldl step s

@[simp] theorem run_nil (s : Scan) : s.run [] = s := rfl

@[simp] theorem run_cons (s : Scan) (c : Char) (cs : List Char) :
    s.run (c :: cs) = (s.step c).run cs := rfl

/-- Reading one text after another is reading them as one. -/
theorem run_append (s : Scan) (as bs : List Char) : s.run (as ++ bs) = (s.run as).run bs := by
  simp [run]

theorem quoting_run (s : Scan) (cs : List Char) :
    (s.run cs).quoting = cs.foldl Quoting.next s.quoting := by
  induction cs generalizing s with
  | nil => rfl
  | cons c rest ih => rw [run_cons, ih, List.foldl_cons]; rfl

end Scan

/-- Where a text that starts outside quotes ends. -/
def endQuoting (cs : List Char) : Quoting := cs.foldl Quoting.next .outside

/-- The tokens of a header value, in order. -/
def split (value : String) : List String :=
  (Scan.run {} value.toList).flush.tokens.toList

@[simp] theorem split_empty : split "" = [] := rfl

end TypedHeaders.TokenList
