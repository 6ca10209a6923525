import TypedHeaders.Field.Shape

/-!
# Collections of texts

A collection field becomes a `TextCollection`: texts in order, held in one of three
representations. `materialize` builds it from tokens. A destination that may be assigned receives a
new collection of the declared type; a read-only one can only have the collection that it holds
cleared and filled again, if that one may be changed.

Filling adds the tokens in order (`items_fill`), so a collection that is built holds exactly the
tokens (`items_materialize`).
-/

set_option autoImplicit false

namespace TypedHeaders

/-- How a collection of texts is held. -/
inductive Representation where
  | contiguous
  | linked
  | deque
  deriving DecidableEq, Repr

/-- Texts in order, in one of the representations. -/
structure TextCollection where
  representation : Representation
  items : List String := []
  deriving DecidableEq, Repr

namespace TextCollection

/-- The representation of a declared type, if one is known. -/
def representationOf? : Container → Option Representation
  | .array | .sequence | .list => some .contiguous
  | .linkedList => some .linked
  | .deque => some .deque
  | .abstraction _ => none

/-- An empty collection of a declared type, if an implementation is known. -/
def ofContainer? (c : Container) : Option TextCollection :=
  (representationOf? c).map fun r => { representation := r }

/-- Add a text at the end. -/
def push (t : TextCollection) (item : String) : TextCollection :=
  { t with items := t.items ++ [item] }

/-- Remove all texts. -/
def clear (t : TextCollection) : TextCollection := { t with items := [] }

/-- Add texts one after another. -/
def fill (t : TextCollection) (tokens : List String) : TextCollection := tokens.foldl push t

/-- The number of texts. -/
def size (t : TextCollection) : Nat := t.items.length

/-- Whether there is no text. -/
def isEmpty (t : TextCollection) : Bool := t.size == 0

@[simp] theorem items_fill (t : TextCollection) (tokens : List String) :
    (t.fill tokens).items = t.items ++ tokens := by
  induction tokens generalizing t with
  | nil => simp [fill]
  | cons a rest ih =>
      show ((t.push a).fill rest).items = _
      rw [ih, push, List.append_assoc, List.singleton_append]

@[simp] theorem representation_fill (t : TextCollection) (tokens : List String) :
    (t.fill tokens).representation = t.representation := by
  induction tokens generalizing t with
  | nil => rfl
  | cons a rest ih =>
      show ((t.push a).fill rest).representation = _
      rw [ih]
      rfl

end TextCollection

/-- The collection that a read-only destination holds, and whether it may be changed. -/
structure HeldCollection where
  value : TextCollection
  mutable : Bool := true
  deriving DecidableEq, Repr

/-- Where a collection is to end up: in a destination that takes a new one, or in a read-only
destination and what that holds, if anything. -/
inductive Target where
  | assignable
  | readOnly (held : Option HeldCollection)
  deriving DecidableEq, Repr

/-- Build the collection of a declared type from tokens. Without tokens only a field that the caller
named directly is bound; the value of any other is left alone. -/
def materialize (tokens : List String) (container : Container) (topLevel : Bool) (target : Target) :
    Option TextCollection :=
  if tokens.isEmpty && !topLevel then none
  else match target with
    | .readOnly none => none
    | .readOnly (some held) => if held.mutable then some (held.value.clear.fill tokens) else none
    | .assignable =>
        if container.acceptsSequence then some { representation := .contiguous, items := tokens }
        else (TextCollection.ofContainer? container).map fun t => t.fill tokens

/-- A collection that is built holds exactly the tokens. -/
theorem items_materialize {tokens : List String} {container : Container} {topLevel : Bool}
    {target : Target} {t : TextCollection}
    (h : materialize tokens container topLevel target = some t) : t.items = tokens := by
  unfold materialize at h
  split at h
  · contradiction
  · split at h
    · contradiction
    · split at h
      · cases h
        simp [TextCollection.clear]
      · contradiction
    · split at h
      · cases h
        rfl
      · obtain ⟨empty, hempty, rfl⟩ := Option.map_eq_some_iff.mp h
        obtain ⟨r, -, rfl⟩ := Option.map_eq_some_iff.mp hempty
        simp

end TypedHeaders
