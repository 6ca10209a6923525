import TypedHeaders.Value.TextCollection
import TypedHeaders.Field.Basic
import TypedHeaders.Value.Source

/-!
# The context in which a field is bound

A context holds the headers of the request, the field being bound, whether the caller named that
field directly, the source of values that a delegate may ask, and the collection that a read-only
destination holds.

A nested scope puts another field into the context for a while. `enter` starts it and `leave` ends
it: leaving restores the field, the flag and the source, and keeps everything else as the scope
left it.
-/

set_option autoImplicit false

namespace TypedHeaders

open TypedHeaders.Header

/-- The state in which a field is bound. -/
structure Context where
  headers : HeaderStore
  field : Field
  topLevel : Bool := true
  source : ValueSource := .empty
  held : Option HeldCollection := none

/-- What is seen of a context between two steps: the field, whether the caller named it directly,
and whether the source has values. -/
structure Snapshot where
  field : Field
  topLevel : Bool
  sourcePresent : Bool
  deriving DecidableEq, Repr

namespace Context

/-- What is seen of the context. -/
def snapshot (c : Context) : Snapshot :=
  { field := c.field, topLevel := c.topLevel, sourcePresent := c.source.covers "" }

/-- The tokens of the field's own header. -/
def extraction (c : Context) : Extraction := extract c.headers c.field.name c.field.shape

/-- Where a collection for the field is to end up. -/
def target (c : Context) : Target :=
  match c.field.access with
  | .assignable => .assignable
  | .readOnly => .readOnly c.held

/-- The context after its target is taken: a read-only destination gives its collection away. -/
def withoutTarget (c : Context) : Context :=
  match c.field.access with
  | .assignable => c
  | .readOnly => { c with held := none }

/-- The context in a nested scope for a field, which the caller did not name directly. -/
def enter (c : Context) (field : Field) : Context := { c with field, topLevel := false }

/-- The context after a scope that was entered from `c` and ended as `inner`. -/
def leave (c inner : Context) : Context :=
  { inner with field := c.field, topLevel := c.topLevel, source := c.source }

/-- Leaving a scope that did nothing gives the context back. -/
@[simp] theorem leave_enter (c : Context) (field : Field) : c.leave (c.enter field) = c := rfl

/-- Leaving a scope from an unchanged context changes nothing. -/
@[simp] theorem leave_self (c : Context) : c.leave c = c := rfl

@[simp] theorem field_leave (c inner : Context) : (c.leave inner).field = c.field := rfl

@[simp] theorem topLevel_leave (c inner : Context) : (c.leave inner).topLevel = c.topLevel := rfl

@[simp] theorem source_leave (c inner : Context) : (c.leave inner).source = c.source := rfl

@[simp] theorem headers_leave (c inner : Context) : (c.leave inner).headers = inner.headers := rfl

@[simp] theorem held_leave (c inner : Context) : (c.leave inner).held = inner.held := rfl

/-- Taking the target gives away what a read-only destination holds. -/
theorem withoutTarget_eq_ite (c : Context) :
    c.withoutTarget = if c.field.access = .readOnly then { c with held := none } else c := by
  rw [withoutTarget]
  cases c.field.access with
  | assignable => rfl
  | readOnly => rfl

/-- Taking the target changes nothing but what is held. -/
theorem withoutTarget_eq (c : Context) :
    c.withoutTarget = { c with held := c.withoutTarget.held } := by
  unfold withoutTarget
  split
  · rfl
  · rfl

/-- Taking the target keeps what is held or gives it away, and never puts another in its place. -/
theorem held_withoutTarget (c : Context) :
    c.withoutTarget.held = c.held ∨ c.withoutTarget.held = none := by
  unfold withoutTarget
  split
  · exact Or.inl rfl
  · exact Or.inr rfl

end Context

end TypedHeaders
