import TypedHeaders.Binding.Context
import TypedHeaders.Value.Conversion
import TypedHeaders.Ledger

/-!
# Activities

Binding a field changes its context and the ledger of the request, and does things that others can
observe: it reports events, takes the target of a collection, and files records. An `Activity` is
such a computation. Run on a `World`, it gives a `Report`: its value, the world after it, and the
journal of what it did, in order.

Activities form a monad; the journal of two activities in a row is the journal of the first followed
by that of the second (`journal_bind`).
-/

set_option autoImplicit false

namespace TypedHeaders

/-- How binding a field ended: with a value or without one, with a token that could not be
converted, or not at all because the binder was dropped while it waited. -/
inductive Outcome where
  | bound (b : Bound)
  | error (e : ConversionError)
  | dropped

namespace Outcome

/-- Whether a value was bound. -/
def isSet : Outcome → Bool
  | .bound b => b.isSet
  | .error _ => false
  | .dropped => false

/-- Whether the raw value of the field is worth keeping: a value was bound, or a token could not be
converted. -/
def isKept : Outcome → Bool
  | .bound b => b.isSet
  | .error _ => true
  | .dropped => false

/-- Whether binding came to an end. -/
def isFinished : Outcome → Bool
  | .dropped => false
  | _ => true

/-- The outcome with the presence of the header as given. -/
def withPresence (present : Bool) : Outcome → Outcome
  | .bound b => .bound { b with attempted := present }
  | o => o

end Outcome

/-- Something that an activity did. -/
inductive Effect where
  /-- It reported an event. -/
  | notice (event : Event)
  /-- It took the target of the field, and was handed this one. -/
  | took (field : Field) (target : Target)
  /-- It filed a record for the field, because binding the field ended with this outcome. -/
  | filed (field : Field) (outcome : Outcome) (record : Record)

/-- The event that was reported, if the effect is a report. -/
def Effect.event? : Effect → Option Event
  | .notice e => some e
  | _ => none

/-- The events of a journal, in order. -/
def eventsOf (journal : List Effect) : List Event := journal.filterMap Effect.event?

/-- What an activity may change: the context of a field and the ledger of the request. -/
structure World where
  context : Context
  ledger : Ledger := {}

/-- What an activity came to: its value, the world after it, and what it did, in order. -/
structure Report (α : Type) where
  value : α
  world : World
  journal : List Effect

/-- A computation that may change the world and do things that others observe. -/
def Activity (α : Type) := World → Report α

namespace Activity

variable {α β : Type}

instance : Monad Activity where
  pure a := fun w => { value := a, world := w, journal := [] }
  bind x f := fun w =>
    let first := x w
    let second := f first.value first.world
    { second with journal := first.journal ++ second.journal }

@[simp] theorem run_pure (a : α) (w : World) :
    (pure a : Activity α) w = { value := a, world := w, journal := [] } := rfl

@[simp] theorem value_bind (x : Activity α) (f : α → Activity β) (w : World) :
    ((x >>= f) w).value = (f (x w).value (x w).world).value := rfl

@[simp] theorem world_bind (x : Activity α) (f : α → Activity β) (w : World) :
    ((x >>= f) w).world = (f (x w).value (x w).world).world := rfl

@[simp] theorem journal_bind (x : Activity α) (f : α → Activity β) (w : World) :
    ((x >>= f) w).journal = (x w).journal ++ (f (x w).value (x w).world).journal := rfl

/-- The context as it is. -/
def context : Activity Context := fun w => { value := w.context, world := w, journal := [] }

/-- Change the context. -/
def adjust (f : Context → Context) : Activity Unit := fun w =>
  { value := (), world := { w with context := f w.context }, journal := [] }

/-- Report an event. -/
def notice (e : Event) : Activity Unit := fun w =>
  { value := (), world := w, journal := [.notice e] }

/-- Report events in order. -/
def notices (es : List Event) : Activity Unit := fun w =>
  { value := (), world := w, journal := es.map .notice }

/-- Take the target of the field. -/
def takeTarget : Activity Target := fun w =>
  { value := w.context.target
    world := { w with context := w.context.withoutTarget }
    journal := [.took w.context.field w.context.target] }

/-- Ask the source for the values under a key. -/
def query (key : String) : Activity Answer := do
  let c ← context
  notices (c.source.notices key)
  pure (c.source.lookup key)

/-- File a record under the model name of the field, for an outcome. -/
def file (outcome : Outcome) (record : Record) : Activity Unit := fun w =>
  { value := ()
    world := { w with ledger := w.ledger.record w.context.field.modelName record }
    journal := [.filed w.context.field outcome record] }

/-- Run an activity in a nested scope for a field. -/
def inScope (field : Field) (body : Activity α) : Activity α := fun w =>
  let inner := body { w with context := w.context.enter field }
  { inner with world := { inner.world with context := w.context.leave inner.world.context } }

end Activity

end TypedHeaders
