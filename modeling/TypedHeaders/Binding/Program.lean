import TypedHeaders.Value.Conversion
import TypedHeaders.Binding.Event
import TypedHeaders.Field.Basic
import TypedHeaders.Field.Origin
import TypedHeaders.Value.Source

/-!
# Binders, delegates and scripts

A header binder works alone or by a delegate. A delegate is the converter for simple types, another
header binder, or a script: steps on the context that it is given, and the outcome that it then
returns. A step may itself bind the field, so binders, scopes and scripts nest to any depth.
-/

set_option autoImplicit false

namespace TypedHeaders

/-- The outcome that a script returns after its steps. A pending one never does. -/
inductive Ending where
  | absent
  | failed
  | success (v : Value)
  | error (e : ConversionError)
  | pending

mutual

/-- A header binder, with a sink for its progress if it has one. -/
inductive Binder where
  /-- Binds without a delegate. -/
  | standalone (sink : Option Sink)
  /-- Binds by a delegate. -/
  | composed (delegate : Delegate) (sink : Option Sink)

/-- What a header binder leaves the conversion to. -/
inductive Delegate where
  /-- The converter for simple types. -/
  | converter
  /-- Another header binder. -/
  | binder (b : Binder)
  /-- Steps on the context, and then an outcome. -/
  | script (steps : List Step) (ending : Ending)

/-- A step on the context of a field. -/
inductive Step where
  /-- Bind the field by a header binder. -/
  | bind (b : Binder)
  /-- Ask for a header binder for the shape of the field, declared with an origin, and bind the
  field by it. The delegate is what the catalogue would be given on its inquiry. -/
  | offer (origin : Option Origin) (delegate : Option Delegate) (sink : Option Sink)
  /-- Bind the field from the value source by the converter. -/
  | convert
  /-- Take the target of the field. -/
  | takeTarget
  /-- Say whether the caller named the field directly. -/
  | setTopLevel (topLevel : Bool)
  /-- Put another value source into the context. -/
  | setSource (source : SourceRequest)
  /-- Ask the value source for a key. -/
  | query (key : String)
  /-- Take steps in a nested scope, for a new field or for the same one. -/
  | scope (field : Option FieldRequest) (steps : List Step)

end

namespace Binder

/-- Whether the binder has a delegate. -/
def hasDelegate : Binder → Bool
  | .standalone _ => false
  | .composed _ _ => true

/-- Where the binder reports its progress. -/
def sink? : Binder → Option Sink
  | .standalone s => s
  | .composed _ s => s

/-- The text that describes the binder. -/
def describe (b : Binder) : String :=
  "HeaderBinder \x7b has_inner: " ++ toString b.hasDelegate ++ ", has_diagnostics: "
    ++ toString b.sink?.isSome ++ " \x7d"

end Binder

/-- What hands out header binders, all with the same sink. -/
structure Catalogue where
  sink : Option Sink := none
  deriving DecidableEq, Repr

namespace Catalogue

/-- The header binder for a shape and a declared origin, if there is one, with its delegate from a
factory. -/
def binderFrom {m : Type → Type} [Monad m] (c : Catalogue) (origin : Option Origin) (shape : Shape)
    (create : Inquiry → m (Option Delegate)) : m (Option Binder) :=
  (Option.map fun d => .composed d c.sink) <$> select origin shape create

/-- The header binder for a shape and a declared origin, if there is one, and what its delegate was
asked for. -/
def binderFor (c : Catalogue) (origin : Option Origin) (shape : Shape)
    (create : Inquiry → Option Delegate) : Asking (Option Binder) :=
  c.binderFrom origin shape (noted create)

/-- The text that describes the catalogue. -/
def describe (c : Catalogue) : String :=
  "HeaderBinderProvider \x7b has_diagnostics: " ++ toString c.sink.isSome ++ " \x7d"

end Catalogue

end TypedHeaders
