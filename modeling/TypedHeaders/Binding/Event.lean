/-!
# Events

Binding reports its progress to a sink if it has one: that it starts, that the header is missing,
and that it is done. A sink records these events or turns them into messages of a trace. The trace
also holds a message, without any sink, whenever a value is looked up under a key that is not the
name of the header (`Event.redirected`).
-/

set_option autoImplicit false

namespace TypedHeaders

/-- Where the progress of a binder goes. -/
inductive Sink where
  /-- Progress is recorded as it is. -/
  | recording
  /-- Progress becomes messages of a trace. -/
  | tracing
  deriving DecidableEq, Repr

/-- A stage of binding a field. The last one says whether a value was bound. -/
inductive Progress where
  | attempting
  | foundNoValue
  | done (bound : Bool)
  deriving DecidableEq, Repr

/-- The message that a stage becomes in a trace. -/
def Progress.message : Progress → String
  | .attempting => "attempting to bind model from header"
  | .foundNoValue => "could not find a header for the field"
  | .done _ => "done attempting to bind model from header"

/-- The importance of a message in a trace. -/
inductive Level where
  | debug
  | trace
  deriving DecidableEq, Repr

/-- The name of a level. -/
def Level.name : Level → String
  | .debug => "DEBUG"
  | .trace => "TRACE"

/-- Something that was reported. -/
inductive Event where
  /-- A binder with a sink reached a stage for a field and its model name. -/
  | progress (sink : Sink) (stage : Progress) (field model : String)
  /-- A value was looked up under a key other than the name of the header. -/
  | redirected (header key : String)
  deriving DecidableEq, Repr

namespace Event

/-- The importance of the event in a trace. -/
def level : Event → Level
  | .progress _ _ _ _ => .debug
  | .redirected _ _ => .trace

/-- The message of the event in a trace. -/
def message : Event → String
  | .progress _ stage _ _ => stage.message
  | .redirected _ _ => "resolving value provider key to header name"

end Event

end TypedHeaders
