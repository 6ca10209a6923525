import TypedHeaders.Binding.Activity
import TypedHeaders.Text.Blank

/-!
# Binding from a value source

`converter` is the delegate for simple types. It looks only at the value source of its context,
under the model name of the field, so it works alike for headers and for any other source. A source
without values is no fault: whether the field is required is for others to say.

A scalar is converted from the first value. A collection of texts is materialized. A collection of
another simple kind is always built anew, so it needs a destination that may be assigned. A complex
element is not supported.
-/

set_option autoImplicit false

namespace TypedHeaders.Binding

open TypedHeaders.Text Activity

/-- Bind a scalar from the values that were found. A blank is a value for a text only. -/
def scalarOutcome (kind : ScalarKind) (modelName : String) (values : List String) : Outcome :=
  match values with
  | [] => .bound .absent
  | raw :: _ =>
      if isBlankText raw && kind != .text then .bound .failed
      else match convert kind raw with
        | .ok v => .bound (.success v)
        | .error fault => .error { fault, modelName, attempted := raw }

/-- The outcome of materializing a collection of texts. -/
def textsOutcome : Option TextCollection → Outcome
  | some t => .bound (.success (.strings t))
  | none => .bound .failed

/-- Bind a new list from the values that were found. -/
def listOutcome (kind : ScalarKind) (modelName : String) (values : List String) : Outcome :=
  match convertAll kind modelName values with
  | .ok vs => .bound (.success (.list vs))
  | .error e => .error e

/-- Bind the values that were found, as the shape of the field asks. -/
def bindAnswer (c : Context) (answer : Answer) : Activity Outcome :=
  match c.field.shape with
  | .scalar (.simple kind) => pure (scalarOutcome kind c.field.modelName answer.values)
  | .collection container (.simple .text) => do
      let target ← takeTarget
      pure (textsOutcome (materialize answer.values container c.topLevel target))
  | .collection container (.simple kind) =>
      if container.isAbstract then pure (.bound .failed)
      else if answer.isNone && !c.topLevel then pure (.bound .failed)
      else do
        match ← takeTarget with
        | .readOnly _ => pure (.bound .failed)
        | .assignable => pure (listOutcome kind c.field.modelName answer.values)
  | .scalar .complex | .collection _ .complex =>
      pure (.error
        { fault := .unsupported, modelName := c.field.modelName, attempted := answer.joined })

/-- Bind the field from the value source. -/
def converter : Activity Outcome := do
  let c ← context
  if c.source.covers c.field.modelName then do
    let answer ← query c.field.modelName
    bindAnswer c answer
  else pure (.bound .absent)

end TypedHeaders.Binding
