import TypedHeaders.Binding.Activity

/-!
# Binding from a header

A header binder binds the field of its context from the field's own header. `standalone` binds texts
and collections of texts by itself. `composed` leaves the conversion to a delegate: it opens a
nested scope for the same field, makes the tokens of the header the source of values there, and runs
the delegate in it, with the flag of the caller.

When the header is there and the field is bound, or a delegate cannot convert a token, the tokens
are filed in the ledger under the model name of the field. `announced` reports the progress of a
binder to its sink.
-/

set_option autoImplicit false

namespace TypedHeaders

/-- The record of the tokens of a field: all of them for a collection, the whole text otherwise. -/
def Extraction.record (x : Extraction) (shape : Shape) : Record :=
  if shape.isCollection then { attempted := x.attempted, raw := .many x.tokens }
  else
    let text := x.tokens.head?.getD ""
    { attempted := text, raw := .single text }

/-- What is shown of the record of some tokens is their text. -/
theorem Extraction.attempted_record (x : Extraction) (shape : Shape) :
    (x.record shape).attempted = (x.record shape).raw.display := by
  rw [record]
  cases shape.isCollection with
  | false => rfl
  | true => rfl

/-- Tokens are kept one by one exactly for a collection. -/
theorem Extraction.raw_record_eq_many_iff (x : Extraction) (shape : Shape) :
    (∃ tokens, (x.record shape).raw = .many tokens) ↔ shape.isCollection = true := by
  rw [record]
  cases shape.isCollection with
  | false =>
      constructor
      · rintro ⟨tokens, hraw⟩
        cases hraw
      · intro hfalse
        cases hfalse
  | true => exact ⟨fun _ => rfl, fun _ => ⟨x.tokens, rfl⟩⟩

/-- How binding ended, with what else a binder has to tell about it. -/
structure Account (σ : Type) where
  outcome : Outcome
  seen : σ

namespace Binding

open Activity

variable {σ : Type}

/-- The value that a header gives without a delegate. Only texts and collections of texts get
one. -/
def ownValue (c : Context) (tokens : List String) : Activity (Option Value) :=
  match c.field.shape with
  | .scalar (.simple .text) => pure (tokens.head?.map .text)
  | .collection container (.simple .text) => do
      let target ← takeTarget
      pure ((materialize tokens container c.topLevel target).map .strings)
  | _ => pure none

/-- Bind the field from its header without a delegate. -/
def standalone : Activity Outcome := do
  let c ← context
  let x := c.extraction
  if x.present then do
    match ← ownValue c x.tokens with
    | none => pure (.bound .failed)
    | some v => do
        file (.bound (.success v)) (x.record c.field.shape)
        pure (.bound (.success v))
  else pure (.bound .absent)

/-- The context that a delegate finds in its scope: the caller's flag, and the tokens of the header
as the source of values. -/
def delegated (caller : Context) (inner : Context) : Context :=
  { inner with
    topLevel := caller.topLevel
    source := .header caller.field.name caller.extraction }

/-- Bind the field from its header by a delegate. -/
def composed (delegate : Activity (Account σ)) : Activity (Account σ) := do
  let c ← context
  let x := c.extraction
  let a ← inScope c.field do
    adjust (delegated c)
    delegate
  let outcome := a.outcome.withPresence x.present
  if x.present && outcome.isKept then file outcome (x.record c.field.shape)
  pure { a with outcome }

/-- Report a stage of binding the field that is in the context now. -/
def announce (sink : Sink) (stage : Progress) : Activity Unit := do
  let c ← context
  notice (.progress sink stage c.field.name c.field.modelName)

/-- Report the progress of a binder to its sink, if it has one. A binder that is dropped never gets
to its last report. -/
def announced (sink : Option Sink) (body : Activity (Account σ)) : Activity (Account σ) :=
  match sink with
  | none => body
  | some s => do
      announce s .attempting
      let c ← context
      if !c.headers.contains c.field.name then announce s .foundNoValue
      let a ← body
      if a.outcome.isFinished then announce s (.done a.outcome.isSet)
      pure a

/-- What a binder with a sink does after its first reports: it binds, and reports that it is done if
it came to an end. -/
def reported (s : Sink) (body : Activity (Account σ)) : Activity (Account σ) := do
  let a ← body
  if a.outcome.isFinished then announce s (.done a.outcome.isSet)
  pure a

theorem announced_some (s : Sink) (body : Activity (Account σ)) :
    announced (some s) body =
      announce s .attempting >>= fun _ => context >>= fun c =>
        if c.headers.contains c.field.name then reported s body
        else announce s .foundNoValue >>= fun _ => reported s body := by
  have hmissing : ∀ (present : Bool) (x y : Activity (Account σ)),
      (if !present then x else y) = if present then y else x := by
    intro present x y
    cases present with
    | true => rfl
    | false => rfl
  rw [announced]
  simp only [hmissing]
  rfl

end Binding

end TypedHeaders
