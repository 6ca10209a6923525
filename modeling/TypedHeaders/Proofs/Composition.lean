import TypedHeaders.Proofs.Scope

/-!
# The contract of a composed binder

A binder with a delegate runs the delegate once, on the context that it was given itself: the same
field, flag and held collection, and only the source of values exchanged for the tokens of the
field's header. It takes over what the delegate came to, except that the presence of the header is
its own, and it files the tokens under the model name of the field exactly if the header is there
and the delegate bound a value or could not convert one (`run_composed`).

The delegate may be any program. That the record is filed under the right name and that the caller
finds its context again rests on `Stepwise.kept`.
-/

set_option autoImplicit false

namespace TypedHeaders

open TypedHeaders.Header Activity Binding

/-- Binding by a delegate leaves the caller's context, but for what the delegate took. -/
theorem context_composed_eq {σ : Type} {delegate : Activity (Account σ)}
    (hdelegate : Stepwise delegate) (w : World) :
    (composed delegate w).world.context =
      { w.context with held := (delegate w.handedOn).world.context.held } := by
  have hheaders : (delegate w.handedOn).world.context.headers = w.context.headers :=
    (hdelegate.kept w.handedOn).headers
  rw [context_composed, Context.leave, hheaders]

/-- The contract of a binder with a delegate. -/
theorem run_composed (d : Delegate) (w : World) :
    let c := w.context
    let x := extract c.headers c.field.name c.field.shape
    let start : World := { w with context := { c with source := .header c.field.name x } }
    let inner := d.run start
    let r := (Binder.composed d none).run w
    let filed := inner.world.ledger.record c.field.modelName (x.record c.field.shape)
    -- every key is answered alike
    (∀ key, start.context.source.lookup key = ⟨x.tokens⟩ ∧
      start.context.source.covers key = x.present) ∧
    r.value.seen = inner.value.seen ∧
    r.value.outcome = (match inner.value.outcome with
      | .bound b => .bound { model := b.model, attempted := c.headers.contains c.field.name }
      | .error e => .error e
      | .dropped => .dropped) ∧
    r.world.ledger = (match inner.value.outcome with
      | .bound b => if x.present && b.model.isSome then filed else inner.world.ledger
      | .error _ => if x.present then filed else inner.world.ledger
      | .dropped => inner.world.ledger) ∧
    r.world.context = { c with held := inner.world.context.held } ∧
    (inner.world.context.held = c.held ∨ inner.world.context.held = none) ∧
    -- the delegate ran once: what was done is what it did, and at most one record
    r.journal = inner.journal ++
      if c.files inner.value.outcome then
        [.filed c.field r.value.outcome (x.record c.field.shape)]
      else [] := by
  intro c x start inner r filed
  have hrun : r = composed d.run w := by
    show (Binder.composed d none).run w = _
    rw [Binder.run]
    rfl
  have hcontext := context_composed_eq d.stepwise_run w
  have hkept := d.stepwise_run.kept start
  refine ⟨fun key => ⟨rfl, rfl⟩, ?_, ?_, ?_, ?_, hkept.held, ?_⟩
  · rw [hrun, value_composed]
    rfl
  · rw [hrun, value_composed]
    have hpresent : c.extraction.present = c.headers.contains c.field.name :=
      present_extract c.headers c.field.name c.field.shape
    show inner.value.outcome.withPresence c.extraction.present = _
    rw [hpresent]
    cases inner.value.outcome with
    | bound b => rfl
    | error e => rfl
    | dropped => rfl
  · rw [hrun, ledger_composed]
    show (if x.present && inner.value.outcome.isKept then filed else inner.world.ledger) = _
    cases inner.value.outcome with
    | bound b => rfl
    | error e => rw [Outcome.isKept, Bool.and_true]
    | dropped =>
        rw [Outcome.isKept, Bool.and_false]
        rfl
  · rw [hrun]
    exact hcontext
  · rw [hrun]
    exact journal_composed d.run w

end TypedHeaders
