import TypedHeaders.Proofs.Programs

/-!
# Stepwise activities

Binders, delegates and scripts act on the world by a handful of operations only: they look at the
context, report events, take the target, change the flag or the source, work in a nested scope, and
bind from a header. An activity that is made of such operations, one after another, is `Stepwise`;
what comes next may depend on everything that came before, so it may also stop early.

Every program is stepwise, since being stepwise is compositional (`Stepwise.compositional`). What
holds of all stepwise activities is shown by induction on `Stepwise`, one operation at a time, and
then holds of all programs.
-/

set_option autoImplicit false

namespace TypedHeaders

open Activity Binding

/-- The activities made of operations on the world, one after another. An adjustment may change the
flag and the source of the context, and nothing else. -/
inductive Stepwise : {α : Type} → Activity α → Prop
  | pure {α : Type} (a : α) : Stepwise (pure a : Activity α)
  | bind {α β : Type} {x : Activity α} {f : α → Activity β} :
      Stepwise x → (∀ a, Stepwise (f a)) → Stepwise (x >>= f)
  | context : Stepwise context
  | notices (events : List Event) : Stepwise (notices events)
  | takeTarget : Stepwise takeTarget
  | adjust (f : Context → Context)
      (hf : ∀ c, f c = { c with topLevel := (f c).topLevel, source := (f c).source }) :
      Stepwise (adjust f)
  | inScope {α : Type} (field : Field) {body : Activity α} :
      Stepwise body → Stepwise (inScope field body)
  | standalone : Stepwise standalone
  | composed {σ : Type} {delegate : Activity (Account σ)} :
      Stepwise delegate → Stepwise (composed delegate)

/-- Being stepwise is compositional, as a look at the context is an operation of its own. -/
theorem Stepwise.compositional : Compositional @Stepwise where
  pure := .pure
  bind := .bind
  look := fun hf _ => .bind .context hf
  notices := .notices
  takeTarget := .takeTarget
  setTopLevel := fun _ => .adjust _ fun _ => rfl
  setSource := fun _ => .adjust _ fun _ => rfl
  inScope := .inScope
  standalone := .standalone
  composed := .composed

/-- Binding by a header binder is stepwise. -/
theorem Binder.stepwise_run (b : Binder) : Stepwise b.run := Stepwise.compositional.binder b

/-- Binding by a delegate is stepwise. -/
theorem Delegate.stepwise_run (d : Delegate) : Stepwise d.run := Stepwise.compositional.delegate d

/-- Taking a step is stepwise. -/
theorem Step.stepwise_run (step : Step) : Stepwise step.run := Stepwise.compositional.step step

/-- Taking steps one after another is stepwise. -/
theorem stepwise_runSteps (haltIfRefused : Bool) (steps : List Step) :
    Stepwise (runSteps haltIfRefused steps) :=
  Stepwise.compositional.steps haltIfRefused steps

end TypedHeaders
