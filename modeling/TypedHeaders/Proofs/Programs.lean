import TypedHeaders.Session

/-!
# What holds of all programs

Binders, delegates and scripts are put together from few operations: they look at the context,
report events, take the target, change the flag or the source, work in a nested scope, and bind from
a header. A property of activities that these operations have, and that is kept where they are put
together, is `Compositional`. Every program has it (`Compositional.binder`,
`Compositional.delegate`, `Compositional.step`, `Compositional.steps`), so what is to be shown of
all programs is shown of one operation at a time.

What a program does after a look at the context may depend on the headers only by questions that
stores answer alike if they agree: if the lines of every name have the same values in both
(`HeaderStore.Agrees`). So a property need not hold of what tells such stores apart.
-/

set_option autoImplicit false

namespace TypedHeaders

open TypedHeaders.Header Activity Binding

/-! ## Stores that agree -/

namespace Header.HeaderStore

/-- The lines of every name have the same values in both stores. -/
def Agrees (h h' : HeaderStore) : Prop := ∀ name, h'.getAll name = h.getAll name

namespace Agrees

variable {h h' h'' : HeaderStore}

theorem refl (h : HeaderStore) : h.Agrees h := fun _ => rfl

theorem symm (hh' : h.Agrees h') : h'.Agrees h := fun name => (hh' name).symm

theorem trans (hh' : h.Agrees h') (hh'' : h'.Agrees h'') : h.Agrees h'' :=
  fun name => (hh'' name).trans (hh' name)

theorem contains_eq (hh' : h.Agrees h') (name : String) : h'.contains name = h.contains name := by
  rw [contains_eq_not_isEmpty, contains_eq_not_isEmpty, hh' name]

theorem getJoined_eq (hh' : h.Agrees h') (name : String) :
    h'.getJoined name = h.getJoined name := by
  rw [getJoined, getJoined, hh' name]

theorem getCommaSeparated_eq (hh' : h.Agrees h') (name : String) :
    h'.getCommaSeparated name = h.getCommaSeparated name := by
  rw [getCommaSeparated, getCommaSeparated, hh'.getJoined_eq name]

theorem extract_eq (hh' : h.Agrees h') (name : String) (shape : Shape) :
    extract h' name shape = extract h name shape := by
  rw [extract, extract, hh'.getJoined_eq name]

theorem resolve_eq (hh' : h.Agrees h') (source : SourceRequest) :
    source.resolve h' = source.resolve h := by
  cases source with
  | empty => rfl
  | header name shape => exact congrArg (ValueSource.header name) (hh'.extract_eq name shape)
  | given source => rfl

end Agrees

end Header.HeaderStore

/-- The context over another store. -/
def Context.over (c : Context) (h : HeaderStore) : Context := { c with headers := h }

theorem Context.extraction_over {c : Context} {h : HeaderStore} (hc : c.headers.Agrees h) :
    (c.over h).extraction = c.extraction :=
  hc.extract_eq c.field.name c.field.shape

/-! ## Compositional properties -/

/-- A property of activities that the operations of programs have, and that is kept where they are
put together. What follows a look at the context may use all that stores that agree have in
common. -/
structure Compositional (P : {α : Type} → Activity α → Prop) : Prop where
  pure {α : Type} (a : α) : P (Pure.pure a : Activity α)
  bind {α β : Type} {x : Activity α} {f : α → Activity β} :
    P x → (∀ a, P (f a)) → P (x >>= f)
  look {α : Type} {f : Context → Activity α} : (∀ c, P (f c)) →
    (∀ (c : Context) (h : HeaderStore), c.headers.Agrees h → f (c.over h) = f c) →
      P (context >>= f)
  notices (events : List Event) : P (notices events)
  takeTarget : P takeTarget
  setTopLevel (topLevel : Bool) : P (adjust fun c => { c with topLevel })
  setSource (source : SourceRequest) :
    P (adjust fun c => { c with source := source.resolve c.headers })
  inScope {α : Type} (field : Field) {body : Activity α} : P body → P (inScope field body)
  standalone : P standalone
  composed {σ : Type} {delegate : Activity (Account σ)} : P delegate → P (composed delegate)

namespace Compositional

variable {P : {α : Type} → Activity α → Prop} {σ : Type}

theorem query (hP : Compositional @P) (key : String) : P (Activity.query key) := by
  apply hP.look
  · intro c
    apply hP.bind (hP.notices _)
    intro _
    exact hP.pure _
  · intro c h _
    rfl

theorem announce (hP : Compositional @P) (sink : Sink) (stage : Progress) :
    P (Binding.announce sink stage) := by
  apply hP.look
  · intro c
    exact hP.notices [_]
  · intro c h _
    rfl

theorem reported (hP : Compositional @P) (s : Sink) {body : Activity (Account σ)} (hbody : P body) :
    P (Binding.reported s body) := by
  apply hP.bind hbody
  intro a
  cases a.outcome.isFinished with
  | false => exact hP.pure a
  | true =>
      apply hP.bind (hP.announce s _)
      intro _
      exact hP.pure a

theorem announced (hP : Compositional @P) (sink : Option Sink) {body : Activity (Account σ)}
    (hbody : P body) : P (Binding.announced sink body) := by
  cases sink with
  | none => exact hbody
  | some s =>
      rw [announced_some]
      apply hP.bind (hP.announce s .attempting)
      intro _
      apply hP.look
      · intro c
        split
        · exact hP.reported s hbody
        · apply hP.bind (hP.announce s .foundNoValue)
          intro _
          exact hP.reported s hbody
      · intro c h hc
        have hcontains : (c.over h).headers.contains (c.over h).field.name =
            c.headers.contains c.field.name := hc.contains_eq c.field.name
        rw [hcontains]

theorem bindAnswer (hP : Compositional @P) (c : Context) (answer : Answer) :
    P (Binding.bindAnswer c answer) := by
  rw [Binding.bindAnswer]
  split
  · exact hP.pure _
  · apply hP.bind hP.takeTarget
    intro target
    exact hP.pure _
  · split
    · exact hP.pure _
    · split
      · exact hP.pure _
      · apply hP.bind hP.takeTarget
        intro target
        cases target with
        | assignable => exact hP.pure _
        | readOnly held => exact hP.pure _
  · exact hP.pure _
  · exact hP.pure _

theorem converter (hP : Compositional @P) : P Binding.converter := by
  apply hP.look
  · intro c
    split
    · apply hP.bind (hP.query _)
      intro answer
      exact hP.bindAnswer c answer
    · exact hP.pure _
  · intro c h _
    rfl

theorem unseen (hP : Compositional @P) {x : Activity Outcome} (hx : P x) :
    P (Binding.unseen x) := by
  apply hP.bind hx
  intro outcome
  exact hP.pure _

theorem snapshot (hP : Compositional @P) : P Binding.snapshot := by
  apply hP.look
  · intro c
    exact hP.pure _
  · intro c h _
    rfl

theorem bindSelected (hP : Compositional @P) {s : Asking (Option (Activity (Account Seen)))}
    (hs : ∀ x, s.chosen = some x → P x) : P (Binding.bindSelected s) := by
  rw [Binding.bindSelected]
  split
  · exact hP.pure _
  · next x hx =>
      apply hP.bind (hs x hx)
      intro a
      exact hP.pure _

theorem within (hP : Compositional @P) (field : Field)
    {steps : Activity (List (StepResult × Snapshot))} (hsteps : P steps) :
    P (Binding.within field steps) := by
  apply hP.inScope field
  apply hP.bind hP.snapshot
  intro entry
  apply hP.bind hsteps
  intro log
  split
  · exact hP.pure _
  · exact hP.pure _

mutual

/-- Binding by a header binder. -/
theorem binder (hP : Compositional @P) : (b : Binder) → P b.run
  | .standalone sink => by
      rw [Binder.run]
      exact hP.announced sink (hP.unseen hP.standalone)
  | .composed delegate sink => by
      rw [Binder.run]
      exact hP.announced sink (hP.composed (hP.delegate delegate))

/-- Binding by a delegate. -/
theorem delegate (hP : Compositional @P) : (d : Delegate) → P d.run
  | .converter => by
      rw [Delegate.run]
      exact hP.unseen hP.converter
  | .binder b => by
      rw [Delegate.run]
      exact hP.binder b
  | .script steps ending => by
      rw [Delegate.run]
      apply hP.bind hP.snapshot
      intro entry
      apply hP.bind (hP.steps false steps)
      intro log
      exact hP.pure _

/-- Taking a step. -/
theorem step (hP : Compositional @P) : (step : Step) → P step.run
  | .bind b => by
      rw [Step.run]
      apply hP.bind (hP.binder b)
      intro a
      exact hP.pure _
  | .offer origin none sink => by
      rw [Step.run]
      apply hP.look
      · intro c
        apply hP.bindSelected
        intro x hx
        -- without a delegate nothing is ever chosen
        obtain ⟨inquiry, hnone⟩ := exists_of_chosen_select hx
        cases hnone
      · intro c h _
        rfl
  | .offer origin (some delegate) sink => by
      rw [Step.run]
      apply hP.look
      · intro c
        apply hP.bindSelected
        intro x hx
        obtain ⟨inquiry, hchosen⟩ := exists_of_chosen_select hx
        cases hchosen
        exact hP.announced sink (hP.composed (hP.delegate delegate))
      · intro c h _
        rfl
  | .convert => by
      rw [Step.run]
      apply hP.bind hP.converter
      intro outcome
      exact hP.pure _
  | .takeTarget => by
      rw [Step.run]
      apply hP.bind hP.takeTarget
      intro t
      exact hP.pure _
  | .setTopLevel topLevel => by
      rw [Step.run]
      apply hP.bind (hP.setTopLevel topLevel)
      intro _
      exact hP.pure _
  | .setSource source => by
      rw [Step.run]
      apply hP.bind (hP.setSource source)
      intro _
      exact hP.pure _
  | .query key => by
      rw [Step.run]
      apply hP.bind (hP.query key)
      intro a
      apply hP.look
      · intro c
        exact hP.pure _
      · intro c h _
        rfl
  | .scope request steps => by
      rw [Step.run]
      apply hP.look
      · intro c
        split
        · exact hP.pure _
        · next field _ => exact hP.within field (hP.steps true steps)
      · intro c h _
        rfl

/-- Taking steps one after another. -/
theorem steps (hP : Compositional @P) (haltIfRefused : Bool) :
    (steps : List Step) → P (runSteps haltIfRefused steps)
  | [] => by
      rw [runSteps]
      exact hP.pure _
  | step :: rest => by
      rw [runSteps]
      apply hP.bind (hP.step step)
      intro result
      apply hP.bind hP.snapshot
      intro after
      -- a refused step may end the run here
      split
      · exact hP.pure _
      · apply hP.bind (hP.steps haltIfRefused rest)
        intro more
        exact hP.pure _

end

end Compositional

end TypedHeaders
