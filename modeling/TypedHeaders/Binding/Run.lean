import TypedHeaders.Binding.Converter
import TypedHeaders.Binding.FromHeader
import TypedHeaders.Binding.Program

/-!
# Running binders, delegates and scripts

`Binder.run`, `Delegate.run`, `Step.run` and `runSteps` give the activity of each form of program,
by recursion on the program. A script keeps a transcript of the states and results that it saw, and
the step that bound by the script carries it.

A step that asks for a field of a refused name ends the scope that it stands in, which is then
refused for the same reason. A script and a session note the refusal as the step's result and go on.
-/

set_option autoImplicit false

namespace TypedHeaders

/-- The state at the start of some steps, and the result of each with the state after it. -/
structure Transcript (ρ : Type) where
  entry : Snapshot
  steps : List (ρ × Snapshot)

/-- The result of a step. -/
inductive StepResult where
  /-- The step has no result. -/
  | done
  /-- The field was bound, and a script under it left this transcript. -/
  | bound (outcome : Outcome) (seen : Option (Transcript StepResult))
  /-- A catalogue was asked for a binder, and the field was bound by it if one was handed out. -/
  | offered (asked : Option Inquiry) (bound : Option (Outcome × Option (Transcript StepResult)))
  /-- The field was bound from the value source. -/
  | converted (outcome : Outcome)
  /-- The target of the field. -/
  | target (t : Target)
  /-- The answer of the value source, and whether it covers the key. -/
  | answer (covered : Bool) (a : Answer)
  /-- The steps of a nested scope. -/
  | scope (t : Transcript StepResult)
  /-- The scope could not be entered, or a step in it was refused. -/
  | refused (e : FieldError)

/-- Why the step was refused, if it was. -/
def StepResult.refusal? : StepResult → Option FieldError
  | .refused e => some e
  | _ => none

/-- What a script under a binder left, if there was one. -/
abbrev Seen := Option (Transcript StepResult)

/-- What a script returns after its steps. -/
def Ending.outcome : Ending → Outcome
  | .absent => .bound .absent
  | .failed => .bound .failed
  | .success v => .bound (.success v)
  | .error e => .error e
  | .pending => .dropped

namespace Binding

open Activity

/-- What is seen of the context. -/
def snapshot : Activity Snapshot := do
  let c ← context
  pure c.snapshot

/-- An account of an activity that no script runs under. -/
def unseen (x : Activity Outcome) : Activity (Account Seen) := do
  let outcome ← x
  pure { outcome, seen := none }

/-- Bind the field by what was selected for it, if anything was. -/
def bindSelected (s : Asking (Option (Activity (Account Seen)))) : Activity StepResult :=
  match s.chosen with
  | none => pure (.offered s.asked none)
  | some bind => do
      let a ← bind
      pure (.offered s.asked (some (a.outcome, a.seen)))

/-- Take steps in a nested scope for a field. A refused step refuses the scope. -/
def within (field : Field) (steps : Activity (List (StepResult × Snapshot))) :
    Activity StepResult :=
  inScope field do
    let entry ← snapshot
    let log ← steps
    match log.findSome? fun r => r.1.refusal? with
    | some e => pure (.refused e)
    | none => pure (.scope { entry, steps := log })

/-- The field of a nested scope: the one that is asked for, or the field of the context. -/
def scopeField (c : Context) : Option FieldRequest → Except FieldError Field
  | none => .ok c.field
  | some r => r.resolve

end Binding

open Activity Binding

mutual

/-- Bind the field by a header binder. -/
def Binder.run : Binder → Activity (Account Seen)
  | .standalone sink => announced sink (unseen Binding.standalone)
  | .composed delegate sink => announced sink (Binding.composed delegate.run)

/-- Bind the field by a delegate. -/
def Delegate.run : Delegate → Activity (Account Seen)
  | .converter => unseen Binding.converter
  | .binder b => b.run
  | .script steps ending => do
      let entry ← snapshot
      let log ← runSteps false steps
      pure { outcome := ending.outcome, seen := some { entry, steps := log } }

/-- Take a step. -/
def Step.run : Step → Activity StepResult
  | .bind b => do
      let a ← b.run
      pure (.bound a.outcome a.seen)
  | .offer origin none _ => do
      let c ← context
      bindSelected (select origin c.field.shape (noted fun _ => none))
  | .offer origin (some delegate) sink => do
      let c ← context
      bindSelected (select origin c.field.shape
        (noted fun _ => some (announced sink (Binding.composed delegate.run))))
  | .convert => do
      let outcome ← Binding.converter
      pure (.converted outcome)
  | .takeTarget => do
      let t ← Activity.takeTarget
      pure (.target t)
  | .setTopLevel topLevel => do
      adjust fun c => { c with topLevel }
      pure .done
  | .setSource source => do
      adjust fun c => { c with source := source.resolve c.headers }
      pure .done
  | .query key => do
      let a ← Activity.query key
      let c ← context
      pure (.answer (c.source.covers key) a)
  | .scope field steps => do
      let c ← context
      match scopeField c field with
      | .error e => pure (.refused e)
      | .ok f => within f (runSteps true steps)

/-- Take steps one after another, with the state after each. They may be asked to halt at a step
that is refused. -/
def runSteps (haltIfRefused : Bool) : List Step → Activity (List (StepResult × Snapshot))
  | [] => pure []
  | step :: rest => do
      let result ← step.run
      let after ← snapshot
      if haltIfRefused && result.refusal?.isSome then pure [(result, after)]
      else do
        let more ← runSteps haltIfRefused rest
        pure ((result, after) :: more)

end

/-- A step that asks a catalogue binds the field by the binder that the catalogue hands out for its
shape and origin. -/
theorem Step.run_offer (origin : Option Origin) (delegate : Option Delegate) (sink : Option Sink)
    (w : World) :
    (Step.offer origin delegate sink).run w
      = bindSelected (Option.map Binder.run <$>
          Catalogue.binderFor { sink } origin w.context.field.shape fun _ => delegate) w := by
  cases delegate with
  | none =>
      show bindSelected (select origin w.context.field.shape (noted fun _ => none)) w = _
      rw [Catalogue.binderFor, Catalogue.binderFrom, ← select_map, ← select_map]
      rfl
  | some d =>
      show bindSelected (select origin w.context.field.shape
        (noted fun _ => some (announced sink (Binding.composed d.run)))) w = _
      rw [Catalogue.binderFor, Catalogue.binderFrom, ← select_map, ← select_map]
      rfl

end TypedHeaders
