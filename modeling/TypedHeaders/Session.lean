import TypedHeaders.Binding.Run

/-!
# Sessions

A session binds the fields of one request, one after another. All fields share the headers and the
ledger. Each has a context of its own, in which its steps are taken, and after each step the session
notes the result, the state of the context, the events of the step, and the ledger.
-/

set_option autoImplicit false

namespace TypedHeaders

open TypedHeaders.Header

/-- How a field of a session is bound: the field, whether it is reached through a parent, what its
destination holds, the value source to start with, and the steps to take. -/
structure FieldPlan where
  field : FieldRequest
  nested : Bool := false
  held : Option HeldCollection := none
  source : Option SourceRequest := none
  steps : List Step := []

namespace FieldPlan

/-- The context in which the steps for a field start. -/
def context (p : FieldPlan) (headers : HeaderStore) (field : Field) : Context :=
  { headers
    field
    topLevel := !p.nested
    source := match p.source with
      | none => .empty
      | some s => s.resolve headers
    held := p.held }

end FieldPlan

/-- A step of a session: its result, the state after it, the events that it reported, and the ledger
after it. -/
structure StepRecord where
  result : StepResult
  after : Snapshot
  events : List Event
  ledger : Ledger

/-- The steps that were taken for a field, or why the field was refused. -/
inductive FieldEntry where
  | refused (e : FieldError)
  | ran (records : List StepRecord)

namespace Session

/-- Take the steps for a field. Gives the record of each, and the ledger after the last. -/
def runField : World → List Step → List StepRecord × Ledger
  | w, [] => ([], w.ledger)
  | w, step :: rest =>
      let report := step.run w
      let record : StepRecord :=
        { result := report.value
          after := report.world.context.snapshot
          events := eventsOf report.journal
          ledger := report.world.ledger }
      let (records, ledger) := runField report.world rest
      (record :: records, ledger)

/-- Bind fields one after another over the same headers, starting from a ledger. -/
def runFrom (headers : HeaderStore) : Ledger → List FieldPlan → List FieldEntry
  | _, [] => []
  | ledger, p :: rest =>
      match p.field.resolve with
      | .error e => .refused e :: runFrom headers ledger rest
      | .ok field =>
          let (records, ledger') :=
            runField { context := p.context headers field, ledger } p.steps
          .ran records :: runFrom headers ledger' rest

/-- Bind fields one after another over the same headers and an empty ledger. -/
def run (headers : HeaderStore) (plans : List FieldPlan) : List FieldEntry :=
  runFrom headers {} plans

end Session

end TypedHeaders
