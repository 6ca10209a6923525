import TypedHeaders.Proofs.ClosedForm
import TypedHeaders.Proofs.Stepwise

/-!
# Scopes restore the context

Whatever is done in a nested scope, the context is the same again after the scope, except that the
collection held by a read-only destination may have been given away (`scope_restores`).

A stepwise activity keeps the headers and the field of the context, and keeps or gives away what is
held (`Stepwise.kept`); the flag and the source it may change. Leaving a scope puts the field, the
flag and the source back. The ledger is the same ledger throughout: it changes only by the records
that the journal lists (`Stepwise.ledger_eq_replay`).

A scope need not run to its end. `Delegate.LeftAt` says in which worlds a delegate may be left:
before it starts, after any of its steps, in the middle of a nested scope, or below any number of
binders, whose scopes are then left one after another from the inside outwards.
-/

set_option autoImplicit false

namespace TypedHeaders

open Activity Binding

/-- The world in a nested scope for a field. -/
def World.enter (w : World) (field : Field) : World :=
  { w with context := w.context.enter field }

/-! ## What is kept -/

/-- The second context is the first one with its flag and its source changed at most, and what it
held possibly given away. -/
structure Context.Kept (before after : Context) : Prop where
  headers : after.headers = before.headers
  field : after.field = before.field
  held : after.held = before.held ∨ after.held = none

namespace Context.Kept

theorem refl (c : Context) : Kept c c := ⟨rfl, rfl, Or.inl rfl⟩

theorem trans {a b c : Context} (hab : Kept a b) (hbc : Kept b c) : Kept a c := by
  refine ⟨hbc.headers.trans hab.headers, hbc.field.trans hab.field, ?_⟩
  rcases hbc.held with hheld | hnone
  · rw [hheld]
    exact hab.held
  · exact Or.inr hnone

theorem withoutTarget (c : Context) : Kept c c.withoutTarget := by
  refine ⟨?_, c.field_withoutTarget, c.held_withoutTarget⟩
  rw [c.withoutTarget_eq]

/-- Leaving a scope keeps what the scope kept, whichever field the scope was for. -/
theorem leave {c inner : Context} (hheaders : inner.headers = c.headers)
    (hheld : inner.held = c.held ∨ inner.held = none) : Kept c (c.leave inner) :=
  ⟨hheaders, rfl, hheld⟩

theorem taking {α : Type} (takes : Bool) (value : α) (w : World) :
    Kept w.context (Binding.taking takes value w).world.context := by
  rw [context_taking]
  split
  · exact withoutTarget w.context
  · exact refl w.context

theorem standalone (w : World) : Kept w.context (Binding.standalone w).world.context := by
  cases hpresent : w.context.extraction.present with
  | false =>
      rw [standalone_of_absent hpresent]
      exact refl w.context
  | true =>
      rw [standalone_of_present hpresent]
      cases w.context.ownModel with
      | none => exact taking _ _ w
      | some v => exact taking _ _ w

end Context.Kept

/-- A stepwise activity keeps the headers and the field, and puts nothing in the place of what is
held. -/
theorem Stepwise.kept {α : Type} {x : Activity α} (hx : Stepwise x) (w : World) :
    w.context.Kept (x w).world.context := by
  induction hx generalizing w with
  | pure a => exact .refl w.context
  | bind _ _ ihx ihf => exact (ihx w).trans (ihf _ _)
  | context => exact .refl w.context
  | notices events => exact .refl w.context
  | takeTarget => exact .withoutTarget w.context
  | adjust f hf =>
      show w.context.Kept (f w.context)
      rw [hf w.context]
      exact ⟨rfl, rfl, Or.inl rfl⟩
  | inScope field _ ih =>
      have hbody := ih (w.enter field)
      exact .leave hbody.headers hbody.held
  | standalone => exact .standalone w
  | composed _ ih =>
      have hdelegate := ih w.handedOn
      rw [context_composed]
      exact .leave hdelegate.headers hdelegate.held

/-! ## The ledger and the journal -/

/-- The ledger after the records that a journal lists are filed in it, in order. -/
def Ledger.replay (l : Ledger) : List Effect → Ledger
  | [] => l
  | .filed field _ r :: rest => (l.record field.modelName r).replay rest
  | _ :: rest => l.replay rest

theorem Ledger.replay_append (l : Ledger) (first second : List Effect) :
    l.replay (first ++ second) = (l.replay first).replay second := by
  induction first generalizing l with
  | nil => rfl
  | cons e rest ih =>
      cases e with
      | notice event => exact ih l
      | took field target => exact ih l
      | filed field outcome r => exact ih _

theorem Ledger.replay_notices (l : Ledger) (events : List Event) :
    l.replay (events.map .notice) = l := by
  induction events with
  | nil => rfl
  | cons e rest ih => exact ih

theorem Ledger.replay_taking {α : Type} (l : Ledger) (takes : Bool) (value : α) (w : World) :
    l.replay (taking takes value w).journal = l := by
  cases takes with
  | false => rfl
  | true => rfl

/-- Binding without a delegate files what its journal lists. -/
theorem ledger_standalone (w : World) :
    (standalone w).world.ledger = w.ledger.replay (standalone w).journal := by
  cases hpresent : w.context.extraction.present with
  | false =>
      rw [standalone_of_absent hpresent]
      rfl
  | true =>
      rw [standalone_of_present hpresent]
      cases w.context.ownModel with
      | none =>
          show (taking _ _ w).world.ledger = _
          rw [ledger_taking, Ledger.replay_taking]
      | some v =>
          show w.ledger.record _ _ = w.ledger.replay (_ ++ [_])
          rw [Ledger.replay_append, Ledger.replay_taking]
          rfl

/-- A stepwise activity changes the ledger only by the records that its journal lists. -/
theorem Stepwise.ledger_eq_replay {α : Type} {x : Activity α} (hx : Stepwise x) (w : World) :
    (x w).world.ledger = w.ledger.replay (x w).journal := by
  induction hx generalizing w with
  | pure a => rfl
  | bind _ _ ihx ihf =>
      rw [world_bind, journal_bind, Ledger.replay_append, ← ihx w]
      exact ihf _ _
  | context => rfl
  | notices events => exact (Ledger.replay_notices w.ledger events).symm
  | takeTarget => rfl
  | adjust f hf => rfl
  | inScope field _ ih => exact ih (w.enter field)
  | standalone => exact ledger_standalone w
  | @composed σ delegate _ ih =>
      have hdelegate : (delegate w.handedOn).world.ledger =
          w.ledger.replay (delegate w.handedOn).journal := ih w.handedOn
      rw [ledger_composed, journal_composed, Ledger.replay_append, ← hdelegate]
      split
      · rfl
      · rfl

/-! ## Ways to leave -/

/-- The worlds in which a delegate may be left when it starts in a given world. It may end, or be
given up before it starts, after any step, or in the middle of one: a nested scope and the scope of
a binder are left as soon as what runs in them is. -/
inductive Delegate.LeftAt : Delegate → World → World → Prop
  | unstarted (d : Delegate) (w : World) : LeftAt d w w
  | finished (d : Delegate) (w : World) : LeftAt d w (d.run w).world
  | binder {d : Delegate} {w left : World} (sink : Option Sink) :
      LeftAt d w.handedOn left → LeftAt (.binder (.composed d sink)) w (w.leave left)
  | later {step : Step} {rest : List Step} {ending : Ending} {w left : World} :
      LeftAt (.script rest ending) (step.run w).world left →
        LeftAt (.script (step :: rest) ending) w left
  | bind {b : Binder} {rest : List Step} {ending : Ending} {w left : World} :
      LeftAt (.binder b) w left → LeftAt (.script (.bind b :: rest) ending) w left
  | offer {origin : Option Origin} {d : Option Delegate} {sink : Option Sink} {b : Binder}
      {rest : List Step} {ending : Ending} {w left : World} :
      (Catalogue.binderFor { sink } origin w.context.field.shape fun _ => d).chosen = some b →
        LeftAt (.binder b) w left → LeftAt (.script (.offer origin d sink :: rest) ending) w left
  | scope {request : Option FieldRequest} {field : Field} {steps rest : List Step}
      {inner ending : Ending} {w left : World} :
      scopeField w.context request = .ok field →
        LeftAt (.script steps inner) (w.enter field) left →
          LeftAt (.script (.scope request steps :: rest) ending) w (w.leave left)

/-- The second world has the context of the first again, up to what it held, and its ledger, with
records filed in it. -/
structure World.Restored (before after : World) : Prop where
  headers : after.context.headers = before.context.headers
  field : after.context.field = before.context.field
  topLevel : after.context.topLevel = before.context.topLevel
  source : after.context.source = before.context.source
  held : after.context.held = before.context.held ∨ after.context.held = none
  ledger : ∃ journal, after.ledger = before.ledger.replay journal

/-- Wherever a delegate is left, the context has kept its headers and its field, and the ledger has
only had records filed in it. -/
theorem Delegate.LeftAt.kept {d : Delegate} {w left : World} (h : d.LeftAt w left) :
    w.context.Kept left.context ∧ ∃ journal, left.ledger = w.ledger.replay journal := by
  induction h with
  | unstarted d w => exact ⟨.refl w.context, [], rfl⟩
  | finished d w =>
      exact ⟨d.stepwise_run.kept w, _, d.stepwise_run.ledger_eq_replay w⟩
  | binder sink _ ih =>
      obtain ⟨hkept, hledger⟩ := ih
      exact ⟨.leave hkept.headers hkept.held, hledger⟩
  | @later step _ _ w _ _ ih =>
      obtain ⟨hkept, journal, hledger⟩ := ih
      refine ⟨(step.stepwise_run.kept w).trans hkept, (step.run w).journal ++ journal, ?_⟩
      rw [hledger, step.stepwise_run.ledger_eq_replay w, Ledger.replay_append]
  | bind _ ih => exact ih
  | offer _ _ ih => exact ih
  | scope _ _ ih =>
      obtain ⟨hkept, hledger⟩ := ih
      exact ⟨.leave hkept.headers hkept.held, hledger⟩

/-- A nested scope for a field starts with that field, without the caller's naming of it, and with
the source of its caller. However it is left, by the end of its steps, by a refusal, or anywhere in
the middle at any depth, the context is restored. -/
theorem scope_restores (w : World) (field : Field) :
    (w.enter field).context = { w.context with field, topLevel := false } ∧
      (∀ (haltIfRefused : Bool) (steps : List Step),
        w.Restored (inScope field (runSteps haltIfRefused steps) w).world) ∧
      ∀ (d : Delegate) (left : World), d.LeftAt (w.enter field) left →
        w.Restored (w.leave left) := by
  refine ⟨rfl, ?_, ?_⟩
  · intro haltIfRefused steps
    have hsteps := stepwise_runSteps haltIfRefused steps
    have hkept := hsteps.kept (w.enter field)
    exact ⟨hkept.headers, rfl, rfl, rfl, hkept.held, _, hsteps.ledger_eq_replay (w.enter field)⟩
  · intro d left hleft
    obtain ⟨hkept, hledger⟩ := hleft.kept
    exact ⟨hkept.headers, rfl, rfl, rfl, hkept.held, hledger⟩

/-- In a scope for the same field the flag is set, and then a delegate that took the held collection
is dropped below a binder. The flag is the old one again, and the collection is gone. -/
theorem scope_restores_dropped :
    let field : Field :=
      { name := "X", modelName := "m", shape := .collection .linkedList (.simple .text),
        access := .readOnly }
    let start : Context :=
      { headers := .owned ⟨[("X", "a")]⟩, field, topLevel := false,
        held := some { value := { representation := .linked } } }
    let w : World := { context := start }
    let taker : Delegate := .script [.takeTarget] .pending
    let body : Delegate := .script [.setTopLevel true, .bind (.composed taker none)] .failed
    ∃ left, body.LeftAt (w.enter field) left ∧
      left.context = { start with topLevel := true, held := none } ∧ w.Restored (w.leave left) := by
  intro field start w taker body
  have hleft := Delegate.LeftAt.finished taker
    ((Step.setTopLevel true).run (w.enter field)).world.handedOn
  have hbody : body.LeftAt (w.enter field) _ := .later (.bind (.binder none hleft))
  obtain ⟨-, -, hrestores⟩ := scope_restores w field
  exact ⟨_, hbody, rfl, hrestores body _ hbody⟩

end TypedHeaders
