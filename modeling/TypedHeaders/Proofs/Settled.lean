import TypedHeaders.Proofs.ClosedForm
import TypedHeaders.Proofs.Conversion

/-!
# Binding that settles at once

Binding alone and binding by the converter run no program. Each is settled by the context in which
it starts: by the tokens of the header, what they are worth, and whether the target is taken for
them. `Context.ownOutcome` and `Context.convertedOutcome` are the two outcomes. In either case the
world after it is the one in which the target is taken and the tokens are filed
(`world_standalone`, `world_converting`).

For texts the two come to the same. `standalone_eq_converter` says so of the binders as a whole,
whatever the destination holds, whatever source the context has, and wherever the field stands.
-/

set_option autoImplicit false

namespace TypedHeaders

open Activity Binding

/-- The outcome of binding a field alone. -/
def Context.ownOutcome (c : Context) : Outcome :=
  if c.extraction.present then
    match c.ownModel with
    | none => .bound .failed
    | some v => .bound (.success v)
  else .bound .absent

/-- The outcome of binding a field by the converter, from the header of the field. -/
def Context.convertedOutcome (c : Context) : Outcome :=
  if c.extraction.present then (c.answered ⟨c.extraction.tokens⟩).withPresence true
  else .bound .absent

/-- The world after the target was taken for the tokens of a header, if the header is there and the
shape asks for the target. -/
def World.taken (w : World) (takes : Bool) : World :=
  if w.context.extraction.present && takes then { w with context := w.context.withoutTarget } else w

namespace World

variable (w : World) (takes : Bool)

theorem taken_of_absent (h : w.context.extraction.present = false) : w.taken takes = w := by
  rw [taken, h]
  rfl

/-- The world after an activity that takes the target at most. -/
theorem taken_of_present {α : Type} (value : α) (h : w.context.extraction.present = true) :
    w.taken takes = (taking takes value w).world := by
  rw [taken, h]
  cases takes with
  | false => rfl
  | true => rfl

/-- A destination that may be assigned gives nothing away. -/
theorem taken_of_assignable (h : w.context.field.access = .assignable) : w.taken takes = w := by
  rw [taken, Context.withoutTarget_eq_ite, h]
  split
  · rfl
  · rfl

@[simp] theorem ledger_taken : (w.taken takes).ledger = w.ledger := by
  rw [taken]
  split
  · rfl
  · rfl

/-- The target that is taken in the scope of a binder is the one outside of it. -/
theorem leave_withoutTarget_handedOn :
    w.context.leave w.context.handedOn.withoutTarget = w.context.withoutTarget := by
  cases haccess : w.context.field.access with
  | assignable =>
      have hinner : w.context.handedOn.field.access = .assignable := haccess
      rw [Context.withoutTarget, hinner, Context.withoutTarget, haccess]
      rfl
  | readOnly =>
      have hinner : w.context.handedOn.field.access = .readOnly := haccess
      rw [Context.withoutTarget, hinner, Context.withoutTarget, haccess]
      rfl

theorem leave_taken_handedOn : w.leave (w.handedOn.taken takes) = w.taken takes := by
  have hpresent : w.handedOn.context.extraction.present = w.context.extraction.present := rfl
  rw [taken, taken, hpresent]
  split
  · exact congrArg (World.mk · w.ledger) w.leave_withoutTarget_handedOn
  · rfl

end World

/-! ## The two binders -/

theorem value_standalone (w : World) : (standalone w).value = w.context.ownOutcome := by
  rw [Context.ownOutcome]
  cases hpresent : w.context.extraction.present with
  | false =>
      rw [standalone_of_absent hpresent]
      rfl
  | true =>
      rw [standalone_of_present hpresent]
      cases w.context.ownModel with
      | none => rfl
      | some v => rfl

theorem world_standalone (w : World) :
    (standalone w).world = w.filed w.context.ownOutcome (w.taken w.context.takesOwn) := by
  rw [World.filed, Context.files, Context.ownOutcome]
  cases hpresent : w.context.extraction.present with
  | false =>
      rw [standalone_of_absent hpresent, w.taken_of_absent _ hpresent]
      rfl
  | true =>
      rw [standalone_of_present hpresent, w.taken_of_present _ w.context.ownModel hpresent]
      cases w.context.ownModel with
      | none => rfl
      | some v =>
          show World.mk _ (w.ledger.record _ _) =
            World.mk _ ((taking _ _ w).world.ledger.record _ _)
          rw [ledger_taking]

/-- The presence of the header is already that of a binder without a delegate. -/
theorem Context.ownOutcome_withPresence (c : Context) :
    c.ownOutcome.withPresence c.extraction.present = c.ownOutcome := by
  rw [ownOutcome]
  cases c.extraction.present with
  | false => rfl
  | true =>
      cases c.ownModel with
      | none => rfl
      | some v => rfl

/-- The converter, on the context that a binder hands on to it. -/
theorem converter_handedOn (w : World) :
    (converter w.handedOn).value.withPresence w.context.extraction.present =
        w.context.convertedOutcome ∧
      (converter w.handedOn).world =
        w.handedOn.taken (w.context.takesFor ⟨w.context.extraction.tokens⟩) := by
  cases hpresent : w.context.extraction.present with
  | false =>
      have hcovers : w.handedOn.context.source.covers w.handedOn.context.field.modelName = false :=
        hpresent
      rw [converter_of_not_covers hcovers, w.handedOn.taken_of_absent _ hpresent,
        Context.convertedOutcome, hpresent]
      exact ⟨rfl, rfl⟩
  | true =>
      have hcovers : w.handedOn.context.source.covers w.handedOn.context.field.modelName = true :=
        hpresent
      let answer : Answer := ⟨w.context.extraction.tokens⟩
      rw [converter_of_covers hcovers,
        w.handedOn.taken_of_present _ (w.context.answered answer) hpresent,
        Context.convertedOutcome, hpresent]
      constructor
      · exact congrArg (Outcome.withPresence true) (value_taking _ (w.context.answered answer) _)
      · rfl

theorem value_converting (w : World) :
    (composed (unseen converter) w).value = ⟨w.context.convertedOutcome, none⟩ := by
  rw [value_composed]
  exact congrArg (Account.mk · none) (converter_handedOn w).1

theorem world_converting (w : World) :
    (composed (unseen converter) w).world =
      w.filed w.context.convertedOutcome
        (w.taken (w.context.takesFor ⟨w.context.extraction.tokens⟩)) := by
  obtain ⟨houtcome, hworld⟩ := converter_handedOn w
  rw [world_composed, ← houtcome, World.filed_withPresence, ← w.leave_taken_handedOn, ← hworld]
  rfl

/-! ## Lists of other kinds than text -/

/-- A list of another kind than text is bound by the converter if its tokens can be converted, its
container is known and its destination may be assigned. Without tokens it is bound at top level
only. -/
theorem Context.convertedOutcome_of_list {c : Context} {container : Container} {kind : ScalarKind}
    {vs : List Value} (hpresent : c.extraction.present = true)
    (hshape : c.field.shape = .collection container (.simple kind)) (hkind : kind ≠ .text)
    (hcontainer : container.isAbstract = false) (haccess : c.field.access = .assignable)
    (htokens : c.topLevel = true ∨ c.extraction.tokens ≠ [])
    (hconvert : convertAll kind c.field.modelName c.extraction.tokens = .ok vs) :
    c.convertedOutcome = .bound (.success (.list vs)) := by
  have hcan : c.canList container ⟨c.extraction.tokens⟩ = true := by
    rw [canList, hcontainer, Answer.isNone]
    rcases htokens with htop | htokens
    · simp [htop]
    · simp [htokens]
  rw [convertedOutcome, hpresent, if_pos rfl, c.answered_list _ hshape hkind, hcan, haccess,
    listOutcome, hconvert]
  rfl

/-! ## Texts -/

/-- A field of texts has the same outcome alone and by the converter. -/
theorem Context.convertedOutcome_of_text {c : Context}
    (htext : c.field.shape.element = .simple .text) : c.convertedOutcome = c.ownOutcome := by
  rw [convertedOutcome, ownOutcome]
  cases c.extraction.present with
  | false => rfl
  | true =>
      rw [answered, ownModel]
      cases hshape : c.field.shape with
      | scalar element =>
          have helement : element = .simple .text := by
            rw [hshape] at htext
            exact htext
          subst helement
          -- a header without tokens gives no text either way, and counts as there
          cases c.extraction.tokens with
          | nil => rfl
          | cons raw rest =>
              show (scalarOutcome .text c.field.modelName (raw :: rest)).withPresence true = _
              rw [scalarOutcome_text]
              rfl
      | collection container element =>
          have helement : element = .simple .text := by
            rw [hshape] at htext
            exact htext
          subst helement
          let built := materialize c.extraction.tokens container c.topLevel c.target
          show (textsOutcome built).withPresence true = match built.map Value.strings with
            | none => _
            | some v => _
          cases built with
          | none => rfl
          | some t => rfl

/-- A field of texts takes its target alone exactly if it does so by the converter. -/
theorem Context.takesFor_of_text {c : Context} (answer : Answer)
    (htext : c.field.shape.element = .simple .text) : c.takesFor answer = c.takesOwn := by
  rw [takesFor, takesOwn]
  cases hshape : c.field.shape with
  | scalar element =>
      cases element with
      | simple kind => rfl
      | complex => rfl
  | collection container element =>
      rw [hshape] at htext
      have helement : element = .simple .text := htext
      subst helement
      rfl

/-- Binding a field alone never ends in an error. -/
theorem Context.exists_ownOutcome_eq (c : Context) : ∃ b, c.ownOutcome = .bound b := by
  rw [ownOutcome]
  cases c.extraction.present with
  | false => exact ⟨.absent, rfl⟩
  | true =>
      cases c.ownModel with
      | none => exact ⟨.failed, rfl⟩
      | some v => exact ⟨.success v, rfl⟩

/-- A field of texts is bound alike alone and by the converter: to the same value, with the same
word on whether its header was there, and with the same context and the same ledger after it. -/
theorem standalone_eq_converter (sink sink' : Option Sink) (w : World)
    (htext : w.context.field.shape.element = .simple .text) :
    ∃ b : Bound,
      ((Binder.standalone sink).run w).value.outcome = .bound b ∧
      ((Binder.composed .converter sink').run w).value.outcome = .bound b ∧
      ((Binder.standalone sink).run w).world =
        ((Binder.composed .converter sink').run w).world := by
  obtain ⟨b, hb⟩ := w.context.exists_ownOutcome_eq
  have houtcome := w.context.convertedOutcome_of_text htext
  have htakes := w.context.takesFor_of_text ⟨w.context.extraction.tokens⟩ htext
  obtain ⟨halone, haloneWorld⟩ := announced_value_world sink (unseen standalone) w
  obtain ⟨hconverted, hconvertedWorld⟩ :=
    announced_value_world sink' (composed (unseen converter)) w
  refine ⟨b, ?_, ?_, ?_⟩
  · rw [Binder.run, halone]
    exact (value_standalone w).trans hb
  · rw [Binder.run, Delegate.run, hconverted, value_converting, houtcome]
    exact hb
  · rw [Binder.run, Binder.run, Delegate.run, haloneWorld, hconvertedWorld, world_converting,
      houtcome, htakes]
    exact world_standalone w

/-- A read-only destination that holds a linked list of texts has it filled again both ways. -/
theorem standalone_eq_converter_readOnly :
    let field : Field :=
      { name := "X", modelName := "m", shape := .collection (.abstraction "Bag") (.simple .text),
        access := .readOnly }
    let w : World :=
      { context :=
          { headers := .owned ⟨[("X", "a"), ("x", "b, c")]⟩, field, topLevel := false,
            held := some { value := { representation := .linked, items := ["old"] } } } }
    field.shape.element = .simple .text ∧
      ∃ b : Bound,
        ((Binder.standalone (some .tracing)).run w).value.outcome = .bound b ∧
        ((Binder.composed .converter none).run w).value.outcome = .bound b ∧
        ((Binder.standalone (some .tracing)).run w).world =
          ((Binder.composed .converter none).run w).world := by
  intro field w
  have htext : w.context.field.shape.element = .simple .text := rfl
  exact ⟨htext, standalone_eq_converter (some .tracing) none w htext⟩

end TypedHeaders
