import TypedHeaders.Proofs.Stack

/-!
# What a bind leaves in a read-only destination

Binding a read-only collection takes what its destination holds, and takes it before anything says
whether it can be used. `Binder.givesAway` tells from the context alone when a stack of header
binders does so, and nothing else in the context is changed by a bind (`held_after_bind`).

A bind that yields a value has put it into what was held. A bind that yields none may have taken it
all the same: from a header without tokens that is bound as part of something else, for a collection
that may not be changed, or for a list of values, which is never put into what is held.
-/

set_option autoImplicit false

namespace TypedHeaders

open Activity Binding

/-- Whether a stack of header binders asks for the target of a field whose header is there: the
field is a collection of texts, or another list that the converter at the end of the stack could
build. -/
def Binder.asksFor (b : Binder) (c : Context) : Bool :=
  match c.field.shape with
  | .collection _ (.simple .text) => true
  | .collection container (.simple _) => b.converts && c.canList container ⟨c.extraction.tokens⟩
  | _ => false

/-- Whether a stack of header binders takes what a read-only destination holds. -/
def Binder.givesAway (b : Binder) (c : Context) : Bool :=
  c.extraction.present && c.field.access = .readOnly && b.asksFor c

theorem Binder.takes_settlement (b : Binder) (c : Context) :
    b.settlement.takes c = b.asksFor c := by
  have halone : Settlement.alone.takes c = c.takesOwn := rfl
  have hconverting : Settlement.converting.takes c = c.takesFor ⟨c.extraction.tokens⟩ := rfl
  rw [settlement, asksFor]
  cases b.converts with
  | false =>
      rw [if_neg Bool.false_ne_true, halone, Context.takesOwn]
      cases c.field.shape with
      | scalar element => rfl
      | collection container element =>
          cases element with
          | complex => rfl
          | simple kind => cases kind <;> rfl
  | true =>
      rw [if_pos rfl, hconverting, Context.takesFor]
      cases c.field.shape with
      | scalar element => rfl
      | collection container element =>
          cases element with
          | complex => rfl
          | simple kind => cases kind <;> rfl

/-- After a bind by a stack the context is as before, but for what was held if that is given
away. -/
theorem Binder.IsStack.context_run {b : Binder} (hb : b.IsStack) (w : World) :
    (b.run w).world.context =
      if b.givesAway w.context then { w.context with held := none } else w.context := by
  obtain ⟨-, hworld⟩ := hb.settlesBy_settlement w
  rw [hworld, World.context_filed, World.taken, Binder.givesAway, b.takes_settlement]
  cases w.context.extraction.present with
  | false => rfl
  | true =>
      -- asking for the target of a field that may be assigned changes nothing
      cases b.asksFor w.context with
      | false =>
          rw [Bool.and_false, Bool.and_false]
          rfl
      | true =>
          rw [Bool.and_true, Bool.and_true, Bool.true_and, if_pos rfl]
          simp only [decide_eq_true_eq]
          exact w.context.withoutTarget_eq_ite

/-- A collection of texts comes to the same outcome whatever is at the end of the stack. -/
theorem Binder.IsStack.outcome_texts {b : Binder} (hb : b.IsStack) (w : World)
    (htext : w.context.field.shape.element = .simple .text) :
    (b.run w).value.outcome = w.context.ownOutcome := by
  obtain ⟨hvalue, -⟩ := hb.settlesBy_settlement w
  rw [hvalue, Binder.settlement]
  cases b.converts with
  | false => rfl
  | true => exact Context.convertedOutcome_of_text htext

/-- Texts are put into what is held if it may be changed, unless there are none of them and the
field is part of something else. -/
theorem Context.isSet_ownOutcome {c : Context} {container : Container} {x : HeldCollection}
    (hpresent : c.extraction.present = true) (haccess : c.field.access = .readOnly)
    (hshape : c.field.shape = .collection container (.simple .text)) (hheld : c.held = some x)
    (hmutable : x.mutable = true) (htokens : c.extraction.tokens = [] → c.topLevel = true) :
    c.ownOutcome.isSet = true := by
  have htarget : c.target = .readOnly (some x) := by rw [target, haccess, hheld]
  have hneeded : (c.extraction.tokens.isEmpty && !c.topLevel) = false := by
    cases hcase : c.extraction.tokens with
    | nil =>
        rw [htokens hcase]
        rfl
    | cons token rest => rfl
  have hbuilt : materialize c.extraction.tokens container c.topLevel c.target =
      some (x.value.clear.fill c.extraction.tokens) := by
    rw [htarget, materialize, hneeded, if_neg Bool.false_ne_true]
    exact if_pos hmutable
  have hmodel : c.ownModel = some (.strings (x.value.clear.fill c.extraction.tokens)) := by
    rw [ownModel, hshape]
    show (materialize _ container _ _).map Value.strings = _
    rw [hbuilt]
    rfl
  rw [ownOutcome, hpresent, hmodel]
  rfl

/-- A stack that takes the target of a field of texts binds a collection. -/
theorem Binder.exists_shape_of_asksFor {b : Binder} {c : Context} (hasks : b.asksFor c = true)
    (htext : c.field.shape.element = .simple .text) :
    ∃ container, c.field.shape = .collection container (.simple .text) := by
  cases hshape : c.field.shape with
  | scalar element =>
      rw [asksFor, hshape] at hasks
      cases hasks
  | collection container element =>
      rw [hshape] at htext
      have helement : element = .simple .text := htext
      exact ⟨container, by rw [helement]⟩

/-- A stack leaves the context as it was, but that what is held is gone if the stack gives it away,
and a later taking of the target comes too late. If no value came of it, then what was held may not
be changed, or there are no tokens and the field is part of something else, or the field is no
collection of texts. -/
theorem held_after_bind {b : Binder} (hb : b.IsStack) (w : World) :
    let c := w.context
    let report := b.run w
    report.world.context = (if b.givesAway c then { c with held := none } else c) ∧
      (Activity.takeTarget report.world).value =
        (if b.givesAway c then .readOnly none else c.target) ∧
      (report.value.outcome.isSet = false → b.givesAway c = true → ∀ x, c.held = some x →
        x.mutable = false ∨ (c.extraction.tokens = [] ∧ c.topLevel = false) ∨
          c.field.shape.element ≠ .simple .text) := by
  intro c report
  have hcontext : report.world.context = if b.givesAway c then { c with held := none } else c :=
    hb.context_run w
  have hgiven : b.givesAway c = true →
      c.extraction.present = true ∧ c.field.access = .readOnly ∧ b.asksFor c = true := by
    intro hgives
    simp only [Binder.givesAway, Bool.and_eq_true, decide_eq_true_eq] at hgives
    exact ⟨hgives.1.1, hgives.1.2, hgives.2⟩
  refine ⟨hcontext, ?_, ?_⟩
  · show report.world.context.target = _
    rw [hcontext]
    cases hgives : b.givesAway c with
    | false => rfl
    | true =>
        obtain ⟨-, haccess, -⟩ := hgiven hgives
        rw [if_pos rfl, if_pos rfl, Context.target, haccess]
  · intro hunset hgives x hheld
    obtain ⟨hpresent, haccess, hasks⟩ := hgiven hgives
    by_cases htext : c.field.shape.element = .simple .text
    · obtain ⟨container, hshape⟩ := Binder.exists_shape_of_asksFor hasks htext
      cases hmutable : x.mutable with
      | false => exact Or.inl rfl
      | true =>
          by_cases htokens : c.extraction.tokens = [] → c.topLevel = true
          · -- the texts were put into what was held, so there was a value
            have hset : c.ownOutcome.isSet = true :=
              Context.isSet_ownOutcome hpresent haccess hshape hheld hmutable htokens
            have houtcome : report.value.outcome = c.ownOutcome := hb.outcome_texts w htext
            rw [houtcome, hset] at hunset
            cases hunset
          · rw [Classical.not_imp, Bool.not_eq_true] at htokens
            exact Or.inr (Or.inl htokens)
    · exact Or.inr (Or.inr htext)

/-- A frozen collection is gone after a bind in two layers that yields no value. -/
theorem held_after_bind_frozen :
    let stack : Binder := .composed (.binder (.composed .converter none)) (some .tracing)
    let w : World :=
      { context :=
          { headers := .owned ⟨[("X", "new")]⟩
            field := { name := "X", modelName := "m",
                       shape := .collection .deque (.simple .text), access := .readOnly }
            held := some { value := ⟨.deque, ["old"]⟩, mutable := false } } }
    stack.IsStack ∧ (stack.run w).value.outcome.isSet = false ∧
      (stack.run w).world.context = { w.context with held := none } ∧
      (Activity.takeTarget (stack.run w).world).value = .readOnly none := by
  intro stack w
  have hstack : stack.IsStack := .layer _ (.converting _)
  have hgives : stack.givesAway w.context = true := by decide +kernel
  obtain ⟨hcontext, htarget, -⟩ := held_after_bind hstack w
  rw [hgives] at hcontext htarget
  refine ⟨hstack, ?_, hcontext, htarget⟩
  rw [hstack.outcome_texts w rfl]
  decide +kernel

/-- A header of nothing but a comma and blanks gives no value for a part of something else, and what
was held is gone after it. -/
theorem held_lost_to_blank_header :
    let b : Binder := .standalone none
    let x : HeldCollection := { value := ⟨.contiguous, ["old"]⟩ }
    let w : World :=
      { context :=
          { headers := .owned ⟨[("X", " , ")]⟩
            field := { name := "X", modelName := "X",
                       shape := .collection .list (.simple .text), access := .readOnly }
            topLevel := false
            held := some x } }
    b.IsStack ∧ (b.run w).value.outcome.isSet = false ∧
      (b.run w).world.context.held ≠ w.context.held ∧
      (Activity.takeTarget (b.run w).world).value ≠ .readOnly (some x) := by
  intro b x w
  have hstack : b.IsStack := .alone _
  have hgives : b.givesAway w.context = true := by decide +kernel
  have hcontext := hstack.context_run w
  rw [hgives, if_pos rfl] at hcontext
  refine ⟨hstack, ?_, ?_, ?_⟩
  · rw [hstack.outcome_texts w rfl]
    decide +kernel
  · rw [hcontext]
    exact nofun
  · show (b.run w).world.context.target ≠ _
    rw [hcontext]
    exact nofun

end TypedHeaders
