import TypedHeaders.Proofs.Settled

/-!
# Stacks of header binders

A header binder may have another one as its delegate. A stack of such binders ends in a binder that
works alone or in one that has the converter as its delegate (`Binder.IsStack`). However high the
stack is and whichever sinks it reports to, it acts like the binder at its end
(`Binder.IsStack.actsLike`).

Acting alike means coming to the same value and leaving the same world; what is reported on the way
may differ (`ActsLike`). The layers above the last binder read the same tokens again, hand on the
same source, and file the same record over that of the layer below.
-/

set_option autoImplicit false

namespace TypedHeaders

open Activity Binding

/-- Two activities act alike if from every world they come to the same value and to the same
world. -/
def ActsLike {α : Type} (x y : Activity α) : Prop :=
  ∀ w, (x w).value = (y w).value ∧ (x w).world = (y w).world

namespace ActsLike

variable {α σ : Type}

theorem refl (x : Activity α) : ActsLike x x := fun _ => ⟨rfl, rfl⟩

theorem trans {x y z : Activity α} (hxy : ActsLike x y) (hyz : ActsLike y z) : ActsLike x z := by
  intro w
  exact ⟨(hxy w).1.trans (hyz w).1, (hxy w).2.trans (hyz w).2⟩

/-- A binder acts the same with a sink and without. -/
theorem announced (sink : Option Sink) (body : Activity (Account σ)) :
    ActsLike (Binding.announced sink body) body :=
  announced_value_world sink body

/-- Delegates that act alike make binders that act alike. -/
theorem composed {x y : Activity (Account σ)} (h : ActsLike x y) :
    ActsLike (Binding.composed x) (Binding.composed y) := by
  intro w
  obtain ⟨hvalue, hworld⟩ := h w.handedOn
  constructor
  · rw [value_composed, value_composed, hvalue]
  · rw [world_composed, world_composed, hvalue, hworld]

end ActsLike

/-! ## One layer more changes nothing -/

theorem withPresence_withPresence {σ : Type} (a : Account σ) (present present' : Bool) :
    withPresence (withPresence a present) present' = withPresence a present' := by
  rw [withPresence, withPresence, withPresence, Outcome.withPresence_withPresence]

/-- Filing in the scope of a binder is filing outside of it. -/
theorem World.leave_filed_handedOn (w left : World) (outcome : Outcome) :
    w.leave (w.handedOn.filed outcome left) = w.filed outcome (w.leave left) := by
  show w.leave (if w.context.files outcome then _ else left) =
    if w.context.files outcome then _ else w.leave left
  split
  · rfl
  · rfl

/-- Two layers over a delegate act like one. -/
theorem actsLike_composed_composed {σ : Type} (delegate : Activity (Account σ)) :
    ActsLike (composed (composed delegate)) (composed delegate) := by
  intro w
  let inner := delegate w.handedOn
  -- what is handed on a second time is what was handed on first
  have hvalue : (composed delegate w.handedOn).value =
      withPresence inner.value w.context.extraction.present := value_composed delegate w.handedOn
  have hworld : (composed delegate w.handedOn).world =
      w.handedOn.filed inner.value.outcome (w.handedOn.leave inner.world) :=
    world_composed delegate w.handedOn
  constructor
  · rw [value_composed, hvalue, withPresence_withPresence]
    exact (value_composed delegate w).symm
  · rw [world_composed, hvalue, withPresence, World.filed_withPresence, hworld,
      World.leave_filed_handedOn, World.filed_filed]
    exact (world_composed delegate w).symm

/-- A layer over a binder that works alone acts like that binder. -/
theorem actsLike_composed_standalone :
    ActsLike (composed (unseen standalone)) (unseen standalone) := by
  intro w
  -- the source is all that the layer exchanges, and binding alone does not look at it
  have hvalue : (standalone w.handedOn).value = w.context.ownOutcome := value_standalone w.handedOn
  have hworld : (standalone w.handedOn).world =
      w.handedOn.filed w.context.ownOutcome (w.handedOn.taken w.context.takesOwn) :=
    world_standalone w.handedOn
  constructor
  · rw [value_composed]
    show Account.mk ((standalone w.handedOn).value.withPresence _) none =
      ⟨(standalone w).value, none⟩
    rw [hvalue, Context.ownOutcome_withPresence, value_standalone]
  · rw [world_composed]
    show w.filed (standalone w.handedOn).value (w.leave (standalone w.handedOn).world) =
      (standalone w).world
    rw [hvalue, hworld, World.leave_filed_handedOn, World.filed_filed, World.leave_taken_handedOn,
      world_standalone]

/-! ## Stacks -/

/-- The header binders whose delegates are header binders again, down to one that works alone or
by the converter. -/
inductive Binder.IsStack : Binder → Prop
  | alone (sink : Option Sink) : IsStack (.standalone sink)
  | converting (sink : Option Sink) : IsStack (.composed .converter sink)
  | layer (sink : Option Sink) {b : Binder} : IsStack b → IsStack (.composed (.binder b) sink)

mutual

/-- Whether the converter is at the end of a stack. -/
def Binder.converts : Binder → Bool
  | .standalone _ => false
  | .composed delegate _ => delegate.converts

/-- Whether the delegate is the converter, or a stack with the converter at its end. -/
def Delegate.converts : Delegate → Bool
  | .converter => true
  | .binder b => b.converts
  | .script _ _ => false

end

/-- A stack acts like the binder at its end, without a sink. -/
theorem Binder.IsStack.actsLike {b : Binder} (hb : b.IsStack) :
    ActsLike b.run
      (if b.converts then Binding.composed (unseen Binding.converter)
        else unseen Binding.standalone) := by
  induction hb with
  | alone sink =>
      rw [Binder.run, Binder.converts]
      exact .announced sink _
  | converting sink =>
      rw [Binder.run, Delegate.run, Binder.converts, Delegate.converts]
      exact .announced sink _
  | @layer sink b _ ih =>
      have hlayer : ActsLike (Binder.composed (.binder b) sink).run (Binding.composed b.run) := by
        rw [Binder.run, Delegate.run]
        exact .announced sink _
      have hend : (Binder.composed (.binder b) sink).converts = b.converts := by
        rw [Binder.converts, Delegate.converts]
      rw [hend]
      refine hlayer.trans (ih.composed.trans ?_)
      cases b.converts with
      | false => exact actsLike_composed_standalone
      | true => exact actsLike_composed_composed _

/-! ## What a stack comes to -/

/-- What binding a field comes to, told from the context in which it starts: the outcome, and
whether the target is taken. -/
structure Settlement where
  outcome : Context → Outcome
  takes : Context → Bool

namespace Settlement

/-- Binding the field alone. -/
def alone : Settlement := { outcome := Context.ownOutcome, takes := Context.takesOwn }

/-- Binding the field by the converter. -/
def converting : Settlement :=
  { outcome := Context.convertedOutcome, takes := fun c => c.takesFor ⟨c.extraction.tokens⟩ }

end Settlement

/-- From every world, the binder comes to the outcome that is told from the context, and leaves the
world in which the target is taken and the tokens are filed for that outcome. -/
def Binder.SettlesBy (b : Binder) (s : Settlement) : Prop :=
  ∀ w, (b.run w).value = ⟨s.outcome w.context, none⟩ ∧
    (b.run w).world = w.filed (s.outcome w.context) (w.taken (s.takes w.context))

/-- How a stack settles: like the binder at its end. -/
def Binder.settlement (b : Binder) : Settlement := if b.converts then .converting else .alone

theorem Binder.IsStack.settlesBy_settlement {b : Binder} (hb : b.IsStack) :
    b.SettlesBy b.settlement := by
  intro w
  obtain ⟨hvalue, hworld⟩ := hb.actsLike w
  rw [hvalue, hworld, Binder.settlement]
  cases b.converts with
  | false => exact ⟨congrArg (Account.mk · none) (value_standalone w), world_standalone w⟩
  | true => exact ⟨value_converting w, world_converting w⟩

theorem Binder.IsStack.outcome_run {b : Binder} (hb : b.IsStack) (w : World) :
    (b.run w).value.outcome = b.settlement.outcome w.context := by
  rw [(hb.settlesBy_settlement w).1]

theorem Binder.IsStack.outcome_of_converts {b : Binder} (hb : b.IsStack)
    (hconverts : b.converts = true) (w : World) :
    (b.run w).value.outcome = w.context.convertedOutcome := by
  rw [hb.outcome_run, Binder.settlement, hconverts]
  rfl

/-- A binder over the converter comes to the outcome of converting the tokens of the header. -/
theorem outcome_converting (sink : Option Sink) (w : World) :
    ((Binder.composed .converter sink).run w).value.outcome = w.context.convertedOutcome :=
  (Binder.IsStack.converting sink).outcome_of_converts rfl w

/-- A stack settles like one of the two single binders. -/
theorem Binder.IsStack.settlesBy {b : Binder} (hb : b.IsStack) :
    b.SettlesBy .alone ∨ b.SettlesBy .converting := by
  have hsettles := hb.settlesBy_settlement
  rw [Binder.settlement] at hsettles
  cases hconverts : b.converts with
  | false =>
      left
      rw [hconverts] at hsettles
      exact hsettles
  | true =>
      right
      rw [hconverts] at hsettles
      exact hsettles

theorem Binder.IsStack.exists_settlesBy {b : Binder} (hb : b.IsStack) : ∃ s, b.SettlesBy s :=
  ⟨b.settlement, hb.settlesBy_settlement⟩

/-- A stack comes to one of the two outcomes of a single binder, and leaves the world in which the
tokens are filed for that outcome. -/
theorem Binder.IsStack.settled {b : Binder} (hb : b.IsStack) (w : World) :
    ((b.run w).value.outcome = w.context.ownOutcome ∨
        (b.run w).value.outcome = w.context.convertedOutcome) ∧
      ∃ takes, (b.run w).world = w.filed (b.run w).value.outcome (w.taken takes) := by
  rcases hb.settlesBy with halone | hconverting
  · obtain ⟨hvalue, hworld⟩ := halone w
    have houtcome : (b.run w).value.outcome = w.context.ownOutcome := by rw [hvalue]; rfl
    refine ⟨Or.inl houtcome, w.context.takesOwn, ?_⟩
    rw [houtcome]
    exact hworld
  · obtain ⟨hvalue, hworld⟩ := hconverting w
    have houtcome : (b.run w).value.outcome = w.context.convertedOutcome := by rw [hvalue]; rfl
    refine ⟨Or.inr houtcome, w.context.takesFor ⟨w.context.extraction.tokens⟩, ?_⟩
    rw [houtcome]
    exact hworld

end TypedHeaders
