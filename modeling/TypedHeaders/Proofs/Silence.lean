import TypedHeaders.Proofs.Stack

/-!
# Sinks have no say

Every header binder of a program may have a sink for its progress. `Binder.muted`, `Delegate.muted`
and `Step.muted` take all of them away. A program acts like the muted one: from every world it comes
to the same value, with the same transcripts of the scripts in it, and it leaves the same world
(`Binder.actsLike_muted`, `Delegate.actsLike_muted`, `Step.actsLike_muted`,
`actsLike_mutedSteps`). So two programs that are the same but for their sinks act alike, whichever
of the sinks were taken away, put in or exchanged (`Binder.actsLike_of_muted_eq`).
-/

set_option autoImplicit false

namespace TypedHeaders

open Activity Binding

/-! ## Programs without sinks -/

mutual

/-- The header binder without any sink. -/
def Binder.muted : Binder → Binder
  | .standalone _ => .standalone none
  | .composed delegate _ => .composed delegate.muted none

/-- The delegate without any sink. -/
def Delegate.muted : Delegate → Delegate
  | .converter => .converter
  | .binder b => .binder b.muted
  | .script steps ending => .script (mutedSteps steps) ending

/-- The step without any sink. -/
def Step.muted : Step → Step
  | .bind b => .bind b.muted
  | .offer origin none _ => .offer origin none none
  | .offer origin (some delegate) _ => .offer origin (some delegate.muted) none
  | .convert => .convert
  | .takeTarget => .takeTarget
  | .setTopLevel topLevel => .setTopLevel topLevel
  | .setSource source => .setSource source
  | .query key => .query key
  | .scope field steps => .scope field (mutedSteps steps)

/-- The steps without any sink. -/
def mutedSteps : List Step → List Step
  | [] => []
  | step :: rest => step.muted :: mutedSteps rest

end

/-! ## What is made of activities that act alike -/

namespace ActsLike

variable {α β : Type}

theorem symm {x y : Activity α} (hxy : ActsLike x y) : ActsLike y x :=
  fun w => ⟨(hxy w).1.symm, (hxy w).2.symm⟩

/-- Activities in a row act alike if each of them does. -/
theorem bind {x y : Activity α} {f g : α → Activity β} (hxy : ActsLike x y)
    (hfg : ∀ a, ActsLike (f a) (g a)) : ActsLike (x >>= f) (y >>= g) := by
  intro w
  obtain ⟨hvalue, hworld⟩ := hxy w
  rw [value_bind, value_bind, world_bind, world_bind, hvalue, hworld]
  exact hfg _ _

/-- What follows the same activity may act alike. -/
theorem after (x : Activity α) {f g : α → Activity β} (hfg : ∀ a, ActsLike (f a) (g a)) :
    ActsLike (x >>= f) (x >>= g) :=
  (refl x).bind hfg

/-- The same may be made of the values of activities that act alike. -/
theorem map {x y : Activity α} (hxy : ActsLike x y) (f : α → Activity β) :
    ActsLike (x >>= f) (y >>= f) :=
  hxy.bind fun a => refl (f a)

theorem inScope (field : Field) {x y : Activity α} (hxy : ActsLike x y) :
    ActsLike (Activity.inScope field x) (Activity.inScope field y) := by
  intro w
  obtain ⟨hvalue, hworld⟩ := hxy { w with context := w.context.enter field }
  refine ⟨hvalue, ?_⟩
  show World.mk _ _ = World.mk _ _
  rw [hworld]

theorem within (field : Field) {x y : Activity (List (StepResult × Snapshot))}
    (hxy : ActsLike x y) : ActsLike (Binding.within field x) (Binding.within field y) :=
  inScope field (after _ fun _ => hxy.map _)

/-- Binders that act alike are offered alike. -/
theorem bindSelected (origin : Option Origin) (shape : Shape) {x y : Activity (Account Seen)}
    (hxy : ActsLike x y) :
    ActsLike (Binding.bindSelected (select origin shape (noted fun _ => some x)))
      (Binding.bindSelected (select origin shape (noted fun _ => some y))) := by
  cases hopen : isOpen origin shape with
  | false =>
      rw [select_of_closed _ hopen, select_of_closed _ hopen]
      exact refl _
  | true =>
      rw [select_of_open _ hopen, select_of_open _ hopen]
      exact hxy.map _

end ActsLike

/-! ## Muting changes nothing -/

mutual

/-- A header binder acts like the one without sinks. -/
theorem Binder.actsLike_muted : (b : Binder) → ActsLike b.muted.run b.run
  | .standalone sink => by
      rw [Binder.muted, Binder.run, Binder.run]
      exact (ActsLike.announced sink _).symm
  | .composed delegate sink => by
      rw [Binder.muted, Binder.run, Binder.run]
      exact delegate.actsLike_muted.composed.trans (ActsLike.announced sink _).symm

/-- A delegate acts like the one without sinks. -/
theorem Delegate.actsLike_muted : (d : Delegate) → ActsLike d.muted.run d.run
  | .converter => by
      rw [Delegate.muted]
      exact .refl _
  | .binder b => by
      rw [Delegate.muted, Delegate.run, Delegate.run]
      exact b.actsLike_muted
  | .script steps ending => by
      rw [Delegate.muted, Delegate.run, Delegate.run]
      exact .after _ fun entry => (actsLike_mutedSteps false steps).map _

/-- A step acts like the one without sinks. -/
theorem Step.actsLike_muted : (step : Step) → ActsLike step.muted.run step.run
  | .bind b => by
      rw [Step.muted, Step.run, Step.run]
      exact b.actsLike_muted.map _
  | .offer origin none sink => by
      rw [Step.muted, Step.run, Step.run]
      exact .refl _
  | .offer origin (some delegate) sink => by
      rw [Step.muted, Step.run, Step.run]
      apply ActsLike.after
      intro c
      apply ActsLike.bindSelected
      exact delegate.actsLike_muted.composed.trans (ActsLike.announced sink _).symm
  | .convert => by
      rw [Step.muted]
      exact .refl _
  | .takeTarget => by
      rw [Step.muted]
      exact .refl _
  | .setTopLevel topLevel => by
      rw [Step.muted]
      exact .refl _
  | .setSource source => by
      rw [Step.muted]
      exact .refl _
  | .query key => by
      rw [Step.muted]
      exact .refl _
  | .scope request steps => by
      rw [Step.muted, Step.run, Step.run]
      apply ActsLike.after
      intro c
      cases scopeField c request with
      | error e => exact .refl _
      | ok field => exact .within field (actsLike_mutedSteps true steps)

/-- Steps act like those without sinks. -/
theorem actsLike_mutedSteps (haltIfRefused : Bool) : (steps : List Step) →
    ActsLike (runSteps haltIfRefused (mutedSteps steps)) (runSteps haltIfRefused steps)
  | [] => by
      rw [mutedSteps]
      exact .refl _
  | step :: rest => by
      rw [mutedSteps, runSteps, runSteps]
      apply step.actsLike_muted.bind
      intro result
      apply ActsLike.after
      intro after
      -- the same results halt both runs
      split
      · exact .refl _
      · exact (actsLike_mutedSteps haltIfRefused rest).map _

end

/-- Header binders that are the same but for their sinks act alike. -/
theorem Binder.actsLike_of_muted_eq {b b' : Binder} (h : b'.muted = b.muted) :
    ActsLike b'.run b.run := by
  have hmuted : ActsLike b'.muted.run b.run := by
    rw [h]
    exact b.actsLike_muted
  exact b'.actsLike_muted.symm.trans hmuted

end TypedHeaders
