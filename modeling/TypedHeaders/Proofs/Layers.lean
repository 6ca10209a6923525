import TypedHeaders.Proofs.Scope
import TypedHeaders.Proofs.Stack

/-!
# A second layer changes nothing

A header binder over a header binder over a delegate is the same as the one binder over the
delegate (`composed_twice`). The outer layer reads the same header, opens a scope of its own, and
sets the flag and the source once more; the inner layer then files its record before the outer one
files the same record again. None of this can be told from outside or by the delegate: it starts in
the same world, and so it sees and does the same. A delegate that is dropped anywhere leaves the
same world behind.

The delegate may be any program. It may write under the model name itself, bind a value although the
header is missing, fail, or never finish.
-/

set_option autoImplicit false

namespace TypedHeaders

open Activity Binding

/-! ## What a layer files -/

/-- What the journal says of filing the tokens of the field in `w`, when a delegate came to the
outcome. -/
def World.filing (w : World) (outcome : Outcome) : List Effect :=
  if w.context.files outcome then
    [.filed w.context.field (outcome.withPresence w.context.extraction.present) w.context.record]
  else []

theorem World.filing_withPresence (w : World) (outcome : Outcome) (present : Bool) :
    w.filing (outcome.withPresence present) = w.filing outcome := by
  rw [filing, filing, Context.files_withPresence, Outcome.withPresence_withPresence]

/-- A binder adds its own filing to what its delegate did. -/
theorem journal_composed_eq_filing {σ : Type} (delegate : Activity (Account σ)) (w : World) :
    (composed delegate w).journal =
      (delegate w.handedOn).journal ++ w.filing (delegate w.handedOn).value.outcome := by
  rw [journal_composed, value_composed]
  rfl

/-- Of two layers each files once, and the delegate below them runs once. -/
theorem journal_composed_composed {σ : Type} (delegate : Activity (Account σ)) (w : World) :
    (composed (composed delegate) w).journal =
      (delegate w.handedOn).journal ++ w.filing (delegate w.handedOn).value.outcome
        ++ w.filing (delegate w.handedOn).value.outcome := by
  -- handing on what was handed on exchanges the source for the same source
  have hinner : (composed delegate w.handedOn).journal =
      (delegate w.handedOn).journal ++ w.filing (delegate w.handedOn).value.outcome :=
    journal_composed_eq_filing delegate w.handedOn
  have houtcome : (composed delegate w.handedOn).value.outcome =
      (delegate w.handedOn).value.outcome.withPresence w.context.extraction.present :=
    congrArg Account.outcome (value_composed delegate w.handedOn)
  rw [journal_composed_eq_filing, hinner, houtcome, World.filing_withPresence]

/-! ## Dropping a delegate -/

/-- The worlds in which a binder may be left are its first one, its last one, and those in which its
delegate may be left, outside of the scope. -/
theorem leftAt_composed_iff {d : Delegate} {sink : Option Sink} {w left : World} :
    (Delegate.binder (.composed d sink)).LeftAt w left ↔
      left = w ∨ left = ((Binder.composed d sink).run w).world ∨
        ∃ inner, d.LeftAt w.handedOn inner ∧ left = w.leave inner := by
  constructor
  · intro h
    cases h with
    | unstarted => exact Or.inl rfl
    | finished =>
        right
        left
        rw [Delegate.run]
    | binder sink hinner => exact Or.inr (Or.inr ⟨_, hinner, rfl⟩)
  · rintro (rfl | rfl | ⟨inner, hinner, rfl⟩)
    · exact .unstarted _ _
    · have hfinished := Delegate.LeftAt.finished (.binder (.composed d sink)) w
      rw [Delegate.run] at hfinished
      exact hfinished
    · exact .binder sink hinner

/-! ## Two layers -/

theorem Binder.run_composed_none (d : Delegate) :
    (Binder.composed d none).run = Binding.composed d.run := by
  rw [Binder.run]
  rfl

/-- One layer over a delegate and two come to the same value and the same world. -/
theorem run_twice (d : Delegate) (w : World) :
    ((Binder.composed (.binder (.composed d none)) none).run w).value =
        ((Binder.composed d none).run w).value ∧
      ((Binder.composed (.binder (.composed d none)) none).run w).world =
        ((Binder.composed d none).run w).world := by
  rw [Binder.run_composed_none, Delegate.run, Binder.run_composed_none]
  exact actsLike_composed_composed d.run w

/-- A delegate that is dropped below two layers leaves the world that it leaves below one. -/
theorem leftAt_twice_iff {d : Delegate} {w left : World} :
    (Delegate.binder (.composed (.binder (.composed d none)) none)).LeftAt w left ↔
      (Delegate.binder (.composed d none)).LeftAt w left := by
  have hlast := (run_twice d w).2
  rw [leftAt_composed_iff, leftAt_composed_iff, hlast]
  constructor
  · rintro (rfl | rfl | ⟨middle, hmiddle, rfl⟩)
    · exact Or.inl rfl
    · exact Or.inr (Or.inl rfl)
    · rcases leftAt_composed_iff.mp hmiddle with rfl | rfl | ⟨inner, hinner, rfl⟩
      · -- the inner layer had not started, and the scope of the outer one gives the world back
        exact Or.inl rfl
      · -- the inner layer had filed already, which is all that was left to do
        right
        left
        rw [Binder.run_composed_none, world_composed, world_composed, World.leave_filed_handedOn]
        rfl
      · exact Or.inr (Or.inr ⟨inner, hinner, rfl⟩)
  · rintro (rfl | rfl | ⟨inner, hinner, rfl⟩)
    · exact Or.inl rfl
    · exact Or.inr (Or.inl rfl)
    · exact Or.inr (Or.inr ⟨w.handedOn.leave inner, .binder none hinner, rfl⟩)

/-- Two layers over a delegate come to the same as one, and leave the same context and ledger. The
delegate runs once below them, in the world in which it runs below one layer, and what it did and
saw is the same. Wherever it is dropped, it leaves the same world. A layer over a binder that works
alone makes no difference to that binder either. -/
theorem composed_twice (d : Delegate) (w : World) :
    let once : Binder := .composed d none
    let twice : Binder := .composed (.binder once) none
    let inner := d.run w.handedOn
    let alone : Binder := .standalone none
    let layered : Binder := .composed (.binder alone) none
    ((twice.run w).value = (once.run w).value ∧ (twice.run w).world = (once.run w).world) ∧
    -- what the delegate did and saw, below one layer and below two
    ((once.run w).value.seen = inner.value.seen ∧ (twice.run w).value.seen = inner.value.seen ∧
      (once.run w).journal = inner.journal ++ w.filing inner.value.outcome ∧
      (twice.run w).journal =
        inner.journal ++ w.filing inner.value.outcome ++ w.filing inner.value.outcome) ∧
    (∀ left, (Delegate.binder twice).LeftAt w left ↔ (Delegate.binder once).LeftAt w left) ∧
    (layered.run w).value = (alone.run w).value ∧ (layered.run w).world = (alone.run w).world := by
  intro once twice inner alone layered
  have hsame := run_twice d w
  have hseen : (once.run w).value.seen = inner.value.seen := by
    rw [Binder.run_composed_none, value_composed]
    rfl
  have honce : (once.run w).journal = inner.journal ++ w.filing inner.value.outcome := by
    rw [Binder.run_composed_none]
    exact journal_composed_eq_filing d.run w
  have htwice : (twice.run w).journal =
      inner.journal ++ w.filing inner.value.outcome ++ w.filing inner.value.outcome := by
    rw [Binder.run_composed_none, Delegate.run, Binder.run_composed_none]
    exact journal_composed_composed d.run w
  have hlayered : (layered.run w).value = (alone.run w).value ∧
      (layered.run w).world = (alone.run w).world := by
    rw [Binder.run_composed_none, Delegate.run, Binder.run]
    exact actsLike_composed_standalone w
  exact ⟨hsame, ⟨hseen, (congrArg Account.seen hsame.1).trans hseen, honce, htwice⟩,
    fun left => leftAt_twice_iff, hlayered⟩

end TypedHeaders
