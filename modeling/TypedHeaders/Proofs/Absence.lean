import TypedHeaders.Proofs.Progress

/-!
# A missing header

A header that has no line in the store gives nothing, and a stack of header binders says so: its
outcome is that the header is missing, which it says of no other header (`missing_iff_no_line`). The
context and the ledger stay as they were, what a read-only destination holds included.

A stack comes to this whatever the shape of the field, one with a complex element too, and whatever
source of values the context has. The converter at its end is asked even then, but in the scope of a
binder the source is that of the missing header, which covers no key. So the converter stops before
it looks at the shape and before it takes a target (`converter_of_not_covers`).
-/

set_option autoImplicit false

namespace TypedHeaders

open Activity Binding

/-- The tokens of a header are missing exactly if no line has its name. -/
theorem Context.present_eq_false_iff (c : Context) :
    c.extraction.present = false ↔ c.headers.getAll c.field.name = [] := by
  have hcontains : c.extraction.present = c.headers.contains c.field.name :=
    present_extract c.headers c.field.name c.field.shape
  rw [hcontains, c.headers.contains_eq_not_isEmpty]
  simp

namespace Binder.IsStack

variable {b : Binder} {w : World}

theorem outcome_of_missing (hb : b.IsStack) (hmissing : w.context.extraction.present = false) :
    (b.run w).value.outcome = .bound .absent := by
  rw [hb.outcome_run, settlement]
  cases b.converts with
  | false =>
      show w.context.ownOutcome = _
      rw [Context.ownOutcome, hmissing]
      rfl
  | true =>
      show w.context.convertedOutcome = _
      rw [Context.convertedOutcome, hmissing]
      rfl

/-- Nothing is taken for a missing header, and nothing is filed for it. -/
theorem world_of_missing (hb : b.IsStack) (hmissing : w.context.extraction.present = false) :
    (b.run w).world = w := by
  obtain ⟨takes, hworld⟩ := (hb.settled w).2
  rw [hworld, w.taken_of_absent takes hmissing, World.filed, Context.files, hmissing]
  rfl

end Binder.IsStack

/-- A stack comes to the outcome that the header is missing exactly if the store has no line of its
name. In that case it leaves the context and the ledger as they were. -/
theorem missing_iff_no_line {b : Binder} (hb : b.IsStack) (w : World) :
    let report := b.run w
    let lines := w.context.headers.getAll w.context.field.name
    (report.value.outcome = .bound .absent ↔ lines = []) ∧ (lines = [] → report.world = w) := by
  intro report lines
  have hlines : w.context.extraction.present = false ↔ lines = [] := w.context.present_eq_false_iff
  refine ⟨⟨?_, ?_⟩, ?_⟩
  · intro houtcome
    have hattempted : false = w.context.headers.contains w.context.field.name :=
      attempted_of_run houtcome
    rw [← hlines, hattempted]
    exact present_extract _ _ _
  · intro hnone
    exact hb.outcome_of_missing (hlines.mpr hnone)
  · intro hnone
    exact hb.world_of_missing (hlines.mpr hnone)

/-- A read-only collection of a complex element, with a stale source that has a token, something
held, and a record of its own from before. Two layers over the converter leave all of it alone. -/
theorem missing_complex :
    let stack : Binder := .composed (.binder (.composed .converter (some .tracing))) none
    let w : World :=
      { context :=
          { headers := .table ⟨[("other", [0x31])]⟩
            field := { name := "X", modelName := "m", shape := .collection .list .complex,
                       access := .readOnly }
            topLevel := false
            source := .header "Other" ⟨["1"], .split, true⟩
            held := some { value := ⟨.deque, ["old"]⟩, mutable := false } }
        ledger := Ledger.record {} "m" ⟨"9", .single "9"⟩ }
    stack.IsStack ∧ w.context.headers.getAll w.context.field.name = [] ∧
      (stack.run w).value.outcome = .bound .absent ∧ (stack.run w).world = w := by
  intro stack w
  have hstack : stack.IsStack := .layer _ (.converting _)
  have hnone : w.context.headers.getAll w.context.field.name = [] := by decide +kernel
  obtain ⟨houtcome, hworld⟩ := missing_iff_no_line hstack w
  exact ⟨hstack, hnone, houtcome.mpr hnone, hworld hnone⟩

end TypedHeaders
