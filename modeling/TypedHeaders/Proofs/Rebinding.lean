import TypedHeaders.Proofs.Held
import TypedHeaders.Proofs.Typing

/-!
# Binding a field a second time

Binding the same field again by the same stack changes nothing: the context and the ledger stay as
the first bind left them, and the outcome is the same one. There is a single exception. If the first
bind put a value into a read-only collection, it has taken what the destination held, and the second
bind finds nothing there to put a value into (`bound_again`).

The first bind changes one thing in the context at most, which is that what was held is given away
(`Binder.IsStack.context_run`). So the proof splits on that. Where something is given away, the
destination is a read-only collection, which a bind either fills or leaves alone but never complains
of (`Context.ownOutcome_of_present`), and of which nothing can be made once it is empty-handed
(`Context.ownModel_of_nothing_held`). Where nothing is given away, the second bind starts in the
same context.
-/

set_option autoImplicit false

namespace TypedHeaders

open Activity Binding

/-! ## Read-only collections -/

namespace Context

variable {c : Context} {container : Container} {kind : ScalarKind}

/-- Without a delegate a header that is there fails to give a value, or gives one. -/
theorem ownOutcome_of_present (hpresent : c.extraction.present = true) :
    c.ownOutcome = .bound .failed ∨ c.ownOutcome.isSet = true := by
  rw [ownOutcome, if_pos hpresent]
  cases c.ownModel with
  | none => exact Or.inl rfl
  | some v => exact Or.inr rfl

/-- Only texts are bound without a delegate. -/
theorem ownModel_of_list (hshape : c.field.shape = .collection container (.simple kind))
    (hkind : kind ≠ .text) : c.ownModel = none := by
  rw [ownModel, hshape]
  cases kind with
  | text => exact absurd rfl hkind
  | integer => rfl
  | float => rfl
  | boolean => rfl
  | enumeration variants => rfl

/-- The converter has no more use for a read-only collection than a binder that works alone: only
texts are put into it. -/
theorem convertedOutcome_of_readOnly (haccess : c.field.access = .readOnly)
    (hshape : c.field.shape = .collection container (.simple kind)) :
    c.convertedOutcome = c.ownOutcome := by
  by_cases hkind : kind = .text
  · subst hkind
    apply convertedOutcome_of_text
    rw [hshape, Shape.element]
  · have hanswered : c.answered ⟨c.extraction.tokens⟩ = .bound .failed := by
      rw [answered_list _ hshape hkind]
      simp [haccess]
    rw [convertedOutcome, ownOutcome, hanswered, ownModel_of_list hshape hkind]
    rfl

/-- Nothing can be made of a read-only collection if nothing is held. -/
theorem ownModel_of_nothing_held (haccess : c.field.access = .readOnly)
    (hshape : c.field.shape = .collection container (.simple kind)) (hheld : c.held = none) :
    c.ownModel = none := by
  by_cases hkind : kind = .text
  · subst hkind
    have htarget : c.target = .readOnly none := by rw [target, haccess, hheld]
    simp [ownModel, hshape, materialize, htarget]
  · exact ownModel_of_list hshape hkind

end Context

/-- What a stack can give away belongs to a read-only collection whose header is there. -/
theorem Binder.shape_of_givesAway {b : Binder} {c : Context} (h : b.givesAway c = true) :
    c.extraction.present = true ∧ c.field.access = .readOnly ∧
      ∃ container kind, c.field.shape = .collection container (.simple kind) := by
  simp only [givesAway, Bool.and_eq_true, decide_eq_true_eq] at h
  obtain ⟨⟨hpresent, haccess⟩, hasks⟩ := h
  refine ⟨hpresent, haccess, ?_⟩
  rw [asksFor] at hasks
  split at hasks
  · next container hshape => exact ⟨container, .text, hshape⟩
  · next container kind _ hshape => exact ⟨container, kind, hshape⟩
  · cases hasks

namespace Binder.IsStack

variable {b : Binder}

theorem outcome_of_readOnly (hb : b.IsStack) {w : World} {container : Container}
    {kind : ScalarKind} (haccess : w.context.field.access = .readOnly)
    (hshape : w.context.field.shape = .collection container (.simple kind)) :
    (b.run w).value.outcome = w.context.ownOutcome := by
  rw [hb.outcome_run, settlement]
  cases b.converts with
  | false => rfl
  | true => exact Context.convertedOutcome_of_readOnly haccess hshape

/-- A stack that binds a value to a read-only collection gives away what is held. -/
theorem givesAway_of_isSet (hb : b.IsStack) {w : World}
    (haccess : w.context.field.access = .readOnly)
    (hcollection : w.context.field.shape.isCollection = true)
    (hset : (b.run w).value.outcome.isSet = true) : b.givesAway w.context = true := by
  cases houtcome : (b.run w).value.outcome with
  | error e =>
      rw [houtcome] at hset
      cases hset
  | dropped =>
      rw [houtcome] at hset
      cases hset
  | bound bound =>
      rw [houtcome] at hset
      obtain ⟨v, hmodel⟩ := Option.isSome_iff_exists.mp hset
      have hconverted := hb.converted_of_bound houtcome hmodel
      obtain ⟨hpresent, -⟩ := Context.explains_of_converted hconverted hmodel
      -- a value that fits a read-only collection is one of texts
      have hfits := hb.fits houtcome hmodel
      rw [haccess] at hfits
      have htext := hfits.element_of_readOnly hcollection
      cases hshape : w.context.field.shape with
      | scalar element =>
          rw [hshape] at hcollection
          cases hcollection
      | collection container element =>
          rw [hshape, Shape.element] at htext
          rw [givesAway, asksFor, hpresent, haccess, hshape, htext]
          rfl

/-! ## Twice -/

theorem context_of_givesAway (hb : b.IsStack) {w : World} (hgives : b.givesAway w.context = true) :
    (b.run w).world.context = { w.context with held := none } := by
  rw [hb.context_run, if_pos hgives]

theorem context_of_not_givesAway (hb : b.IsStack) {w : World}
    (hkeeps : b.givesAway w.context = false) : (b.run w).world.context = w.context := by
  rw [hb.context_run, hkeeps]
  exact if_neg Bool.false_ne_true

/-- Where something is given away, a second bind fails, and the first one failed as well unless it
bound a value. -/
theorem outcome_after_givesAway (hb : b.IsStack) {w : World}
    (hgives : b.givesAway w.context = true) :
    (b.run (b.run w).world).value.outcome = .bound .failed ∧
      ((b.run w).value.outcome = .bound .failed ∨ (b.run w).value.outcome.isSet = true) := by
  obtain ⟨hpresent, haccess, container, kind, hshape⟩ := shape_of_givesAway hgives
  have hafter := hb.context_of_givesAway hgives
  constructor
  · have haccess' : (b.run w).world.context.field.access = .readOnly := by
      rw [hafter]
      exact haccess
    have hshape' : (b.run w).world.context.field.shape = .collection container (.simple kind) := by
      rw [hafter]
      exact hshape
    have hpresent' : (b.run w).world.context.extraction.present = true := by
      rw [hafter]
      exact hpresent
    have hheld' : (b.run w).world.context.held = none := by rw [hafter]
    rw [hb.outcome_of_readOnly haccess' hshape', Context.ownOutcome,
      Context.ownModel_of_nothing_held haccess' hshape' hheld']
    exact if_pos hpresent'
  · rw [hb.outcome_of_readOnly haccess hshape]
    exact Context.ownOutcome_of_present hpresent

/-- Where nothing is given away, the context is as it was, and the outcome is the same. -/
theorem outcome_of_not_givesAway (hb : b.IsStack) {w : World}
    (hkeeps : b.givesAway w.context = false) :
    (b.run (b.run w).world).value.outcome = (b.run w).value.outcome := by
  rw [hb.outcome_run, hb.context_of_not_givesAway hkeeps, hb.outcome_run]

/-- What is given away once is gone. -/
theorem context_again (hb : b.IsStack) (w : World) :
    (b.run (b.run w).world).world.context = (b.run w).world.context := by
  rw [hb.context_run, hb.context_run]
  cases hgives : b.givesAway w.context with
  | false => simp [hgives]
  | true => simp

/-- What a stack adds to the ledger. -/
theorem ledger_run (hb : b.IsStack) (w : World) :
    (b.run w).world.ledger =
      if w.context.files (b.run w).value.outcome then
        w.ledger.record w.context.field.modelName w.context.record
      else w.ledger := by
  obtain ⟨takes, hworld⟩ := (hb.settled w).2
  rw [hworld, World.ledger_filed, World.ledger_taken]

/-- A second bind files what the first one filed, or nothing. -/
theorem ledger_again (hb : b.IsStack) (w : World) :
    (b.run (b.run w).world).world.ledger = (b.run w).world.ledger := by
  cases hgives : b.givesAway w.context with
  | false =>
      rw [hb.ledger_run, hb.context_of_not_givesAway hgives, hb.outcome_of_not_givesAway hgives,
        hb.ledger_run]
      split
      · rw [Ledger.record_record]
      · rfl
  | true =>
      obtain ⟨hfailed, -⟩ := hb.outcome_after_givesAway hgives
      rw [hb.ledger_run, hfailed, Context.files]
      simp [Outcome.isKept, Bound.isSet, Bound.failed]

theorem world_again (hb : b.IsStack) (w : World) :
    (b.run (b.run w).world).world = (b.run w).world := by
  have hparts : ∀ v : World, v = ⟨v.context, v.ledger⟩ := fun _ => rfl
  rw [hparts (b.run (b.run w).world).world, hb.context_again, hb.ledger_again]

end Binder.IsStack

/-- Binding the same field again by the same stack leaves the context and the ledger as they are and
comes to the same outcome, unless the first bind put a value into a read-only collection: then, and
only then, the second one comes to another, as it has no value to give for a header that is
there. -/
theorem bound_again {b : Binder} (hb : b.IsStack) (w : World) :
    let c := w.context
    let first := b.run w
    let second := b.run first.world
    let refilled := c.field.access = .readOnly ∧ c.field.shape.isCollection = true ∧
      first.value.outcome.isSet = true
    second.world = first.world ∧
      (refilled → second.value.outcome = .bound .failed) ∧
      (second.value.outcome = first.value.outcome ↔ ¬refilled) := by
  intro c first second refilled
  have hfailed : refilled → second.value.outcome = .bound .failed := by
    rintro ⟨haccess, hcollection, hset⟩
    exact (hb.outcome_after_givesAway (hb.givesAway_of_isSet haccess hcollection hset)).1
  refine ⟨hb.world_again w, hfailed, ?_⟩
  constructor
  · intro hsame hrefilled
    have hset : first.value.outcome.isSet = true := hrefilled.2.2
    rw [← hsame, hfailed hrefilled] at hset
    cases hset
  · intro hnot
    cases hgives : b.givesAway c with
    | false => exact hb.outcome_of_not_givesAway hgives
    | true =>
        obtain ⟨hagain, hfirst | hset⟩ := hb.outcome_after_givesAway hgives
        · exact hagain.trans hfirst.symm
        · obtain ⟨-, haccess, container, kind, hshape⟩ := Binder.shape_of_givesAway hgives
          have hcollection : c.field.shape.isCollection = true := by
            rw [hshape, Shape.isCollection]
          exact absurd ⟨haccess, hcollection, hset⟩ hnot

/-- A linked list is filled again by the first bind, and the second one has no value to give. The
record of the tokens stays. -/
theorem bound_again_refilled :
    let stack : Binder := .composed (.binder (.standalone (some .tracing))) none
    let w : World :=
      { context :=
          { headers := .owned ⟨[("X", "a"), ("X", "b, c")]⟩
            field := { name := "X", modelName := "m", access := .readOnly
                       shape := .collection .array (.simple .text) }
            topLevel := false
            held := some { value := ⟨.linked, ["old"]⟩ } } }
    let first := stack.run w
    let second := stack.run first.world
    stack.IsStack ∧ first.value.outcome = .bound (.success (.strings ⟨.linked, ["a", "b", "c"]⟩)) ∧
      second.value.outcome = .bound .failed ∧ second.value.outcome ≠ first.value.outcome ∧
      second.world = first.world ∧
      second.world.ledger.get? "m" = some ⟨"a,b,c", .many ["a", "b", "c"]⟩ := by
  intro stack w first second
  have hstack : stack.IsStack := .layer _ (.alone _)
  have htokens : w.context.extraction = ⟨["a", "b", "c"], .split, true⟩ := by decide +kernel
  have hfirst : first.value.outcome = .bound (.success (.strings ⟨.linked, ["a", "b", "c"]⟩)) := by
    show (stack.run w).value.outcome = _
    rw [hstack.outcome_of_readOnly rfl rfl, Context.ownOutcome, Context.ownModel, htokens]
    rfl
  have hset : first.value.outcome.isSet = true := by
    rw [hfirst]
    rfl
  obtain ⟨hworld, hfailed, hsame⟩ := bound_again hstack w
  have hledger : second.world.ledger.get? "m" = some ⟨"a,b,c", .many ["a", "b", "c"]⟩ := by
    show (stack.run (stack.run w).world).world.ledger.get? "m" = _
    rw [hworld]
    decide +kernel
  exact ⟨hstack, hfirst, hfailed ⟨rfl, rfl, hset⟩, fun heq => hsame.mp heq ⟨rfl, rfl, hset⟩, hworld,
    hledger⟩

end TypedHeaders
