import TypedHeaders.Proofs.Scope

/-!
# What is held is handed out once

A context holds at most one collection, and all the fields that are bound in it share it, those of
nested scopes included. The journal of a run lists each taking of a target with the field that took
it (`takesOf`). These fields alone decide what each of them was handed and what is held in the end:
`handOut` goes through them in order, and the first read-only one gets the collection
(`mem_handOut_iff`). That holds of every stepwise activity (`Stepwise.hands`) and so of all
programs.

The collection is therefore not kept for the field that it came with. It goes to whichever read-only
field takes its target first, and that may be the field of a nested scope
(`handed_to_first_readOnly`).
-/

set_option autoImplicit false

namespace TypedHeaders

open Activity Binding

/-! ## Takings in a journal -/

/-- A taking of a target: the field in the context at that time, and what it was handed. -/
structure Take where
  field : Field
  target : Target
  deriving DecidableEq, Repr

/-- The taking of a target that an effect is, if it is one. -/
def Effect.take? : Effect → Option Take
  | .took field target => some { field, target }
  | _ => none

/-- The takings that a journal lists, in order. -/
def takesOf (journal : List Effect) : List Take := journal.filterMap Effect.take?

/-- The fields that took a target, in order. -/
def takersOf (journal : List Effect) : List Field := (takesOf journal).map Take.field

@[simp] theorem takesOf_append (first second : List Effect) :
    takesOf (first ++ second) = takesOf first ++ takesOf second :=
  List.filterMap_append

@[simp] theorem takersOf_append (first second : List Effect) :
    takersOf (first ++ second) = takersOf first ++ takersOf second := by
  rw [takersOf, takesOf_append, List.map_append]
  rfl

theorem takesOf_notices (events : List Event) : takesOf (events.map .notice) = [] := by
  induction events with
  | nil => rfl
  | cons e rest ih => exact ih

/-! ## Handing out -/

/-- What a field is handed when it takes its target. -/
def Field.targetFrom (f : Field) (held : Option HeldCollection) : Target :=
  match f.access with
  | .assignable => .assignable
  | .readOnly => .readOnly held

/-- What is still held after a field took its target. -/
def Field.leaves (f : Field) (held : Option HeldCollection) : Option HeldCollection :=
  match f.access with
  | .assignable => held
  | .readOnly => none

/-- What fields are handed that take their targets one after another. -/
def handOut (held : Option HeldCollection) : List Field → List Take
  | [] => []
  | f :: rest => ⟨f, f.targetFrom held⟩ :: handOut (f.leaves held) rest

/-- What is still held after fields took their targets. -/
def heldAfter (held : Option HeldCollection) (fields : List Field) : Option HeldCollection :=
  fields.foldl (fun held f => f.leaves held) held

theorem heldAfter_append (held : Option HeldCollection) (first second : List Field) :
    heldAfter held (first ++ second) = heldAfter (heldAfter held first) second :=
  List.foldl_append

theorem handOut_append (held : Option HeldCollection) (first second : List Field) :
    handOut held (first ++ second) =
      handOut held first ++ handOut (heldAfter held first) second := by
  induction first generalizing held with
  | nil => rfl
  | cons f rest ih => exact congrArg (_ :: ·) (ih (f.leaves held))

/-- What is held is gone after the first read-only field. -/
theorem heldAfter_eq_ite (held : Option HeldCollection) (fields : List Field) :
    heldAfter held fields = if fields.any (fun f => f.access = .readOnly) then none else held := by
  induction fields generalizing held with
  | nil => rfl
  | cons f rest ih =>
      show heldAfter (f.leaves held) rest = _
      rw [ih, Field.leaves, List.any_cons]
      cases f.access with
      | assignable => rfl
      | readOnly => simp

/-- Of all that take their targets, the first read-only field is the one that gets what is held. -/
theorem mem_handOut_iff {held : Option HeldCollection} {fields : List Field} {f : Field}
    {x : HeldCollection} :
    ⟨f, .readOnly (some x)⟩ ∈ handOut held fields ↔
      held = some x ∧ fields.find? (fun g => g.access = .readOnly) = some f := by
  induction fields generalizing held with
  | nil => simp [handOut]
  | cons g rest ih =>
      rw [handOut, List.mem_cons, ih]
      cases haccess : g.access with
      | assignable =>
          -- a field that may be assigned is handed nothing and leaves everything
          simp [Field.targetFrom, Field.leaves, haccess]
      | readOnly =>
          simp [Field.targetFrom, Field.leaves, haccess, and_comm, eq_comm]

theorem Context.held_withoutTarget_eq_leaves (c : Context) :
    c.withoutTarget.held = c.field.leaves c.held := by
  rw [withoutTarget, Field.leaves]
  cases c.field.access with
  | assignable => rfl
  | readOnly => rfl

/-! ## Runs hand out in order -/

/-- From what the first world holds, the takings of the journal were handed out in order, and the
second world holds what was left. -/
structure World.HandsOut (w : World) (journal : List Effect) (left : World) : Prop where
  takes : takesOf journal = handOut w.context.held (takersOf journal)
  held : left.context.held = heldAfter w.context.held (takersOf journal)

namespace World.HandsOut

theorem of_no_takes {w left : World} {journal : List Effect} (htakes : takesOf journal = [])
    (hheld : left.context.held = w.context.held) : w.HandsOut journal left := by
  have htakers : takersOf journal = [] := by rw [takersOf, htakes, List.map_nil]
  refine ⟨?_, ?_⟩
  · rw [htakes, htakers]
    rfl
  · rw [hheld, htakers]
    rfl

theorem append {w middle left : World} {first second : List Effect}
    (hfirst : w.HandsOut first middle) (hsecond : middle.HandsOut second left) :
    w.HandsOut (first ++ second) left := by
  refine ⟨?_, ?_⟩
  · rw [takesOf_append, takersOf_append, handOut_append, ← hfirst.held, ← hfirst.takes,
      ← hsecond.takes]
  · rw [takersOf_append, heldAfter_append, ← hfirst.held, hsecond.held]

theorem taking {α : Type} (takes : Bool) (value : α) (w : World) :
    w.HandsOut (Binding.taking takes value w).journal (Binding.taking takes value w).world := by
  cases takes with
  | false => exact of_no_takes rfl rfl
  | true => exact ⟨rfl, w.context.held_withoutTarget_eq_leaves⟩

theorem standalone (w : World) :
    w.HandsOut (Binding.standalone w).journal (Binding.standalone w).world := by
  cases hpresent : w.context.extraction.present with
  | false =>
      rw [standalone_of_absent hpresent]
      exact of_no_takes rfl rfl
  | true =>
      rw [standalone_of_present hpresent]
      have htaking := taking w.context.takesOwn w.context.ownModel w
      cases hmodel : w.context.ownModel with
      | none =>
          rw [hmodel] at htaking
          exact htaking
      | some v =>
          rw [hmodel] at htaking
          exact htaking.append (of_no_takes rfl rfl)

end World.HandsOut

/-- A stepwise activity hands out what is held in the order in which fields take their targets. -/
theorem Stepwise.hands {α : Type} {x : Activity α} (hx : Stepwise x) (w : World) :
    w.HandsOut (x w).journal (x w).world := by
  induction hx generalizing w with
  | pure a => exact .of_no_takes rfl rfl
  | bind _ _ ihx ihf => exact (ihx w).append (ihf _ _)
  | context => exact .of_no_takes rfl rfl
  | notices events => exact .of_no_takes (takesOf_notices events) rfl
  | takeTarget => exact .taking true w.context.target w
  | adjust f hf =>
      refine .of_no_takes rfl ?_
      show (f w.context).held = w.context.held
      rw [hf w.context]
  | inScope field _ ih =>
      obtain ⟨htakes, hheld⟩ := ih (w.enter field)
      exact ⟨htakes, hheld⟩
  | standalone => exact .standalone w
  | @composed σ delegate _ ih =>
      obtain ⟨htakes, hheld⟩ := ih w.handedOn
      have hdelegate : w.HandsOut (delegate w.handedOn).journal
          (w.leave (delegate w.handedOn).world) := ⟨htakes, hheld⟩
      rw [journal_composed, world_composed]
      -- filing, which comes last, takes nothing
      apply hdelegate.append
      apply World.HandsOut.of_no_takes
      · split
        · rfl
        · rfl
      · rw [World.context_filed]

/-- However steps are put together, what is held when they start goes to the first read-only field
that takes its target, in whichever scope it stands, and to no other field; it is held to the end
exactly if there is none. So it stays with the field that it came with if that one is the first. -/
theorem handed_to_first_readOnly (haltIfRefused : Bool) (steps : List Step) (w : World) :
    let report := runSteps haltIfRefused steps w
    let takers := takersOf report.journal
    let first := takers.find? fun f => f.access = .readOnly
    takesOf report.journal = handOut w.context.held takers ∧
      report.world.context.held = (if first.isSome then none else w.context.held) ∧
      (∀ f x, ⟨f, .readOnly (some x)⟩ ∈ takesOf report.journal ↔
        w.context.held = some x ∧ first = some f) ∧
      (w.context.held.isSome →
        ((∀ f x, ⟨f, .readOnly (some x)⟩ ∈ takesOf report.journal →
            f.name = w.context.field.name) ↔
          ∀ f, first = some f → f.name = w.context.field.name)) := by
  intro report takers first
  obtain ⟨htakes, hheld⟩ := (stepwise_runSteps haltIfRefused steps).hands w
  have hgets : ∀ f x, ⟨f, .readOnly (some x)⟩ ∈ takesOf report.journal ↔
      w.context.held = some x ∧ first = some f := by
    intro f x
    rw [htakes]
    exact mem_handOut_iff
  refine ⟨htakes, ?_, hgets, ?_⟩
  · rw [hheld, heldAfter_eq_ite, List.isSome_find?]
  · intro hsome
    obtain ⟨x, hx⟩ := Option.isSome_iff_exists.mp hsome
    constructor
    · intro hnames f hfirst
      exact hnames f x ((hgets f x).mpr ⟨hx, hfirst⟩)
    · intro hnames f y hmem
      exact hnames f ((hgets f y).mp hmem).2

/-- A scope for another read-only field takes what came with the field outside of it. -/
theorem held_handed_to_another_field :
    let shape : Shape := .collection .list (.simple .text)
    let x : HeldCollection := { value := ⟨.contiguous, ["old"]⟩ }
    let w : World :=
      { context :=
          { headers := .owned {}
            field := { name := "F", modelName := "F", shape, access := .readOnly }
            held := some x } }
    let inner : FieldRequest := { name := "G", shape, edits := [.grant .readOnly] }
    let g : Field := { name := "G", modelName := "G", shape, access := .readOnly }
    g.name ≠ w.context.field.name ∧
      ⟨g, .readOnly (some x)⟩ ∈
        takesOf (runSteps false [.scope (some inner) [.takeTarget]] w).journal := by
  decide +kernel

end TypedHeaders
