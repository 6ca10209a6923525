import TypedHeaders.Binding.Run

/-!
# What binding comes to

Binding is written as activities. This module says what each of them comes to in the world in which
it starts: its outcome, the world after it, and its journal.

A composed binder hands its delegate the context with the header as the source of values
(`World.handedOn`), takes over the outcome with the presence of the header, and files the tokens of
a header that is there, if the outcome is kept (`value_composed`, `world_composed`,
`journal_composed`). Binding without a delegate and the converter do at most two things to the
world: they take the target of a collection (`taking`), and the former files the tokens
(`standalone_of_present`, `converter_of_covers`). A sink changes the journal only
(`announced_value_world`).
-/

set_option autoImplicit false

namespace TypedHeaders

/-- The context that a delegate works on: the tokens of the header are the source of values. -/
def Context.handedOn (c : Context) : Context :=
  { c with source := .header c.field.name c.extraction }

/-- The record of the tokens of the field. -/
def Context.record (c : Context) : Record := c.extraction.record c.field.shape

/-- Whether the tokens of the field are filed when binding it ends with the outcome. -/
def Context.files (c : Context) (outcome : Outcome) : Bool :=
  c.extraction.present && outcome.isKept

/-- The world in which a delegate starts. -/
def World.handedOn (w : World) : World := { w with context := w.context.handedOn }

/-- The world after a scope that was entered from `w` and ended in `inner`. -/
def World.leave (w inner : World) : World := { inner with context := w.context.leave inner.context }

/-- The world `left`, in which the tokens of the field in `w` are filed as well if binding that
field ends with the outcome. -/
def World.filed (w : World) (outcome : Outcome) (left : World) : World :=
  if w.context.files outcome then
    { left with ledger := left.ledger.record w.context.field.modelName w.context.record }
  else left

@[simp] theorem World.context_filed (w : World) (outcome : Outcome) (left : World) :
    (w.filed outcome left).context = left.context := by
  rw [filed]
  split
  · rfl
  · rfl

theorem World.ledger_filed (w : World) (outcome : Outcome) (left : World) :
    (w.filed outcome left).ledger =
      if w.context.files outcome then
        left.ledger.record w.context.field.modelName w.context.record
      else left.ledger := by
  rw [filed]
  split
  · rfl
  · rfl

/-- What is filed is found under the model name of the field. -/
theorem World.get?_filed {w : World} {outcome : Outcome} (h : w.context.files outcome = true)
    (left : World) :
    (w.filed outcome left).ledger.get? w.context.field.modelName = some w.context.record := by
  rw [ledger_filed, h, if_pos rfl, Ledger.get?_record_self]

/-- Filing the tokens a second time changes nothing. -/
theorem World.filed_filed (w : World) (outcome : Outcome) (left : World) :
    w.filed outcome (w.filed outcome left) = w.filed outcome left := by
  rw [filed, filed]
  split
  · rw [Ledger.record_record]
  · rfl

@[simp] theorem Outcome.isKept_withPresence (o : Outcome) (present : Bool) :
    (o.withPresence present).isKept = o.isKept := by
  cases o with
  | bound b => rfl
  | error e => rfl
  | dropped => rfl

/-- A kept outcome is a value or an error. -/
theorem Outcome.exists_of_isKept {o : Outcome} (h : o.isKept = true) :
    (∃ b v, o = .bound b ∧ b.model = some v) ∨ ∃ e, o = .error e := by
  cases o with
  | bound b =>
      obtain ⟨v, hmodel⟩ := Option.isSome_iff_exists.mp h
      exact Or.inl ⟨b, v, rfl, hmodel⟩
  | error e => exact Or.inr ⟨e, rfl⟩
  | dropped => cases h

@[simp] theorem Context.files_withPresence (c : Context) (o : Outcome) (present : Bool) :
    c.files (o.withPresence present) = c.files o := by
  rw [files, files, Outcome.isKept_withPresence]

@[simp] theorem World.filed_withPresence (w : World) (o : Outcome) (present : Bool)
    (left : World) : w.filed (o.withPresence present) left = w.filed o left := by
  rw [filed, filed, Context.files_withPresence]

@[simp] theorem Outcome.withPresence_withPresence (o : Outcome) (present present' : Bool) :
    (o.withPresence present).withPresence present' = o.withPresence present' := by
  cases o with
  | bound b => rfl
  | error e => rfl
  | dropped => rfl

theorem Outcome.withPresence_eq_bound {o : Outcome} {present : Bool} {b : Bound}
    (h : o.withPresence present = .bound b) : ∃ b', o = .bound b' ∧ b'.model = b.model := by
  cases o with
  | bound b' =>
      cases h
      exact ⟨b', rfl, rfl⟩
  | error e => cases h
  | dropped => cases h

theorem Outcome.withPresence_eq_error {o : Outcome} {present : Bool} {e : ConversionError}
    (h : o.withPresence present = .error e) : o = .error e := by
  cases o with
  | bound b => cases h
  | error e' => exact h
  | dropped => cases h

namespace Binding

open Activity

/-! ## Binding by a delegate -/

section Composed

variable {σ : Type}

/-- The account with the presence of the header as given. -/
def withPresence (a : Account σ) (present : Bool) : Account σ :=
  { a with outcome := a.outcome.withPresence present }

/-- What is left to do after the scope of a delegate: file the tokens, if they are to be filed. -/
def conclude (c : Context) (a : Account σ) : Activity (Account σ) :=
  if c.files a.outcome then do
    file a.outcome c.record
    pure a
  else pure a

theorem value_conclude (c : Context) (a : Account σ) (w : World) :
    (conclude c a w).value = a := by
  rw [conclude]
  split
  · rfl
  · rfl

theorem world_conclude (c : Context) (a : Account σ) (w : World) :
    (conclude c a w).world =
      if c.files a.outcome then
        { w with ledger := w.ledger.record w.context.field.modelName c.record }
      else w := by
  rw [conclude]
  split
  · rfl
  · rfl

theorem journal_conclude (c : Context) (a : Account σ) (w : World) :
    (conclude c a w).journal =
      if c.files a.outcome then [.filed w.context.field a.outcome c.record] else [] := by
  rw [conclude]
  split
  · rfl
  · rfl

variable (delegate : Activity (Account σ)) (w : World)

/-- A composed binder runs its delegate once, on the context handed on to it, and concludes. -/
theorem composed_eq :
    composed delegate w =
      let inner := delegate w.handedOn
      let rest := conclude w.context (withPresence inner.value w.context.extraction.present)
        (w.leave inner.world)
      { rest with journal := inner.journal ++ rest.journal } := rfl

theorem value_composed :
    (composed delegate w).value =
      withPresence (delegate w.handedOn).value w.context.extraction.present := by
  rw [composed_eq]
  exact value_conclude _ _ _

theorem world_composed :
    (composed delegate w).world =
      w.filed (delegate w.handedOn).value.outcome (w.leave (delegate w.handedOn).world) := by
  rw [composed_eq]
  refine (world_conclude _ _ _).trans ?_
  rw [withPresence, Context.files_withPresence, World.filed]
  rfl

theorem journal_composed :
    (composed delegate w).journal =
      (delegate w.handedOn).journal ++
        if w.context.files (delegate w.handedOn).value.outcome then
          [.filed w.context.field (composed delegate w).value.outcome w.context.record]
        else [] := by
  rw [value_composed, composed_eq]
  show _ ++ (conclude _ _ _).journal = _
  rw [journal_conclude, withPresence, Context.files_withPresence]
  rfl

theorem ledger_composed :
    (composed delegate w).world.ledger =
      if w.context.files (delegate w.handedOn).value.outcome then
        (delegate w.handedOn).world.ledger.record w.context.field.modelName w.context.record
      else (delegate w.handedOn).world.ledger := by
  rw [world_composed]
  exact World.ledger_filed _ _ _

theorem context_composed :
    (composed delegate w).world.context =
      w.context.leave (delegate w.handedOn).world.context := by
  rw [world_composed]
  exact World.context_filed _ _ _

end Composed

end Binding

/-! ## Binding without a delegate, and by the converter -/

namespace Context

@[simp] theorem field_withoutTarget (c : Context) : c.withoutTarget.field = c.field := by
  rw [c.withoutTarget_eq]

/-- The value that a header which is there gives the field without a delegate. -/
def ownModel (c : Context) : Option Value :=
  match c.field.shape with
  | .scalar (.simple .text) => c.extraction.tokens.head?.map .text
  | .collection container (.simple .text) =>
      (materialize c.extraction.tokens container c.topLevel c.target).map .strings
  | _ => none

/-- Whether binding the field without a delegate takes the target. -/
def takesOwn (c : Context) : Bool :=
  match c.field.shape with
  | .collection _ (.simple .text) => true
  | _ => false

/-- Whether a list of a container can be bound from an answer, if the destination permits. -/
def canList (c : Context) (container : Container) (answer : Answer) : Bool :=
  !container.isAbstract && (!answer.isNone || c.topLevel)

/-- The outcome of converting what the value source answered. -/
def answered (c : Context) (answer : Answer) : Outcome :=
  match c.field.shape with
  | .scalar (.simple kind) => Binding.scalarOutcome kind c.field.modelName answer.values
  | .collection container (.simple .text) =>
      Binding.textsOutcome (materialize answer.values container c.topLevel c.target)
  | .collection container (.simple kind) =>
      if c.canList container answer && c.field.access = .assignable then
        Binding.listOutcome kind c.field.modelName answer.values
      else .bound .failed
  | .scalar .complex | .collection _ .complex =>
      .error { fault := .unsupported, modelName := c.field.modelName, attempted := answer.joined }

variable {c : Context} {container : Container} {kind : ScalarKind} (tokens : List String)

theorem answered_scalar (hshape : c.field.shape = .scalar (.simple kind)) :
    c.answered ⟨tokens⟩ = Binding.scalarOutcome kind c.field.modelName tokens := by
  rw [answered, hshape]

theorem answered_texts (hshape : c.field.shape = .collection container (.simple .text)) :
    c.answered ⟨tokens⟩ =
      Binding.textsOutcome (materialize tokens container c.topLevel c.target) := by
  rw [answered, hshape]

theorem answered_list (hshape : c.field.shape = .collection container (.simple kind))
    (hkind : kind ≠ .text) :
    c.answered ⟨tokens⟩ =
      if c.canList container ⟨tokens⟩ && c.field.access = .assignable then
        Binding.listOutcome kind c.field.modelName tokens
      else .bound .failed := by
  rw [answered, hshape]
  cases kind with
  | text => exact absurd rfl hkind
  | integer => rfl
  | float => rfl
  | boolean => rfl
  | enumeration variants => rfl

theorem answered_complex (helement : c.field.shape.element = .complex) :
    c.answered ⟨tokens⟩ =
      .error { fault := .unsupported, modelName := c.field.modelName,
               attempted := ",".intercalate tokens } := by
  rw [answered]
  cases hshape : c.field.shape with
  | scalar element =>
      rw [hshape] at helement
      cases helement
      rfl
  | collection container element =>
      rw [hshape] at helement
      cases helement
      rfl

/-- Whether converting what the value source answered takes the target. -/
def takesFor (c : Context) (answer : Answer) : Bool :=
  match c.field.shape with
  | .collection _ (.simple .text) => true
  | .collection container (.simple _) => c.canList container answer
  | _ => false

end Context

namespace Binding

open Activity

section Taking

variable {α : Type}

/-- The report of an activity that comes to a value, and takes the target if it is to. -/
def taking (takes : Bool) (value : α) (w : World) : Report α :=
  if takes then
    { value
      world := { w with context := w.context.withoutTarget }
      journal := [.took w.context.field w.context.target] }
  else { value, world := w, journal := [] }

@[simp] theorem value_taking (takes : Bool) (value : α) (w : World) :
    (taking takes value w).value = value := by
  cases takes with
  | false => rfl
  | true => rfl

@[simp] theorem ledger_taking (takes : Bool) (value : α) (w : World) :
    (taking takes value w).world.ledger = w.ledger := by
  cases takes with
  | false => rfl
  | true => rfl

theorem context_taking (takes : Bool) (value : α) (w : World) :
    (taking takes value w).world.context =
      if takes then w.context.withoutTarget else w.context := by
  cases takes with
  | false => rfl
  | true => rfl

@[simp] theorem field_taking (takes : Bool) (value : α) (w : World) :
    (taking takes value w).world.context.field = w.context.field := by
  cases takes with
  | false => rfl
  | true => exact w.context.field_withoutTarget

/-- Two guards in a row that refuse alike are one guard. -/
theorem guards_eq (isAbstract isNone topLevel : Bool) (refused x : Activity α) :
    (if isAbstract then refused else if isNone && !topLevel then refused else x) =
      if !isAbstract && (!isNone || topLevel) then x else refused := by
  cases isAbstract with
  | true => rfl
  | false =>
      cases isNone with
      | false => rfl
      | true =>
          cases topLevel with
          | false => rfl
          | true => rfl

end Taking

section List

variable {container : Container} {kind : ScalarKind} (answer : Answer)

/-- A list is bound anew, so its destination is asked for, unless there is no use. -/
theorem bindAnswer_of_list {c : Context}
    (hshape : c.field.shape = .collection container (.simple kind)) (hkind : kind ≠ .text) :
    bindAnswer c answer =
      if c.canList container answer then
        takeTarget >>= fun target => match target with
          | .readOnly _ => pure (.bound .failed)
          | .assignable => pure (listOutcome kind c.field.modelName answer.values)
      else pure (.bound .failed) := by
  rw [bindAnswer, hshape, Context.canList, ← guards_eq]
  cases kind with
  | text => exact absurd rfl hkind
  | integer => rfl
  | float => rfl
  | boolean => rfl
  | enumeration variants => rfl

/-- Binding a list takes the target only if the list could be built at all. -/
theorem bindAnswer_list {w : World}
    (hshape : w.context.field.shape = .collection container (.simple kind))
    (hkind : kind ≠ .text) :
    bindAnswer w.context answer w =
      taking (w.context.canList container answer)
        (if w.context.canList container answer && w.context.field.access = .assignable then
          listOutcome kind w.context.field.modelName answer.values
        else .bound .failed) w := by
  rw [bindAnswer_of_list answer hshape hkind]
  cases w.context.canList container answer with
  | false => rfl
  | true =>
      cases haccess : w.context.field.access with
      | assignable => simp [takeTarget, taking, Context.target, haccess, Bind.bind]
      | readOnly => simp [takeTarget, taking, Context.target, haccess, Bind.bind]

end List

/-- Converting an answer comes to its outcome, and at most takes the target. -/
theorem bindAnswer_eq (answer : Answer) (w : World) :
    bindAnswer w.context answer w =
      taking (w.context.takesFor answer) (w.context.answered answer) w := by
  rw [Context.takesFor, Context.answered]
  cases hshape : w.context.field.shape with
  | scalar element =>
      rw [bindAnswer, hshape]
      cases element with
      | simple kind => rfl
      | complex => rfl
  | collection container element =>
      cases element with
      | complex =>
          rw [bindAnswer, hshape]
          rfl
      | simple kind =>
          by_cases hkind : kind = .text
          · subst hkind
            rw [bindAnswer, hshape]
            rfl
          · rw [bindAnswer_list answer hshape hkind]
            cases kind with
            | text => exact absurd rfl hkind
            | integer => rfl
            | float => rfl
            | boolean => rfl
            | enumeration variants => rfl

/-- The converter binds what the source answers, if the source covers the model name. -/
theorem converter_of_covers {w : World}
    (h : w.context.source.covers w.context.field.modelName = true) :
    converter w =
      let answer := w.context.source.lookup w.context.field.modelName
      let taken := taking (w.context.takesFor answer) (w.context.answered answer) w
      { taken with journal :=
          (w.context.source.notices w.context.field.modelName).map .notice ++ taken.journal } := by
  have hrun : converter w =
      (if w.context.source.covers w.context.field.modelName then do
        let answer ← query w.context.field.modelName
        bindAnswer w.context answer
      else pure (.bound .absent) : Activity Outcome) w := rfl
  have hquery : ∀ (key : String) (f : Answer → Activity Outcome), (query key >>= f) w =
      let r := f (w.context.source.lookup key) w
      { r with journal := (w.context.source.notices key).map .notice ++ r.journal } := by
    intro key f
    show (let r := f (w.context.source.lookup key) w
      { r with journal := ([] ++ (_ ++ [])) ++ r.journal } : Report Outcome) = _
    rw [List.nil_append, List.append_nil]
    rfl
  rw [hrun, h, if_pos rfl, hquery, bindAnswer_eq]

/-- A source that does not cover the model name is the same as no header. -/
theorem converter_of_not_covers {w : World}
    (h : w.context.source.covers w.context.field.modelName = false) :
    converter w = { value := .bound .absent, world := w, journal := [] } := by
  have hrun : converter w =
      (if w.context.source.covers w.context.field.modelName then do
        let answer ← query w.context.field.modelName
        bindAnswer w.context answer
      else pure (.bound .absent) : Activity Outcome) w := rfl
  rw [hrun, h]
  rfl

/-- The value that a header gives without a delegate at most takes the target. -/
theorem ownValue_eq (w : World) :
    ownValue w.context w.context.extraction.tokens w =
      taking w.context.takesOwn w.context.ownModel w := by
  rw [ownValue, Context.takesOwn, Context.ownModel]
  cases w.context.field.shape with
  | scalar element =>
      cases element with
      | complex => rfl
      | simple kind =>
          cases kind with
          | text => rfl
          | integer => rfl
          | float => rfl
          | boolean => rfl
          | enumeration variants => rfl
  | collection container element =>
      cases element with
      | complex => rfl
      | simple kind =>
          cases kind with
          | text => rfl
          | integer => rfl
          | float => rfl
          | boolean => rfl
          | enumeration variants => rfl

/-- A header that is missing leaves everything as it is. -/
theorem standalone_of_absent {w : World} (h : w.context.extraction.present = false) :
    standalone w = { value := .bound .absent, world := w, journal := [] } := by
  show (if w.context.extraction.present then _ else _ : Activity Outcome) w = _
  rw [h]
  rfl

/-- A header that is there is bound to its own value and filed, if it has such a value. -/
theorem standalone_of_present {w : World} (h : w.context.extraction.present = true) :
    standalone w =
      let taken := taking w.context.takesOwn w.context.ownModel w
      match w.context.ownModel with
      | none => { value := .bound .failed, world := taken.world, journal := taken.journal }
      | some v =>
          { value := .bound (.success v)
            world := { taken.world with
              ledger := w.ledger.record w.context.field.modelName w.context.record }
            journal := taken.journal ++
              [.filed w.context.field (.bound (.success v)) w.context.record] } := by
  have hrun : standalone w =
      (ownValue w.context w.context.extraction.tokens >>= fun model => match model with
        | none => pure (.bound .failed)
        | some v => do
            file (.bound (.success v)) w.context.record
            pure (.bound (.success v)) : Activity Outcome) w := by
    show (if w.context.extraction.present then _ else _ : Activity Outcome) w = _
    rw [h]
    rfl
  rw [hrun]
  simp only [Bind.bind, ownValue_eq, value_taking]
  cases w.context.ownModel with
  | none => simp
  | some v => simp [file]

/-! ## Sinks -/

theorem reported_value_world {σ : Type} (s : Sink) (body : Activity (Account σ)) (w : World) :
    (reported s body w).value = (body w).value ∧
      (reported s body w).world = (body w).world := by
  rw [reported, value_bind, world_bind]
  split
  · exact ⟨rfl, rfl⟩
  · exact ⟨rfl, rfl⟩

/-- A sink changes neither what an activity comes to nor the world after it. -/
theorem announced_value_world {σ : Type} (sink : Option Sink) (body : Activity (Account σ))
    (w : World) :
    (announced sink body w).value = (body w).value ∧
      (announced sink body w).world = (body w).world := by
  cases sink with
  | none => exact ⟨rfl, rfl⟩
  | some s =>
      simp only [announced_some, value_bind, world_bind]
      split
      · exact reported_value_world s body w
      · exact reported_value_world s body w

end Binding

end TypedHeaders
