import TypedHeaders.Proofs.Stack

/-!
# A field is bound from its own lines

What a stack of header binders makes of a field is told by a handful of things: the values of the
lines of the field's own header, its shape and access, the flag, and what its destination holds
(`Context.SameInputs`). Two binds that agree on these come to the same outcome, give away the same
collection, and file the same record, whatever stores, header names, model names, value sources and
ledgers they start with (`bound_from_own_lines`). The model name matters in two places only: it is
named in a conversion error, and it is where the record is filed.

The converter asks the value source under the model name, and the source may be a stale one. That it
gets the lines of its own header nevertheless is because a binder exchanges the source for one that
answers all keys alike, which is part of `world_converting`.
-/

set_option autoImplicit false

namespace TypedHeaders

open TypedHeaders.Header Activity Binding

/-- The outcome with another model name in its error. -/
def Outcome.renamed (modelName : String) : Outcome → Outcome
  | .error e => .error { e with modelName }
  | o => o

@[simp] theorem Outcome.isKept_renamed (o : Outcome) (modelName : String) :
    (o.renamed modelName).isKept = o.isKept := by
  cases o with
  | bound b => rfl
  | error e => rfl
  | dropped => rfl

theorem Outcome.renamed_withPresence (o : Outcome) (modelName : String) (present : Bool) :
    (o.renamed modelName).withPresence present = (o.withPresence present).renamed modelName := by
  cases o with
  | bound b => rfl
  | error e => rfl
  | dropped => rfl

/-! ## Conversion -/

section Conversion

variable (kind : ScalarKind) (modelName modelName' : String) (values : List String)

/-- The model name decides only whose error a conversion error is. -/
theorem convertAll_renamed :
    convertAll kind modelName' values =
      (convertAll kind modelName values).mapError fun e => { e with modelName := modelName' } := by
  induction values with
  | nil => rfl
  | cons raw rest ih =>
      rw [convertAll, convertAll]
      cases convert kind raw with
      | error fault => rfl
      | ok v =>
          rw [ih]
          cases convertAll kind modelName rest with
          | error e => rfl
          | ok vs => rfl

theorem listOutcome_renamed :
    listOutcome kind modelName' values =
      (listOutcome kind modelName values).renamed modelName' := by
  rw [listOutcome, listOutcome, convertAll_renamed kind modelName modelName']
  cases convertAll kind modelName values with
  | error e => rfl
  | ok vs => rfl

theorem scalarOutcome_renamed :
    scalarOutcome kind modelName' values =
      (scalarOutcome kind modelName values).renamed modelName' := by
  cases values with
  | nil => rfl
  | cons raw rest =>
      rw [scalarOutcome, scalarOutcome]
      split
      · rfl
      · cases convert kind raw with
        | error fault => rfl
        | ok v => rfl

end Conversion

/-! ## Contexts that agree -/

/-- The two contexts agree on what a field is bound from. Nothing is said of the names of the field,
of the value source, or of any other line of the two stores. -/
structure Context.SameInputs (c c' : Context) : Prop where
  shape : c'.field.shape = c.field.shape
  access : c'.field.access = c.field.access
  topLevel : c'.topLevel = c.topLevel
  held : c'.held = c.held
  lines : c'.headers.getAll c'.field.name = c.headers.getAll c.field.name

namespace Context.SameInputs

variable {c c' : Context}

/-- The header is read from its lines, so it is there in both or in neither. -/
theorem extraction_eq (h : SameInputs c c') : c'.extraction = c.extraction := by
  have hjoined : c'.headers.getJoined c'.field.name = c.headers.getJoined c.field.name := by
    rw [HeaderStore.getJoined, HeaderStore.getJoined, h.lines]
  rw [extraction, extraction, extract, extract, hjoined, h.shape]

theorem record_eq (h : SameInputs c c') : c'.record = c.record := by
  rw [record, record, h.extraction_eq, h.shape]

theorem files_eq (h : SameInputs c c') (o : Outcome) (modelName : String) :
    c'.files (o.renamed modelName) = c.files o := by
  rw [files, files, h.extraction_eq, Outcome.isKept_renamed]

theorem target_eq (h : SameInputs c c') : c'.target = c.target := by
  rw [target, target, h.access, h.held]

theorem held_withoutTarget_eq (h : SameInputs c c') :
    c'.withoutTarget.held = c.withoutTarget.held := by
  rw [withoutTarget, withoutTarget, h.access]
  cases c.field.access with
  | assignable => exact h.held
  | readOnly => rfl

theorem ownModel_eq (h : SameInputs c c') : c'.ownModel = c.ownModel := by
  rw [ownModel, ownModel, h.shape, h.extraction_eq, h.topLevel, h.target_eq]

theorem ownOutcome_eq (h : SameInputs c c') :
    c'.ownOutcome = c.ownOutcome.renamed c'.field.modelName := by
  obtain ⟨b, hb⟩ := c.exists_ownOutcome_eq
  have hsame : c'.ownOutcome = c.ownOutcome := by
    rw [ownOutcome, ownOutcome, h.extraction_eq, h.ownModel_eq]
  rw [hsame, hb]
  rfl

theorem takesOwn_eq (h : SameInputs c c') : c'.takesOwn = c.takesOwn := by
  rw [takesOwn, takesOwn, h.shape]

theorem canList_eq (h : SameInputs c c') (container : Container) (answer : Answer) :
    c'.canList container answer = c.canList container answer := by
  rw [canList, canList, h.topLevel]

theorem takesFor_eq (h : SameInputs c c') (answer : Answer) :
    c'.takesFor answer = c.takesFor answer := by
  rw [takesFor, takesFor, h.shape]
  cases c.field.shape with
  | scalar element => rfl
  | collection container element => simp only [h.canList_eq]

/-- The same answer is converted alike. -/
theorem answered_eq (h : SameInputs c c') (tokens : List String) :
    c'.answered ⟨tokens⟩ = (c.answered ⟨tokens⟩).renamed c'.field.modelName := by
  cases helement : c.field.shape.element with
  | complex =>
      have helement' : c'.field.shape.element = .complex := by rw [h.shape, helement]
      rw [answered_complex _ helement', answered_complex _ helement, Outcome.renamed]
  | simple kind =>
      cases hshape : c.field.shape with
      | scalar element =>
          have helement : element = .simple kind := by
            rw [hshape] at helement
            exact helement
          subst helement
          rw [answered_scalar _ (h.shape.trans hshape), answered_scalar _ hshape]
          exact scalarOutcome_renamed kind c.field.modelName c'.field.modelName tokens
      | collection container element =>
          have helement : element = .simple kind := by
            rw [hshape] at helement
            exact helement
          subst helement
          by_cases hkind : kind = .text
          · subst hkind
            rw [answered_texts _ (h.shape.trans hshape), answered_texts _ hshape, h.topLevel,
              h.target_eq]
            cases materialize tokens container c.topLevel c.target with
            | none => rfl
            | some t => rfl
          · rw [answered_list _ (h.shape.trans hshape) hkind, answered_list _ hshape hkind,
              h.canList_eq, h.access]
            split
            · exact listOutcome_renamed kind c.field.modelName c'.field.modelName tokens
            · rfl

theorem convertedOutcome_eq (h : SameInputs c c') :
    c'.convertedOutcome = c.convertedOutcome.renamed c'.field.modelName := by
  rw [convertedOutcome, convertedOutcome, h.extraction_eq]
  split
  · rw [h.answered_eq, Outcome.renamed_withPresence]
  · rfl

end Context.SameInputs

/-! ## Two binds that agree -/

/-- The settlement is told from what a field is bound from, but for the name in an error. -/
def Settlement.FromInputs (s : Settlement) : Prop :=
  ∀ c c' : Context, c.SameInputs c' →
    s.outcome c' = (s.outcome c).renamed c'.field.modelName ∧ s.takes c' = s.takes c

theorem Settlement.fromInputs_alone : Settlement.alone.FromInputs := by
  intro c c' h
  exact ⟨h.ownOutcome_eq, h.takesOwn_eq⟩

theorem Settlement.fromInputs_converting : Settlement.converting.FromInputs := by
  intro c c' h
  refine ⟨h.convertedOutcome_eq, ?_⟩
  show c'.takesFor ⟨c'.extraction.tokens⟩ = c.takesFor ⟨c.extraction.tokens⟩
  rw [h.extraction_eq, h.takesFor_eq]

theorem World.held_taken_eq {w w' : World} (h : w.context.SameInputs w'.context) (takes : Bool) :
    (w'.taken takes).context.held = (w.taken takes).context.held := by
  rw [taken, taken, h.extraction_eq]
  split
  · exact h.held_withoutTarget_eq
  · exact h.held

/-- Two binds by a stack that agree on the lines of the field's header, its shape and access, the
flag, and what is held come to the same outcome, but for the name in an error, and hold the same
after it. Either they both leave their ledger as it was, or they both file the same record, each
under the model name of its own field. -/
theorem bound_from_own_lines {b : Binder} (hb : b.IsStack) {w w' : World}
    (h : w.context.SameInputs w'.context) :
    let report := b.run w
    let report' := b.run w'
    report'.value.outcome = report.value.outcome.renamed w'.context.field.modelName ∧
      report'.world.context.held = report.world.context.held ∧
      ((report.world.ledger = w.ledger ∧ report'.world.ledger = w'.ledger) ∨
        ∃ r, report.world.ledger = w.ledger.record w.context.field.modelName r ∧
          report'.world.ledger = w'.ledger.record w'.context.field.modelName r) := by
  intro report report'
  obtain ⟨s, hs, hsettles⟩ : ∃ s : Settlement, s.FromInputs ∧ b.SettlesBy s := by
    rcases hb.settlesBy with halone | hconverting
    · exact ⟨.alone, Settlement.fromInputs_alone, halone⟩
    · exact ⟨.converting, Settlement.fromInputs_converting, hconverting⟩
  obtain ⟨hvalue, hworld⟩ := hsettles w
  obtain ⟨hvalue', hworld'⟩ := hsettles w'
  obtain ⟨houtcome, htakes⟩ := hs w.context w'.context h
  refine ⟨?_, ?_, ?_⟩
  · show (b.run w').value.outcome = (b.run w).value.outcome.renamed _
    rw [hvalue, hvalue']
    exact houtcome
  · show (b.run w').world.context.held = (b.run w).world.context.held
    rw [hworld, hworld', World.context_filed, World.context_filed, htakes, World.held_taken_eq h]
  · show ((b.run w).world.ledger = _ ∧ (b.run w').world.ledger = _) ∨
      ∃ r, (b.run w).world.ledger = _ ∧ (b.run w').world.ledger = _
    rw [hworld, hworld', World.ledger_filed, World.ledger_filed, houtcome, h.files_eq, h.record_eq,
      World.ledger_taken, World.ledger_taken]
    -- whether the tokens are filed is the same on both sides
    cases w.context.files (s.outcome w.context) with
    | false => exact Or.inl ⟨rfl, rfl⟩
    | true => exact Or.inr ⟨w.context.record, rfl, rfl⟩

/-- Lines in a store of texts and lines in a table of octets. The same token is at fault, and each
error names its own field, although the second context carries a stale source. -/
theorem bound_from_own_lines_of_two_stores :
    let shape : Shape := .collection .list (.simple .integer)
    let stack : Binder := .composed (.binder (.composed .converter none)) (some .tracing)
    let w : World :=
      { context :=
          { headers := .owned ⟨[("X", "1"), ("Other", "7"), ("X", "two")]⟩
            field := { name := "X", modelName := "m", shape } } }
    let w' : World :=
      { context :=
          { headers := .table ⟨[("h", [0x31]), ("h", [0x74, 0x77, 0x6F])]⟩
            field := { name := "H", modelName := "a.b", shape }
            source := .header "Stale" ⟨["9"], .whole, true⟩ }
        ledger := Ledger.record {} "m" ⟨"9", .single "9"⟩ }
    let e : ConversionError := { fault := .invalidInteger, modelName := "m", attempted := "two" }
    stack.IsStack ∧ w.context.SameInputs w'.context ∧
      (stack.run w).value.outcome = .error e ∧
      (stack.run w').value.outcome = .error { e with modelName := "a.b" } ∧
      (stack.run w').world.context.held = (stack.run w).world.context.held ∧
      (((stack.run w).world.ledger = w.ledger ∧ (stack.run w').world.ledger = w'.ledger) ∨
        ∃ r, (stack.run w).world.ledger = w.ledger.record "m" r ∧
          (stack.run w').world.ledger = w'.ledger.record "a.b" r) := by
  intro shape stack w w' e
  have hstack : stack.IsStack := .layer _ (.converting _)
  have hlines : w.context.headers.getAll w.context.field.name = ["1", "two"] := by
    have hother : Text.sameName "Other" "X" = false := by
      rw [Bool.eq_false_iff, Ne, Text.sameName_iff, ← String.toList_inj, Text.toList_foldCase,
        Text.toList_foldCase]
      decide
    show (HeaderStore.owned ⟨[("X", "1"), ("Other", "7"), ("X", "two")]⟩).getAll "X" = _
    simp [HeaderStore.getAll, OwnedHeaders.getAll, hother]
  have hlines' : w'.context.headers.getAll w'.context.field.name = ["1", "two"] := by
    decide +kernel
  have hinputs : w.context.SameInputs w'.context :=
    ⟨rfl, rfl, rfl, rfl, hlines'.trans hlines.symm⟩
  have htokens : w.context.extraction = ⟨["1", "two"], .split, true⟩ := by
    have hjoined : ",".intercalate ["1", "two"] = "1,two" := by decide +kernel
    rw [Context.extraction, extract, HeaderStore.getJoined, hlines, hjoined]
    decide +kernel
  have hrun : (stack.run w).value.outcome = w.context.convertedOutcome := by
    have hlayers := (actsLike_composed_composed (unseen converter) w).1
    have hvalue : (stack.run w).value = (composed (unseen converter) w).value :=
      (announced_value_world (some .tracing) _ w).1.trans hlayers
    rw [hvalue, value_converting]
  have herror : (stack.run w).value.outcome = .error e := by
    rw [hrun, Context.convertedOutcome, htokens]
    rfl
  obtain ⟨houtcome, hheld, hledger⟩ := bound_from_own_lines hstack hinputs
  rw [herror] at houtcome
  exact ⟨hstack, hinputs, herror, houtcome, hheld, hledger⟩

end TypedHeaders
