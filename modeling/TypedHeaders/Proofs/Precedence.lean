import TypedHeaders.Proofs.ClosedForm
import TypedHeaders.Proofs.Conversion
import TypedHeaders.Proofs.Trimming

/-!
# Which rule the converter goes by

The converter asks its source two things under the model name of the field: whether it covers the
name, and for the values. From these two answers and its context it decides by rules of a fixed
precedence, which `Context.Verdict` lists. A rule names all that must hold for it to apply, so no
two rules give different outcomes (`Verdict.outcomeFor_eq`), and one of them always applies
(`verdict_outcomeFor`).

A source that does not cover the name comes before everything else, a complex element included. A
list that cannot be built anew is given up before any value is converted. Otherwise the values of a
list are converted in order and the first that fails decides, while for a scalar only the first
value counts.

Whatever the source is, the converter ends in an outcome exactly if a rule gives it for the two answers
under the model name (`converter_iff_verdict`). What the source would answer under any other key, the
name of the header included, does not count.
-/

set_option autoImplicit false

namespace TypedHeaders

open TypedHeaders.Header TypedHeaders.Text Binding

/-! ## The rules -/

/-- A list cannot be built anew: its type has no implementation, or it is part of something else and
there is nothing to put into it, or its destination is read-only. -/
def Context.RefusesList (c : Context) (container : Container) (values : List String) : Prop :=
  container.isAbstract = true ∨ (values = [] ∧ c.topLevel = false) ∨ c.field.access = .readOnly

/-- What becomes of the field in a context when its source covers the model name or not, and answers
with the values. -/
inductive Context.Verdict (c : Context) : Bool → List String → Outcome → Prop
  /-- A name that is not covered is as a missing header, whatever the shape. -/
  | uncovered {values : List String} : Verdict c false values (.bound .absent)
  /-- So is a scalar without values. -/
  | noValue {kind : ScalarKind} :
      c.field.shape = .scalar (.simple kind) → Verdict c true [] (.bound .absent)
  /-- A blank is a value for a text only. -/
  | blank {kind : ScalarKind} {raw : String} {rest : List String} :
      c.field.shape = .scalar (.simple kind) → kind ≠ .text →
        (∀ ch ∈ raw.toList, isBlank ch = true) → Verdict c true (raw :: rest) (.bound .failed)
  /-- A scalar is converted from its first value. -/
  | converted {kind : ScalarKind} {raw : String} {rest : List String} {v : Value} :
      c.field.shape = .scalar (.simple kind) →
        (kind = .text ∨ ∃ ch ∈ raw.toList, isBlank ch = false) → convert kind raw = .ok v →
          Verdict c true (raw :: rest) (.bound (.success v))
  /-- A first value that cannot be converted is reported as it stands. -/
  | unconverted {kind : ScalarKind} {raw : String} {rest : List String} {fault : Fault} :
      c.field.shape = .scalar (.simple kind) →
        (kind = .text ∨ ∃ ch ∈ raw.toList, isBlank ch = false) → convert kind raw = .error fault →
          Verdict c true (raw :: rest)
            (.error { fault, modelName := c.field.modelName, attempted := raw })
  /-- A collection of texts is materialized. -/
  | materialized {container : Container} {values : List String} {t : TextCollection} :
      c.field.shape = .collection container (.simple .text) →
        materialize values container c.topLevel c.target = some t →
          Verdict c true values (.bound (.success (.strings t)))
  /-- A collection of texts that cannot be materialized gives no value. -/
  | unmaterialized {container : Container} {values : List String} :
      c.field.shape = .collection container (.simple .text) →
        materialize values container c.topLevel c.target = none →
          Verdict c true values (.bound .failed)
  /-- A list that cannot be built anew gives no value, whatever the values are. -/
  | refused {container : Container} {kind : ScalarKind} {values : List String} :
      c.field.shape = .collection container (.simple kind) → kind ≠ .text →
        c.RefusesList container values → Verdict c true values (.bound .failed)
  /-- A list holds the conversions of all values, in order. -/
  | listed {container : Container} {kind : ScalarKind} {values : List String}
      {items : List Value} :
      c.field.shape = .collection container (.simple kind) → kind ≠ .text →
        ¬c.RefusesList container values → values.map (convert kind) = items.map Except.ok →
          Verdict c true values (.bound (.success (.list items)))
  /-- The first value of a list that cannot be converted is reported as it stands. -/
  | unlisted {container : Container} {kind : ScalarKind} {values : List String} {raw : String}
      {fault : Fault} :
      c.field.shape = .collection container (.simple kind) → kind ≠ .text →
        ¬c.RefusesList container values → FirstFault kind raw fault values →
          Verdict c true values
            (.error { fault, modelName := c.field.modelName, attempted := raw })
  /-- A complex scalar or element is not supported. -/
  | unsupported {values : List String} :
      c.field.shape.element = .complex →
        Verdict c true values
          (.error { fault := .unsupported, modelName := c.field.modelName,
                    attempted := ",".intercalate values })

/-! ## Scalars -/

namespace Binding

variable {kind : ScalarKind} {raw : String}

/-- The outcome of converting a value that is not passed over as blank. -/
def valueOutcome (kind : ScalarKind) (modelName raw : String) : Outcome :=
  match convert kind raw with
  | .ok v => .bound (.success v)
  | .error fault => .error { fault, modelName, attempted := raw }

theorem valueOutcome_eq_success_iff {modelName : String} {v : Value} :
    valueOutcome kind modelName raw = .bound (.success v) ↔ convert kind raw = .ok v := by
  rw [valueOutcome]
  cases convert kind raw with
  | ok v' => simp [Bound.success]
  | error fault => simp

/-- A value may be converted to any kind unless it is blank, and to a text always. -/
theorem blank_guard_eq_false_iff :
    (isBlankText raw && kind != .text) = false ↔
      kind = .text ∨ ∃ ch ∈ raw.toList, isBlank ch = false := by
  rw [Bool.and_eq_false_iff, isBlankText, List.all_eq_false, bne_eq_false_iff_eq, or_comm]
  simp only [Bool.not_eq_true]

theorem scalarOutcome_of_blank (modelName : String) (rest : List String) (hkind : kind ≠ .text)
    (hblank : ∀ ch ∈ raw.toList, isBlank ch = true) :
    scalarOutcome kind modelName (raw :: rest) = .bound .failed := by
  have hguard : (isBlankText raw && kind != .text) = true :=
    Bool.and_eq_true_iff.mpr ⟨List.all_eq_true.mpr hblank, bne_iff_ne.mpr hkind⟩
  rw [scalarOutcome, if_pos hguard]

theorem scalarOutcome_of_not_blank (modelName : String) (rest : List String)
    (h : kind = .text ∨ ∃ ch ∈ raw.toList, isBlank ch = false) :
    scalarOutcome kind modelName (raw :: rest) = valueOutcome kind modelName raw := by
  rw [scalarOutcome, blank_guard_eq_false_iff.mpr h]
  rfl

end Binding

namespace Context

variable {c : Context} {container : Container} {kind : ScalarKind} {values : List String}

theorem verdict_scalar (hshape : c.field.shape = .scalar (.simple kind)) (values : List String) :
    c.Verdict true values (scalarOutcome kind c.field.modelName values) := by
  cases values with
  | nil => exact .noValue hshape
  | cons raw rest =>
      by_cases hworth : kind = .text ∨ ∃ ch ∈ raw.toList, isBlank ch = false
      · rw [scalarOutcome_of_not_blank _ rest hworth, valueOutcome]
        cases hconvert : convert kind raw with
        | ok v => exact .converted hshape hworth hconvert
        | error fault => exact .unconverted hshape hworth hconvert
      · obtain ⟨hkind, hall⟩ := not_or.mp hworth
        have hblank : ∀ ch ∈ raw.toList, isBlank ch = true := fun ch hch =>
          Bool.not_eq_false _ |>.mp fun hnot => hall ⟨ch, hch, hnot⟩
        rw [scalarOutcome_of_blank _ rest hkind hblank]
        exact .blank hshape hkind hblank

/-! ## Collections -/

theorem verdict_texts (hshape : c.field.shape = .collection container (.simple .text))
    (values : List String) :
    c.Verdict true values (textsOutcome (materialize values container c.topLevel c.target)) := by
  cases hmaterialized : materialize values container c.topLevel c.target with
  | none => exact .unmaterialized hshape hmaterialized
  | some t => exact .materialized hshape hmaterialized

/-- A list can be built from an answer for a destination unless there is a reason to refuse it. -/
theorem canList_and_assignable_iff :
    (c.canList container ⟨values⟩ && c.field.access = .assignable) = true ↔
      ¬c.RefusesList container values := by
  have hcontainer : (!container.isAbstract) = true ↔ ¬container.isAbstract = true := by
    rw [Bool.not_eq_true', Bool.not_eq_true]
  have hvalues : (!values.isEmpty || c.topLevel) = true ↔ ¬(values = [] ∧ c.topLevel = false) := by
    rw [Bool.or_eq_true, Bool.not_eq_true', List.isEmpty_eq_false_iff, not_and_or,
      Bool.not_eq_false]
  have haccess : c.field.access = .assignable ↔ ¬c.field.access = .readOnly := by
    cases c.field.access with
    | assignable => simp
    | readOnly => simp
  rw [canList, RefusesList, not_or, not_or, ← hcontainer, ← hvalues, ← haccess, Bool.and_eq_true,
    Bool.and_eq_true, decide_eq_true_eq, and_assoc, Answer.isNone]

theorem answered_of_refusesList (hshape : c.field.shape = .collection container (.simple kind))
    (hkind : kind ≠ .text) (hrefused : c.RefusesList container values) :
    c.answered ⟨values⟩ = .bound .failed := by
  rw [answered_list _ hshape hkind, if_neg]
  exact fun hcan => canList_and_assignable_iff.mp hcan hrefused

theorem answered_of_not_refusesList
    (hshape : c.field.shape = .collection container (.simple kind)) (hkind : kind ≠ .text)
    (hfree : ¬c.RefusesList container values) :
    c.answered ⟨values⟩ = listOutcome kind c.field.modelName values := by
  rw [answered_list _ hshape hkind, if_pos (canList_and_assignable_iff.mpr hfree)]

theorem verdict_list (hshape : c.field.shape = .collection container (.simple kind))
    (hkind : kind ≠ .text) (values : List String) : c.Verdict true values (c.answered ⟨values⟩) := by
  by_cases hrefused : c.RefusesList container values
  · rw [answered_of_refusesList hshape hkind hrefused]
    exact .refused hshape hkind hrefused
  · rw [answered_of_not_refusesList hshape hkind hrefused, listOutcome]
    cases hall : convertAll kind c.field.modelName values with
    | ok items => exact .listed hshape hkind hrefused (convertAll_eq_ok_iff.mp hall)
    | error e =>
        -- the error is made of the name of the field and the first value at fault
        obtain ⟨hname, hfirst⟩ := convertAll_eq_error_iff.mp hall
        have he : e = { fault := e.fault, modelName := c.field.modelName,
                        attempted := e.attempted } := by rw [← hname]
        rw [he]
        exact .unlisted hshape hkind hrefused hfirst

/-! ## Every rule, and no other -/

/-- A rule gives the outcome of converting what the source answered. -/
theorem verdict_answered (c : Context) (values : List String) :
    c.Verdict true values (c.answered ⟨values⟩) := by
  cases hshape : c.field.shape with
  | scalar element =>
      cases element with
      | simple kind =>
          rw [answered_scalar values hshape]
          exact verdict_scalar hshape values
      | complex =>
          have hcomplex : c.field.shape.element = .complex := by rw [hshape, Shape.element]
          rw [answered_complex values hcomplex]
          exact .unsupported hcomplex
  | collection container element =>
      cases element with
      | simple kind =>
          -- texts are materialized, every other kind is listed anew
          by_cases hkind : kind = .text
          · subst hkind
            rw [answered_texts values hshape]
            exact verdict_texts hshape values
          · exact verdict_list hshape hkind values
      | complex =>
          have hcomplex : c.field.shape.element = .complex := by rw [hshape, Shape.element]
          rw [answered_complex values hcomplex]
          exact .unsupported hcomplex

/-- The outcome in a context when its source covers the model name or not, and answers with the
values. -/
def outcomeFor (c : Context) (covered : Bool) (values : List String) : Outcome :=
  if covered then c.answered ⟨values⟩ else .bound .absent

theorem verdict_outcomeFor (c : Context) (covered : Bool) (values : List String) :
    c.Verdict covered values (c.outcomeFor covered values) := by
  cases covered with
  | false => exact .uncovered
  | true => exact verdict_answered c values

/-- No rule gives another outcome. -/
theorem Verdict.outcomeFor_eq {covered : Bool} {o : Outcome} (h : c.Verdict covered values o) :
    c.outcomeFor covered values = o := by
  -- what a rule asks for is what the guards on the way to its outcome ask for
  cases h with
  | uncovered => rfl
  | noValue hshape => exact answered_scalar _ hshape
  | blank hshape hkind hblank =>
      exact (answered_scalar _ hshape).trans (scalarOutcome_of_blank _ _ hkind hblank)
  | converted hshape hworth hconvert =>
      refine (answered_scalar _ hshape).trans ?_
      rw [scalarOutcome_of_not_blank _ _ hworth, valueOutcome, hconvert]
  | unconverted hshape hworth hconvert =>
      refine (answered_scalar _ hshape).trans ?_
      rw [scalarOutcome_of_not_blank _ _ hworth, valueOutcome, hconvert]
  | materialized hshape hmaterialized =>
      refine (answered_texts _ hshape).trans ?_
      rw [hmaterialized, textsOutcome]
  | unmaterialized hshape hmaterialized =>
      refine (answered_texts _ hshape).trans ?_
      rw [hmaterialized, textsOutcome]
  | refused hshape hkind hrefused => exact answered_of_refusesList hshape hkind hrefused
  | listed hshape hkind hfree hconverted =>
      refine (answered_of_not_refusesList hshape hkind hfree).trans ?_
      rw [listOutcome, convertAll_eq_ok_iff.mpr hconverted]
  | unlisted hshape hkind hfree hfirst =>
      refine (answered_of_not_refusesList hshape hkind hfree).trans ?_
      have hall : convertAll _ c.field.modelName values = .error ⟨_, _, _⟩ :=
        convertAll_eq_error_iff.mpr ⟨rfl, hfirst⟩
      rw [listOutcome, hall]
  | unsupported hcomplex => exact answered_complex _ hcomplex

theorem verdict_iff {covered : Bool} {o : Outcome} :
    c.Verdict covered values o ↔ c.outcomeFor covered values = o :=
  ⟨Verdict.outcomeFor_eq, fun h => h ▸ verdict_outcomeFor c covered values⟩

end Context

/-! ## The converter -/

/-- The converter's outcome depends on its context and the two answers of the source. -/
theorem Binding.value_converter (w : World) :
    (converter w).value =
      w.context.outcomeFor (w.context.source.covers w.context.field.modelName)
        (w.context.source.lookup w.context.field.modelName).values := by
  cases hcovers : w.context.source.covers w.context.field.modelName with
  | false => rw [converter_of_not_covers hcovers, Context.outcomeFor, if_neg Bool.false_ne_true]
  | true =>
      rw [converter_of_covers hcovers, Context.outcomeFor, if_pos rfl]
      exact value_taking _ _ _

/-- The world with another source of values in its context. -/
def World.asking (w : World) (s : ValueSource) : World :=
  { w with context := { w.context with source := s } }

/-- No rule looks at the source itself. -/
theorem Context.outcomeFor_asking (w : World) (s : ValueSource) (covered : Bool)
    (values : List String) :
    (w.asking s).context.outcomeFor covered values = w.context.outcomeFor covered values := rfl

/-- Whatever the source is, all that counts of it are its two answers under the model name. -/
theorem Binding.value_converter_asking (w : World) (s : ValueSource) :
    (converter (w.asking s)).value =
      w.context.outcomeFor (s.covers w.context.field.modelName)
        (s.lookup w.context.field.modelName).values := by
  rw [value_converter, Context.outcomeFor_asking]
  rfl

/-- In every context and with every source of values, the converter ends in an outcome exactly if a
rule gives it for the two answers of the source under the model name of the field. A source made of a
header, whichever it is and for whatever shape it was read, answers whether the header is there, and
with its tokens. -/
theorem converter_iff_verdict (w : World) (s : ValueSource) (o : Outcome) :
    ((Binding.converter (w.asking s)).value = o ↔
      w.context.Verdict (s.covers w.context.field.modelName)
        (s.lookup w.context.field.modelName).values o) ∧
    ∀ (headers : HeaderStore) (name : String) (shape : Shape),
      (Binding.converter (w.asking (.ofHeader headers name shape))).value = o ↔
        w.context.Verdict (headers.contains name) (extract headers name shape).tokens o := by
  refine ⟨?_, ?_⟩
  · rw [Context.verdict_iff, value_converter_asking]
  · intro headers name shape
    have hcovers : (ValueSource.ofHeader headers name shape).covers w.context.field.modelName =
        headers.contains name := present_extract headers name shape
    rw [Context.verdict_iff, value_converter_asking, hcovers]
    rfl

/-- The source has nothing under the name of the header, and the converter does not ask for it. -/
example :
    let field : Field := { name := "X", modelName := "m", shape := .scalar (.simple .text) }
    let w : World := { context := { headers := .owned {}, field } }
    let s : ValueSource :=
      { covers := (· == "m"), lookup := fun key => if key = "m" then ⟨["a", "b"]⟩ else {},
        notices := fun _ => [], header? := none }
    (Binding.converter (w.asking s)).value = .bound (.success (.text "a")) := by
  cbv

/-- A list with a read-only destination is given up before its value is found to be no integer, and
it is as missing if its source has the same values but does not cover its name. -/
example :
    let field : Field :=
      { name := "X", modelName := "m", shape := .collection .list (.simple .integer),
        access := .readOnly }
    let c : Context := { headers := .owned ⟨[]⟩, field }
    c.Verdict true ["one"] (.bound .failed) ∧ c.Verdict false ["one"] (.bound .absent) :=
  ⟨.refused rfl nofun (Or.inr (Or.inr rfl)), .uncovered⟩

end TypedHeaders
