import TypedHeaders.Proofs.Materialization
import TypedHeaders.Proofs.Provenance

/-!
# Bound values have the type of their field

A field declares a shape and an access. What a stack of header binders binds to it is a value of
that shape (`typed_as_declared`): a scalar of the declared kind, a collection of texts that is held
as the destination asks, or a list of values of the declared kind. Nothing is bound to a field with
a complex element, nor to one that is to receive a new collection of a type without implementation.

`Value.Fits` says which values a field may have. It says nothing of headers or binders, and tells
how a new collection is held by a table of its own (`Container.BuiltAs`).
-/

set_option autoImplicit false

namespace TypedHeaders

open Activity Binding

/-! ## Values of a field -/

/-- A value of a scalar kind. A variant is one of those that were declared, spelled as it was
declared. -/
inductive Value.OfKind : ScalarKind → Value → Prop
  | text (s : String) : OfKind .text (.text s)
  | integer (n : Int64) : OfKind .integer (.integer n)
  | float (x : Float) : OfKind .float (.float x)
  | boolean (b : Bool) : OfKind .boolean (.boolean b)
  | enumeration {variants : List String} {variant : String} :
      variant ∈ variants → OfKind (.enumeration variants) (.enumeration variant)

/-- How a new collection of a declared type is held. There is no way to hold an abstraction. -/
inductive Container.BuiltAs : Container → Representation → Prop
  | array : BuiltAs .array .contiguous
  | sequence : BuiltAs .sequence .contiguous
  | list : BuiltAs .list .contiguous
  | linkedList : BuiltAs .linkedList .linked
  | deque : BuiltAs .deque .deque

/-- The value has the type of a field of the shape and the access, whose destination holds the given
collection if it holds any. -/
inductive Value.Fits (held : Option HeldCollection) : Shape → Access → Value → Prop
  | scalar {kind : ScalarKind} {access : Access} {v : Value} :
      v.OfKind kind → Fits held (.scalar (.simple kind)) access v
  /-- A new collection of texts is held as its declared type asks. -/
  | built {container : Container} {t : TextCollection} :
      container.BuiltAs t.representation →
        Fits held (.collection container (.simple .text)) .assignable (.strings t)
  /-- Texts in a read-only destination are held as what was there before, whatever is declared. -/
  | refilled {container : Container} {x : HeldCollection} {t : TextCollection} :
      held = some x → x.mutable = true → t.representation = x.value.representation →
        Fits held (.collection container (.simple .text)) .readOnly (.strings t)
  /-- Another list is always new. -/
  | list {container : Container} {kind : ScalarKind} {vs : List Value} :
      kind ≠ .text → container.isAbstract = false → (∀ v ∈ vs, v.OfKind kind) →
        Fits held (.collection container (.simple kind)) .assignable (.list vs)

namespace Value.Fits

variable {held : Option HeldCollection} {shape : Shape} {access : Access} {v : Value}

theorem isEligible (h : v.Fits held shape access) : shape.isEligible = true := by
  cases h with
  | scalar _ => rfl
  | built _ => rfl
  | refilled _ _ _ => rfl
  | list _ _ _ => rfl

/-- Only texts go into a read-only collection. -/
theorem element_of_readOnly (h : v.Fits held shape .readOnly) (hshape : shape.isCollection = true) :
    shape.element = .simple .text := by
  cases h with
  | scalar _ => cases hshape
  | refilled _ _ _ => rfl

/-- Nothing fits a field that is to receive a new collection of a type without implementation. -/
theorem not_abstraction {name : String} {element : Element}
    (h : v.Fits held (.collection (.abstraction name) element) .assignable) : False := by
  cases h with
  | built hbuilt => cases hbuilt
  | list _ habstract _ => cases habstract

end Value.Fits

/-! ## Conversion -/

theorem ofKind_of_convert {kind : ScalarKind} {raw : String} {v : Value}
    (h : convert kind raw = .ok v) : v.OfKind kind := by
  cases kind with
  | text =>
      cases h
      exact .text raw
  | integer =>
      unfold convert at h
      dsimp only at h
      split at h
      · cases h
        exact .integer _
      · cases h
  | float =>
      unfold convert at h
      dsimp only at h
      split at h
      · cases h
        exact .float _
      · cases h
  | boolean =>
      unfold convert at h
      dsimp only at h
      split at h
      · cases h
        exact .boolean _
      · cases h
  | enumeration variants =>
      obtain ⟨variant, hfound, rfl⟩ := convert_enumeration_eq_ok_iff.mp h
      exact .enumeration (List.mem_of_find?_eq_some hfound)

theorem ofKind_of_map_convert {kind : ScalarKind} {tokens : List String} {vs : List Value}
    (h : tokens.map (convert kind) = vs.map Except.ok) : ∀ v ∈ vs, v.OfKind kind := by
  intro v hv
  have hconverted : Except.ok v ∈ tokens.map (convert kind) := by
    rw [h]
    exact List.mem_map_of_mem hv
  obtain ⟨raw, -, hraw⟩ := List.mem_map.mp hconverted
  exact ofKind_of_convert hraw

/-! ## Collections of texts -/

theorem TextCollection.builtAs_of_ofContainer? {container : Container} {t : TextCollection}
    (h : ofContainer? container = some t) : container.BuiltAs t.representation := by
  cases container with
  | array =>
      cases h
      exact .array
  | sequence =>
      cases h
      exact .sequence
  | list =>
      cases h
      exact .list
  | linkedList =>
      cases h
      exact .linkedList
  | deque =>
      cases h
      exact .deque
  | abstraction name => cases h

/-- A collection is built as its declared type asks, or it is the one of a read-only destination,
filled again. -/
theorem representation_of_materialize {tokens : List String} {container : Container}
    {topLevel : Bool} {target : Target} {t : TextCollection}
    (h : materialize tokens container topLevel target = some t) :
    (target = .assignable ∧ container.BuiltAs t.representation) ∨
      ∃ x, target = .readOnly (some x) ∧ x.mutable = true ∧
        t.representation = x.value.representation := by
  obtain ⟨-, ⟨x, htarget, hmutable, rfl⟩ | ⟨htarget, empty, hempty, rfl⟩⟩ :=
    materialize_eq_some_iff.mp h
  · exact Or.inr ⟨x, htarget, hmutable, rfl⟩
  · have hbuilt := TextCollection.builtAs_of_ofContainer? hempty
    exact Or.inl ⟨htarget, hbuilt⟩

/-! ## What a field is bound to -/

namespace Context

variable {c : Context}

theorem target_eq_assignable_iff : c.target = .assignable ↔ c.field.access = .assignable := by
  rw [target]
  cases c.field.access with
  | assignable => simp
  | readOnly => simp

theorem target_eq_readOnly_iff {held : Option HeldCollection} :
    c.target = .readOnly held ↔ c.field.access = .readOnly ∧ c.held = held := by
  rw [target]
  cases c.field.access with
  | assignable => simp
  | readOnly => simp

theorem fits_of_materialize {tokens : List String} {container : Container} {t : TextCollection}
    (h : materialize tokens container c.topLevel c.target = some t) :
    (Value.strings t).Fits c.held (.collection container (.simple .text)) c.field.access := by
  rcases representation_of_materialize h with ⟨htarget, hbuilt⟩ | ⟨x, htarget, hmutable, hsame⟩
  · rw [target_eq_assignable_iff.mp htarget]
    exact .built hbuilt
  · obtain ⟨haccess, hheld⟩ := target_eq_readOnly_iff.mp htarget
    rw [haccess]
    exact .refilled hheld hmutable hsame

variable {tokens : List String} {container : Container} {kind : ScalarKind} {b : Bound} {v : Value}

/-- The converter has an answer only for a field with a simple element. -/
theorem simple_of_answered (hanswered : c.answered ⟨tokens⟩ = .bound b) :
    ∃ kind, c.field.shape.element = .simple kind := by
  cases helement : c.field.shape.element with
  | simple kind => exact ⟨kind, rfl⟩
  | complex =>
      rw [answered_complex _ helement] at hanswered
      cases hanswered

theorem fits_of_texts (hshape : c.field.shape = .collection container (.simple .text))
    (hanswered : c.answered ⟨tokens⟩ = .bound b) (hmodel : b.model = some v) :
    v.Fits c.held (.collection container (.simple .text)) c.field.access := by
  rw [answered_texts _ hshape] at hanswered
  cases hmaterialized : materialize tokens container c.topLevel c.target with
  | none =>
      rw [hmaterialized] at hanswered
      cases hanswered
      cases hmodel
  | some t =>
      rw [hmaterialized] at hanswered
      cases hanswered
      cases hmodel
      exact fits_of_materialize hmaterialized

theorem fits_of_list (hshape : c.field.shape = .collection container (.simple kind))
    (hkind : kind ≠ .text) (hanswered : c.answered ⟨tokens⟩ = .bound b)
    (hmodel : b.model = some v) :
    v.Fits c.held (.collection container (.simple kind)) c.field.access := by
  rw [answered_list _ hshape hkind] at hanswered
  split at hanswered
  · next hguard =>
      simp only [canList, Bool.and_eq_true, Bool.not_eq_true', decide_eq_true_eq] at hguard
      obtain ⟨⟨habstract, -⟩, haccess⟩ := hguard
      obtain ⟨vs, rfl, hconverted⟩ := map_convert_of_listOutcome_eq_bound hanswered hmodel
      rw [haccess]
      exact .list hkind habstract (ofKind_of_map_convert hconverted)
  · cases hanswered
    cases hmodel

/-- What the converter makes of an answer has the type of the field. -/
theorem fits_of_answered (hanswered : c.answered ⟨tokens⟩ = .bound b) (hmodel : b.model = some v) :
    v.Fits c.held c.field.shape c.field.access := by
  obtain ⟨kind, helement⟩ := simple_of_answered hanswered
  cases hshape : c.field.shape with
  | scalar element =>
      obtain rfl : element = .simple kind := by rw [← helement, hshape, Shape.element]
      rw [answered_scalar _ hshape] at hanswered
      obtain ⟨raw, rest, -, hraw⟩ := convert_of_scalarOutcome_eq_bound hanswered hmodel
      exact .scalar (ofKind_of_convert hraw)
  | collection container element =>
      obtain rfl : element = .simple kind := by rw [← helement, hshape, Shape.element]
      by_cases hkind : kind = .text
      · subst hkind
        exact fits_of_texts hshape hanswered hmodel
      · exact fits_of_list hshape hkind hanswered hmodel

theorem fits_of_converted (hbound : c.convertedOutcome = .bound b) (hmodel : b.model = some v) :
    v.Fits c.held c.field.shape c.field.access := by
  rw [convertedOutcome] at hbound
  split at hbound
  · obtain ⟨b', hanswered, hsame⟩ := Outcome.withPresence_eq_bound hbound
    exact fits_of_answered hanswered (hsame.trans hmodel)
  · cases hbound
    cases hmodel

end Context

namespace Binder.IsStack

variable {b : Binder} {w : World} {bound : Bound} {v : Value}

/-- A value that a stack binds is one that the converter would bind, also if the stack works
alone. -/
theorem converted_of_bound (hb : b.IsStack) (hbound : (b.run w).value.outcome = .bound bound)
    (hmodel : bound.model = some v) : w.context.convertedOutcome = .bound bound := by
  obtain ⟨houtcome, -⟩ := hb.settled w
  rcases houtcome with hown | hconverted
  · have halone : w.context.ownOutcome = .bound bound := hown.symm.trans hbound
    have htext := w.context.element_of_ownOutcome halone hmodel
    exact (w.context.convertedOutcome_of_text htext).trans halone
  · exact hconverted.symm.trans hbound

theorem fits (hb : b.IsStack) (hbound : (b.run w).value.outcome = .bound bound)
    (hmodel : bound.model = some v) :
    v.Fits w.context.held w.context.field.shape w.context.field.access :=
  Context.fits_of_converted (hb.converted_of_bound hbound hmodel) hmodel

/-- A stack binds nothing to a field that no value fits. -/
theorem isSet_eq_false (hb : b.IsStack) (w : World)
    (h : ∀ v : Value, ¬v.Fits w.context.held w.context.field.shape w.context.field.access) :
    (b.run w).value.outcome.isSet = false := by
  cases houtcome : (b.run w).value.outcome with
  | error e => rfl
  | dropped => rfl
  | bound bound =>
      cases hmodel : bound.model with
      | none => rw [Outcome.isSet, Bound.isSet, hmodel, Option.isSome_none]
      | some v => exact absurd (hb.fits houtcome hmodel) (h v)

end Binder.IsStack

/-- What a stack binds has the type of the field. Nothing is bound to a field with a complex element,
and nothing to a field that is to receive a new collection of a type without implementation. -/
theorem typed_as_declared {b : Binder} (hb : b.IsStack) (w : World) :
    let c := w.context
    let outcome := (b.run w).value.outcome
    (∀ (bound : Bound) (v : Value), outcome = .bound bound → bound.model = some v →
      v.Fits c.held c.field.shape c.field.access) ∧
    (c.field.shape.element = .complex → outcome.isSet = false) ∧
    ∀ name element, c.field.shape = .collection (.abstraction name) element →
      c.field.access = .assignable → outcome.isSet = false := by
  intro c outcome
  refine ⟨?_, ?_, ?_⟩
  · intro bound v hbound hmodel
    exact hb.fits hbound hmodel
  · intro hcomplex
    apply hb.isSet_eq_false w
    intro v hfits
    have hrefused : c.field.shape.isEligible = false :=
      c.field.shape.isEligible_eq_false_iff.mpr hcomplex
    rw [hfits.isEligible] at hrefused
    cases hrefused
  · intro name element hshape haccess
    apply hb.isSet_eq_false w
    intro v hfits
    rw [hshape, haccess] at hfits
    exact hfits.not_abstraction

/-- Two layers over the converter bind a list of variants, spelled as they were declared and not as
in the header. A read-only destination of a type without implementation has texts put into the
linked list that it holds. -/
theorem typed_as_declared_two_fields :
    let stack : Binder := .composed (.binder (.composed .converter none)) (some .recording)
    let kind : ScalarKind := .enumeration ["Sedan", "Coupe"]
    let variants : World :=
      { context :=
          { headers := .owned ⟨[("X", "coupe")]⟩
            field := { name := "X", modelName := "m", shape := .collection .deque (.simple kind) } } }
    let x : HeldCollection := { value := ⟨.linked, ["old"]⟩ }
    let texts : World :=
      { context :=
          { headers := .owned ⟨[("X", "a"), ("X", "b, c")]⟩
            field := { name := "X", modelName := "m", access := .readOnly
                       shape := .collection (.abstraction "Bag") (.simple .text) }
            topLevel := false
            held := some x } }
    let v : Value := .list [.enumeration "Coupe"]
    let t : Value := .strings ⟨.linked, ["a", "b", "c"]⟩
    stack.IsStack ∧
      ((stack.run variants).value.outcome = .bound (.success v) ∧
        v.Fits none variants.context.field.shape .assignable) ∧
      (stack.run texts).value.outcome = .bound (.success t) ∧
        t.Fits (some x) texts.context.field.shape .readOnly := by
  intro stack kind variants x texts v t
  have hstack : stack.IsStack := .layer _ (.converting _)
  have hvariant : variant? ["Sedan", "Coupe"] (Text.trim "coupe") = some "Coupe" := by
    have hsedan : ¬Text.sameName "Sedan" "coupe" = true := by
      rw [Text.sameName_iff, ← String.toList_inj, Text.toList_foldCase, Text.toList_foldCase]
      decide
    have hcoupe : Text.sameName "Coupe" "coupe" = true := by
      rw [Text.sameName_iff, ← String.toList_inj, Text.toList_foldCase, Text.toList_foldCase]
      decide
    have htrim : Text.trim "coupe" = "coupe" := by decide +kernel
    rw [htrim]
    exact Eq.trans (List.find?_cons_of_neg hsedan) (List.find?_cons_of_pos hcoupe)
  have hconvert : convert kind "coupe" = .ok (.enumeration "Coupe") :=
    convert_enumeration_eq_ok_iff.mpr ⟨"Coupe", hvariant, rfl⟩
  have hvariants : variants.context.extraction = ⟨["coupe"], .split, true⟩ := by decide +kernel
  have htexts : texts.context.extraction = ⟨["a", "b", "c"], .split, true⟩ := by decide +kernel
  have hbound : (stack.run variants).value.outcome = .bound (.success v) := by
    have hkind : kind ≠ .text := nofun
    have hlist : variants.context.answered ⟨["coupe"]⟩ = listOutcome kind "m" ["coupe"] :=
      (Context.answered_list ["coupe"] rfl hkind).trans (if_pos rfl)
    have hall : convertAll kind "m" ["coupe"] = .ok [.enumeration "Coupe"] := by
      rw [convertAll, hconvert]
      rfl
    rw [hstack.outcome_of_converts rfl, Context.convertedOutcome, hvariants, hlist, listOutcome,
      hall]
    rfl
  have hrefilled : (stack.run texts).value.outcome = .bound (.success t) := by
    rw [hstack.outcome_of_converts rfl, Context.convertedOutcome, htexts]
    rfl
  obtain ⟨hfits, -, -⟩ := typed_as_declared hstack variants
  obtain ⟨hfits', -, -⟩ := typed_as_declared hstack texts
  exact ⟨hstack, ⟨hbound, hfits _ v hbound rfl⟩, hrefilled, hfits' _ t hrefilled rfl⟩

end TypedHeaders
