import TypedHeaders.Binding.Converter

/-!
# What a conversion says about the tokens

A value that was converted tells what its tokens were, and an error tells which token was at fault.
The tokens of a collection are converted in order, so the token that is reported is the first that
cannot be converted (`convertAll_eq_error_iff`). The same is said of the outcomes of the converter
for a scalar and for a list.
-/

set_option autoImplicit false

namespace TypedHeaders

/-- The text is the first of the tokens that cannot be converted, and this is its fault. -/
inductive FirstFault (kind : ScalarKind) (raw : String) (fault : Fault) : List String → Prop
  /-- The first token is at fault. -/
  | here {rest : List String} :
      convert kind raw = .error fault → FirstFault kind raw fault (raw :: rest)
  /-- A token that can be converted stands in front of the one at fault. -/
  | later {token : String} {rest : List String} {v : Value} :
      convert kind token = .ok v → FirstFault kind raw fault rest →
        FirstFault kind raw fault (token :: rest)

/-- The tokens before the first fault are converted. -/
theorem FirstFault.exists_append {kind : ScalarKind} {raw : String} {fault : Fault}
    {tokens : List String} (h : FirstFault kind raw fault tokens) :
    ∃ before after, tokens = before ++ raw :: after ∧
      (∀ t ∈ before, ∃ v, convert kind t = .ok v) ∧ convert kind raw = .error fault := by
  induction h with
  | @here rest hraw => exact ⟨[], rest, rfl, List.forall_mem_nil _, hraw⟩
  | @later token rest v htoken _ ih =>
      obtain ⟨before, after, rfl, hbefore, hraw⟩ := ih
      exact ⟨token :: before, after, rfl, List.forall_mem_cons.mpr ⟨⟨v, htoken⟩, hbefore⟩, hraw⟩

/-- Converting tokens fails exactly if one of them cannot be converted, and reports the first such
token with its fault. -/
theorem convertAll_eq_error_iff {kind : ScalarKind} {modelName : String} {tokens : List String}
    {e : ConversionError} :
    convertAll kind modelName tokens = .error e ↔
      e.modelName = modelName ∧ FirstFault kind e.attempted e.fault tokens := by
  induction tokens with
  | nil =>
      constructor
      · intro h
        cases h
      · rintro ⟨-, hfirst⟩
        cases hfirst
  | cons token rest ih =>
      rw [convertAll]
      cases htoken : convert kind token with
      | error fault =>
          constructor
          · intro h
            cases h
            exact ⟨rfl, .here htoken⟩
          · rintro ⟨rfl, hfirst⟩
            cases hfirst with
            | here hraw =>
                rw [htoken] at hraw
                cases hraw
                rfl
            | later hraw _ =>
                rw [htoken] at hraw
                cases hraw
      | ok v =>
          constructor
          · intro h
            cases hrest : convertAll kind modelName rest with
            | error e' =>
                rw [hrest] at h
                cases h
                obtain ⟨hname, hfirst⟩ := ih.mp hrest
                exact ⟨hname, .later htoken hfirst⟩
            | ok vs =>
                rw [hrest] at h
                cases h
          · rintro ⟨hname, hfirst⟩
            cases hfirst with
            | here hraw =>
                rw [htoken] at hraw
                cases hraw
            | later _ hmore => rw [ih.mpr ⟨hname, hmore⟩]

/-- A token is converted to a variant exactly if it names that variant, blanks around it aside. -/
theorem convert_enumeration_eq_ok_iff {variants : List String} {raw : String} {v : Value} :
    convert (.enumeration variants) raw = .ok v ↔
      ∃ variant, variant? variants (Text.trim raw) = some variant ∧ v = .enumeration variant := by
  unfold convert
  dsimp only
  cases variant? variants (Text.trim raw) with
  | none => simp
  | some variant => simp [eq_comm]

namespace Binding

/-- A text is bound to the first value, blank or not. -/
theorem scalarOutcome_text (modelName raw : String) (rest : List String) :
    scalarOutcome .text modelName (raw :: rest) = .bound (.success (.text raw)) := by
  have hguard : (Text.isBlankText raw && ScalarKind.text != .text) = false :=
    Bool.and_false _
  rw [scalarOutcome, hguard]
  rfl

/-- A scalar that is bound is the conversion of the first value. -/
theorem convert_of_scalarOutcome_eq_bound {kind : ScalarKind} {modelName : String}
    {values : List String} {b : Bound} {v : Value}
    (h : scalarOutcome kind modelName values = .bound b) (hmodel : b.model = some v) :
    ∃ raw rest, values = raw :: rest ∧ convert kind raw = .ok v := by
  cases values with
  | nil =>
      cases h
      cases hmodel
  | cons raw rest =>
      refine ⟨raw, rest, rfl, ?_⟩
      rw [scalarOutcome] at h
      split at h
      · cases h
        cases hmodel
      · cases hraw : convert kind raw with
        | error fault =>
            rw [hraw] at h
            cases h
        | ok v' =>
            rw [hraw] at h
            cases h
            cases hmodel
            rfl

/-- A scalar that is not converted reports the first value and its fault. -/
theorem convert_of_scalarOutcome_eq_error {kind : ScalarKind} {modelName : String}
    {values : List String} {e : ConversionError}
    (h : scalarOutcome kind modelName values = .error e) :
    ∃ raw rest, values = raw :: rest ∧ convert kind raw = .error e.fault ∧
      e.modelName = modelName ∧ e.attempted = raw := by
  cases values with
  | nil => cases h
  | cons raw rest =>
      refine ⟨raw, rest, rfl, ?_⟩
      rw [scalarOutcome] at h
      split at h
      · cases h
      · cases hraw : convert kind raw with
        | error fault =>
            rw [hraw] at h
            cases h
            exact ⟨rfl, rfl, rfl⟩
        | ok v =>
            rw [hraw] at h
            cases h

/-- A list that is bound holds the conversions of all values, in order. -/
theorem map_convert_of_listOutcome_eq_bound {kind : ScalarKind} {modelName : String}
    {values : List String} {b : Bound} {v : Value}
    (h : listOutcome kind modelName values = .bound b) (hmodel : b.model = some v) :
    ∃ vs, v = .list vs ∧ values.map (convert kind) = vs.map Except.ok := by
  rw [listOutcome] at h
  cases hall : convertAll kind modelName values with
  | error e =>
      rw [hall] at h
      cases h
  | ok vs =>
      rw [hall] at h
      cases h
      cases hmodel
      exact ⟨vs, rfl, convertAll_eq_ok_iff.mp hall⟩

/-- A list that is not converted reports the first value at fault. -/
theorem firstFault_of_listOutcome_eq_error {kind : ScalarKind} {modelName : String}
    {values : List String} {e : ConversionError}
    (h : listOutcome kind modelName values = .error e) :
    e.modelName = modelName ∧ FirstFault kind e.attempted e.fault values := by
  rw [listOutcome] at h
  cases hall : convertAll kind modelName values with
  | error e' =>
      rw [hall] at h
      cases h
      exact convertAll_eq_error_iff.mp hall
  | ok vs =>
      rw [hall] at h
      cases h

end Binding

end TypedHeaders
