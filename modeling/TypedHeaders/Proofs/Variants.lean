import TypedHeaders.Proofs.Conversion
import TypedHeaders.Proofs.Trimming
import Mathlib.Data.List.Forall2

/-!
# Truth values and variants in any case

A token that names a variant of an enumeration is converted to that variant as it was declared,
however the token spells it: the case of ASCII letters does not count, and neither do blanks around
it (`variants_canonical`). Of several variants that a token names the first one is taken. The variant
that comes out names itself, so converting again changes nothing. If no two variants differ in case
only, each variant without blanks at its ends can be reached, in every spelling.

`Recased` says of two texts that they differ in the case of ASCII letters at most. It is what the
comparison of names tests (`sameName_iff_recased`), so it is an equivalence, and two texts that are
related stay so when they are trimmed (`sameName_trim`).
-/

set_option autoImplicit false

namespace TypedHeaders.Text

/-- The second text is the first one with the case of some of its ASCII letters changed. -/
def Recased (a b : String) : Prop :=
  List.Forall₂ (fun c d => d = c ∨ d = c.toLower ∨ d = c.toUpper) a.toList b.toList

instance (a b : String) : Decidable (Recased a b) := inferInstanceAs (Decidable (List.Forall₂ _ _ _))

/-! ## Letters -/

/-- A character is its own capital letter unless it is one of the 26 small letters. -/
theorem toUpper_eq_or_small (c : Char) :
    c.toUpper = c ∨ ∃ n : Fin 26, c = Char.ofNat (n.val + 97) := by
  by_cases hsmall : 'a'.val ≤ c.val ∧ c.val ≤ 'z'.val
  · right
    have hleast : 97 ≤ c.val.toNat := hsmall.1
    have hgreatest : c.val.toNat ≤ 122 := hsmall.2
    refine ⟨⟨c.val.toNat - 97, by omega⟩, ?_⟩
    rw [Nat.sub_add_cancel hleast]
    exact (Char.ofNat_toNat c).symm
  · left
    exact dif_neg hsmall

theorem toLower_toUpper (c : Char) : c.toUpper.toLower = c.toLower := by
  rcases toUpper_eq_or_small c with hsame | ⟨n, rfl⟩
  · rw [hsame]
  · revert n
    decide

/-- Two characters have the same small letter exactly if they differ in case at most. -/
theorem toLower_eq_iff {c d : Char} :
    c.toLower = d.toLower ↔ d = c ∨ d = c.toLower ∨ d = c.toUpper := by
  have hcapital : ∀ n : Fin 26, (Char.ofNat (n.val + 65)).toLower.toUpper =
      Char.ofNat (n.val + 65) := by decide
  constructor
  · intro h
    rcases toLower_eq_or_capital d with hd | ⟨n, rfl⟩
    · exact Or.inr (Or.inl (hd.symm.trans h.symm))
    · -- a capital letter is the capital of the small letter that both have
      rw [← hcapital n, ← h]
      rcases toLower_eq_or_capital c with hc | ⟨m, rfl⟩
      · rw [hc]
        exact Or.inr (Or.inr rfl)
      · exact Or.inl (hcapital m)
  · rintro (rfl | rfl | rfl)
    · rfl
    · exact (toLower_toLower c).symm
    · exact (toLower_toUpper c).symm

/-- Names are compared without regard to the case of ASCII letters. -/
theorem sameName_iff_recased {a b : String} : sameName a b = true ↔ Recased a b := by
  have hmap : a.toList.map Char.toLower = b.toList.map Char.toLower ↔
      List.Forall₂ (fun c d => c.toLower = d.toLower) a.toList b.toList := by
    rw [← List.forall₂_eq_eq_eq, List.forall₂_map_left_iff, List.forall₂_map_right_iff]
  rw [sameName_iff, ← String.toList_inj, toList_foldCase, toList_foldCase, hmap, Recased]
  simp only [toLower_eq_iff]

theorem sameName_eq_false_iff {a b : String} : sameName a b = false ↔ ¬Recased a b := by
  rw [← sameName_iff_recased, Bool.not_eq_true]

/-- Texts that differ in case only are trimmed to texts that differ in case only. -/
theorem sameName_trim {a b : String} (h : sameName a b = true) :
    sameName (trim a) (trim b) = true := by
  have hfold : ∀ s : String, foldCase (trim s) = trim (foldCase s) := by
    intro s
    rw [← String.toList_inj, toList_foldCase, toList_trim, toList_trim, toList_foldCase,
      trimList_map_toLower]
  rw [sameName_iff, hfold, hfold, sameName_iff.mp h]

/-- A name is compared alike with two texts that differ in case only. -/
theorem sameName_congr {s t : String} (h : sameName s t = true) (name : String) :
    sameName name s = sameName name t := by
  rw [sameName, sameName, sameName_iff.mp h]

end TypedHeaders.Text

namespace TypedHeaders

open TypedHeaders.Text

/-! ## What a text names -/

theorem truth_congr {s t : String} (h : sameName s t = true) : truth? s = truth? t := by
  rw [truth?, truth?, sameName_symm s, sameName_symm s, sameName_symm t, sameName_symm t,
    sameName_congr h, sameName_congr h]

theorem variant_congr {s t : String} (h : sameName s t = true) (variants : List String) :
    variant? variants s = variant? variants t := by
  have htest : (fun v => sameName v s) = fun v => sameName v t := funext fun v => sameName_congr h v
  rw [variant?, variant?, htest]

/-- The variant that is found is the first one that the text spells. -/
theorem variant_eq_some_iff {variants : List String} {s v : String} :
    variant? variants s = some v ↔
      ∃ before after, variants = before ++ v :: after ∧ Recased v s ∧
        ∀ u ∈ before, ¬Recased u s := by
  rw [variant?, List.find?_eq_some_iff_append, sameName_iff_recased]
  simp only [Bool.not_eq_true', sameName_eq_false_iff]
  constructor
  · rintro ⟨hv, before, after, hsplit, hbefore⟩
    exact ⟨before, after, hsplit, hv, hbefore⟩
  · rintro ⟨before, after, hsplit, hv, hbefore⟩
    exact ⟨hv, before, after, hsplit, hbefore⟩

theorem variant_eq_none_iff {variants : List String} {s : String} :
    variant? variants s = none ↔ ∀ u ∈ variants, ¬Recased u s := by
  rw [variant?, List.find?_eq_none]
  simp only [sameName_iff_recased]

/-- A text spells at most one of the two truth values. -/
theorem not_false_of_true {s : String} (h : sameName s "true" = true) :
    ¬sameName s "false" = true := by
  have hdiffer : ¬sameName "true" "false" = true := by
    rw [sameName_iff, ← String.toList_inj, toList_foldCase, toList_foldCase]
    decide
  intro hfalse
  rw [sameName_symm] at h
  exact hdiffer (sameName_trans h hfalse)

theorem truth_eq_some_iff {s : String} {b : Bool} :
    truth? s = some b ↔ Recased (if b then "true" else "false") s := by
  rw [← sameName_iff_recased, sameName_symm, truth?]
  -- asking for one truth value first hides nothing, as no text spells both
  by_cases htrue : sameName s "true" = true
  · have hfalse := not_false_of_true htrue
    cases b with
    | true => simp [htrue]
    | false => simp [htrue, hfalse]
  · by_cases hfalse : sameName s "false" = true
    · cases b with
      | true => simp [htrue, hfalse]
      | false => simp [htrue, hfalse]
    · cases b with
      | true => simp [htrue, hfalse]
      | false => simp [htrue, hfalse]

/-! ## Conversion -/

theorem convert_enumeration_eq_error_iff {variants : List String} {raw : String} {fault : Fault} :
    convert (.enumeration variants) raw = .error fault ↔
      fault = .unknownVariant ∧ variant? variants (trim raw) = none := by
  unfold convert
  dsimp only
  cases variant? variants (trim raw) with
  | none => simp [eq_comm]
  | some v => simp

theorem convert_boolean_eq_ok_iff {raw : String} {v : Value} :
    convert .boolean raw = .ok v ↔ ∃ b, truth? (trim raw) = some b ∧ v = .boolean b := by
  unfold convert
  dsimp only
  cases truth? (trim raw) with
  | none => simp
  | some b => simp [eq_comm]

/-- The kinds of scalar whose values are written as names: truth values and variants. -/
def ScalarKind.isNamed : ScalarKind → Bool
  | .boolean | .enumeration _ => true
  | _ => false

theorem ScalarKind.ne_text_of_isNamed {kind : ScalarKind} (h : kind.isNamed = true) :
    kind ≠ .text := by
  rintro rfl
  cases h

/-- A token is converted alike in any case of its letters, to the kinds whose values are names. -/
theorem convert_recased {kind : ScalarKind} {raw raw' : String} (hkind : kind.isNamed = true)
    (h : Recased raw raw') : convert kind raw' = convert kind raw := by
  have htrim : sameName (trim raw') (trim raw) = true := by
    rw [sameName_symm]
    exact sameName_trim (sameName_iff_recased.mpr h)
  unfold convert
  cases kind with
  | text => cases hkind
  | integer => cases hkind
  | float => cases hkind
  | boolean =>
      dsimp only
      rw [truth_congr htrim]
  | enumeration variants =>
      dsimp only
      rw [variant_congr htrim]

/-- A variant that comes out is converted to itself. -/
theorem convert_again {variants : List String} {raw s : String}
    (h : convert (.enumeration variants) raw = .ok (.enumeration s)) :
    convert (.enumeration variants) s = .ok (.enumeration s) := by
  obtain ⟨v, hv, hs⟩ := convert_enumeration_eq_ok_iff.mp h
  cases hs
  obtain ⟨-, -, -, hnames, -⟩ := variant_eq_some_iff.mp hv
  -- the variant differs in case only from a trimmed text, which is the same when trimmed again
  have hself : sameName (trim s) (trim raw) = true := by
    have htrim := sameName_trim (sameName_iff_recased.mpr hnames)
    rwa [trim_trim] at htrim
  exact convert_enumeration_eq_ok_iff.mpr ⟨s, (variant_congr hself variants).trans hv, rfl⟩

/-- No variant stands behind another that differs from it in case only, so each is found. -/
theorem variant_self {variants : List String} {s : String}
    (hvariants : variants.Pairwise fun u v => ¬Recased u v) (hs : s ∈ variants) :
    variant? variants s = some s := by
  obtain ⟨before, after, rfl⟩ := List.append_of_mem hs
  obtain ⟨-, -, hbefore⟩ := List.pairwise_append.mp hvariants
  refine variant_eq_some_iff.mpr ⟨before, after, rfl, ?_, ?_⟩
  · exact sameName_iff_recased.mp (sameName_refl s)
  · exact fun u hu => hbefore u hu s List.mem_cons_self

/-- A token is converted to the first variant that it spells, in whatever case and with whatever
blanks around it, and is at fault exactly if it spells none. A variant that comes out is converted to
itself. Of variants that do not differ in case only, each that has no blank at its ends is what all
its spellings are converted to. A truth value is likewise what any of its spellings stands for. -/
theorem variants_canonical (variants : List String) (raw : String) :
    (∀ v, convert (.enumeration variants) raw = .ok v ↔
      ∃ before s after, variants = before ++ s :: after ∧ Recased s (trim raw) ∧
        (∀ u ∈ before, ¬Recased u (trim raw)) ∧ v = .enumeration s) ∧
      (∀ fault, convert (.enumeration variants) raw = .error fault ↔
        fault = .unknownVariant ∧ ∀ u ∈ variants, ¬Recased u (trim raw)) ∧
      (∀ v, convert .boolean raw = .ok v ↔
        ∃ b, Recased (if b then "true" else "false") (trim raw) ∧ v = .boolean b) ∧
      (∀ kind : ScalarKind, kind.isNamed = true → ∀ front raw' back,
        isBlankText front = true → isBlankText back = true → Recased raw raw' →
          convert kind (front ++ raw' ++ back) = convert kind raw) ∧
      (∀ s, convert (.enumeration variants) raw = .ok (.enumeration s) →
        convert (.enumeration variants) s = .ok (.enumeration s)) ∧
      ((variants.Pairwise fun u v => ¬Recased u v) → ∀ s ∈ variants, trim s = s →
        ∀ front s' back, isBlankText front = true → isBlankText back = true → Recased s s' →
          convert (.enumeration variants) (front ++ s' ++ back) = .ok (.enumeration s)) := by
  refine ⟨?_, ?_, ?_, ?_, fun s => convert_again, ?_⟩
  · intro v
    rw [convert_enumeration_eq_ok_iff]
    simp only [variant_eq_some_iff]
    constructor
    · rintro ⟨s, ⟨before, after, hsplit, hs, hbefore⟩, hv⟩
      exact ⟨before, s, after, hsplit, hs, hbefore, hv⟩
    · rintro ⟨before, s, after, hsplit, hs, hbefore, hv⟩
      exact ⟨s, ⟨before, after, hsplit, hs, hbefore⟩, hv⟩
  · intro fault
    rw [convert_enumeration_eq_error_iff, variant_eq_none_iff]
  · intro v
    rw [convert_boolean_eq_ok_iff]
    simp only [truth_eq_some_iff]
  · intro kind hkind front raw' back hfront hback hrecased
    have htext := ScalarKind.ne_text_of_isNamed hkind
    rw [convert_padded htext hfront hback, convert_recased hkind hrecased]
  · intro hvariants s hs htrim front s' back hfront hback hrecased
    have hkind : (ScalarKind.enumeration variants).isNamed = true := rfl
    have htext := ScalarKind.ne_text_of_isNamed hkind
    rw [convert_padded htext hfront hback, convert_recased hkind hrecased,
      convert_enumeration_eq_ok_iff, htrim]
    exact ⟨s, variant_self hvariants hs, rfl⟩

/-- A variant with a letter beyond ASCII is reached in any case of its other letters, but that letter
has one case only. -/
theorem variants_canonical_accented :
    (["Sedan", "Coup\u00e9"].Pairwise fun u v => ¬Recased u v) ∧
      trim "Coup\u00e9" = "Coup\u00e9" ∧ Recased "Coup\u00e9" "cOUP\u00e9" ∧
      isBlankText "\u3000" = true ∧ isBlankText "\t" = true ∧
      convert (.enumeration ["Sedan", "Coup\u00e9"]) ("\u3000" ++ "cOUP\u00e9" ++ "\t") =
        .ok (.enumeration "Coup\u00e9") ∧
      convert (.enumeration ["Sedan", "Coup\u00e9"]) "COUP\u00c9" = .error .unknownVariant ∧
      convert .boolean "\u3000TrUe\t" = convert .boolean "true" := by
  have hvariants : ["Sedan", "Coup\u00e9"].Pairwise fun u v => ¬Recased u v := by decide +kernel
  have htrim : trim "Coup\u00e9" = "Coup\u00e9" := by decide +kernel
  have hcase : Recased "Coup\u00e9" "cOUP\u00e9" := by decide +kernel
  have hfront : isBlankText "\u3000" = true := by decide +kernel
  have hback : isBlankText "\t" = true := by decide +kernel
  refine ⟨hvariants, htrim, hcase, hfront, hback, ?_, ?_, ?_⟩
  · obtain ⟨-, -, -, -, -, hreached⟩ := variants_canonical ["Sedan", "Coup\u00e9"] ""
    exact hreached hvariants _ (List.mem_cons_of_mem _ List.mem_cons_self) htrim _ _ _ hfront hback
      hcase
  · obtain ⟨-, hunknown, -⟩ := variants_canonical ["Sedan", "Coup\u00e9"] "COUP\u00c9"
    exact (hunknown .unknownVariant).mpr ⟨rfl, by decide +kernel⟩
  · obtain ⟨-, -, -, hpadded, -⟩ := variants_canonical [] "true"
    exact hpadded .boolean rfl "\u3000" "TrUe" "\t" hfront hback (by decide +kernel)

end TypedHeaders
