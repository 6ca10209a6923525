import TypedHeaders.Proofs.Lines
import TypedHeaders.Proofs.RoundTrip
import TypedHeaders.Proofs.Stores
import TypedHeaders.Proofs.Variants
import TypedHeaders.Value.Source

/-!
# A header that is there

Whether a header is there is asked in many places: of a store by its lines, by their values and by
the joined value, of the tokens that a field takes, and of the source of values that is made of
them. All of these questions have one answer (`present_iff_line`), and it does not depend on the case
in which the name is written (`HeaderStore.getAll_recased`).

A blank header is there like any other. A scalar takes the joined value of its lines, which may be
empty, and a collection takes the tokens of that value, of which there may be none
(`split_of_fillers`). Only a header without lines gives what a missing one gives.
-/

set_option autoImplicit false

namespace TypedHeaders.Header

open TypedHeaders.Text

/-! ## Names in another case -/

variable {name name' : String}

theorem OwnedHeaders.getAll_recased (h : OwnedHeaders) (hcase : Recased name name') :
    h.getAll name' = h.getAll name := by
  have hsame : sameName name name' = true := sameName_iff_recased.mpr hcase
  have htest : (fun l : String × String => sameName l.1 name') = fun l => sameName l.1 name :=
    funext fun l => (sameName_congr hsame l.1).symm
  rw [getAll, getAll, htest]

/-- The table keeps names in one case. -/
theorem HeaderTable.getAll_recased (h : HeaderTable) (hcase : Recased name name') :
    h.getAll name' = h.getAll name := by
  have hsame : sameName name name' = true := sameName_iff_recased.mpr hcase
  rw [getAll, getAll, isLineTable.getOctets_of_sameName h hsame]

/-- A store finds the same lines for a name in whatever case it is written. -/
theorem HeaderStore.getAll_recased (h : HeaderStore) (hcase : Recased name name') :
    h.getAll name' = h.getAll name := by
  cases h with
  | owned o => exact o.getAll_recased hcase
  | table t => exact t.getAll_recased hcase
  | request r => exact r.headers.getAll_recased hcase

theorem HeaderStore.contains_recased (h : HeaderStore) (hcase : Recased name name') :
    h.contains name' = h.contains name := by
  rw [contains_eq_not_isEmpty, contains_eq_not_isEmpty, h.getAll_recased hcase]

theorem HeaderStore.getJoined_recased (h : HeaderStore) (hcase : Recased name name') :
    h.getJoined name' = h.getJoined name := by
  rw [getJoined, getJoined, h.getAll_recased hcase]

/-! ## Lines that a store has taken in -/

theorem HeaderStore.contains_iff_getAll_ne_nil (h : HeaderStore) (name : String) :
    h.contains name = true ↔ h.getAll name ≠ [] := by
  rw [contains_eq_not_isEmpty, Bool.not_eq_true', List.isEmpty_eq_false_iff]

/-- A store that has taken in lines has the names of these lines, in any case, and no other. -/
theorem HeaderStore.contains_of_ofLines {kind : StoreKind} {lines : List Line} {h : HeaderStore}
    (hlines : ofLines kind lines = .ok h) (name : String) :
    h.contains name = true ↔ ∃ l ∈ lines, Recased l.1 name := by
  rw [h.contains_iff_getAll_ne_nil, getAll_of_ofLines hlines, textsOf, ne_eq, List.map_eq_nil_iff,
    List.filter_eq_nil_iff]
  simp only [sameName_iff_recased, not_forall, not_not, exists_prop]

end TypedHeaders.Header

namespace TypedHeaders

open TypedHeaders.Header TypedHeaders.Text TypedHeaders.TokenList

/-! ## What a field takes -/

variable {headers : HeaderStore} {name name' : String}

theorem extract_recased (hcase : Recased name name') (shape : Shape) :
    extract headers name' shape = extract headers name shape := by
  rw [extract, extract, headers.getJoined_recased hcase]

/-- What is taken differs from what a missing header gives exactly if the header is there. -/
theorem extract_ne_absent_iff (shape : Shape) :
    extract headers name shape ≠ .absent ↔ headers.contains name = true := by
  constructor
  · intro hne
    apply Bool.not_eq_false _ |>.mp
    intro hmissing
    exact hne (extract_eq_absent hmissing shape)
  · intro hcontains habsent
    have hpresent := present_extract headers name shape
    rw [habsent, hcontains] at hpresent
    cases hpresent

/-- A scalar takes the joined value, as it stands. -/
theorem extract_scalar (h : headers.contains name = true) (element : Element) :
    extract headers name (.scalar element) =
      { tokens := [",".intercalate (headers.getAll name)], reading := .whole, present := true } := by
  rw [extract_eq_ofJoined h, Extraction.ofJoined_scalar]

/-- A collection takes the tokens of the joined value. -/
theorem extract_collection (h : headers.contains name = true) (container : Container)
    (element : Element) :
    extract headers name (.collection container element) =
      { tokens := split (",".intercalate (headers.getAll name)), reading := .split,
        present := true } := by
  rw [extract_eq_ofJoined h, Extraction.ofJoined_collection]

/-- Lines of blanks and commas have no token, however many they are. -/
theorem split_joined_of_fillers {values : List String}
    (h : ∀ v ∈ values, ∀ c ∈ v.toList, isBlank c = true ∨ c = ',') :
    split (",".intercalate values) = [] := by
  -- without double quotes each line is cut for itself
  have hclosed : ∀ v ∈ values.dropLast, IsClosed v := by
    intro v hv
    apply isClosed_of_no_quote
    intro hquote
    rcases h v (List.dropLast_subset values hv) _ hquote with hblank | hcomma
    · exact ne_of_isBlank hblank (by decide) rfl
    · exact absurd hcomma (by decide)
  rw [split_intercalate hclosed, List.flatMap_eq_nil_iff]
  intro v hv
  exact split_of_fillers (h v hv)

/-- Whether a header is there is one question, however it is put: whether it has a line, a value or a
joined value, whether the tokens that a field takes come from a header, and whether the source made
of them covers keys. Neither the answer nor the tokens depend on the case of the name. In a store that
has taken in lines a header is there if one of them has its name, and its values are those of such
lines, in order. A scalar takes the joined value of a header that is there as one token. A collection
takes tokens that are not empty, and none if there is nothing but blanks and commas. A missing header
gives no token. A source keeps what it is made of. -/
theorem present_iff_line (h : HeaderStore) (name : String) (shape : Shape) :
    let x := extract h name shape
    let source := ValueSource.ofHeader h name shape
    let lines := h.getAll name
    ((h.contains name = true ↔ lines ≠ []) ∧
      (h.contains name = true ↔ ∃ joined, h.getJoined name = some joined) ∧
      (h.contains name = true ↔ x.present = true) ∧
      (h.contains name = true ↔ x ≠ .absent) ∧
      ∀ key, h.contains name = true ↔ source.covers key = true) ∧
    (∀ name', Recased name name' →
      h.contains name' = h.contains name ∧ h.getAll name' = lines ∧
        h.getJoined name' = h.getJoined name ∧ extract h name' shape = x ∧
        ∀ key, (ValueSource.ofHeader h name' shape).covers key = source.covers key ∧
          (ValueSource.ofHeader h name' shape).lookup key = source.lookup key) ∧
    (∀ kind received, HeaderStore.ofLines kind received = .ok h →
      (h.contains name = true ↔ ∃ l ∈ received, Recased l.1 name) ∧
        lines = textsOf received name) ∧
    (h.contains name = true →
      (∀ element, extract h name (.scalar element) =
        { tokens := [",".intercalate lines], reading := .whole, present := true }) ∧
      ∀ container element, ∃ tokens, extract h name (.collection container element) =
          { tokens, reading := .split, present := true } ∧
        (∀ t ∈ tokens, t ≠ "") ∧
        ((∀ line ∈ lines, ∀ c ∈ line.toList, isBlank c = true ∨ c = ',') → tokens = [])) ∧
    (h.contains name = false → x = { tokens := [], reading := .whole, present := false }) ∧
    ∀ (header : String) (taken : Extraction),
      let made := ValueSource.header header taken
      made.reading? = some taken.reading ∧ made.hasValue = !taken.tokens.isEmpty ∧
        ∀ key, made.covers key = taken.present ∧ (made.lookup key).values = taken.tokens := by
  intro x source lines
  have hpresent : h.contains name = x.present := (present_extract h name shape).symm
  refine ⟨⟨h.contains_iff_getAll_ne_nil name, ?_, ?_, (extract_ne_absent_iff shape).symm, ?_⟩,
    ?_, ?_, ?_, ?_, ?_⟩
  · rw [← h.isSome_getJoined name, Option.isSome_iff_exists]
  · rw [hpresent]
  · intro key
    rw [hpresent]
    rfl
  · intro name' hcase
    refine ⟨h.contains_recased hcase, h.getAll_recased hcase, h.getJoined_recased hcase,
      extract_recased hcase shape, ?_⟩
    intro key
    rw [ValueSource.ofHeader, extract_recased hcase shape]
    exact ⟨rfl, rfl⟩
  · intro kind received hreceived
    exact ⟨HeaderStore.contains_of_ofLines hreceived name,
      HeaderStore.getAll_of_ofLines hreceived name⟩
  · intro hcontains
    refine ⟨extract_scalar hcontains, ?_⟩
    intro container element
    refine ⟨split (",".intercalate lines), extract_collection hcontains container element, ?_,
      split_joined_of_fillers⟩
    rintro t ht rfl
    exact ne_empty_of_mem_split ht rfl
  · intro hmissing
    exact extract_eq_absent hmissing shape
  · intro header taken
    exact ⟨rfl, rfl, fun key => ⟨rfl, rfl⟩⟩

/-- An empty line and one of blanks and a comma, under names in different case. The header is there,
a scalar takes the two values joined, and a collection takes no token. -/
theorem present_iff_line_blank :
    let received : List Line :=
      [("X-Tag", .text ""), ("Other", .text "a"), ("x-tag", .octets [0x20, 0x2C, 0x09])]
    let h : HeaderStore :=
      .table ⟨[("x-tag", []), ("other", [0x61]), ("x-tag", [0x20, 0x2C, 0x09])]⟩
    let shape : Shape := .collection .list (.simple .text)
    HeaderStore.ofLines .table received = .ok h ∧ (∃ l ∈ received, Recased l.1 "x-tag") ∧
      h.contains "x-tag" = true ∧ h.getAll "x-tag" = ["", " ,\t"] ∧ Recased "x-tag" "X-TAG" ∧
      (∀ line ∈ h.getAll "x-tag", ∀ c ∈ line.toList, isBlank c = true ∨ c = ',') ∧
      extract h "X-TAG" shape = { tokens := [], reading := .split, present := true } ∧
      extract h "x-tag" (.scalar (.simple .text)) =
        { tokens := [", ,\t"], reading := .whole, present := true } ∧
      h.contains "x_tag" = false ∧
      extract h "x_tag" shape = { tokens := [], reading := .whole, present := false } := by
  intro received h shape
  have hreceived : HeaderStore.ofLines .table received = .ok h := by decide +kernel
  have hline : ∃ l ∈ received, Recased l.1 "x-tag" := by decide +kernel
  have hcase : Recased "x-tag" "X-TAG" := by decide +kernel
  have hvalues : h.getAll "x-tag" = ["", " ,\t"] := by decide +kernel
  have hfillers : ∀ line ∈ h.getAll "x-tag", ∀ c ∈ line.toList, isBlank c = true ∨ c = ',' := by
    intro line hline c hc
    rw [hvalues] at hline
    have hall : ∀ value ∈ ["", " ,\t"], value.toList.all (fun c => isBlank c || c == ',') = true := by
      decide +kernel
    have hfiller := List.all_eq_true.mp (hall line hline) c hc
    rw [Bool.or_eq_true, beq_iff_eq] at hfiller
    exact hfiller
  have hother : h.contains "x_tag" = false := by decide +kernel
  obtain ⟨-, hcased, hstored, htaken, -, -⟩ := present_iff_line h "x-tag" shape
  obtain ⟨-, -, -, -, hmissing, -⟩ := present_iff_line h "x_tag" shape
  have hcontains : h.contains "x-tag" = true := (hstored .table received hreceived).1.mpr hline
  obtain ⟨hscalar, hcollection⟩ := htaken hcontains
  obtain ⟨tokens, hextract, -, hnone⟩ := hcollection .list (.simple .text)
  refine ⟨hreceived, hline, hcontains, hvalues, hcase, hfillers, ?_, ?_, hother, hmissing hother⟩
  · rw [(hcased "X-TAG" hcase).2.2.2.1]
    rw [hnone hfillers] at hextract
    exact hextract
  · rw [hscalar, hvalues]
    rfl

end TypedHeaders
