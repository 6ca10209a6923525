import TypedHeaders.Proofs.Decoding
import TypedHeaders.Proofs.StoreBlind

/-!
# The three stores agree

A store of texts as they are, a table of checked lines, and a request over such a table take in the
same lines if the names are header names and the values have allowed octets only. Then they answer
alike for every text that is looked up, header name or not (`stores_agree`), and so does everything
that is bound over them.

The table keeps names in lower case and finds nothing for what is no header name; the store of texts
compares names as they are. They still find the same lines, because what is no header name has the
name of no line that the table took in (`IsLineTable.getOctets_added`). The values that the table
keeps as octets are read back as they were (`decode_encode`). Nothing but the laws of a table
(`HeaderTable.isLineTable`) is used of it here.
-/

set_option autoImplicit false

namespace TypedHeaders.Header

open TypedHeaders.Text

/-! ## Names in any case -/

/-- Texts are compared character by character, each in lower case. -/
theorem sameName_eq_beq (a b : String) :
    sameName a b = (a.toList.map Char.toLower == b.toList.map Char.toLower) := by
  rw [Bool.eq_iff_iff, sameName_iff, ← String.toList_inj, toList_foldCase, toList_foldCase,
    beq_iff_eq]

/-! ## Lines that a store has taken in -/

/-- A line that a table has taken in is found under every name that differs from its own only in
case. -/
theorem HeaderTable.getAll_of_add {t t' : HeaderTable} {name : String} {value : List UInt8}
    (h : t.add name value = .ok t') (key : String) :
    t'.getAll key = t.getAll key ++ if sameName name key then [Utf8.decode value] else [] := by
  rw [getAll, getAll, isLineTable.getOctets_added h, List.map_append]
  split
  · rfl
  · rfl

/-- A value is read back from its octets as the text that it was. -/
theorem LineValue.decode_toOctets (v : LineValue) : Utf8.decode v.toOctets = v.toText := by
  cases v with
  | text s => exact Utf8.decode_encode s
  | octets bs => rfl

/-- The texts of the lines that have the name, in order. -/
def textsOf (lines : List Line) (name : String) : List String :=
  (lines.filter fun l => sameName l.1 name).map fun l => l.2.toText

theorem textsOf_cons (l : Line) (lines : List Line) (name : String) :
    textsOf (l :: lines) name =
      (if sameName l.1 name then [l.2.toText] else []) ++ textsOf lines name := by
  rw [textsOf, List.filter_cons]
  split
  · rfl
  · rfl

/-- A line that a store of any kind has taken in is found under every name that differs from its own
only in case. -/
theorem HeaderStore.getAll_of_add {h h' : HeaderStore} {line : Line} (hadd : h.add line = .ok h')
    (name : String) :
    h'.getAll name = h.getAll name ++ if sameName line.1 name then [line.2.toText] else [] := by
  have htable : ∀ {t t' : HeaderTable}, t.add line.1 line.2.toOctets = .ok t' →
      t'.getAll name = t.getAll name ++ if sameName line.1 name then [line.2.toText] else [] := by
    intro t t' ht
    rw [HeaderTable.getAll_of_add ht, line.2.decode_toOctets]
  cases h with
  | owned o =>
      cases hadd
      exact o.getAll_add line.1 line.2.toText name
  | table t =>
      rw [add] at hadd
      cases ht : t.add line.1 line.2.toOctets with
      | error e =>
          rw [ht] at hadd
          cases hadd
      | ok t' =>
          rw [ht] at hadd
          cases hadd
          exact htable ht
  | request r =>
      rw [add] at hadd
      cases ht : r.headers.add line.1 line.2.toOctets with
      | error e =>
          rw [ht] at hadd
          cases hadd
      | ok t' =>
          rw [ht] at hadd
          cases hadd
          exact htable ht

/-- Lines that a store has taken in one after another are found in this order. -/
theorem HeaderStore.getAll_of_addAll {h h' : HeaderStore} {lines : List Line}
    (hadd : h.addAll lines = .ok h') (name : String) :
    h'.getAll name = h.getAll name ++ textsOf lines name := by
  induction lines generalizing h with
  | nil =>
      cases hadd
      exact (List.append_nil _).symm
  | cons l rest ih =>
      rw [addAll, List.foldlM_cons] at hadd
      cases hfirst : h.add l with
      | error e =>
          rw [hfirst] at hadd
          cases hadd
      | ok first =>
          rw [hfirst] at hadd
          rw [ih hadd, getAll_of_add hfirst, textsOf_cons, List.append_assoc]

/-- A store of any kind answers every name with the texts of the lines that have it, in order. -/
theorem HeaderStore.getAll_of_ofLines {kind : StoreKind} {lines : List Line} {h : HeaderStore}
    (hlines : ofLines kind lines = .ok h) (name : String) : h.getAll name = textsOf lines name := by
  have htable : ({} : HeaderTable).getAll name = [] := by
    rw [HeaderTable.getAll, HeaderTable.isLineTable.getOctets_empty, List.map_nil]
  have hempty : (HeaderStore.empty kind).getAll name = [] := by
    cases kind with
    | owned => rfl
    | table => exact htable
    | request => exact htable
  rw [getAll_of_addAll hlines, hempty, List.nil_append]

/-! ## Lines that every store takes in -/

/-- The values of the lines that have the name, in order. -/
def valuesOf (lines : List (String × String)) (name : String) : List String :=
  (lines.filter fun l => sameName l.1 name).map Prod.snd

/-- The line as it is handed to a store. -/
def textLine (l : String × String) : Line := (l.1, .text l.2)

theorem textsOf_map_textLine (lines : List (String × String)) (name : String) :
    textsOf (lines.map textLine) name = valuesOf lines name := by
  rw [textsOf, valuesOf, List.filter_map, List.map_map]
  rfl

/-- A name of allowed characters, and a value of allowed octets. -/
structure Allowed (l : String × String) : Prop where
  name : isName l.1 = true
  value : (Utf8.encode l.2).all isValueOctet = true

/-- A store of any kind takes in a line that is allowed. -/
theorem HeaderStore.exists_add (h : HeaderStore) {l : String × String} (hl : Allowed l) :
    ∃ h', h.add (textLine l) = .ok h' := by
  have htable : ∀ t : HeaderTable, ∃ t', t.add l.1 (Utf8.encode l.2) = .ok t' :=
    fun t => HeaderTable.isLineTable.exists_add t l.1 _ hl.name hl.value
  cases h with
  | owned o => exact ⟨_, rfl⟩
  | table t =>
      obtain ⟨t', ht⟩ := htable t
      exact ⟨.table t', congrArg (Except.map HeaderStore.table) ht⟩
  | request r =>
      obtain ⟨t', ht⟩ := htable r.headers
      exact ⟨.request ⟨t'⟩, congrArg (Except.map fun t => HeaderStore.request ⟨t⟩) ht⟩

/-- A store of any kind takes in lines that are allowed, one after another. -/
theorem HeaderStore.exists_addAll (h : HeaderStore) {lines : List (String × String)}
    (hlines : ∀ l ∈ lines, Allowed l) : ∃ h', h.addAll (lines.map textLine) = .ok h' := by
  induction lines generalizing h with
  | nil => exact ⟨h, rfl⟩
  | cons l rest ih =>
      obtain ⟨first, hadd⟩ := h.exists_add (hlines l (List.mem_cons_self ..))
      obtain ⟨last, haddAll⟩ := ih first fun l' hl' => hlines l' (List.mem_cons_of_mem l hl')
      refine ⟨last, ?_⟩
      rw [addAll, List.map_cons, List.foldlM_cons, hadd]
      exact haddAll

/-- A store of any kind that holds allowed lines answers every name with the values of the lines
that have it, in order. -/
theorem HeaderStore.exists_ofLines (kind : StoreKind) {lines : List (String × String)}
    (hlines : ∀ l ∈ lines, Allowed l) :
    ∃ h, ofLines kind (lines.map textLine) = .ok h ∧
      ∀ name, h.getAll name = valuesOf lines name := by
  obtain ⟨h, hadd⟩ := (HeaderStore.empty kind).exists_addAll hlines
  refine ⟨h, hadd, ?_⟩
  intro name
  rw [getAll_of_ofLines hadd, textsOf_map_textLine]

end TypedHeaders.Header

namespace TypedHeaders

open TypedHeaders.Header

/-- Stores of the three kinds take in the same lines, if the names are header names and the octets
of the values are allowed, and each finds for a text the values of the lines whose names differ from
it only in case. Any two of them give the same answers for every text that is looked up, and a field
takes the same tokens from both. A header binder, however it is put together, comes to the same
value over both, does the same, and leaves the same world; and a session leaves the same entries. -/
theorem stores_agree {lines : List (String × String)}
    (hnames : ∀ l ∈ lines, isName l.1 = true)
    (hvalues : ∀ l ∈ lines, (Text.Utf8.encode l.2).all isValueOctet = true) :
    ∃ store : StoreKind → HeaderStore,
      (∀ kind, HeaderStore.ofLines kind (lines.map fun l => (l.1, .text l.2)) = .ok (store kind)) ∧
      (∀ kind name, (store kind).getAll name = valuesOf lines name) ∧
      ∀ kind kind',
        (∀ name, (store kind').contains name = (store kind).contains name ∧
          (store kind').getAll name = (store kind).getAll name ∧
          (store kind').getJoined name = (store kind).getJoined name ∧
          (store kind').getCommaSeparated name = (store kind).getCommaSeparated name) ∧
        (∀ name shape, extract (store kind') name shape = extract (store kind) name shape) ∧
        (∀ (b : Binder) (w : World), w.context.headers = store kind →
          b.run (w.over (store kind')) = (b.run w).over (store kind')) ∧
        ∀ plans, Session.run (store kind') plans = Session.run (store kind) plans := by
  have hlines : ∀ l ∈ lines, Allowed l := fun l hl => ⟨hnames l hl, hvalues l hl⟩
  obtain ⟨store, hstore⟩ :=
    Classical.axiomOfChoice fun kind => HeaderStore.exists_ofLines kind hlines
  have hgetAll : ∀ kind name, (store kind).getAll name = valuesOf lines name :=
    fun kind => (hstore kind).2
  refine ⟨store, fun kind => (hstore kind).1, hgetAll, ?_⟩
  intro kind kind'
  have hagrees : (store kind).Agrees (store kind') := by
    intro name
    rw [hgetAll kind', hgetAll kind]
  refine ⟨?_, hagrees.extract_eq, ?_, ?_⟩
  · intro name
    exact ⟨hagrees.contains_eq name, hagrees name, hagrees.getJoined_eq name,
      hagrees.getCommaSeparated_eq name⟩
  · intro b w hw
    obtain ⟨-, hover⟩ := StoreBlind.compositional.binder b w
    exact hover _ (by rw [hw]; exact hagrees)
  · intro plans
    exact Session.run_of_agrees plans hagrees

/-- Two lines of one name in different case, and a value beyond ASCII. -/
theorem stores_agree_two_lines :
    let lines := [("X-Tag", "\"a,b\", c"), ("Other", "d"), ("x-tag", "\u00FC\t")]
    (∀ l ∈ lines, isName l.1 = true) ∧
      (∀ l ∈ lines, (Text.Utf8.encode l.2).all isValueOctet = true) ∧
      ∃ store : StoreKind → HeaderStore,
        (∀ kind, HeaderStore.ofLines kind (lines.map fun l => (l.1, .text l.2)) =
          .ok (store kind)) ∧
        ∀ kind, (store kind).getAll "X-TAG" = ["\"a,b\", c", "\u00FC\t"] ∧
          (store kind).getAll "x tag" = [] := by
  intro lines
  have hnames : ∀ l ∈ lines, isName l.1 = true := by decide +kernel
  have hvalues : ∀ l ∈ lines, (Text.Utf8.encode l.2).all isValueOctet = true := by decide +kernel
  obtain ⟨store, hstore, hgetAll, -⟩ := stores_agree hnames hvalues
  refine ⟨hnames, hvalues, store, hstore, ?_⟩
  intro kind
  rw [hgetAll, hgetAll, valuesOf, valuesOf]
  simp only [sameName_eq_beq]
  constructor
  · decide +kernel
  · decide +kernel

end TypedHeaders
