import TypedHeaders.Header.Name

/-!
# Tables of checked lines

A table takes in header lines, each a name and the octets of a value, and checks them first. It keeps
names in lower case and answers a look-up with the values of the lines that have the name, in the
order in which it took them in.

What is relied on of a table is stated as laws (`IsLineTable`). They say which lines it takes in and
what a look-up finds after each line, for names in lower case and for texts that are no header names.
They leave nothing open: two tables that obey them and are handed the same lines cannot be told apart
(`IsLineTable.alike_foldlM_add`). `HeaderTable` is one such table (`HeaderTable.isLineTable`), and
what is proved of the stores that are made from it uses nothing else about it.
-/

set_option autoImplicit false

namespace TypedHeaders.Header

open TypedHeaders.Text

/-- Why a store refuses a line. -/
inductive LineError where
  | invalidName
  | invalidValue
  deriving DecidableEq, Repr

/-- The octets that may stand in a checked value: the tab and all but the control characters. -/
def isValueOctet (b : UInt8) : Bool := b == 0x09 || (0x20 ≤ b && b != 0x7F)

/-! ## The laws -/

/-- The laws of tables of checked lines, given by the empty table, by how a table takes in a line, and
by its two look-ups: whether a name has a line, and the values of its lines. -/
structure IsLineTable {T : Type} (empty : T)
    (add : T → String → List UInt8 → Except LineError T) (contains : T → String → Bool)
    (getOctets : T → String → List (List UInt8)) : Prop where
  /-- The name is checked first. -/
  add_of_not_isName : ∀ t name value, isName name = false → add t name value = .error .invalidName
  /-- Then the value is. -/
  add_of_not_isValue : ∀ t name value, isName name = true → value.all isValueOctet = false →
    add t name value = .error .invalidValue
  /-- Any other line is taken in. -/
  exists_add : ∀ t name value, isName name = true → value.all isValueOctet = true →
    ∃ t', add t name value = .ok t'
  /-- The empty table has no line. -/
  getOctets_empty : ∀ key, getOctets empty key = []
  /-- A line comes behind the lines that have its name, and changes nothing for other names. -/
  getOctets_of_add : ∀ t name value t', add t name value = .ok t' → ∀ key, isName key = true →
    getOctets t' key = getOctets t key ++ if sameName name key then [value] else []
  /-- Names are kept in lower case. -/
  getOctets_foldCase : ∀ t key, getOctets t (foldCase key) = getOctets t key
  /-- A text that is no header name has no line. -/
  getOctets_of_not_isName : ∀ t key, isName key = false → getOctets t key = []
  /-- A name has a line exactly if its lines have values. -/
  contains_eq : ∀ t key, contains t key = !(getOctets t key).isEmpty

namespace IsLineTable

variable {T : Type} {empty : T} {add : T → String → List UInt8 → Except LineError T}
  {contains : T → String → Bool} {getOctets : T → String → List (List UInt8)}

/-- Only header names are taken in. -/
theorem isName_of_add (laws : IsLineTable empty add contains getOctets) {t t' : T} {name : String}
    {value : List UInt8} (h : add t name value = .ok t') : isName name = true := by
  cases hname : isName name with
  | false =>
      rw [laws.add_of_not_isName t name value hname] at h
      cases h
  | true => rfl

/-- A look-up does not depend on the case in which the name is written. -/
theorem getOctets_of_sameName (laws : IsLineTable empty add contains getOctets) (t : T)
    {key key' : String} (h : sameName key key' = true) : getOctets t key' = getOctets t key := by
  rw [← laws.getOctets_foldCase t key', ← laws.getOctets_foldCase t key, sameName_iff.mp h]

/-- A line that was taken in is found under every text that differs from its name only in case. -/
theorem getOctets_added (laws : IsLineTable empty add contains getOctets) {t t' : T} {name : String}
    {value : List UInt8} (h : add t name value = .ok t') (key : String) :
    getOctets t' key = getOctets t key ++ if sameName name key then [value] else [] := by
  cases hkey : isName key with
  | true => exact laws.getOctets_of_add t name value t' h key hkey
  | false =>
      -- what is no header name differs from the name in more than case
      have hdiffer : sameName name key = false := by
        rw [Bool.eq_false_iff]
        intro hsame
        rw [← isName_eq_of_sameName hsame, laws.isName_of_add h] at hkey
        cases hkey
      rw [laws.getOctets_of_not_isName t' key hkey, laws.getOctets_of_not_isName t key hkey, hdiffer]
      rfl

/-! ## What the laws leave open -/

section TwoTables

variable {T' : Type} {empty' : T'} {add' : T' → String → List UInt8 → Except LineError T'}
  {contains' : T' → String → Bool} {getOctets' : T' → String → List (List UInt8)}

/-- What two tables came to when they were handed lines cannot be told apart: both refused a line for
the same reason, or both answer every look-up alike. -/
inductive Alike (contains : T → String → Bool) (getOctets : T → String → List (List UInt8))
    (contains' : T' → String → Bool) (getOctets' : T' → String → List (List UInt8)) :
    Except LineError T → Except LineError T' → Prop where
  | refused (e : LineError) : Alike contains getOctets contains' getOctets' (.error e) (.error e)
  | taken {t : T} {t' : T'} :
      (∀ key, contains t key = contains' t' key) → (∀ key, getOctets t key = getOctets' t' key) →
        Alike contains getOctets contains' getOctets' (.ok t) (.ok t')

/-- Tables with the same values for every name cannot be told apart. -/
theorem alike_of_getOctets_eq (laws : IsLineTable empty add contains getOctets)
    (laws' : IsLineTable empty' add' contains' getOctets') {t : T} {t' : T'}
    (h : ∀ key, getOctets t key = getOctets' t' key) :
    Alike contains getOctets contains' getOctets' (.ok t) (.ok t') := by
  refine .taken ?_ h
  intro key
  rw [laws.contains_eq, laws'.contains_eq, h]

/-- Handing a line to two such tables does not tell them apart either. -/
theorem alike_add (laws : IsLineTable empty add contains getOctets)
    (laws' : IsLineTable empty' add' contains' getOctets') {t : T} {t' : T'}
    (h : ∀ key, getOctets t key = getOctets' t' key) (name : String) (value : List UInt8) :
    Alike contains getOctets contains' getOctets' (add t name value) (add' t' name value) := by
  cases hname : isName name with
  | false =>
      rw [laws.add_of_not_isName t name value hname, laws'.add_of_not_isName t' name value hname]
      exact .refused .invalidName
  | true =>
      cases hvalue : value.all isValueOctet with
      | false =>
          rw [laws.add_of_not_isValue t name value hname hvalue,
            laws'.add_of_not_isValue t' name value hname hvalue]
          exact .refused .invalidValue
      | true =>
          obtain ⟨u, hu⟩ := laws.exists_add t name value hname hvalue
          obtain ⟨u', hu'⟩ := laws'.exists_add t' name value hname hvalue
          rw [hu, hu']
          apply laws.alike_of_getOctets_eq laws'
          intro key
          rw [laws.getOctets_added hu, laws'.getOctets_added hu', h]

/-- The laws leave nothing open: two tables that are handed the same lines one after another, until
one is refused, cannot be told apart. -/
theorem alike_foldlM_add (laws : IsLineTable empty add contains getOctets)
    (laws' : IsLineTable empty' add' contains' getOctets') (lines : List (String × List UInt8)) :
    Alike contains getOctets contains' getOctets' (lines.foldlM (fun t l => add t l.1 l.2) empty)
      (lines.foldlM (fun t l => add' t l.1 l.2) empty') := by
  -- the lines to come are handed to any two tables with the same values
  suffices hrest : ∀ (t : T) (t' : T'), (∀ key, getOctets t key = getOctets' t' key) →
      Alike contains getOctets contains' getOctets' (lines.foldlM (fun t l => add t l.1 l.2) t)
        (lines.foldlM (fun t l => add' t l.1 l.2) t') by
    apply hrest
    intro key
    rw [laws.getOctets_empty, laws'.getOctets_empty]
  induction lines with
  | nil => exact fun t t' h => laws.alike_of_getOctets_eq laws' h
  | cons l rest ih =>
      intro t t' h
      rw [List.foldlM_cons, List.foldlM_cons]
      have hfirst := laws.alike_add laws' h l.1 l.2
      generalize add t l.1 l.2 = first at hfirst ⊢
      generalize add' t' l.1 l.2 = first' at hfirst ⊢
      cases hfirst with
      | refused e => exact .refused e
      | taken _ hnext => exact ih _ _ hnext

end TwoTables

end IsLineTable

/-! ## A table -/

/-- Checked header lines: names in lower case, values as octets. -/
structure HeaderTable where
  entries : List (String × List UInt8) := []
  deriving DecidableEq, Repr

namespace HeaderTable

/-- Add a line at the end, unless its name or else its value is not allowed. -/
def add (h : HeaderTable) (name : String) (value : List UInt8) : Except LineError HeaderTable :=
  if !isName name then .error .invalidName
  else if !value.all isValueOctet then .error .invalidValue
  else .ok ⟨h.entries ++ [(foldCase name, value)]⟩

/-- Whether a line has the name. A text that is no header name has no line. -/
def contains (h : HeaderTable) (name : String) : Bool :=
  isName name && h.entries.any fun e => e.1 == foldCase name

/-- The octets of the lines that have the name, in order. -/
def getOctets (h : HeaderTable) (name : String) : List (List UInt8) :=
  if isName name then (h.entries.filter fun e => e.1 == foldCase name).map Prod.snd else []

/-- A line that is taken in has a header name and allowed octets, and is the last one from then
on. -/
theorem add_eq_ok_iff {t t' : HeaderTable} {name : String} {value : List UInt8} :
    t.add name value = .ok t' ↔
      isName name = true ∧ value.all isValueOctet = true ∧
        t' = ⟨t.entries ++ [(foldCase name, value)]⟩ := by
  rw [add]
  cases isName name with
  | false => simp
  | true =>
      cases value.all isValueOctet with
      | false => simp
      | true => simp [eq_comm]

/-- The table obeys the laws. -/
theorem isLineTable : IsLineTable {} add contains getOctets where
  add_of_not_isName t name value hname := by
    rw [add, hname]
    rfl
  add_of_not_isValue t name value hname hvalue := by
    rw [add, hname, hvalue]
    rfl
  exists_add t name value hname hvalue := ⟨_, add_eq_ok_iff.mpr ⟨hname, hvalue, rfl⟩⟩
  getOctets_empty key := by
    rw [getOctets]
    split
    · rfl
    · rfl
  getOctets_of_add t name value t' hadd key hkey := by
    obtain ⟨-, -, rfl⟩ := add_eq_ok_iff.mp hadd
    rw [getOctets, getOctets, if_pos hkey, if_pos hkey, List.filter_append, List.map_append]
    congr 1
    rw [List.filter_cons, sameName]
    split
    · rfl
    · rfl
  getOctets_foldCase t key := by
    rw [getOctets, getOctets, isName_foldCase, foldCase_foldCase]
  getOctets_of_not_isName t key hkey := by
    rw [getOctets, hkey]
    rfl
  contains_eq t key := by
    rw [Bool.eq_iff_iff, contains, getOctets]
    cases isName key with
    | false => simp
    | true => simp

end HeaderTable

end TypedHeaders.Header
