/-!
# Provenance

For each model name the ledger keeps the record of the last value that was bound under it: the raw
text or tokens, and their text for people to read. A validator looks a record up by its model name.

The entries are kept in order of their names, by code point and without repetition, and `set`
preserves that (`sorted_setEntry`). `get?` is the view of the ledger: after `record` it gives the
new record under its own name and the old ones under all others (`get?_record`). A ledger is
determined by this view (`Ledger.ext_get?`), so records under different names may be made in either
order (`Ledger.record_comm`).
-/

set_option autoImplicit false

namespace TypedHeaders

/-- The raw value that was bound: the whole header text, or the tokens of a collection. -/
inductive RawValue where
  | single (text : String)
  | many (tokens : List String)
  deriving DecidableEq, Repr

/-- The text of a raw value; tokens are joined by commas. -/
def RawValue.display : RawValue → String
  | .single text => text
  | .many tokens => ",".intercalate tokens

/-- What is kept for a model name: the value as it was tried, and the raw value. -/
structure Record where
  attempted : String
  raw : RawValue
  deriving DecidableEq, Repr

/-- A model name and its record. -/
abbrev LedgerEntry := String × Record

/-- Entries whose names increase strictly. -/
def LedgerSorted (entries : List LedgerEntry) : Prop :=
  entries.Pairwise fun a b => a.1 < b.1

/-- Put a record under a name, in its place in the order or instead of the record there. -/
def setEntry (key : String) (record : Record) : List LedgerEntry → List LedgerEntry
  | [] => [(key, record)]
  | e :: rest =>
      if key < e.1 then (key, record) :: e :: rest
      else if key = e.1 then (key, record) :: rest
      else e :: setEntry key record rest

/-- A name of the entries after a change is a name before it or the one that was set. -/
theorem mem_setEntry {key : String} {record : Record} {entries : List LedgerEntry}
    {x : LedgerEntry} (h : x ∈ setEntry key record entries) : x = (key, record) ∨ x ∈ entries := by
  induction entries with
  | nil => simpa [setEntry] using h
  | cons e rest ih =>
      rw [setEntry] at h
      split at h
      · simpa using h
      · split at h
        · rcases List.mem_cons.mp h with hx | hx
          · exact Or.inl hx
          · exact Or.inr (List.mem_cons_of_mem e hx)
        · rcases List.mem_cons.mp h with hx | hx
          · exact Or.inr (hx ▸ List.mem_cons_self)
          · exact (ih hx).imp_right (List.mem_cons_of_mem e)

/-- Setting a record keeps the order. -/
theorem sorted_setEntry {key : String} {record : Record} {entries : List LedgerEntry}
    (h : LedgerSorted entries) : LedgerSorted (setEntry key record entries) := by
  induction entries with
  | nil => simp [setEntry, LedgerSorted]
  | cons e rest ih =>
      obtain ⟨hhead, htail⟩ := List.pairwise_cons.mp h
      rw [setEntry]
      split
      · next hlt =>
          refine List.pairwise_cons.mpr ⟨fun x hx => ?_, h⟩
          rcases List.mem_cons.mp hx with rfl | hx
          · exact hlt
          · exact String.lt_trans hlt (hhead x hx)
      · split
        · next heq => exact List.pairwise_cons.mpr ⟨heq ▸ hhead, htail⟩
        · next hnlt hne =>
            refine List.pairwise_cons.mpr ⟨fun x hx => ?_, ih htail⟩
            rcases mem_setEntry hx with rfl | hx
            · apply String.not_le.mp
              intro hle
              exact hne (String.le_antisymm hle (String.not_lt.mp hnlt))
            · exact hhead x hx

/-- The records of a request, each under its model name. -/
@[ext] structure Ledger where
  entries : List LedgerEntry := []
  sorted : LedgerSorted entries := by exact List.Pairwise.nil

namespace Ledger

/-- Put a record under a name, in place of an earlier one. -/
def record (l : Ledger) (key : String) (r : Record) : Ledger :=
  { entries := setEntry key r l.entries, sorted := sorted_setEntry l.sorted }

/-- The record under a name. -/
def get? (l : Ledger) (key : String) : Option Record := l.entries.lookup key

/-- Whether there is a record under a name. -/
def contains (l : Ledger) (key : String) : Bool := l.entries.any fun e => e.1 == key

/-- The number of records. -/
def size (l : Ledger) : Nat := l.entries.length

/-- Whether there is no record. -/
def isEmpty (l : Ledger) : Bool := l.entries.isEmpty

/-- The names that have a record, in order. -/
def keys (l : Ledger) : List String := l.entries.map Prod.fst

end Ledger

theorem lookup_entry_cons (e : LedgerEntry) (rest : List LedgerEntry) (key : String) :
    List.lookup key (e :: rest) = if key = e.1 then some e.2 else rest.lookup key := by
  obtain ⟨name, record⟩ := e
  rw [List.lookup_cons]
  by_cases h : key = name
  · simp [h]
  · simp [h, beq_eq_false_iff_ne.mpr h]

/-- Looking a name up after a change gives the new record under the name that was set, and under
every other name what was there. -/
theorem lookup_setEntry (key key' : String) (record : Record) (entries : List LedgerEntry) :
    (setEntry key record entries).lookup key'
      = if key' = key then some record else entries.lookup key' := by
  induction entries with
  | nil => simp [setEntry, lookup_entry_cons]
  | cons e rest ih =>
      rw [setEntry]
      split
      · rw [lookup_entry_cons]
      · split
        · next heq =>
            rw [lookup_entry_cons, lookup_entry_cons, ← heq]
            by_cases h : key' = key
            · simp [h]
            · simp [h]
        · next hne =>
            rw [lookup_entry_cons, lookup_entry_cons, ih]
            by_cases h : key' = key
            · simp [h, hne]
            · simp [h]

/-- Of two records under one name the second remains. -/
theorem setEntry_setEntry (key : String) (first second : Record) (entries : List LedgerEntry) :
    setEntry key second (setEntry key first entries) = setEntry key second entries := by
  induction entries with
  | nil => simp [setEntry]
  | cons e rest ih =>
      by_cases hlt : key < e.1
      · simp [setEntry, hlt]
      · by_cases heq : key = e.1
        · subst heq
          simp [setEntry]
        · simp [setEntry, hlt, heq, ih]

theorem Ledger.record_record (l : Ledger) (key : String) (first second : Record) :
    (l.record key first).record key second = l.record key second :=
  Ledger.ext (setEntry_setEntry key first second l.entries)

/-- A record changes what is kept under its own name, and nothing else. -/
theorem Ledger.get?_record (l : Ledger) (key key' : String) (r : Record) :
    (l.record key r).get? key' = if key' = key then some r else l.get? key' :=
  lookup_setEntry key key' r l.entries

theorem Ledger.get?_record_self (l : Ledger) (key : String) (r : Record) :
    (l.record key r).get? key = some r :=
  (l.get?_record key key r).trans (if_pos rfl)

theorem Ledger.get?_record_of_ne {key key' : String} (l : Ledger) (r : Record) (hne : key' ≠ key) :
    (l.record key r).get? key' = l.get? key' :=
  (l.get?_record key key' r).trans (if_neg hne)

/-- A name in front of all others of the entries has no record. -/
theorem lookup_eq_none_of_lt {key : String} {entries : List LedgerEntry}
    (h : ∀ e ∈ entries, key < e.1) : entries.lookup key = none := by
  induction entries with
  | nil => rfl
  | cons e rest ih =>
      have hne : key ≠ e.1 := by
        intro heq
        have hlt := h e List.mem_cons_self
        rw [heq] at hlt
        exact String.lt_irrefl _ hlt
      rw [lookup_entry_cons, if_neg hne]
      exact ih fun x hx => h x (List.mem_cons_of_mem e hx)

/-- A name that is found does not stand in front of the first one. -/
theorem le_of_lookup_eq_some {key : String} {e : LedgerEntry} {rest : List LedgerEntry} {r : Record}
    (hsorted : LedgerSorted (e :: rest)) (h : List.lookup key (e :: rest) = some r) :
    e.1 ≤ key := by
  apply String.not_lt.mp
  intro hlt
  have hall : ∀ x ∈ e :: rest, key < x.1 := by
    intro x hx
    rcases List.mem_cons.mp hx with rfl | hx
    · exact hlt
    · exact String.lt_trans hlt ((List.pairwise_cons.mp hsorted).1 x hx)
  rw [lookup_eq_none_of_lt hall] at h
  cases h

/-- Entries in order that start with the same name and give the same answers after it give the same
answers in their rest. -/
theorem lookup_tail_eq {e e' : LedgerEntry} {rest rest' : List LedgerEntry}
    (hsorted : LedgerSorted (e :: rest)) (hsorted' : LedgerSorted (e' :: rest'))
    (hname : e.1 = e'.1)
    (h : ∀ key, List.lookup key (e :: rest) = List.lookup key (e' :: rest')) (key : String) :
    rest.lookup key = rest'.lookup key := by
  by_cases hkey : key = e.1
  · -- the first name does not come again
    subst hkey
    rw [lookup_eq_none_of_lt (List.pairwise_cons.mp hsorted).1, hname,
      lookup_eq_none_of_lt (List.pairwise_cons.mp hsorted').1]
  · have hsame := h key
    rw [lookup_entry_cons, lookup_entry_cons, if_neg hkey, if_neg (hname ▸ hkey)] at hsame
    exact hsame

/-- Entries in order are determined by what is found under each name. -/
theorem eq_of_lookup_eq {entries entries' : List LedgerEntry} (hsorted : LedgerSorted entries)
    (hsorted' : LedgerSorted entries') (h : ∀ key, entries.lookup key = entries'.lookup key) :
    entries = entries' := by
  induction entries generalizing entries' with
  | nil =>
      cases entries' with
      | nil => rfl
      | cons e' rest' =>
          have hfound := h e'.1
          rw [lookup_entry_cons, if_pos rfl] at hfound
          cases hfound
  | cons e rest ih =>
      have hfirst := h e.1
      rw [lookup_entry_cons, if_pos rfl] at hfirst
      cases entries' with
      | nil => cases hfirst
      | cons e' rest' =>
          have hfirst' := h e'.1
          rw [lookup_entry_cons e', if_pos rfl] at hfirst'
          -- each list finds the first name of the other, so neither name comes before the other
          have hname : e.1 = e'.1 :=
            String.le_antisymm (le_of_lookup_eq_some hsorted hfirst')
              (le_of_lookup_eq_some hsorted' hfirst.symm)
          have hrecord : e.2 = e'.2 := by
            rw [lookup_entry_cons, if_pos hname] at hfirst
            exact Option.some.inj hfirst
          rw [Prod.ext hname hrecord]
          congr 1
          exact ih (List.pairwise_cons.mp hsorted).2 (List.pairwise_cons.mp hsorted').2
            (lookup_tail_eq hsorted hsorted' hname h)

/-- Two ledgers are the same if they keep the same record under each name. -/
theorem Ledger.ext_get? {l l' : Ledger} (h : ∀ key, l.get? key = l'.get? key) : l = l' :=
  Ledger.ext (eq_of_lookup_eq l.sorted l'.sorted h)

/-- Records under different names may be made in either order. -/
theorem Ledger.record_comm (l : Ledger) {key key' : String} (hne : key ≠ key') (r r' : Record) :
    (l.record key r).record key' r' = (l.record key' r').record key r := by
  apply Ledger.ext_get?
  intro name
  rw [get?_record, get?_record, get?_record, get?_record]
  by_cases hname : name = key
  · rw [if_neg (hname ▸ hne), if_pos hname, if_pos hname]
  · rw [if_neg hname, if_neg hname]

end TypedHeaders
