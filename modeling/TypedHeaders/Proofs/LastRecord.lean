import TypedHeaders.Ledger
import TypedHeaders.Proofs.OctetOrder
import Mathlib.Data.Finset.Card

/-!
# The last record under each name

What a ledger shows after any calls can be told from the calls: under each name the record of the
last call with that name (`Ledger.get?_recordAll`), and as its names those of the calls, each once
and in order. The other questions that a ledger answers go by these two
(`ledger_keeps_last_records`).

Only calls with the same name depend on their order. Calls with different names come to the same
ledger in any order, as when each is made by another writer (`Ledger.recordAll_eq_of_perm`).
-/

set_option autoImplicit false

namespace TypedHeaders

open TypedHeaders.Text

namespace Ledger

variable {l : Ledger} {key : String} {r : Record} {calls : List LedgerEntry}

/-- The ledger after calls that each put a record under a name, in order. -/
def recordAll (l : Ledger) (calls : List LedgerEntry) : Ledger :=
  calls.foldl (fun l e => l.record e.1 e.2) l

/-! ## What is found under a name -/

/-- What is found after calls is found by looking through the calls from the last to the first, and
then in the ledger before them. -/
theorem get?_recordAll (l : Ledger) (calls : List LedgerEntry) (key : String) :
    (l.recordAll calls).get? key = (calls.reverse.lookup key).or (l.get? key) := by
  induction calls generalizing l with
  | nil => rfl
  | cons e rest ih =>
      have hfirst : (l.record e.1 e.2).get? key = (List.lookup key [e]).or (l.get? key) := by
        rw [lookup_entry_cons]
        by_cases hkey : key = e.1
        · subst hkey
          rw [get?_record_self, if_pos rfl, Option.some_or]
        · rw [l.get?_record_of_ne e.2 hkey, if_neg hkey, List.lookup_nil, Option.none_or]
      calc (l.recordAll (e :: rest)).get? key
          = ((l.record e.1 e.2).recordAll rest).get? key := rfl
        _ = (rest.reverse.lookup key).or ((List.lookup key [e]).or (l.get? key)) := by
            rw [ih, hfirst]
        _ = ((e :: rest).reverse.lookup key).or (l.get? key) := by
            rw [List.reverse_cons, List.lookup_append, Option.or_assoc]

/-- From an empty ledger only the calls count. -/
theorem get?_recordAll_empty (calls : List LedgerEntry) (key : String) :
    (({} : Ledger).recordAll calls).get? key = calls.reverse.lookup key := by
  rw [get?_recordAll]
  exact Option.or_none

/-- A record is found if it is that of the last call with the name. -/
theorem get?_recordAll_eq_some_iff :
    (({} : Ledger).recordAll calls).get? key = some r ↔
      ∃ before after, calls = before ++ (key, r) :: after ∧ ∀ e ∈ after, e.1 ≠ key := by
  rw [get?_recordAll_empty, List.lookup_eq_some_iff]
  -- in the reversed calls the later ones stand in front
  constructor
  · rintro ⟨after, before, hcalls, hafter⟩
    refine ⟨before.reverse, after.reverse, ?_, ?_⟩
    · rw [← calls.reverse_reverse, hcalls]
      simp
    · intro e he
      exact (bne_iff_ne.mp (hafter e (List.mem_reverse.mp he))).symm
  · rintro ⟨before, after, rfl, hafter⟩
    refine ⟨after.reverse, before.reverse, by simp, ?_⟩
    intro e he
    exact bne_iff_ne.mpr (hafter e (List.mem_reverse.mp he)).symm

theorem get?_recordAll_eq_none_iff :
    (({} : Ledger).recordAll calls).get? key = none ↔ ∀ e ∈ calls, e.1 ≠ key := by
  rw [get?_recordAll_empty, List.lookup_eq_none_iff]
  simp only [List.mem_reverse, bne_iff_ne, ne_comm]

/-- Calls with different names come to the same ledger in any order. -/
theorem recordAll_eq_of_perm {calls' : List LedgerEntry} (l : Ledger) (h : calls.Perm calls')
    (hnames : (calls.map Prod.fst).Nodup) : l.recordAll calls = l.recordAll calls' := by
  refine h.foldl_eq' ?_ l
  intro e he e' he' l'
  -- two calls with the same name are one and the same call
  by_cases hname : e.1 = e'.1
  · rw [List.inj_on_of_nodup_map hnames he he' hname]
  · exact l'.record_comm hname e.2 e'.2

/-! ## The names -/

theorem mem_keys_iff : key ∈ l.keys ↔ (l.get? key).isSome = true := by
  rw [keys, get?, List.lookup_isSome_iff, List.mem_map]
  simp only [beq_iff_eq, @eq_comm _ key]

theorem contains_iff_mem_keys : l.contains key = true ↔ key ∈ l.keys := by
  rw [contains, keys, List.any_eq_true, List.mem_map]
  simp only [beq_iff_eq]

/-- The names of a ledger increase strictly. -/
theorem pairwise_keys (l : Ledger) : l.keys.Pairwise (· < ·) :=
  List.pairwise_map.mpr l.sorted

theorem nodup_keys (l : Ledger) : l.keys.Nodup := by
  refine l.pairwise_keys.imp ?_
  rintro a _ hlt rfl
  exact String.lt_irrefl a hlt

theorem mem_keys_recordAll_iff :
    key ∈ (({} : Ledger).recordAll calls).keys ↔ key ∈ calls.map Prod.fst := by
  rw [mem_keys_iff, ← not_iff_not, Bool.not_eq_true, Option.isSome_eq_false_iff,
    Option.isNone_iff_eq_none, get?_recordAll_eq_none_iff, List.mem_map, not_exists]
  simp only [not_and, ne_eq]

end Ledger

/-- A text comes before another one if its code points do. -/
theorem map_toNat_lt_of_lt {a b : String} (h : a < b) :
    a.toList.map Char.toNat < b.toList.map Char.toNat :=
  List.map_lt (fun _ _ hlt => hlt) (String.lt_iff.mp h)

/-- A ledger in which records were put shows under each name the record of the last call with that
name, and none under a name without a call. It contains the names under which it shows a record, and
lists them, each once, by code point, which is the order of their octets as well. Its size is the
number of different names of the calls, and it is empty if there was no call. A call changes what is
shown under its own name only. -/
theorem ledger_keeps_last_records (calls : List LedgerEntry) :
    let l := ({} : Ledger).recordAll calls
    (∀ key r, l.get? key = some r ↔
      ∃ before after, calls = before ++ (key, r) :: after ∧ ∀ e ∈ after, e.1 ≠ key) ∧
    (∀ key, l.get? key = none ↔ ∀ e ∈ calls, e.1 ≠ key) ∧
    (∀ key, (l.contains key = true ↔ (l.get? key).isSome = true) ∧
      (l.contains key = true ↔ key ∈ l.keys)) ∧
    (l.keys.Pairwise fun a b =>
      a.toList.map Char.toNat < b.toList.map Char.toNat ∧ Utf8.encode a < Utf8.encode b) ∧
    l.keys.Nodup ∧
    l.size = l.keys.length ∧ l.size = (calls.map Prod.fst).toFinset.card ∧
    (l.isEmpty = true ↔ calls = []) ∧
    ∀ (l' : Ledger) key r key', key' ≠ key → (l'.record key r).get? key' = l'.get? key' := by
  intro l
  have hsize : l.size = l.keys.length := (List.length_map _).symm
  have hnames : l.keys.toFinset = (calls.map Prod.fst).toFinset := by
    apply List.toFinset.ext
    intro key
    exact Ledger.mem_keys_recordAll_iff
  have hcard : l.size = (calls.map Prod.fst).toFinset.card := by
    rw [hsize, ← hnames, List.toFinset_card_of_nodup l.nodup_keys]
  refine ⟨fun key r => Ledger.get?_recordAll_eq_some_iff,
    fun key => Ledger.get?_recordAll_eq_none_iff, ?_, ?_, l.nodup_keys, hsize, hcard, ?_, ?_⟩
  · intro key
    exact ⟨Ledger.contains_iff_mem_keys.trans Ledger.mem_keys_iff, Ledger.contains_iff_mem_keys⟩
  · refine l.pairwise_keys.imp ?_
    intro a b hlt
    exact ⟨map_toNat_lt_of_lt hlt, Utf8.encode_lt_encode hlt⟩
  · have hempty : l.isEmpty = true ↔ l.size = 0 := by
      rw [Ledger.isEmpty, Ledger.size, List.isEmpty_iff, List.length_eq_zero_iff]
    rw [hempty, hcard, Finset.card_eq_zero, List.toFinset_eq_empty_iff, List.map_eq_nil_iff]
  · intro l' key r key' hne
    exact l'.get?_record_of_ne r hne

/-- Four calls, two of them under one name and one under that name in another case. A call under the
latter leaves what was recorded last under the former. -/
theorem ledger_keeps_last_records_four :
    let first : Record := { attempted := "1", raw := .single "1" }
    let second : Record := { attempted := "2,3", raw := .many ["2", "3"] }
    let calls : List LedgerEntry := [("b", first), ("\u00E9", first), ("b", second), ("B", first)]
    let l := ({} : Ledger).recordAll calls
    l.get? "b" = some second ∧ l.get? "a" = none ∧ l.contains "B" = true ∧
      l.keys = ["B", "b", "\u00E9"] ∧ l.size = 3 ∧ l.isEmpty = false ∧
      "b" ≠ "B" ∧ (l.record "B" second).get? "b" = some second := by
  intro first second calls l
  obtain ⟨hsome, hnone, hcontains, -, -, -, hsize, hempty, hother⟩ :=
    ledger_keeps_last_records calls
  have hne : "b" ≠ "B" := by decide
  have hb : l.get? "b" = some second :=
    (hsome "b" second).mpr ⟨[("b", first), ("\u00E9", first)], [("B", first)], rfl, by decide⟩
  have hkeys : l.keys = ["B", "b", "\u00E9"] := by decide +kernel
  refine ⟨hb, (hnone "a").mpr (by decide), (hcontains "B").2.mpr ?_, hkeys, ?_, ?_, hne,
    (hother l "B" second "b" hne).trans hb⟩
  · rw [hkeys]
    decide
  · rw [hsize]
    decide
  · exact Bool.not_eq_true _ |>.mp (mt hempty.mp nofun)

end TypedHeaders
