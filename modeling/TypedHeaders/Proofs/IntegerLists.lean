import TypedHeaders.Proofs.RoundTrip
import TypedHeaders.Proofs.Provenance
import TypedHeaders.Proofs.Stores

/-!
# Lists of integers, from the lines to the value

Integers are written as decimal numerals and sent as a list: in any number of header lines, under
the name of the field in any case, with blanks around the numerals, and between lines of other
names. A field of integers that is bound from them by the converter has exactly these integers in
order, whatever 64-bit integers they are, and the ledger then holds their numerals
(`integers_bound`).

Each stage between the line and the value has its own law, and the theorem puts them together: the
store finds the lines (`HeaderStore.getAll_of_ofLines`), their tokens come one after another
(`split_intercalate`), a written list is read back (`split_ofList_write`), a numeral is read back
(`convert_text`), and what is converted is bound and filed (`value_converting`, `world_converting`).
-/

set_option autoImplicit false

/-! ## The text of an integer -/

namespace TypedHeaders.Number.Integer

open TypedHeaders.Text TypedHeaders.TokenList

theorem mem_write {n : Int} {c : Char} (h : c ∈ write n) : c = '-' ∨ c.isDigit = true := by
  have hdigits : ∀ d ∈ Nat.toDigits 10 n.natAbs, d.isDigit = true :=
    fun d hd => Nat.isDigit_of_mem_toDigits (by decide) (by decide) hd
  rw [write] at h
  split at h
  · rcases List.mem_cons.mp h with rfl | hdigit
    · exact Or.inl rfl
    · exact Or.inr (hdigits c hdigit)
  · exact Or.inr (hdigits c h)

theorem write_ne_nil (n : Int) : write n ≠ [] := by
  have hne : Nat.toDigits 10 n.natAbs ≠ [] := by
    rw [Nat.toDigits_eq_if (by decide)]
    split <;> simp
  rw [write]
  split
  · exact List.cons_ne_nil _ _
  · exact hne

theorem isBlank_of_isDigit {c : Char} (h : c.isDigit = true) : isBlank c = false := by
  have hdigit : 48 ≤ c.toNat ∧ c.toNat ≤ 57 := by
    simp [Char.isDigit] at h
    exact h
  simp [isBlank, blankRanges]
  omega

theorem isBlank_of_mem_write {n : Int} {c : Char} (h : c ∈ write n) : isBlank c = false := by
  rcases mem_write h with rfl | hdigit
  · decide
  · exact isBlank_of_isDigit hdigit

/-- A numeral may be written without quotes. -/
theorem mayBeBare_write (n : Int) : MayBeBare (write n) := by
  refine ⟨?_, ?_, ?_, ?_⟩
  · intro hquote
    rcases mem_write hquote with h | h
    · exact absurd h (by decide)
    · exact absurd h (by decide)
  · intro hcomma
    rcases mem_write hcomma with h | h
    · exact absurd h (by decide)
    · exact absurd h (by decide)
  · intro c hc
    exact isBlank_of_mem_write (List.mem_of_mem_head? hc)
  · intro c hc
    exact isBlank_of_mem_write (List.mem_of_mem_getLast? hc)

end TypedHeaders.Number.Integer

namespace TypedHeaders

open TypedHeaders.Header TypedHeaders.Text TypedHeaders.TokenList TypedHeaders.Number Binding

/-- The text of an integer is converted to it. -/
theorem convert_text (n : Int64) : convert .integer (Integer.text n) = .ok (.integer n) := by
  obtain ⟨-, -, hfirst, hlast⟩ := Integer.mayBeBare_write n.toInt
  have hread : Integer.readWord? (trimList (Integer.text n).toList) = some n := by
    rw [Integer.text, String.toList_ofList, trimList_eq_self hfirst hlast, Integer.readWord_write]
  unfold convert
  dsimp only
  rw [hread]

theorem convertAll_map_text (modelName : String) (xs : List Int64) :
    convertAll .integer modelName (xs.map Integer.text) = .ok (xs.map .integer) := by
  rw [convertAll_eq_ok_iff, List.map_map, List.map_map]
  apply List.map_congr_left
  intro n _
  rw [Function.comp_apply, Function.comp_apply, convert_text]

/-! ## Lines -/

/-- An integer as it stands in a line, with the blanks around its text. -/
structure Numeral where
  value : Int64
  front : List Char
  back : List Char
  front_blank : ∀ c ∈ front, isBlank c = true
  back_blank : ∀ c ∈ back, isBlank c = true

namespace Numeral

/-- The numeral as an item of a list. -/
def cell (x : Numeral) : Cell :=
  { token := Integer.write x.value.toInt, form := .bare, front := x.front, back := x.back }

/-- The line that lists the numerals. -/
def line (xs : List Numeral) : String := String.ofList (write (xs.map cell))

theorem wellFormed_of_mem {xs : List Numeral} : ∀ c ∈ xs.map cell, c.WellFormed := by
  intro c hc
  obtain ⟨x, -, rfl⟩ := List.mem_map.mp hc
  exact ⟨Integer.write_ne_nil _, fun _ => Integer.mayBeBare_write _, x.front_blank, x.back_blank⟩

/-- The tokens of lines that list numerals are the texts of all their values, in order. -/
theorem split_lines (groups : List (List Numeral)) :
    split (",".intercalate (groups.map line)) =
      (groups.flatten.map value).map Integer.text := by
  have hclosed : ∀ l ∈ (groups.map line).dropLast, IsClosed l := by
    intro l hl
    obtain ⟨xs, -, rfl⟩ := List.mem_map.mp (List.dropLast_subset _ hl)
    exact isClosed_write wellFormed_of_mem
  have hline : ∀ xs, split (line xs) = (xs.map value).map Integer.text := by
    intro xs
    rw [line, split_ofList_write wellFormed_of_mem, List.map_map, List.map_map]
    rfl
  rw [split_intercalate hclosed, List.flatMap_map, List.map_flatten, List.map_flatten,
    List.map_map, ← List.flatMap_def]
  exact List.flatMap_congr fun xs _ => hline xs

end Numeral

/-! ## Binding -/

/-- Integers that are sent as lists in one or more lines, under the name of a field in any case and
between lines of other names, are bound by the converter to exactly the list of these integers: at
top level, or anywhere if there is an integer at all. The ledger then holds their texts under the
model name of the field, and nothing else has changed. -/
theorem integers_bound {kind : StoreKind} {lines : List Line} {groups : List (List Numeral)}
    {container : Container} {w : World} (sink : Option Sink)
    (hstore : HeaderStore.ofLines kind lines = .ok w.context.headers)
    (hlines : textsOf lines w.context.field.name = groups.map Numeral.line)
    (hgroups : groups ≠ [])
    (hshape : w.context.field.shape = .collection container (.simple .integer))
    (hcontainer : container.isAbstract = false)
    (haccess : w.context.field.access = .assignable)
    (htop : w.context.topLevel = true ∨ groups.flatten ≠ []) :
    let xs := groups.flatten.map Numeral.value
    let texts := xs.map Integer.text
    let report := (Binder.composed .converter sink).run w
    report.value.outcome = .bound (.success (.list (xs.map .integer))) ∧
      report.world =
        { w with
          ledger := w.ledger.record w.context.field.modelName
            { attempted := ",".intercalate texts, raw := .many texts } } := by
  intro xs texts report
  have hgetAll : w.context.headers.getAll w.context.field.name = groups.map Numeral.line :=
    (HeaderStore.getAll_of_ofLines hstore _).trans hlines
  -- a line without integers is a line too, so the header is there
  have hpresent : w.context.extraction.present = true := by
    rw [Context.extraction, present_extract, HeaderStore.contains_eq_not_isEmpty, hgetAll]
    simpa using hgroups
  have hsplit : split w.context.joined = texts := by
    rw [Context.joined, hgetAll]
    exact Numeral.split_lines groups
  have htokens : w.context.extraction.tokens = texts := by
    rw [Context.tokens_collection hpresent hshape, hsplit]
  have houtcome : w.context.convertedOutcome = .bound (.success (.list (xs.map .integer))) := by
    apply Context.convertedOutcome_of_list hpresent hshape (by decide) hcontainer haccess
    · rw [htokens]
      simpa [texts, xs] using htop
    · rw [htokens]
      exact convertAll_map_text _ xs
  obtain ⟨hvalue, hworld⟩ := announced_value_world sink (composed (unseen converter)) w
  constructor
  · show ((Binder.composed .converter sink).run w).value.outcome = _
    rw [Binder.run, Delegate.run, hvalue, value_converting]
    exact houtcome
  · -- what is bound is filed, and a destination that may be assigned loses nothing
    have hfiles : w.context.files w.context.convertedOutcome = true := by
      rw [Context.files, hpresent, houtcome]
      rfl
    show ((Binder.composed .converter sink).run w).world = _
    rw [Binder.run, Delegate.run, hworld, world_converting, w.taken_of_assignable _ haccess,
      World.filed, hfiles, if_pos rfl, Context.record_collection hpresent hshape, hsplit]

/-- Both ends of the range in two lines with blanks around them, a line without integers between
them, and a line of another name that opens a quote. -/
theorem integers_bound_three_lines :
    let lines : List Line :=
      [("x-n", .text "\t-9223372036854775808 , 0"), ("Other", .text "\""), ("X-N", .text ""),
        ("X-n", .text "\u30009223372036854775807")]
    let least : Numeral :=
      ⟨-9223372036854775808, ['\t'], [' '], List.all_eq_true.mp rfl, List.all_eq_true.mp rfl⟩
    let zero : Numeral := ⟨0, [' '], [], List.all_eq_true.mp rfl, nofun⟩
    let greatest : Numeral :=
      ⟨9223372036854775807, ['\u3000'], [], List.all_eq_true.mp rfl, nofun⟩
    let groups := [[least, zero], [], [greatest]]
    let w : World :=
      { context :=
          { headers := .owned ⟨lines.map fun l => (l.1, l.2.toText)⟩
            field := { name := "X-N", modelName := "n",
                       shape := .collection .deque (.simple .integer), access := .assignable }
            topLevel := false } }
    let report := (Binder.composed .converter (some .tracing)).run w
    HeaderStore.ofLines .owned lines = .ok w.context.headers ∧
      textsOf lines w.context.field.name = groups.map Numeral.line ∧ groups ≠ [] ∧
      w.context.field.shape = .collection .deque (.simple .integer) ∧
      Container.deque.isAbstract = false ∧ w.context.field.access = .assignable ∧
      groups.flatten ≠ [] ∧
      report.value.outcome = .bound (.success (.list [.integer (-9223372036854775808), .integer 0,
        .integer 9223372036854775807])) ∧
      report.world =
        { w with
          ledger := w.ledger.record "n"
            { attempted := "-9223372036854775808,0,9223372036854775807",
              raw := .many ["-9223372036854775808", "0", "9223372036854775807"] } } := by
  intro lines least zero greatest groups w report
  have hstore : HeaderStore.ofLines .owned lines = .ok w.context.headers := rfl
  have hlines : textsOf lines w.context.field.name = groups.map Numeral.line := by
    rw [textsOf]
    simp only [sameName_eq_beq]
    decide +kernel
  have hgroups : groups ≠ [] := List.cons_ne_nil _ _
  have hintegers : groups.flatten ≠ [] := List.cons_ne_nil _ _
  have htexts : (groups.flatten.map Numeral.value).map Integer.text =
      ["-9223372036854775808", "0", "9223372036854775807"] := by decide +kernel
  obtain ⟨houtcome, hworld⟩ := integers_bound (some .tracing) hstore hlines hgroups rfl rfl rfl
    (Or.inr hintegers)
  refine ⟨hstore, hlines, hgroups, rfl, rfl, rfl, hintegers, houtcome, ?_⟩
  rw [htexts] at hworld
  exact hworld

end TypedHeaders
