import TypedHeaders.Proofs.MalformedOctets
import TypedHeaders.Proofs.OnePass
import TypedHeaders.Proofs.Stores

/-!
# Delimiters among malformed octets

The values of checked lines are octets, which are decoded before a list is cut. Malformed octets
leave the delimiters alone: the decoded text has its commas, double quotes and backslashes where the
octets have theirs, in one line and in lines that are joined (`delimiters_decoded`).

What the pass makes of the decoded text is measured against the octets themselves, each read as a
character of its own (`ofOctets`). The marks and the other ASCII items are the same there: a run of
octets beyond ASCII has no such item, and it decodes to one character at least, so a backslash in
front of it takes a character of the run and not the delimiter behind it.
-/

set_option autoImplicit false

namespace TypedHeaders.TokenList

open TypedHeaders.Text

/-! ## Characters beyond ASCII -/

/-- An ASCII item: a mark, or an ASCII character. -/
def Item.isAscii : Item → Bool
  | .mark => true
  | .quoted c => c.isAscii
  | .plain c => c.isAscii

/-- A character beyond ASCII is no delimiter, so it only ends an escape. -/
theorem next_of_beyond (q : Quoting) {c d : Char} (hc : c.isAscii = false)
    (hd : d.isAscii = false) : q.next c = q.next d ∧ (q.next c).next d = q.next c := by
  have hne : ∀ {x y : Char}, x.isAscii = false → y.isAscii = true → x ≠ y := by
    rintro x y hx hy rfl
    rw [hx] at hy
    cases hy
  have hquote : ∀ {x : Char}, x.isAscii = false → x ≠ '"' := fun hx => hne hx (by decide)
  have hbackslash : ∀ {x : Char}, x.isAscii = false → x ≠ '\\' := fun hx => hne hx (by decide)
  cases q with
  | outside => simp [Quoting.next, hquote hc, hquote hd]
  | inside => simp [Quoting.next, hquote hc, hquote hd, hbackslash hc, hbackslash hd]
  | escaped => simp [Quoting.next, hquote hd, hbackslash hd]

theorem foldl_next_of_beyond (q : Quoting) {c : Char} (hc : c.isAscii = false) {cs : List Char}
    (h : ∀ d ∈ cs, d.isAscii = false) : cs.foldl Quoting.next (q.next c) = q.next c := by
  induction cs with
  | nil => rfl
  | cons d rest ih =>
      have hd := h d List.mem_cons_self
      rw [List.foldl_cons, (next_of_beyond q hc hd).2]
      exact ih fun x hx => h x (List.mem_cons_of_mem d hx)

/-- All texts of characters beyond ASCII lead to the same place, the empty text apart. -/
theorem foldl_next_eq_of_beyond (q : Quoting) {cs ds : List Char}
    (hcs : ∀ c ∈ cs, c.isAscii = false) (hds : ∀ d ∈ ds, d.isAscii = false)
    (hnil : cs = [] ↔ ds = []) : cs.foldl Quoting.next q = ds.foldl Quoting.next q := by
  cases cs with
  | nil => rw [hnil.mp rfl]
  | cons c cs =>
      cases ds with
      | nil => cases hnil.mpr rfl
      | cons d ds =>
          have hc := hcs c List.mem_cons_self
          have hd := hds d List.mem_cons_self
          rw [List.foldl_cons, List.foldl_cons,
            foldl_next_of_beyond q hc fun x hx => hcs x (List.mem_cons_of_mem c hx),
            foldl_next_of_beyond q hd fun x hx => hds x (List.mem_cons_of_mem d hx),
            (next_of_beyond q hc hd).1]

theorem filter_items_of_beyond (q : Quoting) {cs : List Char} (h : ∀ c ∈ cs, c.isAscii = false) :
    (items q cs).filter Item.isAscii = [] := by
  induction cs generalizing q with
  | nil => rfl
  | cons c rest ih =>
      have hc := h c List.mem_cons_self
      have hitem : (itemOf? q c).toList.filter Item.isAscii = [] := by
        have hquote : c ≠ '"' := by
          rintro rfl
          cases hc
        cases q with
        | outside => simp [itemOf?, hquote, Item.isAscii, hc]
        | inside =>
            rw [itemOf?, if_neg hquote]
            split
            · rfl
            · simp [Item.isAscii, hc]
        | escaped => simp [itemOf?, Item.isAscii, hc]
      rw [items_cons, List.filter_append, hitem, List.nil_append]
      exact ih (q.next c) fun d hd => h d (List.mem_cons_of_mem c hd)

/-! ## Decoded texts -/

/-- The octets, each read as a character of its own. -/
def ofOctets (bs : List UInt8) : List Char := bs.map fun b => Char.ofNat b.toNat

theorem isAscii_of_mem_ofOctets {run : List UInt8} (h : ∀ b ∈ run, 0x80 ≤ b.toNat) :
    ∀ c ∈ ofOctets run, c.isAscii = false := by
  intro c hc
  obtain ⟨b, hb, rfl⟩ := List.mem_map.mp hc
  have hlt : b.toNat < 256 := b.toNat_lt
  exact Utf8.isAscii_ofNat (h b hb) (Or.inl (by omega))

/-- A decoded text has the same ASCII items as its octets. -/
theorem filter_items_decode (q : Quoting) (bs : List UInt8) :
    (items q (Utf8.decode bs).toList).filter Item.isAscii =
      (items q (ofOctets bs)).filter Item.isAscii := by
  induction bs using Utf8.runs_induction generalizing q with
  | beyond run hrun =>
      rw [filter_items_of_beyond q (Utf8.decode_of_beyond hrun).1,
        filter_items_of_beyond q (isAscii_of_mem_ofOctets hrun)]
  | ascii run b rest hrun hb ih =>
      obtain ⟨hchars, hnil⟩ := Utf8.decode_of_beyond hrun
      have hoctets := isAscii_of_mem_ofOctets hrun
      have hsplit : ofOctets (run ++ b :: rest) =
          ofOctets run ++ Char.ofNat b.toNat :: ofOctets rest := List.map_append
      -- the run ends in the same place, decoded or not
      have hends : (Utf8.decode run).toList.foldl Quoting.next q =
          (ofOctets run).foldl Quoting.next q := by
        apply foldl_next_eq_of_beyond q hchars hoctets
        rw [hnil, ofOctets, List.map_eq_nil_iff]
      rw [Utf8.toList_decode_append_ascii run rest hb, hsplit, items_append, items_append,
        List.filter_append, List.filter_append, filter_items_of_beyond q hchars,
        filter_items_of_beyond q hoctets, hends, items_cons, items_cons, List.filter_append,
        List.filter_append, ih]

end TypedHeaders.TokenList

namespace TypedHeaders.Header

open TypedHeaders.Text TypedHeaders.TokenList

/-! ## Lines -/

/-- The octets of the lines that have the name, in order. -/
def octetsOf (lines : List Line) (name : String) : List (List UInt8) :=
  (lines.filter fun l => sameName l.1 name).map fun l => l.2.toOctets

theorem textsOf_eq_map_decode (lines : List Line) (name : String) :
    textsOf lines name = (octetsOf lines name).map Utf8.decode := by
  rw [textsOf, octetsOf, List.map_map]
  apply List.map_congr_left
  intro l _
  exact l.2.decode_toOctets.symm

/-- Joining values by commas and decoding them go in any order. -/
theorem decode_intercalate (values : List (List UInt8)) :
    Utf8.decode ([0x2C].intercalate values) = ",".intercalate (values.map Utf8.decode) := by
  induction values with
  | nil => rfl
  | cons value rest ih =>
      cases rest with
      | nil => simp
      | cons next rest =>
          have hcomma : (Utf8.decode (value ++ 0x2C :: [0x2C].intercalate (next :: rest))).toList =
              (Utf8.decode value).toList ++ ',' ::
                (Utf8.decode ([0x2C].intercalate (next :: rest))).toList :=
            Utf8.toList_decode_append_ascii value _ (by decide)
          have hcons : [0x2C].intercalate (value :: next :: rest) =
              value ++ 0x2C :: [0x2C].intercalate (next :: rest) := by
            simp [List.intercalate_cons_cons]
          apply String.toList_inj.mp
          rw [hcons, hcomma, ih]
          simp [String.intercalate_cons_cons]

/-- An ASCII octet is decoded as itself, whatever octets stand around it, and an ASCII character of a
decoded text is such an octet. So the values of the lines of a store have the ASCII characters of
their octets, the joined value is decoded from the joined octets, and the pass finds the marks,
commas and other ASCII items of the octets in every decoded text. -/
theorem delimiters_decoded {kind : StoreKind} {lines : List Line} {h : HeaderStore}
    (hlines : HeaderStore.ofLines kind lines = .ok h) (name : String) :
    let raw := octetsOf lines name
    let ascii (b : UInt8) : Bool := b.toNat < 0x80
    let char (b : UInt8) : Char := Char.ofNat b.toNat
    (∀ front back b, ascii b = true →
      Utf8.decode (front ++ [b] ++ back) =
        Utf8.decode front ++ (char b).toString ++ Utf8.decode back) ∧
      (∀ bs before b behind, ascii b = true →
        ((Utf8.decode bs).toList = before ++ char b :: behind ↔
          ∃ front back, bs = front ++ b :: back ∧ (Utf8.decode front).toList = before ∧
            (Utf8.decode back).toList = behind)) ∧
      (∀ bs, (items .outside (Utf8.decode bs).toList).filter Item.isAscii =
        (items .outside (bs.map char)).filter Item.isAscii) ∧
      (h.getAll name).map (fun value => value.toList.filter Char.isAscii) =
        raw.map (fun bs => (bs.filter ascii).map char) ∧
      h.getJoined name =
        if raw.isEmpty then none else some (Utf8.decode ([0x2C].intercalate raw)) := by
  intro raw ascii char
  have hvalues : h.getAll name = raw.map Utf8.decode := by
    rw [HeaderStore.getAll_of_ofLines hlines, textsOf_eq_map_decode]
  refine ⟨?_, ?_, filter_items_decode .outside, ?_, ?_⟩
  · intro front back b hb
    apply String.toList_inj.mp
    have hparts := Utf8.toList_decode_append_ascii front back (of_decide_eq_true hb)
    rw [List.append_assoc, List.singleton_append, hparts]
    simp [char]
  · intro bs before b behind hb
    exact Utf8.decode_eq_append_cons_iff (of_decide_eq_true hb)
  · rw [hvalues, List.map_map]
    apply List.map_congr_left
    intro bs _
    exact Utf8.filter_isAscii_decode bs
  · rw [HeaderStore.getJoined, hvalues, List.isEmpty_map, decode_intercalate]

/-- A character is begun at the end of a line, behind a backslash in quotes, and would go on in the
next line. The backslash takes what stands for the broken character, and the comma that joins the
lines is in the quotes, which are closed in the second line. -/
theorem delimiters_decoded_broken_character :
    let lines : List Line := [("x", .octets [0x22, 0x5C, 0xC3]), ("x", .octets [0xA9, 0x22])]
    let h : HeaderStore := .table ⟨[("x", [0x22, 0x5C, 0xC3]), ("x", [0xA9, 0x22])]⟩
    let joined : List UInt8 := [0x22, 0x5C, 0xC3, 0x2C, 0xA9, 0x22]
    HeaderStore.ofLines .table lines = .ok h ∧
      Utf8.decode ([0x22, 0x5C, 0xC3] ++ [0x2C] ++ [0xA9, 0x22]) =
        "\"\\\uFFFD" ++ "," ++ "\uFFFD\"" ∧
      (∃ front back, joined = front ++ 0x2C :: back ∧
        (Utf8.decode front).toList = "\"\\\uFFFD".toList ∧
        (Utf8.decode back).toList = "\uFFFD\"".toList) ∧
      (items .outside (Utf8.decode joined).toList).filter Item.isAscii =
        [.mark, .quoted ',', .mark] ∧
      (h.getAll "x").map (fun value => value.toList.filter Char.isAscii) = [['"', '\\'], ['"']] ∧
      h.getJoined "x" = some "\"\\\uFFFD,\uFFFD\"" := by
  intro lines h joined
  have hstore : HeaderStore.ofLines .table lines = .ok h := by decide +kernel
  obtain ⟨hparts, hplaces, hitems, hvalues, hjoined⟩ := delimiters_decoded hstore "x"
  refine ⟨hstore, ?_, ?_, ?_, ?_, ?_⟩
  · rw [hparts _ _ _ (by decide)]
    decide +kernel
  · exact (hplaces joined _ 0x2C _ (by decide)).mp (by decide +kernel)
  · rw [hitems]
    decide +kernel
  · rw [hvalues]
    decide +kernel
  · rw [hjoined]
    decide +kernel

end TypedHeaders.Header
