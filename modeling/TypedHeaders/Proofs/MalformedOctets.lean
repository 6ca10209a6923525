import TypedHeaders.Text.Utf8
import Mathlib.Algebra.Group.Nat.Defs
import Mathlib.Data.String.Defs

/-!
# Octets beyond ASCII

Lossy decoding reads any octets, well formed or not. Octets beyond ASCII never come out as an ASCII
character, whatever they are, and never as nothing (`decode_of_beyond`): a character that is begun
with one of them is completed to a character from U+0080 on, or it is broken off and gives U+FFFD.

The octets of a text are runs of octets beyond ASCII, parted by single ASCII octets
(`runs_induction`), and a run is decoded apart from what stands before and behind it. So the ASCII
characters of a decoded text are the ASCII octets, each in its place (`filter_isAscii_decode`,
`decode_eq_append_cons_iff`).
-/

set_option autoImplicit false

namespace TypedHeaders.Text.Utf8

/-! ## What a begun character can become -/

/-- The least code point that a begun character can become. -/
def Begun.floor (p : Begun) : Nat := (p.bits * 64 + (p.least - 0x80)) * 64 ^ (p.owed - 1)

/-- The first code point above all that a begun character can become. -/
def Begun.bound (p : Begun) : Nat := (p.bits * 64 + (p.greatest - 0x80) + 1) * 64 ^ (p.owed - 1)

/-- A begun character becomes one beyond ASCII, whatever octets within bounds complete it. -/
structure Begun.Sound (p : Begun) : Prop where
  beyond : 0x80 ≤ p.floor
  isChar : p.bound ≤ 0xD800 ∨ 0xE000 ≤ p.floor ∧ p.bound ≤ 0x110000

/-- An octet that is read puts out characters beyond ASCII only, and what it begins is sound. It puts
out a character or begins one. -/
structure Decoded.Beyond (d : Decoded) : Prop where
  chars : ∀ c ∈ d.1, c.isAscii = false
  sound : ∀ p, d.2 = some p → p.Sound
  some : d.1 ≠ [] ∨ d.2.isSome

theorem isAscii_replacement : replacement.isAscii = false := by decide

theorem isAscii_ofNat {n : Nat} (h : 0x80 ≤ n)
    (hchar : n < 0xD800 ∨ 0xE000 ≤ n ∧ n < 0x110000) : (Char.ofNat n).isAscii = false := by
  have hvalid : n.isValidChar := by
    rcases hchar with hlow | ⟨hhigh, hlast⟩
    · exact Or.inl hlow
    · exact Or.inr ⟨by omega, hlast⟩
  have hcode : (Char.ofNat n).toNat = n := by
    rw [Char.ofNat, dif_pos hvalid]
    rfl
  rw [Char.isAscii, hcode]
  exact decide_eq_false (by omega)

/-- A character that owes no more octets than the one that is read is complete, and any other one is
narrowed down. -/
theorem Begun.Sound.extend {p : Begun} (h : p.Sound) {b : UInt8} (hleast : p.least ≤ b.toNat)
    (hgreatest : b.toNat ≤ p.greatest) : Decoded.Beyond (p.extend b) := by
  have hascii := p.ascii_lt_least
  have hlow : p.floor ≤ (p.bits * 64 + (b.toNat - 0x80)) * 64 ^ (p.owed - 1) :=
    Nat.mul_le_mul_right _ (by omega)
  have hhigh : (p.bits * 64 + (b.toNat - 0x80) + 1) * 64 ^ (p.owed - 1) ≤ p.bound :=
    Nat.mul_le_mul_right _ (by omega)
  have hbeyond := h.beyond
  have hchar := h.isChar
  rw [Begun.extend]
  by_cases howed : p.owed ≤ 1
  · rw [if_pos howed]
    have hpower : 64 ^ (p.owed - 1) = 1 := by rw [Nat.sub_eq_zero_of_le howed, Nat.pow_zero]
    rw [hpower, Nat.mul_one] at hlow hhigh
    refine ⟨?_, nofun, Or.inl (List.cons_ne_nil _ _)⟩
    intro c hc
    rw [List.mem_singleton.mp hc]
    exact isAscii_ofNat (by omega) (by omega)
  · rw [if_neg howed]
    refine ⟨nofun, ?_, Or.inr rfl⟩
    intro q hq
    have hq := Option.some.inj hq
    -- each octet that is still owed brings six bits
    have hpower : 64 ^ (p.owed - 1) = 64 * 64 ^ (p.owed - 1 - 1) := by
      rw [← Nat.pow_succ', Nat.succ_eq_add_one, Nat.sub_add_cancel (by omega)]
    have hfloor : q.floor = (p.bits * 64 + (b.toNat - 0x80)) * 64 ^ (p.owed - 1) := by
      rw [← hq, Begun.floor]
      dsimp only
      rw [Nat.sub_self, Nat.add_zero, hpower, Nat.mul_assoc]
    have hbound : q.bound = (p.bits * 64 + (b.toNat - 0x80) + 1) * 64 ^ (p.owed - 1) := by
      have hbits : (p.bits * 64 + (b.toNat - 0x80)) * 64 + 63 + 1 =
          (p.bits * 64 + (b.toNat - 0x80) + 1) * 64 := by omega
      rw [← hq, Begun.bound]
      dsimp only
      rw [hbits, hpower, Nat.mul_assoc]
    rw [← hfloor] at hlow
    rw [← hbound] at hhigh
    exact ⟨Nat.le_trans hbeyond hlow, by omega⟩

/-- What an octet beyond ASCII begins is sound; one that can begin nothing is replaced. -/
theorem first_beyond {b : UInt8} (h : 0x80 ≤ b.toNat) : Decoded.Beyond (first b) := by
  have hbegins : ∀ p : Begun, p.Sound → Decoded.Beyond ([], some p) := by
    intro p hp
    refine ⟨nofun, ?_, Or.inr rfl⟩
    intro q hq
    rw [← Option.some.inj hq]
    exact hp
  have hreplaced : Decoded.Beyond ([replacement], none) := by
    refine ⟨?_, nofun, Or.inl (List.cons_ne_nil _ _)⟩
    intro c hc
    rw [List.mem_singleton.mp hc]
    exact isAscii_replacement
  unfold first
  dsimp only
  generalize b.toNat = n at h
  rw [if_neg (by omega)]
  -- one case for each form of a first octet
  iterate 7
    split
    · apply hbegins
      constructor
      · simp only [Begun.floor]
        omega
      · simp only [Begun.floor, Begun.bound]
        omega
  exact hreplaced

theorem step_beyond {p : Option Begun} (hp : ∀ q, p = some q → q.Sound) {b : UInt8}
    (h : 0x80 ≤ b.toNat) : Decoded.Beyond (step p b) := by
  have hfirst := first_beyond h
  cases p with
  | none => exact hfirst
  | some q =>
      rw [step]
      split
      · next hbounds => exact (hp q rfl).extend hbounds.1 hbounds.2
      · refine ⟨?_, hfirst.sound, Or.inl (List.cons_ne_nil _ _)⟩
        intro c hc
        rcases List.mem_cons.mp hc with rfl | hmem
        · exact isAscii_replacement
        · exact hfirst.chars c hmem

/-! ## Runs of octets beyond ASCII -/

/-- Octets beyond ASCII come out as characters beyond ASCII, and as one at least. -/
theorem decodeFrom_of_beyond {p : Option Begun} (hp : ∀ q, p = some q → q.Sound)
    {run : List UInt8} (h : ∀ b ∈ run, 0x80 ≤ b.toNat) :
    (∀ c ∈ decodeFrom p run, c.isAscii = false) ∧
      (p.isSome ∨ run ≠ [] → decodeFrom p run ≠ []) := by
  induction run generalizing p with
  | nil =>
      rw [decodeFrom_nil]
      cases p with
      | none => simp [flush]
      | some q => simp [flush, isAscii_replacement]
  | cons b rest ih =>
      have hstep := step_beyond hp (h b List.mem_cons_self)
      obtain ⟨hchars, hsome⟩ := ih hstep.sound fun a ha => h a (List.mem_cons_of_mem b ha)
      rw [decodeFrom_cons]
      constructor
      · intro c hc
        rcases List.mem_append.mp hc with hout | hlater
        · exact hstep.chars c hout
        · exact hchars c hlater
      · intro _ hnil
        obtain ⟨hout, hlater⟩ := List.append_eq_nil_iff.mp hnil
        rcases hstep.some with hnow | hbegun
        · exact hnow hout
        · exact hsome (Or.inl hbegun) hlater

/-- Octets beyond ASCII come out as characters beyond ASCII, and as none only if there are none. -/
theorem decode_of_beyond {run : List UInt8} (h : ∀ b ∈ run, 0x80 ≤ b.toNat) :
    (∀ c ∈ (decode run).toList, c.isAscii = false) ∧ ((decode run).toList = [] ↔ run = []) := by
  obtain ⟨hchars, hsome⟩ := decodeFrom_of_beyond (p := none) nofun h
  rw [toList_decode]
  refine ⟨hchars, ?_⟩
  constructor
  · intro hnil
    exact Classical.byContradiction fun hrun => hsome (Or.inr hrun) hnil
  · rintro rfl
    rfl

/-- Octets are a run beyond ASCII, or such a run, an ASCII octet, and octets again. -/
@[elab_as_elim]
theorem runs_induction {motive : List UInt8 → Prop}
    (beyond : ∀ run, (∀ b ∈ run, 0x80 ≤ b.toNat) → motive run)
    (ascii : ∀ run b rest, (∀ a ∈ run, 0x80 ≤ a.toNat) → b.toNat < 0x80 → motive rest →
      motive (run ++ b :: rest)) (bs : List UInt8) : motive bs := by
  have hafter : ∀ run : List UInt8, (∀ a ∈ run, 0x80 ≤ a.toNat) → motive (run ++ bs) := by
    induction bs with
    | nil =>
        intro run hrun
        rw [List.append_nil]
        exact beyond run hrun
    | cons b rest ih =>
        intro run hrun
        by_cases hb : b.toNat < 0x80
        · exact ascii run b rest hrun hb (ih [] nofun)
        · rw [List.append_cons]
          apply ih
          intro a ha
          rcases List.mem_append.mp ha with hold | hnew
          · exact hrun a hold
          · rw [List.mem_singleton.mp hnew]
            omega
  exact hafter [] nofun

/-! ## ASCII characters of a decoded text -/

theorem toNat_ofNat_ascii {n : Nat} (h : n < 0x80) : (Char.ofNat n).toNat = n := by
  have hvalid : n.isValidChar := Or.inl (by omega)
  rw [Char.ofNat, dif_pos hvalid]
  rfl

theorem isAscii_ofNat_ascii {n : Nat} (h : n < 0x80) : (Char.ofNat n).isAscii = true := by
  rw [Char.isAscii, toNat_ofNat_ascii h]
  exact decide_eq_true h

theorem filter_isAscii_of_beyond {cs : List Char} (h : ∀ c ∈ cs, c.isAscii = false) :
    cs.filter Char.isAscii = [] := by
  apply List.filter_eq_nil_iff.mpr
  intro c hc
  rw [h c hc]
  exact Bool.false_ne_true

theorem filter_octets_of_beyond {run : List UInt8} (h : ∀ b ∈ run, 0x80 ≤ b.toNat) :
    (run.filter fun b => b.toNat < 0x80) = [] := by
  apply List.filter_eq_nil_iff.mpr
  intro b hb
  simpa using h b hb

/-- The ASCII characters of a decoded text are its ASCII octets, in order. -/
theorem filter_isAscii_decode (bs : List UInt8) :
    (decode bs).toList.filter Char.isAscii =
      (bs.filter fun b => b.toNat < 0x80).map fun b => Char.ofNat b.toNat := by
  induction bs using runs_induction with
  | beyond run hrun =>
      rw [filter_isAscii_of_beyond (decode_of_beyond hrun).1, filter_octets_of_beyond hrun]
      rfl
  | ascii run b rest hrun hb ih =>
      rw [toList_decode_append_ascii run rest hb, List.filter_append, List.filter_append,
        filter_isAscii_of_beyond (decode_of_beyond hrun).1, filter_octets_of_beyond hrun,
        List.filter_cons_of_pos (isAscii_ofNat_ascii hb), ih]
      simp [hb]

/-- A character that is not in the first part of a text is the one behind that part, or comes
later. -/
theorem eq_or_exists_of_append_cons {first rest before behind : List Char} {a c : Char}
    (hc : c ∉ first) (h : first ++ a :: rest = before ++ c :: behind) :
    (before = first ∧ a = c ∧ rest = behind) ∨
      ∃ more, before = first ++ a :: more ∧ rest = more ++ c :: behind := by
  induction first generalizing before with
  | nil =>
      cases before with
      | nil =>
          obtain ⟨ha, hrest⟩ := List.cons.inj h
          exact Or.inl ⟨rfl, ha, hrest⟩
      | cons d more =>
          obtain ⟨rfl, hrest⟩ := List.cons.inj h
          exact Or.inr ⟨more, rfl, hrest⟩
  | cons x first ih =>
      obtain ⟨hx, hfirst⟩ := not_or.mp (mt List.mem_cons.mpr hc)
      cases before with
      | nil =>
          obtain ⟨hsame, -⟩ := List.cons.inj h
          exact absurd hsame.symm hx
      | cons d before =>
          obtain ⟨rfl, htail⟩ := List.cons.inj h
          rcases ih hfirst htail with ⟨rfl, ha, hrest⟩ | ⟨more, rfl, hrest⟩
          · exact Or.inl ⟨rfl, ha, hrest⟩
          · exact Or.inr ⟨more, rfl, hrest⟩

/-- Where an ASCII character stands in a decoded text, its octet stands, and the octets before it and
behind it are those of the text before it and behind it. -/
theorem decode_eq_append_cons_iff {bs : List UInt8} {b : UInt8} (hb : b.toNat < 0x80)
    {before behind : List Char} :
    (decode bs).toList = before ++ Char.ofNat b.toNat :: behind ↔
      ∃ front back, bs = front ++ b :: back ∧ (decode front).toList = before ∧
        (decode back).toList = behind := by
  have hnot : ∀ run : List UInt8, (∀ a ∈ run, 0x80 ≤ a.toNat) →
      Char.ofNat b.toNat ∉ (decode run).toList := by
    intro run hrun hmem
    have hbeyond := (decode_of_beyond hrun).1 _ hmem
    rw [isAscii_ofNat_ascii hb] at hbeyond
    cases hbeyond
  constructor
  · intro h
    induction bs using runs_induction generalizing before with
    | beyond run hrun => exact absurd (by simp [h]) (hnot run hrun)
    | ascii run a rest hrun ha ih =>
        rw [toList_decode_append_ascii run rest ha] at h
        rcases eq_or_exists_of_append_cons (hnot run hrun) h with
          ⟨rfl, hsame, rfl⟩ | ⟨more, rfl, hrest⟩
        · have hcode := congrArg Char.toNat hsame
          rw [toNat_ofNat_ascii ha, toNat_ofNat_ascii hb] at hcode
          rw [UInt8.toNat_inj.mp hcode]
          exact ⟨run, rest, rfl, rfl, rfl⟩
        · obtain ⟨front, back, rfl, rfl, rfl⟩ := ih hrest
          refine ⟨run ++ a :: front, back, ?_, toList_decode_append_ascii run front ha, rfl⟩
          rw [List.append_assoc, List.cons_append]
  · rintro ⟨front, back, rfl, rfl, rfl⟩
    exact toList_decode_append_ascii front back hb

end TypedHeaders.Text.Utf8
