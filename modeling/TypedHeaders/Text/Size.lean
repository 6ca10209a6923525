/-!
# Sizes and cuts in UTF-8 octets

`size` counts the octets of a text and `takeOctets` keeps as much of a text as fits into a number of
octets, never a part of a character. A number is a boundary of a text (`IsBoundary`) when it is the
size of a text that the text begins with; a cut at a boundary keeps exactly that many octets
(`size_takeOctets`).
-/

set_option autoImplicit false

namespace TypedHeaders.Text

/-- The number of UTF-8 octets of the characters. -/
def size : List Char → Nat
  | [] => 0
  | c :: cs => c.utf8Size + size cs

/-- The longest beginning of the characters that has at most `n` octets. -/
def takeOctets : Nat → List Char → List Char
  | _, [] => []
  | n, c :: cs => if c.utf8Size ≤ n then c :: takeOctets (n - c.utf8Size) cs else []

/-- A text cut after at most `n` octets. -/
def cut (s : String) (n : Nat) : String := String.ofList (takeOctets n s.toList)

/-- A number of octets after which a text may be cut without breaking a character. -/
def IsBoundary (cs : List Char) (n : Nat) : Prop :=
  ∃ front back, cs = front ++ back ∧ size front = n

@[simp] theorem toList_cut (s : String) (n : Nat) : (cut s n).toList = takeOctets n s.toList := by
  simp [cut]

@[simp] theorem size_append (as bs : List Char) : size (as ++ bs) = size as + size bs := by
  induction as with
  | nil => simp [size]
  | cons a rest ih => simp [size, ih, Nat.add_assoc]

/-- The library's own count of octets is the size of the characters. -/
theorem utf8ByteSize_ofList (cs : List Char) : (String.ofList cs).utf8ByteSize = size cs := by
  induction cs with
  | nil => rfl
  | cons c rest ih =>
      have : String.ofList (c :: rest) = String.singleton c ++ String.ofList rest := by
        apply String.toList_inj.mp
        simp
      rw [this, String.utf8ByteSize_append, String.utf8ByteSize_singleton, ih, size]

theorem utf8ByteSize_eq_size (s : String) : s.utf8ByteSize = size s.toList := by
  rw [← utf8ByteSize_ofList, String.ofList_toList]

/-- Cutting after the size of a beginning keeps that beginning. -/
theorem takeOctets_append (front back : List Char) :
    takeOctets (size front) (front ++ back) = front ++ takeOctets 0 back := by
  induction front with
  | nil => simp [size]
  | cons c rest ih => simp [size, takeOctets, ih]

theorem takeOctets_zero (cs : List Char) : takeOctets 0 cs = [] := by
  cases cs with
  | nil => rfl
  | cons c rest => simp [takeOctets, Nat.not_le.mpr c.utf8Size_pos]

/-- A cut at a boundary keeps the characters in front of it. -/
theorem takeOctets_size_append (front back : List Char) :
    takeOctets (size front) (front ++ back) = front := by
  rw [takeOctets_append, takeOctets_zero, List.append_nil]

/-- A cut at a boundary keeps exactly that many octets. -/
theorem size_takeOctets {cs : List Char} {n : Nat} (h : IsBoundary cs n) :
    size (takeOctets n cs) = n := by
  obtain ⟨front, back, rfl, rfl⟩ := h
  rw [takeOctets_size_append]

/-- A boundary is at most the size of the text. -/
theorem IsBoundary.le_size {cs : List Char} {n : Nat} (h : IsBoundary cs n) : n ≤ size cs := by
  obtain ⟨front, back, rfl, rfl⟩ := h
  simp

end TypedHeaders.Text
