import TypedHeaders.Field.Shape
import TypedHeaders.Header.Store

/-!
# The tokens that a field takes from its header

A scalar field takes the joined value of its header as one token, commas and all. A collection takes
the tokens into which the joined value is cut. `Extraction` also remembers whether the header was
there at all, so a header without tokens is told apart from a missing one (`present_extract`).
-/

set_option autoImplicit false

namespace TypedHeaders

open TypedHeaders.Header

/-- How the tokens were taken from the joined value of the header. -/
inductive Reading where
  | whole
  | split
  deriving DecidableEq, Repr

/-- The tokens taken from a header, how they were taken, and whether the header was there. -/
structure Extraction where
  tokens : List String
  reading : Reading
  present : Bool
  deriving DecidableEq, Repr

namespace Extraction

/-- What a missing header gives. -/
def absent : Extraction := { tokens := [], reading := .whole, present := false }

/-- Take the tokens of a joined header value, as the shape asks. -/
def ofJoined (joined : String) (shape : Shape) : Extraction :=
  if shape.isCollection then
    { tokens := TokenList.split joined, reading := .split, present := true }
  else { tokens := [joined], reading := .whole, present := true }

theorem ofJoined_scalar (joined : String) (element : Element) :
    ofJoined joined (.scalar element) =
      { tokens := [joined], reading := .whole, present := true } :=
  rfl

theorem ofJoined_collection (joined : String) (container : Container) (element : Element) :
    ofJoined joined (.collection container element) =
      { tokens := TokenList.split joined, reading := .split, present := true } :=
  rfl

/-- The tokens joined by commas, as they are shown to a person. -/
def attempted (x : Extraction) : String := ",".intercalate x.tokens

end Extraction

/-- Take the tokens of a header from a store, as the shape asks. -/
def extract (headers : HeaderStore) (name : String) (shape : Shape) : Extraction :=
  match headers.getJoined name with
  | none => .absent
  | some joined => .ofJoined joined shape

/-- The header counts as present exactly if it has a line. -/
theorem present_extract (headers : HeaderStore) (name : String) (shape : Shape) :
    (extract headers name shape).present = headers.contains name := by
  rw [← headers.isSome_getJoined name, extract]
  cases headers.getJoined name with
  | none => rfl
  | some joined =>
      show (Extraction.ofJoined joined shape).present = true
      rw [Extraction.ofJoined]
      split
      · rfl
      · rfl

/-- A missing header gives nothing, whatever the shape. -/
theorem extract_eq_absent {headers : HeaderStore} {name : String}
    (h : headers.contains name = false) (shape : Shape) :
    extract headers name shape = .absent := by
  rw [extract]
  have hjoined : headers.getJoined name = none := by
    apply Option.not_isSome_iff_eq_none.mp
    rw [headers.isSome_getJoined name, h]
    exact Bool.false_ne_true
  rw [hjoined]

/-- A header that is there is read from the joined values of its lines. -/
theorem extract_eq_ofJoined {headers : HeaderStore} {name : String}
    (h : headers.contains name = true) (shape : Shape) :
    extract headers name shape = .ofJoined (",".intercalate (headers.getAll name)) shape := by
  rw [extract, HeaderStore.getJoined_of_contains h]

end TypedHeaders
