/-!
# Shapes of fields

The shape of a field says what its header is to become: one value or a collection of values, and of
which kind. A scalar kind can be read from one token. A complex element would need several fields,
so a shape with one is not eligible for binding from a single header (`isEligible_iff`).
-/

set_option autoImplicit false

namespace TypedHeaders

/-- The kinds of value that one token can be converted into. An enumeration lists its variants. -/
inductive ScalarKind where
  | text
  | integer
  | float
  | boolean
  | enumeration (variants : List String)
  deriving DecidableEq, Repr

/-- What a scalar field or each element of a collection is. -/
inductive Element where
  | simple (kind : ScalarKind)
  | complex
  deriving DecidableEq, Repr

/-- Whether one token can be converted into the element. -/
def Element.isSimple : Element → Bool
  | .simple _ => true
  | .complex => false

/-- The declared type of a collection. An abstraction is an interface of which no implementation is
known. -/
inductive Container where
  | array
  | sequence
  | list
  | linkedList
  | deque
  | abstraction (name : String)
  deriving DecidableEq, Repr

/-- Whether a contiguous sequence of texts already has the declared type. -/
def Container.acceptsSequence : Container → Bool
  | .array | .sequence => true
  | _ => false

/-- Whether the declared type has no known implementation. -/
def Container.isAbstract : Container → Bool
  | .abstraction _ => true
  | _ => false

/-- What a field is to become. -/
inductive Shape where
  | scalar (element : Element)
  | collection (container : Container) (element : Element)
  deriving DecidableEq, Repr

namespace Shape

/-- The field itself, or what each element of its collection is. -/
def element : Shape → Element
  | .scalar e => e
  | .collection _ e => e

/-- Whether the header of the field is cut into tokens. -/
def isCollection : Shape → Bool
  | .scalar _ => false
  | .collection _ _ => true

/-- Whether the field is a single text. -/
def isText : Shape → Bool
  | .scalar (.simple .text) => true
  | _ => false

/-- Whether a field of this shape may be bound from one header. -/
def isEligible (s : Shape) : Bool := s.element.isSimple

/-- Whether a contiguous sequence has the declared type; scalars have no such type. -/
def acceptsSequence? : Shape → Option Bool
  | .scalar _ => none
  | .collection c _ => some c.acceptsSequence

theorem isText_iff (s : Shape) : s.isText = true ↔ s = .scalar (.simple .text) := by
  unfold isText
  split
  · simp
  · next h => simpa using h

theorem isEligible_iff (s : Shape) : s.isEligible = true ↔ ∃ kind, s.element = .simple kind := by
  rw [isEligible]
  cases s.element with
  | simple kind => simp [Element.isSimple]
  | complex => simp [Element.isSimple]

/-- A shape is not eligible exactly if its element is complex. -/
theorem isEligible_eq_false_iff (s : Shape) : s.isEligible = false ↔ s.element = .complex := by
  rw [isEligible]
  cases s.element with
  | simple kind => simp [Element.isSimple]
  | complex => simp [Element.isSimple]

end Shape

end TypedHeaders
