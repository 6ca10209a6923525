import TypedHeaders.Value.TextCollection

/-!
# Values and outcomes of binding

A `Value` is what a field is bound to. A `Bound` says how binding went when nothing was wrong with
the header: the value, if there is one, and whether the header was there.

Values are compared with `==`, under which numbers compare as IEEE 754 asks: no number differs from
itself, and the two zeros are equal.
-/

set_option autoImplicit false

namespace TypedHeaders

/-- A typed value. -/
inductive Value where
  | text (s : String)
  | integer (n : Int64)
  | float (x : Float)
  | boolean (b : Bool)
  | enumeration (variant : String)
  | strings (t : TextCollection)
  | list (items : List Value)

namespace Value

mutual

/-- Whether two values are equal. -/
def same : Value → Value → Bool
  | .text a, .text b => a == b
  | .integer a, .integer b => a == b
  | .float a, .float b => a == b
  | .boolean a, .boolean b => a == b
  | .enumeration a, .enumeration b => a == b
  | .strings a, .strings b => a == b
  | .list as, .list bs => sameAll as bs
  | _, _ => false

/-- Whether two lists of values are equal, element by element. -/
def sameAll : List Value → List Value → Bool
  | [], [] => true
  | a :: as, b :: bs => same a b && sameAll as bs
  | _, _ => false

end

instance : BEq Value := ⟨same⟩

end Value

/-- The outcome of binding a field: its value if one was bound, and whether its header was there. -/
structure Bound where
  model : Option Value
  attempted : Bool

namespace Bound

/-- The header gave a value. -/
def success (v : Value) : Bound := { model := some v, attempted := true }

/-- The header is there but gives no value. -/
def failed : Bound := { model := none, attempted := true }

/-- The header is missing. -/
def absent : Bound := { model := none, attempted := false }

/-- Whether a value was bound. -/
def isSet (b : Bound) : Bool := b.model.isSome

end Bound

end TypedHeaders
