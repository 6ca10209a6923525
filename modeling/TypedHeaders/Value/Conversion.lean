import TypedHeaders.Field.Shape
import TypedHeaders.Number.Binary64
import TypedHeaders.Text.AsciiCase
import TypedHeaders.Text.Blank
import TypedHeaders.Value.Basic

/-!
# Converting tokens into values

`convert` turns one token into a value of a scalar kind, or names the fault. A text is taken as it
is; every other kind looks at the token without the blanks around it. A truth value and a variant
are recognised without regard to ASCII case, and a variant is returned as it was declared.
-/

set_option autoImplicit false

namespace TypedHeaders

open TypedHeaders.Text TypedHeaders.Number

/-- What is wrong with a token, or with the shape that it is wanted for. -/
inductive Fault where
  | invalidInteger
  | invalidFloat
  | invalidBoolean
  | unknownVariant
  | unsupported
  deriving DecidableEq, Repr

/-- The wording of a fault. -/
def Fault.message : Fault → String
  | .invalidInteger => "invalid integer"
  | .invalidFloat => "invalid number"
  | .invalidBoolean => "invalid boolean"
  | .unknownVariant => "unknown variant"
  | .unsupported => "unsupported shape"

/-- A value that could not be converted: the fault, the model name, and the value as it was
tried. -/
structure ConversionError where
  fault : Fault
  modelName : String
  attempted : String
  deriving DecidableEq, Repr

/-- The wording of a value that could not be converted. -/
def ConversionError.message (e : ConversionError) : String :=
  "cannot bind '" ++ e.modelName ++ "' (" ++ e.fault.message ++ "): the value '" ++ e.attempted
    ++ "' is not valid"

/-- The truth value that a text names. -/
def truth? (s : String) : Option Bool :=
  if sameName s "true" then some true
  else if sameName s "false" then some false
  else none

/-- The first of the variants that a text names, as it was declared. -/
def variant? (variants : List String) (s : String) : Option String :=
  variants.find? fun v => sameName v s

/-- Convert one token into a value of a scalar kind. -/
def convert (kind : ScalarKind) (raw : String) : Except Fault Value :=
  match kind with
  | .text => .ok (.text raw)
  | .integer =>
      match Integer.readWord? (trimList raw.toList) with
      | some n => .ok (.integer n)
      | none => .error .invalidInteger
  | .float =>
      match Binary64.read? (trimList raw.toList) with
      | some x => .ok (.float x)
      | none => .error .invalidFloat
  | .boolean =>
      match truth? (trim raw) with
      | some b => .ok (.boolean b)
      | none => .error .invalidBoolean
  | .enumeration variants =>
      match variant? variants (trim raw) with
      | some v => .ok (.enumeration v)
      | none => .error .unknownVariant

/-- Convert the tokens of a field one after another. The first that cannot be converted is
reported. -/
def convertAll (kind : ScalarKind) (modelName : String) :
    List String → Except ConversionError (List Value)
  | [] => .ok []
  | raw :: rest =>
      match convert kind raw with
      | .error fault => .error { fault, modelName, attempted := raw }
      | .ok v =>
          match convertAll kind modelName rest with
          | .error e => .error e
          | .ok vs => .ok (v :: vs)

/-- Tokens are converted exactly if each of them is. -/
theorem convertAll_eq_ok_iff {kind : ScalarKind} {modelName : String} {tokens : List String}
    {values : List Value} :
    convertAll kind modelName tokens = .ok values ↔
      tokens.map (convert kind) = values.map Except.ok := by
  induction tokens generalizing values with
  | nil => cases values <;> simp [convertAll]
  | cons raw rest ih =>
      rw [convertAll, List.map_cons]
      cases hraw : convert kind raw with
      | error fault => cases values <;> simp
      | ok v =>
          cases hrest : convertAll kind modelName rest with
          | error e =>
              cases values with
              | nil => simp
              | cons w ws =>
                  have := not_congr (@ih ws)
                  simp only [hrest, reduceCtorEq, not_false_eq_true, true_iff] at this
                  simp [this]
          | ok vs =>
              have hvs := ih.mp hrest
              cases values with
              | nil => simp
              | cons w ws =>
                  rw [hvs]
                  simp only [Except.ok.injEq, List.cons.injEq, List.map_cons]
                  refine and_congr_right fun _ => ⟨fun h => by rw [h], fun h => ?_⟩
                  exact (List.map_inj_right fun a b hab => Except.ok.inj hab).mp h

end TypedHeaders
