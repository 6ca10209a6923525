import TypedHeaders.Field.Shape
import TypedHeaders.Header.Name

/-!
# Fields

A field pairs the header that it reads with the model name under which its value is known, its
shape, and whether its destination may be replaced. `Field.make` accepts header names only, so the
name of every field that it returns selects a header (`isName_of_make`).

The model name starts as the header name. `Edit` lists the changes that lead from there to the field
as it is reached through its parents: a new model name, a name put in front of it with a dot, and a
new access. No edit touches the header name or the shape (`name_apply`, `shape_apply`).
-/

set_option autoImplicit false

namespace TypedHeaders

open TypedHeaders.Header

/-- Whether the destination of a field may receive a new instance, or can only be filled. -/
inductive Access where
  | assignable
  | readOnly
  deriving DecidableEq, Repr

/-- Why a text cannot name the header of a field. -/
inductive FieldError where
  | emptyName
  | invalidName (name : String)
  deriving DecidableEq, Repr

/-- The wording of a refused field. -/
def FieldError.message : FieldError → String
  | .emptyName => "field name must not be empty"
  | .invalidName name => "'" ++ name ++ "' is not a valid header name"

/-- A field: the header that it reads, the name of its value, its shape, and its access. -/
structure Field where
  name : String
  modelName : String
  shape : Shape
  access : Access := .assignable
  deriving DecidableEq, Repr

namespace Field

/-- The field that reads a header, known by the name of the header. -/
def make (name : String) (shape : Shape) : Except FieldError Field :=
  if name.isEmpty then .error .emptyName
  else if !isName name then .error (.invalidName name)
  else .ok { name, modelName := name, shape }

/-- A change to a field. -/
inductive Edit where
  /-- Use another model name. -/
  | rename (modelName : String)
  /-- Put the name of a parent in front of the model name. -/
  | under (parent : String)
  /-- Use another access. -/
  | grant (access : Access)
  deriving DecidableEq, Repr

/-- Put a parent's name and a dot in front of a model name. A nameless parent leaves no trace. -/
def qualify (parent modelName : String) : String :=
  if parent.isEmpty then modelName else parent ++ "." ++ modelName

/-- Make one change. -/
def apply (f : Field) : Edit → Field
  | .rename modelName => { f with modelName }
  | .under parent => { f with modelName := qualify parent f.modelName }
  | .grant access => { f with access }

/-- Make changes one after another. -/
def applyAll (f : Field) (edits : List Edit) : Field := edits.foldl apply f

/-- The field before any change and after each of them. -/
def trail (f : Field) : List Edit → List Field
  | [] => [f]
  | e :: rest => f :: trail (f.apply e) rest

@[simp] theorem name_apply (f : Field) (e : Edit) : (f.apply e).name = f.name := by
  cases e with
  | rename modelName => rfl
  | under parent => rfl
  | grant access => rfl

@[simp] theorem shape_apply (f : Field) (e : Edit) : (f.apply e).shape = f.shape := by
  cases e with
  | rename modelName => rfl
  | under parent => rfl
  | grant access => rfl

@[simp] theorem applyAll_nil (f : Field) : f.applyAll [] = f := rfl

@[simp] theorem applyAll_cons (f : Field) (e : Edit) (rest : List Edit) :
    f.applyAll (e :: rest) = (f.apply e).applyAll rest := rfl

/-- The trail ends with the field after all changes. -/
theorem getLast_trail (f : Field) (edits : List Edit) :
    (f.trail edits).getLast? = some (f.applyAll edits) := by
  induction edits generalizing f with
  | nil => rfl
  | cons e rest ih =>
      rw [trail, applyAll_cons, ← ih (f.apply e)]
      cases rest with
      | nil => rfl
      | cons e' more => rfl

/-- A field that is made reads a header of a valid name, under that name, and may be assigned. -/
theorem make_eq_ok_iff {name : String} {shape : Shape} {f : Field} :
    make name shape = .ok f ↔
      isName name = true ∧ f = { name, modelName := name, shape, access := .assignable } := by
  unfold make
  by_cases hempty : name.isEmpty = true
  · have : isName name = false := by simp [isName, hempty]
    simp [hempty, this]
  · by_cases hname : isName name = true
    · simp [hempty, hname, eq_comm]
    · simp [hempty, hname]

theorem isName_of_make {name : String} {shape : Shape} {f : Field}
    (h : make name shape = .ok f) : isName f.name = true := by
  obtain ⟨hname, rfl⟩ := make_eq_ok_iff.mp h
  exact hname

end Field

/-- A field as it is asked for: the header, the shape, and the changes to make. -/
structure FieldRequest where
  name : String
  shape : Shape
  edits : List Field.Edit := []
  deriving DecidableEq, Repr

/-- The field that is asked for, unless its name is refused. -/
def FieldRequest.resolve (r : FieldRequest) : Except FieldError Field :=
  (Field.make r.name r.shape).map fun f => f.applyAll r.edits

end TypedHeaders
