import TypedHeaders.Field.Shape

/-!
# Where a field's value may come from

A field is declared with an origin for its data. `select` is the gate in front of header binders: it
lets a field pass whose origin accepts headers and whose shape is eligible, and only then asks for a
delegate. It asks with the origin of model binding, which never accepts headers
(`not_accepts_modelBinding_header`), so what answers the inquiry by the same gate finds it closed.

The gate works in any monad, so nothing that a factory does when it is asked is lost. `Asking` is the
monad in which a factory notes each inquiry (`noted`).
-/

set_option autoImplicit false

namespace TypedHeaders

/-- An origin of data. Model binding stands for the query and the path together. -/
inductive Origin where
  | header
  | query
  | path
  | body
  | modelBinding
  deriving DecidableEq, Repr

namespace Origin

/-- Whether a field that is declared with the first origin may take data from the second. -/
def accepts (declared data : Origin) : Bool :=
  declared == data || (declared == .modelBinding && (data == .query || data == .path))

/-- The name of an origin. -/
def name : Origin → String
  | .header => "Header"
  | .query => "Query"
  | .path => "Path"
  | .body => "Body"
  | .modelBinding => "ModelBinding"

theorem not_accepts_modelBinding_header : accepts .modelBinding .header = false := rfl

/-- Headers are taken only by fields that are declared to come from headers. -/
theorem accepts_header_iff (o : Origin) : o.accepts .header = true ↔ o = .header := by
  cases o with
  | header => simp [accepts]
  | query => simp [accepts]
  | path => simp [accepts]
  | body => simp [accepts]
  | modelBinding => simp [accepts]

end Origin

/-- What is asked for when a delegate is needed: one for a shape, from an origin. -/
structure Inquiry where
  shape : Shape
  origin : Origin
  deriving DecidableEq, Repr

/-- A computation that makes inquiries: those that it made, in order, and what it came to. -/
structure Asking (α : Type) where
  inquiries : List Inquiry
  value : α

namespace Asking

instance : Monad Asking where
  pure a := { inquiries := [], value := a }
  bind x f :=
    let next := f x.value
    { inquiries := x.inquiries ++ next.inquiries, value := next.value }

instance : LawfulMonad Asking := LawfulMonad.mk' Asking
  (by
    intro α x
    show Asking.mk (x.inquiries ++ []) x.value = x
    rw [List.append_nil])
  (fun _ _ => rfl)
  (by
    intro α β γ x f g
    show Asking.mk (x.inquiries ++ (f x.value).inquiries ++ _) _ = Asking.mk (_ ++ (_ ++ _)) _
    rw [List.append_assoc]
    rfl)

variable {α δ ε : Type}

/-- What was chosen, if anything was. -/
def chosen (x : Asking (Option δ)) : Option δ := x.value

/-- The first inquiry that was made, if one was. -/
def asked (x : Asking α) : Option Inquiry := x.inquiries.head?

theorem chosen_map (f : δ → ε) (x : Asking (Option δ)) :
    (Option.map f <$> x).chosen = x.chosen.map f := rfl

end Asking

/-- A factory that notes what it is asked. -/
def noted {δ : Type} (create : Inquiry → Option δ) (q : Inquiry) : Asking (Option δ) :=
  { inquiries := [q], value := create q }

/-- Whether header binding is for a field of a shape, declared with an origin. -/
def isOpen (origin : Option Origin) (shape : Shape) : Bool :=
  match origin with
  | none => false
  | some o => o.accepts .header && shape.isEligible

/-- Ask a factory for a delegate for a field of a shape, declared with an origin, if header binding is
for the field. -/
def select {m : Type → Type} [Monad m] {δ : Type} (origin : Option Origin) (shape : Shape)
    (create : Inquiry → m (Option δ)) : m (Option δ) :=
  if isOpen origin shape then create { shape, origin := .modelBinding } else pure none

/-- Header binding is for fields that are declared to come from headers and have an eligible
shape. -/
theorem isOpen_iff {origin : Option Origin} {shape : Shape} :
    isOpen origin shape = true ↔ origin = some .header ∧ shape.isEligible = true := by
  cases origin with
  | none => simp [isOpen]
  | some o => simp [isOpen, Origin.accepts_header_iff]

section Gate

variable {m : Type → Type} [Monad m] {δ ε : Type} {origin : Option Origin} {shape : Shape}

/-- An open gate asks the factory, and does nothing else. -/
theorem select_of_open (create : Inquiry → m (Option δ)) (h : isOpen origin shape = true) :
    select origin shape create = create { shape, origin := .modelBinding } := by
  rw [select, if_pos h]

/-- A closed gate does nothing. -/
theorem select_of_closed (create : Inquiry → m (Option δ)) (h : isOpen origin shape = false) :
    select origin shape create = pure none := by
  rw [select, h]
  rfl

/-- Selecting and then taking the image is selecting from images. -/
theorem select_map [LawfulMonad m] (f : δ → ε) (create : Inquiry → m (Option δ)) :
    select origin shape (fun q => Option.map f <$> create q) =
      Option.map f <$> select origin shape create := by
  cases hopen : isOpen origin shape with
  | false =>
      rw [select_of_closed _ hopen, select_of_closed _ hopen, map_pure]
      rfl
  | true => rw [select_of_open _ hopen, select_of_open _ hopen]

/-- What is chosen is what the factory answered. -/
theorem exists_of_chosen_select {create : Inquiry → Option δ} {d : δ}
    (h : (select origin shape (noted create)).chosen = some d) : ∃ q, create q = some d := by
  cases hopen : isOpen origin shape with
  | false =>
      rw [select_of_closed _ hopen] at h
      cases h
  | true =>
      rw [select_of_open _ hopen] at h
      exact ⟨_, h⟩

end Gate

end TypedHeaders
