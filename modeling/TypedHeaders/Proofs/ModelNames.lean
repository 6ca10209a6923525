import TypedHeaders.Field.Basic
import Mathlib.Data.List.Induction

/-!
# The model name of a field after changes

A field keeps its header and its shape through all changes. Its access is the one that was granted
last. Its model name is told by the changes since it was last renamed: the names of the parents,
the last one first, and then the name it was given (`Field.modelName_applyAll`). A change adds one
parent or none (`Field.modelName_apply`), and a parent without a name adds none, so no dot stands at
the front or twice in a row because of it.

Two parents in a row are one parent with the joined name (`Field.apply_under_under`).
-/

set_option autoImplicit false

namespace TypedHeaders

open TypedHeaders.Header

namespace Field

/-! ## Parents -/

namespace Edit

/-- The name of the parent that a change puts in front, unless it is empty. -/
def parent? : Edit → Option String
  | .under parent => if parent.isEmpty then none else some parent
  | _ => none

/-- The names of the parents that changes put in front, the last one first. -/
def parents (edits : List Edit) : List String := (edits.filterMap parent?).reverse

theorem parents_concat (edits : List Edit) (e : Edit) :
    parents (edits ++ [e]) = e.parent?.toList ++ parents edits := by
  rw [parents, parents, List.filterMap_append, List.reverse_append]
  congr 1
  cases h : e.parent? with
  | none => simp [h]
  | some p => simp [h]

end Edit

/-! ## One change -/

variable {f : Field} {edits : List Edit}

/-- A change other than to another model name puts a parent in front of the dotted name, or leaves
it. -/
theorem modelName_apply {e : Edit} {names : List String} (hnames : names ≠ [])
    (hname : f.modelName = ".".intercalate names) (he : ∀ m, e ≠ .rename m) :
    (f.apply e).modelName = ".".intercalate (e.parent?.toList ++ names) := by
  cases e with
  | rename m => exact absurd rfl (he m)
  | grant access => exact hname
  | under parent =>
      rw [apply, qualify, Edit.parent?]
      split
      · exact hname
      · rw [hname]
        exact (String.intercalate_cons_of_ne_nil hnames).symm

theorem access_apply {e : Edit} (he : ∀ a, e ≠ .grant a) : (f.apply e).access = f.access := by
  cases e with
  | rename m => rfl
  | under parent => rfl
  | grant access => exact absurd rfl (he access)

/-- A parent without a name leaves the field as it is. -/
theorem apply_under_empty (f : Field) : f.apply (.under "") = f := rfl

theorem qualify_of_ne_empty {parent : String} (h : parent ≠ "") (modelName : String) :
    qualify parent modelName = parent ++ "." ++ modelName := by
  rw [qualify, if_neg]
  exact fun hempty => h (String.isEmpty_iff.mp hempty)

/-- Two parents in a row are one with the joined name. -/
theorem apply_under_under {p q : String} (hp : p ≠ "") (hq : q ≠ "") (f : Field) :
    (f.apply (.under p)).apply (.under q) = f.apply (.under (q ++ "." ++ p)) := by
  have hjoined : q ++ "." ++ p ≠ "" := by
    intro hempty
    exact hp (String.append_eq_empty_iff.mp hempty).2
  rw [apply, apply, apply, qualify_of_ne_empty hp, qualify_of_ne_empty hq,
    qualify_of_ne_empty hjoined]
  simp only [String.append_assoc]

/-! ## All changes -/

theorem applyAll_append (f : Field) (before after : List Edit) :
    f.applyAll (before ++ after) = (f.applyAll before).applyAll after :=
  List.foldl_append

theorem applyAll_concat (f : Field) (edits : List Edit) (e : Edit) :
    f.applyAll (edits ++ [e]) = (f.applyAll edits).apply e :=
  f.applyAll_append edits [e]

@[simp] theorem name_applyAll (f : Field) (edits : List Edit) : (f.applyAll edits).name = f.name := by
  induction edits generalizing f with
  | nil => rfl
  | cons e rest ih => rw [applyAll_cons, ih, name_apply]

@[simp] theorem shape_applyAll (f : Field) (edits : List Edit) :
    (f.applyAll edits).shape = f.shape := by
  induction edits generalizing f with
  | nil => rfl
  | cons e rest ih => rw [applyAll_cons, ih, shape_apply]

/-- Changes that do not grant an access leave the one there is. -/
theorem access_applyAll (h : ∀ e ∈ edits, ∀ a, e ≠ .grant a) :
    (f.applyAll edits).access = f.access := by
  induction edits generalizing f with
  | nil => rfl
  | cons e rest ih =>
      obtain ⟨he, hrest⟩ := List.forall_mem_cons.mp h
      rw [applyAll_cons, ih hrest, access_apply he]

/-- Changes that do not rename the field put their parents in front of its model name, the last one
first. -/
theorem modelName_applyAll (h : ∀ e ∈ edits, ∀ m, e ≠ .rename m) :
    (f.applyAll edits).modelName = ".".intercalate (Edit.parents edits ++ [f.modelName]) := by
  -- the last change decides what stands first, so it is split off
  induction edits using List.reverseRecOn with
  | nil => exact String.intercalate_singleton.symm
  | append_singleton edits e ih =>
      obtain ⟨hedits, he⟩ := List.forall_mem_append.mp h
      rw [applyAll_concat, Edit.parents_concat, List.append_assoc]
      exact modelName_apply (List.concat_ne_nil _ _) (ih hedits) (he e (List.mem_singleton_self e))

/-- Changes up to the last one that renames the field do not count for its model name. -/
theorem modelName_applyAll_of_rename {before after : List Edit} {m : String}
    (h : ∀ e ∈ after, ∀ m', e ≠ .rename m') :
    (f.applyAll (before ++ .rename m :: after)).modelName =
      ".".intercalate (Edit.parents after ++ [m]) := by
  rw [applyAll_append, applyAll_cons, modelName_applyAll h]
  rfl

theorem access_applyAll_of_grant {before after : List Edit} {a : Access}
    (h : ∀ e ∈ after, ∀ a', e ≠ .grant a') :
    (f.applyAll (before ++ .grant a :: after)).access = a := by
  rw [applyAll_append, applyAll_cons, access_applyAll h]
  rfl

/-- Parents without a name may be left out. -/
theorem applyAll_filter (f : Field) (edits : List Edit) :
    f.applyAll (edits.filter (· ≠ .under "")) = f.applyAll edits := by
  induction edits generalizing f with
  | nil => rfl
  | cons e rest ih =>
      by_cases he : e = .under ""
      · rw [List.filter_cons_of_neg (by simpa using he), ih, applyAll_cons, he, apply_under_empty]
      · rw [List.filter_cons_of_pos (by simpa using he), applyAll_cons, ih, applyAll_cons]

theorem applyAll_under_under {p q : String} (hp : p ≠ "") (hq : q ≠ "") (f : Field)
    (before after : List Edit) :
    f.applyAll (before ++ .under p :: .under q :: after) =
      f.applyAll (before ++ .under (q ++ "." ++ p) :: after) := by
  rw [applyAll_append, applyAll_append, applyAll_cons, applyAll_cons, applyAll_cons,
    apply_under_under hp hq]

end Field

/-- A field that was made for a header and then changed any number of times reads this header still,
whose name is valid, and has the same shape. It may be assigned unless an access was granted, and
then has the one that was granted last. Its model name is made of the parents that were put in front
since it was last renamed, the last one first, and of the name that it was given then, or the name of
the header if it was never renamed. Parents without a name do not count, and two parents in a row
count as one with the joined name. -/
theorem model_name_after_edits {name : String} {shape : Shape} {f : Field}
    (hmake : Field.make name shape = .ok f) (edits : List Field.Edit) :
    let g := f.applyAll edits
    let dotted (since : List Field.Edit) (given : String) : String :=
      ".".intercalate (Field.Edit.parents since ++ [given])
    FieldRequest.resolve { name, shape, edits } = .ok g ∧
    (g.name = name ∧ g.shape = shape ∧ isName g.name = true ∧ g.name ≠ "") ∧
    ((∀ e ∈ edits, ∀ a, e ≠ .grant a) → g.access = .assignable) ∧
    (∀ before a after, edits = before ++ .grant a :: after →
      (∀ e ∈ after, ∀ a', e ≠ .grant a') → g.access = a) ∧
    ((∀ e ∈ edits, ∀ m, e ≠ .rename m) → g.modelName = dotted edits name) ∧
    (∀ before m after, edits = before ++ .rename m :: after →
      (∀ e ∈ after, ∀ m', e ≠ .rename m') → g.modelName = dotted after m) ∧
    f.applyAll (edits.filter (· ≠ .under "")) = g ∧
    ∀ before p q after, p ≠ "" → q ≠ "" → edits = before ++ .under p :: .under q :: after →
      f.applyAll (before ++ .under (q ++ "." ++ p) :: after) = g := by
  intro g dotted
  have hresolve : FieldRequest.resolve { name, shape, edits } = .ok g := by
    rw [FieldRequest.resolve, hmake]
    rfl
  obtain ⟨hvalid, rfl⟩ := Field.make_eq_ok_iff.mp hmake
  have hname : g.name = name := Field.name_applyAll _ edits
  have hnonempty : g.name ≠ "" := by
    rw [hname]
    rintro rfl
    exact absurd hvalid (by decide)
  refine ⟨hresolve, ⟨hname, Field.shape_applyAll _ edits, hname ▸ hvalid, hnonempty⟩,
    Field.access_applyAll, ?_, Field.modelName_applyAll, ?_, Field.applyAll_filter _ edits, ?_⟩
  · rintro before a after rfl hlast
    exact Field.access_applyAll_of_grant hlast
  · rintro before m after rfl hlast
    exact Field.modelName_applyAll_of_rename hlast
  · rintro before p q after hp hq rfl
    exact (Field.applyAll_under_under hp hq _ before after).symm

/-- A field that is renamed after one parent was put in front and before two others, with a nameless
one between. The first parent is forgotten, and the last two may be put in front as one. Without a
change the field goes by its header. -/
theorem model_name_after_edits_renamed :
    let shape : Shape := .scalar (.simple .text)
    let f : Field := { name := "X-Tag", modelName := "X-Tag", shape }
    let since : List Field.Edit := [.under "", .grant .readOnly, .under "p", .under "q"]
    let edits : List Field.Edit := [.under "a"] ++ .rename "m" :: since
    let g := f.applyAll edits
    Field.make "X-Tag" shape = .ok f ∧ (∀ e ∈ since, ∀ m, e ≠ .rename m) ∧
      g.name = "X-Tag" ∧ g.access = .readOnly ∧ g.modelName = "q.p.m" ∧
      "p" ≠ "" ∧ "q" ≠ "" ∧
      f.applyAll [.under "a", .rename "m", .under "", .grant .readOnly, .under "q.p"] = g ∧
      (∀ e ∈ ([] : List Field.Edit), (∀ m, e ≠ .rename m) ∧ ∀ a, e ≠ .grant a) ∧
      (f.applyAll []).modelName = "X-Tag" ∧ (f.applyAll []).access = .assignable := by
  intro shape f since edits g
  have hmake : Field.make "X-Tag" shape = .ok f :=
    Field.make_eq_ok_iff.mpr ⟨by decide, rfl⟩
  have hlast : ∀ e ∈ since, ∀ m, e ≠ .rename m := by simp [since]
  have hgranted : ∀ e ∈ ([.under "p", .under "q"] : List Field.Edit), ∀ a, e ≠ .grant a := by simp
  obtain ⟨-, ⟨hname, -⟩, -, haccess, -, hmodel, -, htwo⟩ := model_name_after_edits hmake edits
  obtain ⟨-, -, hassignable, -, hown, -⟩ := model_name_after_edits hmake []
  refine ⟨hmake, hlast, hname,
    haccess [.under "a", .rename "m", .under ""] .readOnly [.under "p", .under "q"] rfl hgranted,
    hmodel [.under "a"] "m" since rfl hlast, by decide, by decide,
    htwo [.under "a", .rename "m", .under "", .grant .readOnly] "p" "q" [] (by decide) (by decide)
      rfl, by simp, hown (by simp), hassignable (by simp)⟩

end TypedHeaders
