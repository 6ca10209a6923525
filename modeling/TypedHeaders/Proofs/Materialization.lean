import TypedHeaders.Value.TextCollection

/-!
# Which collection is built from tokens

A collection of texts is built by one of three ways: what a read-only destination holds is cleared
and filled again, a contiguous sequence takes the tokens as they are, and any other new collection
starts empty and is filled. All of them give exactly the tokens, and the second gives what the third
would give (`materialize_iff`). Nothing is built in four cases only: without tokens for a part of
something else, for a read-only destination that holds nothing, for one whose collection may not be
changed, and for a new collection of a type without implementation.
-/

set_option autoImplicit false

namespace TypedHeaders

/-! ## Filling -/

namespace TextCollection

/-- Nothing is left of what was held, but for how it is held. -/
theorem fill_clear (t : TextCollection) (tokens : List String) :
    t.clear.fill tokens = { t with items := tokens } := by
  have hitems : (t.clear.fill tokens).items = tokens := items_fill t.clear tokens
  have hheld : (t.clear.fill tokens).representation = t.representation :=
    representation_fill t.clear tokens
  calc t.clear.fill tokens
      = ⟨(t.clear.fill tokens).representation, (t.clear.fill tokens).items⟩ := rfl
    _ = { t with items := tokens } := by rw [hitems, hheld]

/-- A new collection starts empty. -/
theorem clear_of_ofContainer? {container : Container} {t : TextCollection}
    (h : ofContainer? container = some t) : t.clear = t := by
  obtain ⟨r, -, rfl⟩ := Option.map_eq_some_iff.mp h
  rfl

theorem isSome_ofContainer? (container : Container) :
    (ofContainer? container).isSome = !container.isAbstract := by
  cases container with
  | array => rfl
  | sequence => rfl
  | list => rfl
  | linkedList => rfl
  | deque => rfl
  | abstraction name => rfl

/-- What accepts a contiguous sequence is built as one. -/
theorem ofContainer?_of_acceptsSequence {container : Container}
    (h : container.acceptsSequence = true) :
    ofContainer? container = some { representation := .contiguous } := by
  cases container with
  | array => rfl
  | sequence => rfl
  | list => cases h
  | linkedList => cases h
  | deque => cases h
  | abstraction name => cases h

end TextCollection

/-! ## Building -/

variable {tokens : List String} {container : Container} {topLevel : Bool}

/-- A new collection is filled token by token, or is as if it were. -/
theorem materialize_assignable :
    materialize tokens container topLevel .assignable =
      if tokens.isEmpty && !topLevel then none
      else (TextCollection.ofContainer? container).map fun t => t.fill tokens := by
  rw [materialize]
  split
  · rfl
  · cases haccepts : container.acceptsSequence with
    | false => rfl
    | true =>
        rw [TextCollection.ofContainer?_of_acceptsSequence haccepts, Option.map_some]
        exact congrArg some (TextCollection.fill_clear { representation := .contiguous } tokens).symm

/-- What a read-only destination holds is filled again if it may be changed, whatever the declared
type. -/
theorem materialize_readOnly {held : Option HeldCollection} :
    materialize tokens container topLevel (.readOnly held) =
      if tokens.isEmpty && !topLevel then none
      else (held.filter fun x => x.mutable).map fun x => { x.value with items := tokens } := by
  cases held with
  | none =>
      rw [materialize]
      split
      · rfl
      · rfl
  | some x =>
      rw [materialize, TextCollection.fill_clear]
      split
      · rfl
      · cases hmutable : x.mutable with
        | false => simp [Option.filter, hmutable]
        | true => simp [Option.filter, hmutable]

theorem isEmpty_and_not_iff :
    (tokens.isEmpty && !topLevel) = true ↔ tokens = [] ∧ topLevel = false := by
  rw [Bool.and_eq_true, List.isEmpty_iff, Bool.not_eq_true']

theorem materialize_eq_none_iff {target : Target} :
    materialize tokens container topLevel target = none ↔
      (tokens = [] ∧ topLevel = false) ∨ target = .readOnly none ∨
        (∃ x, target = .readOnly (some x) ∧ x.mutable = false) ∨
        (target = .assignable ∧ container.isAbstract = true) := by
  cases target with
  | assignable =>
      have hbuilt := TextCollection.isSome_ofContainer? container
      rw [materialize_assignable, ite_eq_left_iff, isEmpty_and_not_iff, Option.map_eq_none_iff,
        ← Option.not_isSome_iff_eq_none, hbuilt]
      simp [Decidable.or_iff_not_imp_left]
  | readOnly held =>
      rw [materialize_readOnly, ite_eq_left_iff, isEmpty_and_not_iff, Option.map_eq_none_iff]
      cases held with
      | none => simp
      | some x => simp [Decidable.or_iff_not_imp_left]

theorem materialize_eq_some_iff {target : Target} {t : TextCollection} :
    materialize tokens container topLevel target = some t ↔
      (tokens = [] → topLevel = true) ∧
        ((∃ x, target = .readOnly (some x) ∧ x.mutable = true ∧
            t = { x.value with items := tokens }) ∨
          (target = .assignable ∧ ∃ empty, TextCollection.ofContainer? container = some empty ∧
            t = { empty with items := tokens })) := by
  have hguard : ¬(tokens.isEmpty && !topLevel) = true ↔ (tokens = [] → topLevel = true) := by
    rw [isEmpty_and_not_iff, not_and, Bool.not_eq_false]
  cases target with
  | assignable =>
      rw [materialize_assignable, Option.ite_none_left_eq_some, hguard, Option.map_eq_some_iff]
      refine and_congr_right fun _ => ?_
      constructor
      · rintro ⟨empty, hempty, rfl⟩
        refine Or.inr ⟨rfl, empty, hempty, ?_⟩
        rw [← TextCollection.fill_clear, TextCollection.clear_of_ofContainer? hempty]
      · rintro (⟨x, hx, -⟩ | ⟨-, empty, hempty, rfl⟩)
        · cases hx
        · refine ⟨empty, hempty, ?_⟩
          rw [← TextCollection.fill_clear, TextCollection.clear_of_ofContainer? hempty]
  | readOnly held =>
      rw [materialize_readOnly, Option.ite_none_left_eq_some, hguard, Option.map_eq_some_iff]
      refine and_congr_right fun _ => ?_
      constructor
      · rintro ⟨x, hx, rfl⟩
        obtain ⟨rfl, hmutable⟩ := Option.filter_eq_some_iff.mp hx
        exact Or.inl ⟨x, rfl, hmutable, rfl⟩
      · rintro (⟨x, hx, hmutable, rfl⟩ | ⟨hx, -⟩)
        · cases hx
          exact ⟨x, Option.filter_eq_some_iff.mpr ⟨rfl, hmutable⟩, rfl⟩
        · cases hx

/-- Nothing is built in four cases, and otherwise a collection of exactly the tokens: held as what it
replaces in a read-only destination, whatever the declared type, and as the declared type is built
in any other. A new collection is always what the tokens make when they are added one by one, also
where a contiguous sequence takes them at once. -/
theorem materialize_iff (tokens : List String) (container : Container) (topLevel : Bool)
    (target : Target) :
    (materialize tokens container topLevel target = none ↔
      (tokens = [] ∧ topLevel = false) ∨ target = .readOnly none ∨
        (∃ x, target = .readOnly (some x) ∧ x.mutable = false) ∨
        (target = .assignable ∧ container.isAbstract = true)) ∧
      (∀ t, materialize tokens container topLevel target = some t ↔
        (tokens = [] → topLevel = true) ∧
          ((∃ x, target = .readOnly (some x) ∧ x.mutable = true ∧
              t = { x.value with items := tokens }) ∨
            (target = .assignable ∧ ∃ empty, TextCollection.ofContainer? container = some empty ∧
              t = { empty with items := tokens }))) ∧
      materialize tokens container topLevel .assignable =
        if tokens.isEmpty && !topLevel then none
        else (TextCollection.ofContainer? container).map fun empty => tokens.foldl .push empty :=
  ⟨materialize_eq_none_iff, fun _ => materialize_eq_some_iff, materialize_assignable⟩

/-- A frozen collection is left alone at top level too, and one that may be changed takes the tokens
of an abstraction. -/
example :
    let frozen : HeldCollection := { value := ⟨.linked, ["old"]⟩, mutable := false }
    let held : HeldCollection := { value := ⟨.linked, ["old", "older"]⟩ }
    materialize ["a"] .array true (.readOnly (some frozen)) = none ∧
      materialize ["b", "b"] (.abstraction "Set") false (.readOnly (some held)) =
        some ⟨.linked, ["b", "b"]⟩ := by
  decide

end TypedHeaders
