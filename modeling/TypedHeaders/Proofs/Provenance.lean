import TypedHeaders.Proofs.Stack

/-!
# Provenance explains the value

The value of a field and its record reach the caller by two ways. The value is converted from what
the source answers, at the bottom of a stack of binders; the record is made from the header by each
layer. They agree nevertheless. If a stack binds a value, the ledger holds a record under the model
name of the field whose raw text converts to that value (`Record.Explains`), and if a token cannot
be converted, the record holds that token as well (`Record.Blames`). `explained_of_isStack` says
both.
-/

set_option autoImplicit false

namespace TypedHeaders

open TypedHeaders.Header Activity Binding

/-- The value of the lines of the field's header, joined by commas. -/
def Context.joined (c : Context) : String := ",".intercalate (c.headers.getAll c.field.name)

/-- The record tells from which text of the header the value of a field of a shape was converted. -/
inductive Record.Explains (joined : String) : Shape → Record → Value → Prop
  /-- One value is the conversion of the whole text. -/
  | scalar {kind : ScalarKind} {v : Value} :
      convert kind joined = .ok v →
        Explains joined (.scalar (.simple kind)) ⟨joined, .single joined⟩ v
  /-- A collection of texts holds the tokens of the text, in order. -/
  | texts {container : Container} {t : TextCollection} :
      t.items = TokenList.split joined →
        Explains joined (.collection container (.simple .text))
          ⟨",".intercalate (TokenList.split joined), .many (TokenList.split joined)⟩ (.strings t)
  /-- Another list holds the conversions of the tokens of the text, in order. -/
  | list {container : Container} {kind : ScalarKind} {vs : List Value} :
      kind ≠ .text → (TokenList.split joined).map (convert kind) = vs.map Except.ok →
        Explains joined (.collection container (.simple kind))
          ⟨",".intercalate (TokenList.split joined), .many (TokenList.split joined)⟩ (.list vs)

/-- The record holds the text of the header that the error names as the one at fault. -/
inductive Record.Blames (joined : String) : Shape → Record → ConversionError → Prop
  /-- The whole text cannot be converted. -/
  | scalar {kind : ScalarKind} {e : ConversionError} :
      convert kind joined = .error e.fault → e.attempted = joined →
        Blames joined (.scalar (.simple kind)) ⟨joined, .single joined⟩ e
  /-- A token of the text cannot be converted, and it is the first such token. -/
  | list {container : Container} {kind : ScalarKind} {e : ConversionError} :
      FirstFault kind e.attempted e.fault (TokenList.split joined) →
        Blames joined (.collection container (.simple kind))
          ⟨",".intercalate (TokenList.split joined), .many (TokenList.split joined)⟩ e

/-! ## The header and its record -/

namespace Context

variable {c : Context}

/-- A header that is there is read from its joined lines. -/
theorem extraction_of_present (h : c.extraction.present = true) :
    c.extraction = .ofJoined c.joined c.field.shape := by
  have hcontains : c.headers.contains c.field.name = true := by
    rw [← present_extract c.headers c.field.name c.field.shape]
    exact h
  exact extract_eq_ofJoined hcontains c.field.shape

theorem tokens_scalar {element : Element} (h : c.extraction.present = true)
    (hshape : c.field.shape = .scalar element) : c.extraction.tokens = [c.joined] := by
  rw [extraction_of_present h, hshape, Extraction.ofJoined_scalar]

theorem tokens_collection {container : Container} {element : Element}
    (h : c.extraction.present = true) (hshape : c.field.shape = .collection container element) :
    c.extraction.tokens = TokenList.split c.joined := by
  rw [extraction_of_present h, hshape, Extraction.ofJoined_collection]

theorem record_scalar {element : Element} (h : c.extraction.present = true)
    (hshape : c.field.shape = .scalar element) : c.record = ⟨c.joined, .single c.joined⟩ := by
  have hcollection : c.field.shape.isCollection = false := by rw [hshape, Shape.isCollection]
  rw [record, Extraction.record, hcollection, tokens_scalar h hshape, List.head?_cons,
    Option.getD_some]
  exact if_neg Bool.false_ne_true

theorem record_collection {container : Container} {element : Element}
    (h : c.extraction.present = true) (hshape : c.field.shape = .collection container element) :
    c.record =
      ⟨",".intercalate (TokenList.split c.joined), .many (TokenList.split c.joined)⟩ := by
  have hcollection : c.field.shape.isCollection = true := by rw [hshape, Shape.isCollection]
  rw [record, Extraction.record, Extraction.attempted, hcollection, tokens_collection h hshape]
  exact if_pos rfl

/-! ## The converter -/

/-- A collection of another kind than text is explained by its tokens. -/
theorem explains_list {container : Container} {kind : ScalarKind} {b : Bound} {v : Value}
    (hpresent : c.extraction.present = true)
    (hshape : c.field.shape = .collection container (.simple kind)) (hkind : kind ≠ .text)
    (hanswered : c.answered ⟨c.extraction.tokens⟩ = .bound b) (hmodel : b.model = some v) :
    c.record.Explains c.joined c.field.shape v := by
  rw [answered_list _ hshape hkind] at hanswered
  split at hanswered
  · obtain ⟨vs, rfl, hconverted⟩ := map_convert_of_listOutcome_eq_bound hanswered hmodel
    rw [tokens_collection hpresent hshape] at hconverted
    rw [record_collection hpresent hshape, hshape]
    exact .list hkind hconverted
  · cases hanswered
    cases hmodel

/-- A value that an answer with the tokens of the header is converted to is explained by the record
of the header. -/
theorem explains_of_answered {b : Bound} {v : Value} (hpresent : c.extraction.present = true)
    (hanswered : c.answered ⟨c.extraction.tokens⟩ = .bound b) (hmodel : b.model = some v) :
    c.record.Explains c.joined c.field.shape v := by
  cases hshape : c.field.shape with
  | scalar element =>
      cases element with
      | complex =>
          rw [answered_complex _ (by rw [hshape, Shape.element])] at hanswered
          cases hanswered
      | simple kind =>
          -- the joined text is the only token, so it is the one that was converted
          rw [answered_scalar _ hshape] at hanswered
          obtain ⟨raw, rest, htokens, hconvert⟩ :=
            convert_of_scalarOutcome_eq_bound hanswered hmodel
          rw [tokens_scalar hpresent hshape] at htokens
          obtain ⟨rfl, -⟩ := List.cons.inj htokens
          rw [record_scalar hpresent hshape]
          exact .scalar hconvert
  | collection container element =>
      cases element with
      | complex =>
          rw [answered_complex _ (by rw [hshape, Shape.element])] at hanswered
          cases hanswered
      | simple kind =>
          by_cases hkind : kind = .text
          · subst hkind
            rw [answered_texts _ hshape] at hanswered
            cases hmaterialized : materialize c.extraction.tokens container c.topLevel c.target with
            | none =>
                rw [hmaterialized] at hanswered
                cases hanswered
                cases hmodel
            | some t =>
                rw [hmaterialized] at hanswered
                cases hanswered
                cases hmodel
                have hitems : t.items = TokenList.split c.joined := by
                  rw [items_materialize hmaterialized, tokens_collection hpresent hshape]
                rw [record_collection hpresent hshape]
                exact .texts hitems
          · have hexplains := explains_list hpresent hshape hkind hanswered hmodel
            rw [hshape] at hexplains
            exact hexplains

/-- An error of converting an answer with the tokens of the header, other than that the shape is
not supported, is about a text that the record of the header holds. -/
theorem blames_of_answered {e : ConversionError} (hpresent : c.extraction.present = true)
    (hanswered : c.answered ⟨c.extraction.tokens⟩ = .error e) (hfault : e.fault ≠ .unsupported) :
    e.modelName = c.field.modelName ∧ c.record.Blames c.joined c.field.shape e := by
  cases hshape : c.field.shape with
  | scalar element =>
      cases element with
      | complex =>
          rw [answered_complex _ (by rw [hshape, Shape.element])] at hanswered
          cases hanswered
          exact absurd rfl hfault
      | simple kind =>
          rw [answered_scalar _ hshape] at hanswered
          obtain ⟨raw, rest, htokens, hconvert, hname, hattempted⟩ :=
            convert_of_scalarOutcome_eq_error hanswered
          rw [tokens_scalar hpresent hshape] at htokens
          obtain ⟨rfl, -⟩ := List.cons.inj htokens
          rw [record_scalar hpresent hshape]
          exact ⟨hname, .scalar hconvert hattempted⟩
  | collection container element =>
      cases element with
      | complex =>
          rw [answered_complex _ (by rw [hshape, Shape.element])] at hanswered
          cases hanswered
          exact absurd rfl hfault
      | simple kind =>
          by_cases hkind : kind = .text
          · -- texts need no conversion
            subst hkind
            rw [answered_texts _ hshape] at hanswered
            cases hmaterialized : materialize c.extraction.tokens container c.topLevel c.target with
            | none =>
                rw [hmaterialized] at hanswered
                cases hanswered
            | some t =>
                rw [hmaterialized] at hanswered
                cases hanswered
          · rw [answered_list _ hshape hkind] at hanswered
            split at hanswered
            · obtain ⟨hname, hfirst⟩ := firstFault_of_listOutcome_eq_error hanswered
              rw [tokens_collection hpresent hshape] at hfirst
              rw [record_collection hpresent hshape]
              exact ⟨hname, .list hfirst⟩
            · cases hanswered

/-- A value that the converter binds is explained by the record of the header. -/
theorem explains_of_converted {b : Bound} {v : Value} (hbound : c.convertedOutcome = .bound b)
    (hmodel : b.model = some v) :
    c.extraction.present = true ∧ c.record.Explains c.joined c.field.shape v := by
  rw [convertedOutcome] at hbound
  cases hpresent : c.extraction.present with
  | false =>
      -- without a header there is no value
      rw [hpresent] at hbound
      cases hbound
      cases hmodel
  | true =>
      rw [hpresent, if_pos rfl] at hbound
      obtain ⟨b', hanswered, hsame⟩ := Outcome.withPresence_eq_bound hbound
      exact ⟨rfl, explains_of_answered hpresent hanswered (hsame.trans hmodel)⟩

theorem blames_of_converted {e : ConversionError} (herror : c.convertedOutcome = .error e)
    (hfault : e.fault ≠ .unsupported) :
    c.extraction.present = true ∧ e.modelName = c.field.modelName ∧
      c.record.Blames c.joined c.field.shape e := by
  rw [convertedOutcome] at herror
  cases hpresent : c.extraction.present with
  | false =>
      rw [hpresent] at herror
      cases herror
  | true =>
      rw [hpresent, if_pos rfl] at herror
      exact ⟨rfl, blames_of_answered hpresent (Outcome.withPresence_eq_error herror) hfault⟩

/-- Only texts are bound alone, and they are bound as by the converter. -/
theorem element_of_ownOutcome {b : Bound} {v : Value} (hbound : c.ownOutcome = .bound b)
    (hmodel : b.model = some v) : c.field.shape.element = .simple .text := by
  have hown : c.ownModel ≠ none := by
    intro hnone
    rw [ownOutcome, hnone] at hbound
    split at hbound
    · cases hbound
      cases hmodel
    · cases hbound
      cases hmodel
  rw [ownModel] at hown
  split at hown
  · next hshape => rw [hshape, Shape.element]
  · next hshape => rw [hshape, Shape.element]
  · exact absurd rfl hown

end Context

/-! ## Stacks -/

/-- What a stack of binders binds from a header is explained by the record that it leaves under the
model name of the field, and so is an error that it ends in, unless the shape is not supported. -/
theorem explained_of_isStack {b : Binder} (hb : b.IsStack) (w : World) :
    let c := w.context
    let joined := ",".intercalate (c.headers.getAll c.field.name)
    let outcome := (b.run w).value.outcome
    let kept := (b.run w).world.ledger.get? c.field.modelName
    (∀ (bound : Bound) (v : Value), outcome = .bound bound → bound.model = some v →
      c.headers.contains c.field.name = true ∧
        ∃ r, kept = some r ∧ r.Explains joined c.field.shape v) ∧
    ∀ e, outcome = .error e → e.fault ≠ .unsupported →
      c.headers.contains c.field.name = true ∧ e.modelName = c.field.modelName ∧
        ∃ r, kept = some r ∧ r.Blames joined c.field.shape e := by
  intro c joined outcome kept
  obtain ⟨houtcome, takes, hworld⟩ := hb.settled w
  have hthere : c.extraction.present = true → c.headers.contains c.field.name = true := by
    intro hpresent
    rw [← present_extract c.headers c.field.name c.field.shape]
    exact hpresent
  have hkept : c.extraction.present = true → outcome.isKept = true → kept = some c.record := by
    intro hpresent hisKept
    have hfiles : c.files outcome = true := Bool.and_eq_true_iff.mpr ⟨hpresent, hisKept⟩
    show (b.run w).world.ledger.get? _ = _
    rw [hworld]
    exact World.get?_filed hfiles _
  constructor
  · intro bound v hbound hmodel
    have hconverted : c.convertedOutcome = .bound bound := by
      rcases houtcome with hown | hconverted
      · -- what is bound alone is a text, for which both outcomes are the same
        have hbare : c.ownOutcome = .bound bound := hown.symm.trans hbound
        exact (c.convertedOutcome_of_text (c.element_of_ownOutcome hbare hmodel)).trans hbare
      · exact hconverted.symm.trans hbound
    obtain ⟨hpresent, hexplains⟩ := Context.explains_of_converted hconverted hmodel
    have hisKept : outcome.isKept = true := by
      rw [hbound, Outcome.isKept, Bound.isSet, hmodel, Option.isSome_some]
    exact ⟨hthere hpresent, c.record, hkept hpresent hisKept, hexplains⟩
  · intro e herror hfault
    have hconverted : c.convertedOutcome = .error e := by
      rcases houtcome with hown | hconverted
      · obtain ⟨bound, hbare⟩ := c.exists_ownOutcome_eq
        have hnever : Outcome.error e = .bound bound := herror.symm.trans (hown.trans hbare)
        cases hnever
      · exact hconverted.symm.trans herror
    obtain ⟨hpresent, hname, hblames⟩ := Context.blames_of_converted hconverted hfault
    have hisKept : outcome.isKept = true := by rw [herror, Outcome.isKept]
    exact ⟨hthere hpresent, hname, c.record, hkept hpresent hisKept, hblames⟩

/-- Two layers over the converter bind a list of integers from two lines, and from two other lines
they report the token between the integers. -/
theorem explained_of_isStack_integers :
    let stack : Binder := .composed (.binder (.composed .converter none)) (some .recording)
    let field : Field :=
      { name := "X", modelName := "m", shape := .collection .list (.simple .integer) }
    let good : World := { context := { headers := .owned ⟨[("X", "1, 2"), ("X", "3")]⟩, field } }
    let bad : World := { context := { headers := .owned ⟨[("X", "1, two"), ("X", "3")]⟩, field } }
    let numbers : Value := .list [.integer 1, .integer 2, .integer 3]
    let e : ConversionError := { fault := .invalidInteger, modelName := "m", attempted := "two" }
    stack.IsStack ∧
      ((stack.run good).value.outcome = .bound (.success numbers) ∧
        ∃ r, (stack.run good).world.ledger.get? "m" = some r ∧
          r.Explains good.context.joined field.shape numbers) ∧
      (stack.run bad).value.outcome = .error e ∧
        ∃ r, (stack.run bad).world.ledger.get? "m" = some r ∧
          r.Blames bad.context.joined field.shape e := by
  intro stack field good bad numbers e
  have hstack : stack.IsStack := .layer _ (.converting _)
  have hrun : ∀ w, (stack.run w).value.outcome = w.context.convertedOutcome := by
    intro w
    have hlayers := (actsLike_composed_composed (unseen converter) w).1
    have hvalue : (stack.run w).value = (composed (unseen converter) w).value :=
      (announced_value_world (some .recording) _ w).1.trans hlayers
    rw [hvalue, value_converting]
  have hgoodTokens : good.context.extraction = ⟨["1", "2", "3"], .split, true⟩ := by
    decide +kernel
  have hbadTokens : bad.context.extraction = ⟨["1", "two", "3"], .split, true⟩ := by
    decide +kernel
  have hgood : (stack.run good).value.outcome = .bound (.success numbers) := by
    rw [hrun, Context.convertedOutcome, hgoodTokens]
    rfl
  have hbad : (stack.run bad).value.outcome = .error e := by
    rw [hrun, Context.convertedOutcome, hbadTokens]
    rfl
  obtain ⟨-, hexplains⟩ := (explained_of_isStack hstack good).1 _ _ hgood rfl
  obtain ⟨-, -, hblames⟩ := (explained_of_isStack hstack bad).2 e hbad (by decide)
  exact ⟨hstack, ⟨hgood, hexplains⟩, hbad, hblames⟩

end TypedHeaders
