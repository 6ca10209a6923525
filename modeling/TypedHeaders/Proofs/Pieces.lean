import TypedHeaders.Proofs.Precedence
import TypedHeaders.Proofs.Absence
import TypedHeaders.Proofs.Provenance
import TypedHeaders.Proofs.RoundTrip
import Mathlib.Data.List.Forall2

/-!
# A list and its pieces

The commas of a text without double quotes part it into pieces. A list field and a scalar field look
at a piece in different places: for a list it is trimmed when the text is cut, and a blank piece is
no token; for a scalar it stays as it is, is trimmed when it is converted, and a blank one is no
value. This module shows that both come to the same.

The tokens of such a text are its pieces, trimmed (`split_eq_map_trim`), and a piece is converted as
it is without the blanks around it (`convert_trim`). So a list is bound exactly if every piece is
bound as the scalar in a line of its own, and otherwise the first piece that is not bound is the one
that is reported (`list_bound_as_scalars`).
-/

set_option autoImplicit false

/-! ## Pieces of a text -/

namespace TypedHeaders.TokenList

open TypedHeaders.Text

/-- What stands between the commas of a text. -/
def betweenCommas (value : String) : List String :=
  (value.toList.splitOn ',').map String.ofList

/-- What stands between the commas of a text and is not blank. -/
def pieces (value : String) : List String := (betweenCommas value).filter fun p => !isBlankText p

theorem mem_pieces_iff {value p : String} :
    p ∈ pieces value ↔ p ∈ betweenCommas value ∧ isBlankText p = false := by
  rw [pieces, List.mem_filter, Bool.not_eq_true']

theorem betweenCommas_of_no_comma {value : String} (h : ',' ∉ value.toList) :
    betweenCommas value = [value] := by
  rw [betweenCommas, List.splitOn_eq_singleton h, List.map_singleton, String.ofList_toList]

/-- Characters outside quotes are parted at the commas. -/
theorem segments_map_plain (cs : List Char) :
    segments (cs.map .plain) = (cs.splitOn ',').map (List.map .plain) := by
  induction cs with
  | nil => rfl
  | cons c rest ih =>
      have hsep : (Item.plain c).isSeparator = (c == ',') := rfl
      rw [List.map_cons, segments, hsep, ih, List.splitOn_cons_eq_if_modifyHead]
      -- a comma opens a new part on both sides, any other character joins the first one
      split
      · rfl
      · cases hrest : rest.splitOn ',' with
        | nil => exact absurd hrest (List.splitOn_ne_nil _ _)
        | cons p more => rfl

/-- The tokens of a text without double quotes are its pieces, trimmed. -/
theorem split_eq_map_trim {value : String} (h : '"' ∉ value.toList) :
    split value = (pieces value).map trim := by
  -- the grammar leaves out what is empty when it is trimmed, and `pieces` what is blank before
  have hworth : ((fun cs : List Char => decide (cs ≠ [])) ∘ trimList) =
      (fun p => !isBlankText p) ∘ String.ofList := by
    funext cs
    rw [Function.comp_apply, Function.comp_apply, Bool.eq_iff_iff, decide_eq_true_eq,
      Bool.not_eq_true', isBlankText_eq_false_iff, String.toList_ofList]
  have htoken : token ∘ List.map .plain = trimList := funext token_map_plain
  have htrim : String.ofList ∘ trimList = trim ∘ String.ofList := by
    funext cs
    rw [Function.comp_apply, Function.comp_apply, trim, String.toList_ofList]
  rw [split_eq_texts, (items_of_no_quote h).1, segments_map_plain, texts, List.map_map, htoken,
    List.filter_map, hworth, List.map_map, htrim, pieces, betweenCommas, List.filter_map,
    List.map_map]

end TypedHeaders.TokenList

namespace TypedHeaders

open TypedHeaders.Header TypedHeaders.Text TypedHeaders.TokenList TypedHeaders.Number Binding

variable {kind : ScalarKind}

/-- The tokens are converted to the values one by one. -/
theorem map_convert_eq_iff {tokens : List String} {values : List Value} :
    tokens.map (convert kind) = values.map Except.ok ↔
      List.Forall₂ (fun t v => convert kind t = .ok v) tokens values := by
  rw [← List.forall₂_eq_eq_eq, List.forall₂_map_left_iff, List.forall₂_map_right_iff]

/-! ## One line -/

/-- The field of the world is one value of a kind, and this is the only line of its header. -/
structure World.HasLine (w : World) (kind : ScalarKind) (line : String) : Prop where
  lines : w.context.headers.getAll w.context.field.name = [line]
  shape : w.context.field.shape = .scalar (.simple kind)

/-- The world with a single line in place of all headers, and a field of one value in place of its
own. -/
def World.withLine (w : World) (kind : ScalarKind) (line : String) : World :=
  { w with
    context :=
      { w.context with
        headers := .owned ⟨[(w.context.field.name, line)]⟩
        field := { w.context.field with shape := .scalar (.simple kind) } } }

theorem World.hasLine_withLine (w : World) (kind : ScalarKind) (line : String) :
    (w.withLine kind line).HasLine kind line where
  lines := by
    show ([(w.context.field.name, line)].filter fun l => sameName l.1 w.context.field.name).map
      Prod.snd = [line]
    rw [List.filter_singleton, sameName_refl]
    rfl
  shape := rfl

theorem Context.present_of_lines {c : Context} (h : c.headers.getAll c.field.name ≠ []) :
    c.extraction.present = true :=
  Bool.not_eq_false _ |>.mp (mt c.present_eq_false_iff.mp h)

namespace World.HasLine

variable {w : World} {line : String}

theorem outcome (h : w.HasLine kind line) :
    w.context.convertedOutcome = scalarOutcome kind w.context.field.modelName [line] := by
  have hpresent : w.context.extraction.present = true :=
    Context.present_of_lines (by rw [h.lines]; exact List.cons_ne_nil _ _)
  have hjoined : w.context.joined = line := by
    rw [Context.joined, h.lines, String.intercalate_singleton]
  have hconverted : w.context.answered ⟨w.context.extraction.tokens⟩ =
      scalarOutcome kind w.context.field.modelName [line] := by
    rw [w.context.answered_scalar _ h.shape, Context.tokens_scalar hpresent h.shape, hjoined]
  rw [Context.convertedOutcome, hpresent, if_pos rfl, hconverted, scalarOutcome]
  -- with a value, the scalar is not taken for missing
  split
  · rfl
  · cases convert kind line with
    | ok v => rfl
    | error fault => rfl

/-- A line that is not blank is bound to its conversion. -/
theorem outcome_of_not_blank (h : w.HasLine kind line) (hblank : isBlankText line = false) :
    w.context.convertedOutcome = valueOutcome kind w.context.field.modelName line := by
  have hguard : (isBlankText line && kind != .text) = false := by
    rw [hblank, Bool.false_and]
  exact h.outcome.trans (scalarOutcome_of_not_blank _ _ (blank_guard_eq_false_iff.mp hguard))

theorem success_iff (h : w.HasLine kind line) (hkind : kind ≠ .text) {v : Value} :
    w.context.convertedOutcome = .bound (.success v) ↔
      isBlankText line = false ∧ convert kind line = .ok v := by
  cases hblank : isBlankText line with
  | true =>
      have hfailed : w.context.convertedOutcome = .bound .failed :=
        h.outcome.trans (scalarOutcome_of_blank _ _ hkind (List.all_eq_true.mp hblank))
      rw [hfailed]
      constructor
      · rintro ⟨⟩
      · rintro ⟨⟨⟩, -⟩
  | false =>
      rw [h.outcome_of_not_blank hblank, valueOutcome_eq_success_iff]
      exact (and_iff_right rfl).symm

end World.HasLine

/-! ## A list -/

/-- The field of the context is a list of a kind of scalar but text, and nothing keeps it from being
built anew. -/
structure Context.ListsAnew (c : Context) (kind : ScalarKind) : Prop where
  kind_ne : kind ≠ .text
  shape : ∃ container, c.field.shape = .collection container (.simple kind) ∧
    container.isAbstract = false
  assignable : c.field.access = .assignable
  topLevel : c.topLevel = true

theorem Context.ListsAnew.outcome {c : Context} (h : c.ListsAnew kind)
    (hlines : c.headers.getAll c.field.name ≠ []) (hquote : '"' ∉ c.joined.toList) :
    c.convertedOutcome =
      listOutcome kind c.field.modelName ((pieces c.joined).map trim) := by
  obtain ⟨container, hshape, hcontainer⟩ := h.shape
  have hpresent := present_of_lines hlines
  have hfree : ¬c.RefusesList container ((pieces c.joined).map trim) := by
    rintro (habstract | ⟨-, hnested⟩ | hreadOnly)
    · rw [hcontainer] at habstract
      cases habstract
    · rw [h.topLevel] at hnested
      cases hnested
    · rw [h.assignable] at hreadOnly
      cases hreadOnly
  rw [convertedOutcome, hpresent, if_pos rfl, tokens_collection hpresent hshape,
    split_eq_map_trim hquote, answered_of_not_refusesList hshape h.kind_ne hfree, listOutcome]
  cases convertAll kind c.field.modelName ((pieces c.joined).map trim) with
  | ok items => rfl
  | error e => rfl

/-- Relations that agree on the members of the first list relate the same lists. -/
theorem forall₂_congr_of_mem {α β : Type} {R S : α → β → Prop} {as : List α} {bs : List β}
    (h : ∀ a ∈ as, ∀ b, R a b ↔ S a b) : List.Forall₂ R as bs ↔ List.Forall₂ S as bs := by
  rw [List.forall₂_iff_zip, List.forall₂_iff_zip]
  refine and_congr_right fun _ => ?_
  constructor
  · intro hall a b hab
    exact (h a (List.of_mem_zip hab).1 b).mp (hall hab)
  · intro hall a b hab
    exact (h a (List.of_mem_zip hab).1 b).mpr (hall hab)

/-! ## Each piece alone -/

section Alone

variable {modelName : String} {ps : List String} {bound : String → Outcome}
  {nameOf : String → String}

/-- A list is bound exactly if each of its pieces is bound alone. -/
theorem listOutcome_map_trim_eq_success_iff (hkind : kind ≠ .text)
    (hbound : ∀ p ∈ ps, bound p = valueOutcome kind (nameOf p) p) {xs : List Value} :
    listOutcome kind modelName (ps.map trim) = .bound (.success (.list xs)) ↔
      List.Forall₂ (fun p x => bound p = .bound (.success x)) ps xs := by
  have hpiece : ∀ p ∈ ps, ∀ x, bound p = .bound (.success x) ↔ convert kind p = .ok x := by
    intro p hp x
    rw [hbound p hp, valueOutcome_eq_success_iff]
  have htrim : convert kind ∘ trim = convert kind := funext (convert_trim hkind)
  rw [forall₂_congr_of_mem hpiece, ← map_convert_eq_iff, ← htrim, ← List.map_map,
    ← convertAll_eq_ok_iff, listOutcome]
  cases convertAll kind modelName (ps.map trim) with
  | ok items => simp [Bound.success]
  | error e => simp

/-- If some piece is not bound alone, the list reports the first such piece, trimmed. -/
theorem exists_first_unbound (hkind : kind ≠ .text)
    (hbound : ∀ p ∈ ps, bound p = valueOutcome kind (nameOf p) p)
    (hfails : ∃ p ∈ ps, ∀ x, bound p ≠ .bound (.success x)) :
    ∃ before p after fault, ps = before ++ p :: after ∧
      (∀ q ∈ before, ∃ x, bound q = .bound (.success x)) ∧
      bound p = .error { fault, modelName := nameOf p, attempted := p } ∧
      listOutcome kind modelName (ps.map trim) =
        .error { fault, modelName, attempted := trim p } := by
  cases hall : convertAll kind modelName (ps.map trim) with
  | ok items =>
      -- then each piece would be bound
      obtain ⟨p, hp, hunbound⟩ := hfails
      have hmem : convert kind (trim p) ∈ items.map Except.ok := by
        rw [← convertAll_eq_ok_iff.mp hall]
        exact List.mem_map_of_mem (List.mem_map_of_mem hp)
      obtain ⟨x, -, hx⟩ := List.mem_map.mp hmem
      refine absurd ?_ (hunbound x)
      rw [hbound p hp, valueOutcome_eq_success_iff, ← convert_trim hkind, ← hx]
  | error e =>
      obtain ⟨hname, hfirst⟩ := convertAll_eq_error_iff.mp hall
      obtain ⟨_, _, htokens, hconverted, hfault⟩ := hfirst.exists_append
      -- the tokens before the fault are those of the pieces before the piece at fault
      obtain ⟨before, rest, rfl, rfl, hrest⟩ := List.map_eq_append_iff.mp htokens
      obtain ⟨p, after, rfl, hp, -⟩ := List.map_eq_cons_iff.mp hrest
      rw [← hp, convert_trim hkind] at hfault
      refine ⟨before, p, after, e.fault, rfl, ?_, ?_, ?_⟩
      · intro q hq
        obtain ⟨x, hx⟩ := hconverted (trim q) (List.mem_map_of_mem hq)
        rw [convert_trim hkind] at hx
        exact ⟨x, (hbound q (List.mem_append_left _ hq)).trans (valueOutcome_eq_success_iff.mpr hx)⟩
      · rw [hbound p (List.mem_append_right _ List.mem_cons_self), valueOutcome, hfault]
      · rw [listOutcome, hall, hp, ← hname]

end Alone

/-! ## Both ways -/

/-- The text of a header without double quotes is bound by the converter as a list of values exactly
if each of its pieces, in a line of its own, is bound as the scalar, to the same values in order. If
some piece is not bound, the first such piece is at fault for the list too, which reports it
trimmed. A text without a comma is the only piece it can have. -/
theorem list_bound_as_scalars {w : World} {single : String → World} (sink sink' : Option Sink)
    (hlists : w.context.ListsAnew kind)
    (hlines : w.context.headers.getAll w.context.field.name ≠ [])
    (hquote : '"' ∉ w.context.joined.toList)
    (hsingle : ∀ p ∈ betweenCommas w.context.joined, (single p).HasLine kind p) :
    let value := w.context.joined
    let listed := ((Binder.composed .converter sink).run w).value.outcome
    let bound := fun p => ((Binder.composed .converter sink').run (single p)).value.outcome
    (∀ xs, listed = .bound (.success (.list xs)) ↔
        List.Forall₂ (fun p x => bound p = .bound (.success x)) (pieces value) xs) ∧
      ((∃ p ∈ pieces value, ∀ x, bound p ≠ .bound (.success x)) →
        ∃ before p after fault, pieces value = before ++ p :: after ∧
          (∀ q ∈ before, ∃ x, bound q = .bound (.success x)) ∧
          bound p = .error { fault, modelName := (single p).context.field.modelName,
                             attempted := p } ∧
          listed = .error { fault, modelName := w.context.field.modelName,
                            attempted := trim p }) ∧
      (',' ∉ value.toList →
        ∀ x, listed = .bound (.success (.list [x])) ↔ bound value = .bound (.success x)) := by
  intro value listed bound
  have hkind := hlists.kind_ne
  have hlisted : listed =
      listOutcome kind w.context.field.modelName ((pieces value).map trim) :=
    (outcome_converting sink w).trans (hlists.outcome hlines hquote)
  have hbound : ∀ p ∈ pieces value,
      bound p = valueOutcome kind (single p).context.field.modelName p := by
    intro p hp
    obtain ⟨hbetween, hblank⟩ := mem_pieces_iff.mp hp
    exact (outcome_converting sink' _).trans ((hsingle p hbetween).outcome_of_not_blank hblank)
  have hlist : ∀ xs, listed = .bound (.success (.list xs)) ↔
      List.Forall₂ (fun p x => bound p = .bound (.success x)) (pieces value) xs := by
    intro xs
    rw [hlisted]
    exact listOutcome_map_trim_eq_success_iff hkind hbound
  refine ⟨hlist, ?_, ?_⟩
  · intro hfails
    rw [hlisted]
    exact exists_first_unbound hkind hbound hfails
  · intro hcomma x
    have hbetween := betweenCommas_of_no_comma hcomma
    have hline : (single value).HasLine kind value :=
      hsingle value (by rw [hbetween]; exact List.mem_singleton_self value)
    have halone : bound value = (single value).context.convertedOutcome :=
      outcome_converting sink' _
    rw [hlist, pieces, hbetween, List.filter_singleton]
    cases hblank : isBlankText value with
    | true =>
        -- a blank is no piece, and no value either
        rw [halone, hline.success_iff hkind, hblank]
        simp
    | false => simp

/-- Integers over two lines, with blanks of several kinds around them and a blank piece between them:
they are bound, and with a backslash behind the second one that piece is reported without its
blank. -/
theorem list_bound_as_scalars_two_lines :
    let w : String → World := fun value =>
      { context :=
          { headers := .owned ⟨[("x-n", "\t-1 "), ("X-N", value)]⟩
            field := { name := "X-N", modelName := "n",
                       shape := .collection .deque (.simple .integer) } } }
    let good := w "\u30002, ,+3"
    let bad := w "\u30002\\, ,+3"
    let listed := fun w => ((Binder.composed .converter (some .tracing)).run w).value.outcome
    let bound := fun p =>
      ((Binder.composed .converter none).run (good.withLine .integer p)).value.outcome
    let unread : String → Outcome := fun attempted =>
      .error { fault := .invalidInteger, modelName := "n", attempted }
    (∀ value, (w value).context.ListsAnew .integer) ∧
      (∀ value, (w value).context.headers.getAll "X-N" = ["\t-1 ", value]) ∧
      ('"' ∉ good.context.joined.toList ∧ '"' ∉ bad.context.joined.toList) ∧
      (∀ p, (good.withLine .integer p).HasLine .integer p) ∧
      listed good = .bound (.success (.list [.integer (-1), .integer 2, .integer 3])) ∧
      bound "\u30002\\" = unread "\u30002\\" ∧ listed bad = unread "2\\" := by
  intro w good bad listed bound unread
  have hname : sameName "x-n" "X-N" = true := by
    rw [sameName_iff, ← String.toList_inj, toList_foldCase, toList_foldCase]
    decide
  have hlists : ∀ value, (w value).context.ListsAnew .integer :=
    fun value => ⟨nofun, ⟨.deque, rfl, rfl⟩, rfl, rfl⟩
  have hlines : ∀ value, (w value).context.headers.getAll "X-N" = ["\t-1 ", value] := by
    intro value
    show ([("x-n", "\t-1 "), ("X-N", value)].filter fun l => sameName l.1 "X-N").map Prod.snd = _
    simp [hname]
  have hthere : ∀ value, (w value).context.headers.getAll (w value).context.field.name ≠ [] := by
    intro value hnone
    cases (hlines value).symm.trans hnone
  have hjoined : ∀ value, (w value).context.joined = "\t-1 " ++ "," ++ value := by
    intro value
    show ",".intercalate ((w value).context.headers.getAll "X-N") = _
    rw [hlines]
    rfl
  have hquotes : '"' ∉ good.context.joined.toList ∧ '"' ∉ bad.context.joined.toList := by
    rw [hjoined, hjoined]
    decide +kernel
  have hsingle : ∀ p, (good.withLine .integer p).HasLine .integer p := good.hasLine_withLine _
  have hbound : ∀ p n, isBlankText p = false → Integer.readWord? (trimList p.toList) = some n →
      bound p = .bound (.success (.integer n)) := by
    intro p n hblank hread
    have hconvert : convert .integer p = .ok (.integer n) := by
      unfold convert
      dsimp only
      rw [hread]
    exact (outcome_converting none _).trans (((hsingle p).success_iff nofun).mpr ⟨hblank, hconvert⟩)
  have hminus := hbound "\t-1 " (-1) (by decide +kernel) (by decide +kernel)
  have htwo := hbound "\u30002" 2 (by decide +kernel) (by decide +kernel)
  have hthree := hbound "+3" 3 (by decide +kernel) (by decide +kernel)
  have hunread : bound "\u30002\\" = unread "\u30002\\" := by
    have hread : Integer.readWord? (trimList "\u30002\\".toList) = none := by decide +kernel
    have hconvert : convert .integer "\u30002\\" = .error .invalidInteger := by
      unfold convert
      dsimp only
      rw [hread]
    refine (outcome_converting none _).trans
      (((hsingle _).outcome_of_not_blank (by decide +kernel)).trans ?_)
    rw [valueOutcome, hconvert]
    rfl
  refine ⟨hlists, hlines, hquotes, hsingle, ?_, hunread, ?_⟩
  · obtain ⟨hlist, -⟩ := list_bound_as_scalars (some .tracing) none (hlists "\u30002, ,+3")
      (hthere _) hquotes.1 fun p _ => hsingle p
    have hpieces : pieces good.context.joined = ["\t-1 ", "\u30002", "+3"] := by
      rw [hjoined]
      decide +kernel
    rw [hpieces] at hlist
    exact (hlist _).mpr (.cons hminus (.cons htwo (.cons hthree .nil)))
  · obtain ⟨-, hfirst, -⟩ := list_bound_as_scalars (some .tracing) none (hlists "\u30002\\, ,+3")
      (hthere _) hquotes.2 fun p _ => hsingle p
    have hpieces : pieces bad.context.joined = ["\t-1 ", "\u30002\\", "+3"] := by
      rw [hjoined]
      decide +kernel
    rw [hpieces] at hfirst
    have hfails : ∀ x, bound "\u30002\\" ≠ .bound (.success x) := by
      intro x hx
      cases hunread.symm.trans hx
    obtain ⟨before, p, after, fault, hps, hbefore, hp, hlisted⟩ :=
      hfirst ⟨_, List.mem_cons_of_mem _ List.mem_cons_self, hfails⟩
    -- the first piece is bound and the second is not, so the second is the one at fault
    cases before with
    | nil =>
        obtain ⟨rfl, -⟩ := List.cons.inj hps
        cases hminus.symm.trans hp
    | cons q rest =>
        obtain ⟨-, hps⟩ := List.cons.inj hps
        cases rest with
        | nil =>
            obtain ⟨rfl, -⟩ := List.cons.inj hps
            cases hunread.symm.trans hp
            have htrim : trim "\u30002\\" = "2\\" := by decide +kernel
            rw [htrim] at hlisted
            exact hlisted
        | cons q' rest =>
            obtain ⟨rfl, -⟩ := List.cons.inj hps
            obtain ⟨x, hx⟩ := hbefore _ (List.mem_cons_of_mem q List.mem_cons_self)
            exact absurd hx (hfails x)

end TypedHeaders
