import TypedHeaders.Proofs.Precedence
import TypedHeaders.Proofs.Stack

/-!
# The gate and the converter

The gate in front of header binders and the converter behind them look at the shape of a field apart
from each other, and agree on it. The converter gives a field up as unsupported exactly if its header
is there and its shape is not eligible (`convertedOutcome_unsupported_iff`), since every other error
comes from a token and names another fault (`Context.Verdict.unsupported_iff`). So a binder that the
gate has let through never ends in that fault.

The gate asks for a delegate at most once, with the origin of model binding, under which every
catalogue declines. That is said of factories in any monad: whatever a factory does when it is asked
is done once behind an open gate (`Catalogue.binderFrom_of_open`) and not at all behind a closed one
(`Catalogue.binderFrom_of_closed`). A factory that asks a catalogue first is therefore left with what
it does otherwise (`Catalogue.delegates`), and no header binder is put into another one by it.
-/

set_option autoImplicit false

namespace TypedHeaders

open Binding

/-! ## Faults of tokens -/

variable {kind : ScalarKind} {raw : String} {fault : Fault}

/-- A token that cannot be converted is at fault itself, and not the kind. -/
theorem convert_ne_unsupported (h : convert kind raw = .error fault) : fault ≠ .unsupported := by
  rintro rfl
  unfold convert at h
  -- a text has no fault, and every other kind has one of its own
  split at h
  · cases h
  all_goals
    split at h
    · cases h
    · cases h

theorem FirstFault.ne_unsupported {tokens : List String} (h : FirstFault kind raw fault tokens) :
    fault ≠ .unsupported := by
  obtain ⟨before, after, -, -, hraw⟩ := h.exists_append
  exact convert_ne_unsupported hraw

/-! ## Unsupported fields -/

/-- Of the rules that end in an error only the one for complex elements calls the field
unsupported. -/
theorem Context.Verdict.unsupported_iff {c : Context} {covered : Bool} {values : List String}
    {e : ConversionError} (h : c.Verdict covered values (.error e)) :
    e.fault = .unsupported ↔ c.field.shape.isEligible = false := by
  rw [Shape.isEligible_eq_false_iff]
  cases h with
  | unconverted hshape hworth hconvert =>
      rw [hshape]
      exact iff_of_false (convert_ne_unsupported hconvert) nofun
  | unlisted hshape hkind hfree hfirst =>
      rw [hshape]
      exact iff_of_false hfirst.ne_unsupported nofun
  | unsupported hcomplex => exact iff_of_true rfl hcomplex

/-- Converting the header of a field gives it up as unsupported exactly if the header is there and
the shape is not eligible. -/
theorem Context.convertedOutcome_unsupported_iff (c : Context) :
    (∃ e, c.convertedOutcome = .error e ∧ e.fault = .unsupported) ↔
      c.headers.contains c.field.name = true ∧ c.field.shape.isEligible = false := by
  have hpresent : c.extraction.present = c.headers.contains c.field.name :=
    present_extract c.headers c.field.name c.field.shape
  rw [convertedOutcome, hpresent]
  cases c.headers.contains c.field.name with
  | false =>
      constructor
      · rintro ⟨e, herror, -⟩
        cases herror
      · rintro ⟨hfalse, -⟩
        cases hfalse
  | true =>
      rw [if_pos rfl]
      -- the rule that applied to the tokens tells the fault
      have hverdict := c.verdict_answered c.extraction.tokens
      constructor
      · rintro ⟨e, herror, hfault⟩
        rw [Outcome.withPresence_eq_error herror] at hverdict
        exact ⟨rfl, hverdict.unsupported_iff.mp hfault⟩
      · rintro ⟨-, hshape⟩
        rw [c.answered_complex _ ((Shape.isEligible_eq_false_iff _).mp hshape)]
        exact ⟨_, rfl, rfl⟩

/-! ## The gate -/

theorem isOpen_iff_accepts {origin : Option Origin} {shape : Shape} :
    isOpen origin shape = true ↔
      (∃ o, origin = some o ∧ o.accepts .header = true) ∧ shape.isEligible = true := by
  cases origin with
  | none => simp [isOpen]
  | some o => simp [isOpen]

namespace Catalogue

section AnyMonad

variable {m : Type → Type} [Monad m] {origin : Option Origin} {shape : Shape} (c : Catalogue)

/-- A factory of delegates that asks a catalogue for a header binder first, and then another
factory. -/
def delegates (create fallback : Inquiry → m (Option Delegate)) (q : Inquiry) :
    m (Option Delegate) := do
  match ← c.binderFrom (some q.origin) q.shape create with
  | some b => pure (some (.binder b))
  | none => fallback q

/-- Behind an open gate the factory is asked once, and nothing else is done. -/
theorem binderFrom_of_open (create : Inquiry → m (Option Delegate))
    (h : isOpen origin shape = true) :
    c.binderFrom origin shape create =
      (Option.map fun d => .composed d c.sink) <$> create { shape, origin := .modelBinding } := by
  rw [binderFrom, select_of_open create h]

variable [LawfulMonad m]

/-- Behind a closed gate nothing is done. -/
theorem binderFrom_of_closed (create : Inquiry → m (Option Delegate))
    (h : isOpen origin shape = false) : c.binderFrom origin shape create = pure none := by
  rw [binderFrom, select_of_closed create h, map_pure]
  rfl

/-- The gate is closed to whatever is asked for with the origin of model binding. -/
theorem binderFrom_modelBinding (shape : Shape) (create : Inquiry → m (Option Delegate)) :
    c.binderFrom (some .modelBinding) shape create = pure none :=
  c.binderFrom_of_closed create rfl

/-- Asking a catalogue first changes nothing, since the one that asks for a delegate asks with an
origin that every catalogue declines. -/
theorem binderFrom_delegates (c' : Catalogue) (create' create : Inquiry → m (Option Delegate)) :
    c.binderFrom origin shape (c'.delegates create' create) = c.binderFrom origin shape create := by
  cases hopen : isOpen origin shape with
  | false => rw [c.binderFrom_of_closed _ hopen, c.binderFrom_of_closed create hopen]
  | true =>
      -- the inner catalogue is asked from model binding
      rw [c.binderFrom_of_open _ hopen, c.binderFrom_of_open create hopen, delegates,
        c'.binderFrom_modelBinding, pure_bind]

end AnyMonad

variable {origin : Option Origin} {shape : Shape} (c : Catalogue)
  (create : Inquiry → Option Delegate)

theorem binderFor_of_open (h : isOpen origin shape = true) :
    c.binderFor origin shape create =
      { inquiries := [{ shape, origin := .modelBinding }]
        value := (create { shape, origin := .modelBinding }).map fun d => .composed d c.sink } := by
  rw [binderFor, c.binderFrom_of_open (noted create) h]
  rfl

theorem binderFor_of_closed (h : isOpen origin shape = false) :
    c.binderFor origin shape create = { inquiries := [], value := none } :=
  c.binderFrom_of_closed (noted create) h

/-- A catalogue asks at most once. -/
theorem inquiries_binderFor :
    (c.binderFor origin shape create).inquiries =
      (c.binderFor origin shape create).asked.toList := by
  cases hopen : isOpen origin shape with
  | false =>
      rw [c.binderFor_of_closed create hopen]
      rfl
  | true =>
      rw [c.binderFor_of_open create hopen]
      rfl

/-- A factory that asks on does so once for what it is asked itself, and not at all if it is not
asked. -/
theorem inquiries_binderFrom (factory : Inquiry → Asking (Option Delegate)) :
    (c.binderFrom origin shape factory).inquiries =
      (c.binderFor origin shape create).inquiries.flatMap fun q => (factory q).inquiries := by
  cases hopen : isOpen origin shape with
  | false =>
      rw [c.binderFrom_of_closed factory hopen, c.binderFor_of_closed create hopen]
      rfl
  | true =>
      rw [c.binderFrom_of_open factory hopen, c.binderFor_of_open create hopen,
        List.flatMap_singleton]
      -- composing the binder asks for nothing more
      exact List.append_nil _

/-- A catalogue asks for nothing but a delegate for the same shape from model binding, and only if
its gate is open. -/
theorem asked_binderFor_iff (q : Inquiry) :
    (c.binderFor origin shape create).asked = some q ↔
      isOpen origin shape = true ∧ q = { shape, origin := .modelBinding } := by
  cases hopen : isOpen origin shape with
  | false =>
      rw [c.binderFor_of_closed create hopen]
      simp [Asking.asked]
  | true =>
      rw [c.binderFor_of_open create hopen]
      simp [Asking.asked, eq_comm]

/-- A catalogue hands out a binder over the delegate that it was given, if its gate is open. -/
theorem chosen_binderFor_iff (b : Binder) :
    (c.binderFor origin shape create).chosen = some b ↔
      isOpen origin shape = true ∧
        ∃ d, create { shape, origin := .modelBinding } = some d ∧ b = .composed d c.sink := by
  cases hopen : isOpen origin shape with
  | false =>
      rw [c.binderFor_of_closed create hopen]
      simp [Asking.chosen]
  | true =>
      rw [c.binderFor_of_open create hopen, Asking.chosen, Option.map_eq_some_iff]
      constructor
      · rintro ⟨d, hd, rfl⟩
        exact ⟨rfl, d, hd, rfl⟩
      · rintro ⟨-, d, hd, rfl⟩
        exact ⟨d, hd, rfl⟩

variable {c create}

/-- All that counts of a factory is what it answers when it is asked. -/
theorem binderFor_congr {create' : Inquiry → Option Delegate}
    (h : ∀ q, (c.binderFor origin shape create).asked = some q → create' q = create q) :
    c.binderFor origin shape create' = c.binderFor origin shape create := by
  cases hopen : isOpen origin shape with
  | false => rw [c.binderFor_of_closed create' hopen, c.binderFor_of_closed create hopen]
  | true =>
      have hsame := h _ ((c.asked_binderFor_iff create _).mpr ⟨hopen, rfl⟩)
      rw [c.binderFor_of_open create' hopen, c.binderFor_of_open create hopen, hsame]

end Catalogue

/-! ## Binders that were handed out -/

/-- A binder over the converter calls a field unsupported exactly if its header is there and its
shape is not eligible. -/
theorem run_converting_unsupported_iff (sink : Option Sink) (w : World) :
    (∃ e, ((Binder.composed .converter sink).run w).value.outcome = .error e ∧
      e.fault = .unsupported) ↔
        w.context.headers.contains w.context.field.name = true ∧
          w.context.field.shape.isEligible = false := by
  rw [outcome_converting]
  exact w.context.convertedOutcome_unsupported_iff

/-- A binder over the converter that was handed out for a shape never calls a field of this shape
unsupported. -/
theorem Catalogue.ne_unsupported_of_chosen {c : Catalogue} {origin : Option Origin}
    {create : Inquiry → Option Delegate} {b : Binder} {w : World} {e : ConversionError}
    (hconverter :
      create { shape := w.context.field.shape, origin := .modelBinding } = some .converter)
    (hchosen : (c.binderFor origin w.context.field.shape create).chosen = some b)
    (herror : (b.run w).value.outcome = .error e) : e.fault ≠ .unsupported := by
  obtain ⟨hopen, d, hd, rfl⟩ := (c.chosen_binderFor_iff create b).mp hchosen
  obtain rfl : Delegate.converter = d := Option.some.inj (hconverter.symm.trans hd)
  intro hfault
  obtain ⟨-, hclosed⟩ := (run_converting_unsupported_iff c.sink w).mp ⟨e, herror, hfault⟩
  rw [(isOpen_iff.mp hopen).2] at hclosed
  cases hclosed

/-- The gate lets a field pass if it has an origin that accepts headers and a shape that is eligible,
and a binder is handed out then if there is a delegate for it. A delegate is asked for only then,
once, for the same shape and from model binding, and whatever a factory asks for itself on this
inquiry is asked for once. Nothing else that a factory answers counts, every catalogue declines what
is asked for from model binding without asking any further, and so asking a catalogue first makes no
difference. A binder over the converter calls a field unsupported exactly if its header is there and
its shape is not eligible, so one that was handed out for the shape of the field never does. -/
theorem handed_out_and_unsupported_iff (c : Catalogue) (origin : Option Origin) (shape : Shape)
    (create : Inquiry → Option Delegate) :
    let s := c.binderFor origin shape create
    let inquiry : Inquiry := { shape, origin := .modelBinding }
    (∀ b, s.chosen = some b ↔
      ((∃ o, origin = some o ∧ o.accepts .header = true) ∧ shape.isEligible = true) ∧
        ∃ d, create inquiry = some d ∧ b = .composed d c.sink) ∧
    (∀ q, s.asked = some q ↔
      ((∃ o, origin = some o ∧ o.accepts .header = true) ∧ shape.isEligible = true) ∧
        q = inquiry) ∧
    s.inquiries = s.asked.toList ∧
    (∀ create', (∀ q, s.asked = some q → create' q = create q) →
      c.binderFor origin shape create' = s) ∧
    (∀ factory : Inquiry → Asking (Option Delegate),
      (c.binderFrom origin shape factory).inquiries =
        s.inquiries.flatMap fun q => (factory q).inquiries) ∧
    (∀ (c' : Catalogue) (shape' : Shape) (create' : Inquiry → Option Delegate),
      c'.binderFor (some inquiry.origin) shape' create' = { inquiries := [], value := none } ∧
        c.binderFrom origin shape (c'.delegates (noted create') (noted create)) = s) ∧
    (∀ (sink : Option Sink) (w : World),
      (∃ e, ((Binder.composed .converter sink).run w).value.outcome = .error e ∧
        e.fault = .unsupported) ↔
          w.context.headers.contains w.context.field.name = true ∧
            w.context.field.shape.isEligible = false) ∧
    (create inquiry = some .converter → ∀ b, s.chosen = some b →
      ∀ w : World, w.context.field.shape = shape →
        ∀ e, (b.run w).value.outcome = .error e → e.fault ≠ .unsupported) := by
  intro s inquiry
  refine ⟨?_, ?_, c.inquiries_binderFor create, ?_, c.inquiries_binderFrom create, ?_,
    run_converting_unsupported_iff, ?_⟩
  · intro b
    rw [← isOpen_iff_accepts]
    exact c.chosen_binderFor_iff create b
  · intro q
    rw [← isOpen_iff_accepts]
    exact c.asked_binderFor_iff create q
  · intro create' hsame
    exact Catalogue.binderFor_congr hsame
  · intro c' shape' create'
    exact ⟨c'.binderFrom_modelBinding shape' (noted create'),
      c.binderFrom_delegates c' (noted create') (noted create)⟩
  · rintro hconverter b hchosen w rfl e herror
    exact Catalogue.ne_unsupported_of_chosen hconverter hchosen herror

/-- A list of integers with a token that is none, bound by what a catalogue hands out over another
one: the token is called no integer, and a factory that answers nothing but this one inquiry would do
as well. A list of complex elements from the same header is called unsupported by a binder that was
not handed out. -/
theorem handed_out_and_unsupported_iff_list :
    let integers : Shape := .collection .list (.simple .integer)
    let objects : Shape := .collection .list .complex
    let w (shape : Shape) : World :=
      { context :=
          { headers := .owned ⟨[("x", "1,a")]⟩, field := { name := "x", modelName := "m", shape } } }
    let b : Binder := .composed .converter none
    let inquiry : Inquiry := { shape := integers, origin := .modelBinding }
    let create : Inquiry → Option Delegate := fun _ => some .converter
    let only : Inquiry → Option Delegate := fun q => if q = inquiry then some .converter else none
    let outer : Catalogue := {}
    let inner : Catalogue := { sink := some .tracing }
    let s := outer.binderFrom (some .header) integers (inner.delegates (noted create) (noted create))
    s.inquiries = [inquiry] ∧ s.chosen = some b ∧ create inquiry = some .converter ∧
      (∀ q, s.asked = some q → only q = create q) ∧
      outer.binderFor (some .header) integers only = s ∧
      (∀ e, (b.run (w integers)).value.outcome = .error e → e.fault ≠ .unsupported) ∧
      (w objects).context.headers.contains "x" = true ∧ objects.isEligible = false ∧
      ∃ e, (b.run (w objects)).value.outcome = .error e ∧ e.fault = .unsupported := by
  intro integers objects w b inquiry create only outer inner s
  have hheader : (w objects).context.headers.contains "x" = true := by decide +kernel
  obtain ⟨hchosen, hasked, honce, hcongr, -, hnested, hunsupported, hnever⟩ :=
    handed_out_and_unsupported_iff outer (some .header) integers create
  -- the inner catalogue is never asked, so it is as if it were not there
  have hs : s = outer.binderFor (some .header) integers create := (hnested inner integers create).2
  rw [hs]
  have haccepts : (∃ o, some Origin.header = some o ∧ o.accepts .header = true) ∧
      integers.isEligible = true := ⟨⟨.header, rfl, rfl⟩, rfl⟩
  have hb := (hchosen b).mpr ⟨haccepts, .converter, rfl, rfl⟩
  have hinquiry := (hasked inquiry).mpr ⟨haccepts, rfl⟩
  have hsame : ∀ q, (outer.binderFor (some .header) integers create).asked = some q →
      only q = create q := by
    intro q hq
    obtain rfl : inquiry = q := Option.some.inj (hinquiry.symm.trans hq)
    exact if_pos rfl
  refine ⟨?_, hb, rfl, hsame, hcongr only hsame, hnever rfl b hb (w integers) rfl, hheader, rfl,
    (hunsupported none (w objects)).mpr ⟨hheader, rfl⟩⟩
  rw [honce, hinquiry]
  rfl

end TypedHeaders
