import TypedHeaders.Proofs.Programs

/-!
# Programs do not see which store they read

Exchanging the store under a program for one that agrees with it and then running the program is the
same as running it and then exchanging the store: value, journal and world are the same
(`StoreBlind`). Programs read headers only by questions that such stores answer alike, and the
property is compositional (`StoreBlind.compositional`), so all programs have it. Whole sessions over
stores that agree leave the same entries (`Session.run_of_agrees`).
-/

set_option autoImplicit false

namespace TypedHeaders

open TypedHeaders.Header Activity Binding

/-! ## Another store -/

/-- The world over another store. -/
def World.over (w : World) (h : HeaderStore) : World := { w with context := w.context.over h }

/-- The report with the world over another store. -/
def Report.over {α : Type} (r : Report α) (h : HeaderStore) : Report α :=
  { r with world := r.world.over h }

/-- The activity keeps the store that it runs over, and with a store that agrees in its place it
comes to the same value, does the same, and leaves the same world. -/
def StoreBlind {α : Type} (x : Activity α) : Prop :=
  ∀ w, (x w).world.context.headers = w.context.headers ∧
    ∀ h, w.context.headers.Agrees h → x (w.over h) = (x w).over h

namespace StoreBlind

variable {α β σ : Type}

theorem pure (a : α) : StoreBlind (pure a : Activity α) := fun _ => ⟨rfl, fun _ _ => rfl⟩

theorem bind {x : Activity α} {f : α → Activity β} (hx : StoreBlind x)
    (hf : ∀ a, StoreBlind (f a)) : StoreBlind (x >>= f) := by
  intro w
  obtain ⟨hkept, hover⟩ := hx w
  obtain ⟨hkept', hover'⟩ := hf (x w).value (x w).world
  refine ⟨hkept'.trans hkept, ?_⟩
  intro h hh
  -- the first activity keeps its store, so the second one starts over a store that agrees with `h`
  have hsecond : f ((x w).over h).value ((x w).over h).world =
      (f (x w).value (x w).world).over h := hover' h (by rw [hkept]; exact hh)
  show Report.mk (f (x (w.over h)).value (x (w.over h)).world).value _ _ = Report.mk _ _ _
  rw [hover h hh, hsecond]
  rfl

/-- What follows a look at the context may use all that stores that agree have in common. -/
theorem context {f : Context → Activity α} (hf : ∀ c, StoreBlind (f c))
    (hsame : ∀ (c : Context) (h : HeaderStore), c.headers.Agrees h → f (c.over h) = f c) :
    StoreBlind (Activity.context >>= f) := by
  intro w
  obtain ⟨hkept, hover⟩ := hf w.context w
  refine ⟨hkept, ?_⟩
  intro h hh
  show f (w.context.over h) (w.over h) = (f w.context w).over h
  rw [hsame w.context h hh]
  exact hover h hh

theorem notices (events : List Event) : StoreBlind (Activity.notices events) :=
  fun _ => ⟨rfl, fun _ _ => rfl⟩

theorem file (outcome : Outcome) (record : Record) : StoreBlind (Activity.file outcome record) :=
  fun _ => ⟨rfl, fun _ _ => rfl⟩

theorem takeTarget : StoreBlind Activity.takeTarget := by
  intro w
  refine ⟨?_, ?_⟩
  · show w.context.withoutTarget.headers = w.context.headers
    rw [Context.withoutTarget_eq]
  · intro h _
    have hwithout : (w.context.over h).withoutTarget = w.context.withoutTarget.over h := by
      rw [Context.withoutTarget_eq_ite, Context.withoutTarget_eq_ite]
      show (if w.context.field.access = .readOnly then _ else _) = _
      split
      · rfl
      · rfl
    show Report.mk _ (World.mk (w.context.over h).withoutTarget _) _ = Report.mk _ _ _
    rw [hwithout]
    rfl

/-- A change of the context that keeps the store and does the same over stores that agree. -/
theorem adjust {f : Context → Context} (hkept : ∀ c, (f c).headers = c.headers)
    (hover : ∀ (c : Context) (h : HeaderStore), c.headers.Agrees h → f (c.over h) = (f c).over h) :
    StoreBlind (Activity.adjust f) := by
  intro w
  refine ⟨hkept w.context, ?_⟩
  intro h hh
  show Report.mk _ (World.mk (f (w.context.over h)) _) _ = Report.mk _ _ _
  rw [hover w.context h hh]
  rfl

theorem inScope (field : Field) {body : Activity α} (hbody : StoreBlind body) :
    StoreBlind (Activity.inScope field body) := by
  intro w
  obtain ⟨hkept, hover⟩ := hbody { w with context := w.context.enter field }
  refine ⟨hkept, ?_⟩
  intro h hh
  have hinner : body { w.over h with context := (w.over h).context.enter field } =
      (body { w with context := w.context.enter field }).over h := hover h hh
  unfold Activity.inScope
  rw [hinner]
  rfl

theorem ownValue (c : Context) (tokens : List String) : StoreBlind (Binding.ownValue c tokens) := by
  rw [Binding.ownValue]
  split
  · exact pure _
  · apply bind takeTarget
    intro target
    exact pure _
  · exact pure _

theorem standalone : StoreBlind Binding.standalone := by
  apply context
  · intro c
    dsimp only
    split
    · apply bind (ownValue c _)
      intro v
      cases v with
      | none => exact pure _
      | some v =>
          apply bind (file _ _)
          intro _
          exact pure _
    · exact pure _
  · intro c h hc
    rw [Context.extraction_over hc]
    rfl

theorem composed {delegate : Activity (Account σ)} (hdelegate : StoreBlind delegate) :
    StoreBlind (Binding.composed delegate) := by
  apply context
  · intro c
    apply bind
    · apply inScope
      apply bind
      · exact adjust (fun _ => rfl) fun _ _ _ => rfl
      · intro _
        exact hdelegate
    · intro a
      dsimp only
      split
      · apply bind (file _ _)
        intro _
        exact pure _
      · exact pure _
  · intro c h hc
    have hdelegated : delegated (c.over h) = delegated c := by
      funext inner
      rw [delegated, delegated, Context.extraction_over hc]
      rfl
    rw [Context.extraction_over hc, hdelegated]
    rfl

/-- No program sees which store it reads. -/
theorem compositional : Compositional @StoreBlind where
  pure := pure
  bind := bind
  look := context
  notices := notices
  takeTarget := takeTarget
  setTopLevel := fun _ => adjust (fun _ => rfl) fun _ _ _ => rfl
  setSource := by
    intro source
    apply adjust
    · intro c
      rfl
    · intro c h hc
      have hsource : source.resolve h = source.resolve c.headers := hc.resolve_eq source
      show Context.over { c with source := source.resolve h } h = _
      rw [hsource]
  inScope := inScope
  standalone := standalone
  composed := composed

end StoreBlind

/-! ## Sessions -/

namespace Session

theorem runField_over (steps : List Step) {w : World} {h : HeaderStore}
    (hw : w.context.headers.Agrees h) : runField (w.over h) steps = runField w steps := by
  induction steps generalizing w with
  | nil => rfl
  | cons step rest ih =>
      obtain ⟨hkept, hover⟩ := StoreBlind.compositional.step step w
      have hrest : runField ((step.run w).over h).world rest = runField (step.run w).world rest :=
        ih (by rw [hkept]; exact hw)
      rw [runField, runField, hover h hw]
      dsimp only
      rw [hrest]
      rfl

/-- The steps for a field start in the same context but for the store. -/
theorem context_over (p : FieldPlan) (field : Field) {h h' : HeaderStore} (hh' : h.Agrees h') :
    p.context h' field = (p.context h field).over h' := by
  rw [FieldPlan.context, FieldPlan.context]
  cases p.source with
  | none => rfl
  | some s =>
      dsimp only
      rw [hh'.resolve_eq s]
      rfl

theorem runFrom_of_agrees (plans : List FieldPlan) (ledger : Ledger) {h h' : HeaderStore}
    (hh' : h.Agrees h') : runFrom h' ledger plans = runFrom h ledger plans := by
  induction plans generalizing ledger with
  | nil => rfl
  | cons p rest ih =>
      rw [runFrom, runFrom]
      cases p.field.resolve with
      | error e => exact congrArg (FieldEntry.refused e :: ·) (ih ledger)
      | ok field =>
          have hfield : runField { context := p.context h' field, ledger } p.steps =
              runField { context := p.context h field, ledger } p.steps := by
            rw [context_over p field hh']
            have hw : (World.mk (p.context h field) ledger).context.headers.Agrees h' := hh'
            exact runField_over p.steps hw
          dsimp only
          rw [hfield, ih]

/-- A session leaves the same entries over stores that agree. -/
theorem run_of_agrees (plans : List FieldPlan) {h h' : HeaderStore} (hh' : h.Agrees h') :
    run h' plans = run h plans :=
  runFrom_of_agrees plans {} hh'

end Session

end TypedHeaders
