import TypedHeaders.Proofs.Scope
import TypedHeaders.Proofs.Settled

/-!
# Which binds file which records

The journal of a run lists every record that is filed, with the field and the outcome that it is
filed for. `Binder.binds`, `Delegate.binds`, `Step.binds` and `bindsOfSteps` list the binds by
header binders that a run is made of, each with the world in which it starts, in the order in which
they end. The two lists belong together (`World.AccountedBy`): the records of the journal are those
that the binds of the run file for themselves, each for its own field and its own outcome, and all
of these binds have the headers with which the run started. `Binder.accounted`,
`Delegate.accounted`, `Step.accounted` and `accounted_runSteps` say so of every program.
-/

set_option autoImplicit false

namespace TypedHeaders

open Activity Binding

/-! ## Records in a journal -/

/-- A record, with the field and the outcome that it is filed for. -/
structure Filing where
  field : Field
  outcome : Outcome
  record : Record

/-- The record that an effect files, if it files one. -/
def Effect.filing? : Effect → Option Filing
  | .filed field outcome record => some { field, outcome, record }
  | _ => none

/-- The records that a journal lists, in order. -/
def filingsOf (journal : List Effect) : List Filing := journal.filterMap Effect.filing?

/-- The ledger after records are filed in it, in order. -/
def Ledger.fileAll (l : Ledger) (filings : List Filing) : Ledger :=
  filings.foldl (fun l f => l.record f.field.modelName f.record) l

@[simp] theorem Ledger.fileAll_append (l : Ledger) (first second : List Filing) :
    l.fileAll (first ++ second) = (l.fileAll first).fileAll second := by
  rw [fileAll, List.foldl_append]
  rfl

/-- A journal is replayed by filing its records. -/
theorem Ledger.replay_eq_fileAll (l : Ledger) (journal : List Effect) :
    l.replay journal = l.fileAll (filingsOf journal) := by
  induction journal generalizing l with
  | nil => rfl
  | cons e rest ih =>
      cases e with
      | notice event => exact ih l
      | took field target => exact ih l
      | filed field outcome record => exact ih (l.record field.modelName record)

@[simp] theorem filingsOf_append (first second : List Effect) :
    filingsOf (first ++ second) = filingsOf first ++ filingsOf second :=
  List.filterMap_append

@[simp] theorem filingsOf_notices (events : List Event) :
    filingsOf (events.map .notice) = [] := by
  induction events with
  | nil => rfl
  | cons e rest ih => exact ih

@[simp] theorem filingsOf_taking {α : Type} (takes : Bool) (value : α) (w : World) :
    filingsOf (taking takes value w).journal = [] := by
  cases takes with
  | false => rfl
  | true => rfl

theorem filingsOf_converter (w : World) : filingsOf (converter w).journal = [] := by
  cases hcovers : w.context.source.covers w.context.field.modelName with
  | false =>
      rw [converter_of_not_covers hcovers]
      rfl
  | true =>
      rw [converter_of_covers hcovers]
      simp

theorem filingsOf_reported {σ : Type} (s : Sink) (body : Activity (Account σ)) (w : World) :
    filingsOf (reported s body w).journal = filingsOf (body w).journal := by
  rw [reported, journal_bind, filingsOf_append]
  split
  · exact List.append_nil _
  · exact List.append_nil _

/-- What a sink is told is no record. -/
theorem filingsOf_announced {σ : Type} (sink : Option Sink) (body : Activity (Account σ))
    (w : World) : filingsOf (announced sink body w).journal = filingsOf (body w).journal := by
  cases sink with
  | none => rfl
  | some s =>
      have hnotice : ∀ stage w, filingsOf (announce s stage w).journal = [] := fun _ _ => rfl
      rw [announced_some, journal_bind, filingsOf_append, hnotice, List.nil_append, journal_bind,
        filingsOf_append]
      show filingsOf (Report.journal _) = _
      -- the header may be reported missing first, which is no record either
      split
      · exact filingsOf_reported s body w
      · exact filingsOf_reported s body w

/-! ## The binds of a run -/

/-- One bind by a header binder: the binder, and the world in which it starts. -/
structure BinderRun where
  binder : Binder
  start : World

namespace BinderRun

/-- The field that is bound: the one in the context when the bind starts. -/
def field (r : BinderRun) : Field := r.start.context.field

/-- What the bind itself comes to. -/
def outcome (r : BinderRun) : Outcome := (r.binder.run r.start).value.outcome

/-- Whether the bind files a record for itself: its header is there, and its outcome is kept. -/
def files (r : BinderRun) : Bool := r.start.context.files r.outcome

/-- The record that the bind files for itself, if it files one. -/
def filing? (r : BinderRun) : Option Filing :=
  if r.files then
    some { field := r.field, outcome := r.outcome, record := r.start.context.record }
  else none

end BinderRun

mutual

/-- The binds by header binders in a run of a header binder, in the order in which they end. Its own
comes last. -/
def Binder.binds : Binder → World → List BinderRun
  | .standalone sink, w => [⟨.standalone sink, w⟩]
  | .composed delegate sink, w => delegate.binds w.handedOn ++ [⟨.composed delegate sink, w⟩]

/-- The binds by header binders in a run of a delegate. -/
def Delegate.binds : Delegate → World → List BinderRun
  | .converter, _ => []
  | .binder b, w => b.binds w
  | .script steps _, w => bindsOfSteps false steps w

/-- The binds by header binders in a step. -/
def Step.binds : Step → World → List BinderRun
  | .bind b, w => b.binds w
  | .offer _ none _, _ => []
  | .offer origin (some delegate) sink, w =>
      if isOpen origin w.context.field.shape then
        delegate.binds w.handedOn ++ [⟨.composed delegate sink, w⟩]
      else []
  | .convert, _ => []
  | .takeTarget, _ => []
  | .setTopLevel _, _ => []
  | .setSource _, _ => []
  | .query _, _ => []
  | .scope request steps, w =>
      match scopeField w.context request with
      | .error _ => []
      | .ok field => bindsOfSteps true steps (w.enter field)

/-- The binds by header binders in steps that are taken one after another. -/
def bindsOfSteps (haltIfRefused : Bool) : List Step → World → List BinderRun
  | [], _ => []
  | step :: rest, w =>
      -- the rest runs in the world that the step leaves, unless it is halted
      step.binds w ++
        if haltIfRefused && (step.run w).value.refusal?.isSome then []
        else bindsOfSteps haltIfRefused rest (step.run w).world

end

/-! ## What one bind files -/

/-- The records that the binds of a run file, each for itself. -/
def filingsBy (binds : List BinderRun) : List Filing := binds.filterMap BinderRun.filing?

@[simp] theorem filingsBy_append (first second : List BinderRun) :
    filingsBy (first ++ second) = filingsBy first ++ filingsBy second :=
  List.filterMap_append

theorem filingsBy_singleton (r : BinderRun) :
    filingsBy [r] = if r.files then [⟨r.field, r.outcome, r.start.context.record⟩] else [] := by
  rw [filingsBy, List.filterMap_cons, BinderRun.filing?]
  cases r.files with
  | false => rfl
  | true => rfl

/-- Binding without a delegate lists the record that is filed for its own outcome. -/
theorem filingsOf_standalone (w : World) :
    filingsOf (standalone w).journal =
      if w.context.files w.context.ownOutcome then
        [⟨w.context.field, w.context.ownOutcome, w.context.record⟩]
      else [] := by
  rw [Context.files, Context.ownOutcome]
  cases hpresent : w.context.extraction.present with
  | false =>
      rw [standalone_of_absent hpresent]
      rfl
  | true =>
      rw [standalone_of_present hpresent]
      cases w.context.ownModel with
      | none => exact filingsOf_taking _ _ w
      | some v =>
          show filingsOf ((taking _ _ w).journal ++ [_]) = _
          rw [filingsOf_append, filingsOf_taking]
          rfl

/-- A binder that works alone lists the record that it files for itself. -/
theorem filings_run_standalone (sink : Option Sink) (w : World) :
    filingsOf ((Binder.standalone sink).run w).journal = filingsBy [⟨.standalone sink, w⟩] := by
  have hvalue : ((Binder.standalone sink).run w).value.outcome = w.context.ownOutcome := by
    rw [Binder.run, (announced_value_world sink (unseen standalone) w).1]
    exact value_standalone w
  have hjournal : filingsOf (unseen standalone w).journal = filingsOf (standalone w).journal := by
    show filingsOf ((standalone w).journal ++ []) = _
    rw [List.append_nil]
  rw [filingsBy_singleton, BinderRun.files, BinderRun.outcome, hvalue, Binder.run,
    filingsOf_announced, hjournal]
  exact filingsOf_standalone w

/-- A binder with a delegate lists the records of its delegate, and then the one that it files for
itself. -/
theorem filings_run_composed (delegate : Delegate) (sink : Option Sink) (w : World) :
    filingsOf ((Binder.composed delegate sink).run w).journal =
      filingsOf (delegate.run w.handedOn).journal ++ filingsBy [⟨.composed delegate sink, w⟩] := by
  have hvalue : ((Binder.composed delegate sink).run w).value =
      withPresence (delegate.run w.handedOn).value w.context.extraction.present := by
    rw [Binder.run, (announced_value_world sink (composed delegate.run) w).1, value_composed]
  -- the presence of the header goes into the outcome, but does not decide whether it is kept
  have hfiles : BinderRun.files ⟨.composed delegate sink, w⟩ =
      w.context.files (delegate.run w.handedOn).value.outcome := by
    rw [BinderRun.files, BinderRun.outcome, hvalue, withPresence, Context.files_withPresence]
  rw [filingsBy_singleton, hfiles, BinderRun.outcome, hvalue, Binder.run, filingsOf_announced,
    journal_composed, value_composed, filingsOf_append]
  congr 1
  cases w.context.files (delegate.run w.handedOn).value.outcome with
  | false => rfl
  | true => rfl

/-! ## All binds of a run -/

/-- The binds account for the journal of a run that started in `w`: the records in it are those that
they file for themselves, and they all have the headers of `w`. -/
structure World.AccountedBy (w : World) (journal : List Effect) (binds : List BinderRun) :
    Prop where
  filings : filingsOf journal = filingsBy binds
  headers : ∀ r ∈ binds, r.start.context.headers = w.context.headers

namespace World.AccountedBy

variable {w : World} {journal journal' : List Effect} {binds binds' : List BinderRun}

/-- A journal without records is accounted for by no bind. -/
theorem of_no_filings (h : filingsOf journal = []) : w.AccountedBy journal [] := by
  refine ⟨h, ?_⟩
  intro r hr
  cases hr

theorem append (h : w.AccountedBy journal binds) (h' : w.AccountedBy journal' binds') :
    w.AccountedBy (journal ++ journal') (binds ++ binds') := by
  constructor
  · rw [filingsOf_append, filingsBy_append, h.filings, h'.filings]
  · intro r hr
    rcases List.mem_append.mp hr with hfirst | hsecond
    · exact h.headers r hfirst
    · exact h'.headers r hsecond

/-- What accounts for a run from a world also does so from another one with the same headers. -/
theorem of_headers_eq {v : World} (h : v.AccountedBy journal binds)
    (hheaders : v.context.headers = w.context.headers) : w.AccountedBy journal binds :=
  ⟨h.filings, fun r hr => (h.headers r hr).trans hheaders⟩

/-- A binder with a delegate adds its own bind to those of the delegate. -/
theorem composed {delegate : Delegate} (sink : Option Sink)
    (h : w.handedOn.AccountedBy (delegate.run w.handedOn).journal binds) :
    w.AccountedBy ((Binder.composed delegate sink).run w).journal
      (binds ++ [⟨.composed delegate sink, w⟩]) := by
  constructor
  · rw [filings_run_composed, filingsBy_append, h.filings]
  · intro r hr
    rcases List.mem_append.mp hr with hinner | hown
    · exact h.headers r hinner
    · rw [List.mem_singleton.mp hown]

end World.AccountedBy

/-- Nothing is added to the journal by what only makes a value of the result. -/
theorem journal_bind_pure {α β : Type} (x : Activity α) (f : α → β) (w : World) :
    ((x >>= fun a => pure (f a)) w).journal = (x w).journal := by
  rw [journal_bind, run_pure, List.append_nil]

/-- The steps of a scope are all that its journal tells of. -/
theorem journal_within (field : Field) (steps : Activity (List (StepResult × Snapshot)))
    (w : World) : (within field steps w).journal = (steps (w.enter field)).journal := by
  have hentered : ∀ body : Activity StepResult,
      (inScope field body w).journal = (body (w.enter field)).journal := fun _ => rfl
  have hentry : ∀ v, snapshot v = ⟨v.context.snapshot, v, []⟩ := fun _ => rfl
  rw [within, hentered, journal_bind, journal_bind, hentry, List.nil_append]
  -- refused or not, nothing is done after the steps
  cases (steps (w.enter field)).value.findSome? fun r => r.1.refusal? with
  | none => exact List.append_nil _
  | some e => exact List.append_nil _

/-- Binding by what was selected adds nothing to the journal of what was selected. -/
theorem journal_bindSelected (inquiries : List Inquiry) (bind : Activity (Account Seen))
    (w : World) : (bindSelected ⟨inquiries, some bind⟩ w).journal = (bind w).journal :=
  journal_bind_pure bind _ w

/-! ## The journals of scripts and steps -/

section Journals

variable (w : World)

theorem journal_run_script (steps : List Step) (ending : Ending) :
    ((Delegate.script steps ending).run w).journal = (runSteps false steps w).journal := by
  rw [Delegate.run, journal_bind, journal_bind_pure]
  exact List.nil_append _

theorem journal_run_bind (b : Binder) : ((Step.bind b).run w).journal = (b.run w).journal := by
  rw [Step.run, journal_bind_pure]

/-- What a catalogue hands out does all that is done in the step. -/
theorem journal_run_offer {origin : Option Origin} {delegate : Option Delegate}
    {sink : Option Sink} {b : Binder}
    (h : (Catalogue.binderFor { sink } origin w.context.field.shape fun _ => delegate).chosen
      = some b) :
    ((Step.offer origin delegate sink).run w).journal = (b.run w).journal := by
  rw [Step.run_offer, bindSelected, Asking.chosen_map, h]
  exact journal_bind_pure b.run _ w

/-- A scope for a refused field does nothing. -/
theorem run_scope_of_refused {request : Option FieldRequest} {e : FieldError}
    (h : scopeField w.context request = .error e) (steps : List Step) :
    (Step.scope request steps).run w = { value := .refused e, world := w, journal := [] } := by
  have hrun : (Step.scope request steps).run w = (match scopeField w.context request with
      | .error e => pure (.refused e)
      | .ok f => within f (runSteps true steps) : Activity StepResult) w := by
    rw [Step.run]
    rfl
  rw [hrun, h]
  rfl

theorem journal_run_scope {request : Option FieldRequest} {field : Field}
    (h : scopeField w.context request = .ok field) (steps : List Step) :
    ((Step.scope request steps).run w).journal = (runSteps true steps (w.enter field)).journal := by
  have hcontext : context w = ⟨w.context, w, []⟩ := rfl
  rw [Step.run, journal_bind, hcontext, List.nil_append, h]
  exact journal_within field (runSteps true steps) w

/-- The first step is followed by the rest, unless it halts the run. -/
theorem journal_runSteps_cons (haltIfRefused : Bool) (step : Step) (rest : List Step) :
    (runSteps haltIfRefused (step :: rest) w).journal =
      (step.run w).journal ++
        if haltIfRefused && (step.run w).value.refusal?.isSome then []
        else (runSteps haltIfRefused rest (step.run w).world).journal := by
  rw [runSteps, journal_bind]
  congr 1
  show Report.journal ((if _ then _ else _ : Activity _) (step.run w).world) = _
  split
  · rfl
  · exact journal_bind_pure (runSteps haltIfRefused rest) _ _

end Journals

mutual

/-- The records that are filed in a run of a header binder are those of its binds. -/
theorem Binder.accounted : (b : Binder) → (w : World) →
    w.AccountedBy (b.run w).journal (b.binds w)
  | .standalone sink, w => by
      rw [Binder.binds]
      refine ⟨filings_run_standalone sink w, ?_⟩
      intro r hr
      rw [List.mem_singleton.mp hr]
  | .composed delegate sink, w => by
      rw [Binder.binds]
      exact .composed sink (delegate.accounted w.handedOn)

/-- The records that are filed in a run of a delegate are those of its binds. -/
theorem Delegate.accounted : (d : Delegate) → (w : World) →
    w.AccountedBy (d.run w).journal (d.binds w)
  | .converter, w => by
      rw [Delegate.run, Delegate.binds, unseen, journal_bind_pure]
      exact .of_no_filings (filingsOf_converter w)
  | .binder b, w => by
      rw [Delegate.run, Delegate.binds]
      exact b.accounted w
  | .script steps ending, w => by
      rw [journal_run_script, Delegate.binds]
      exact accounted_runSteps false steps w

/-- The records that are filed in a step are those of its binds. -/
theorem Step.accounted : (step : Step) → (w : World) →
    w.AccountedBy (step.run w).journal (step.binds w)
  | .bind b, w => by
      rw [journal_run_bind, Step.binds]
      exact b.accounted w
  | .offer origin none sink, w => by
      rw [Step.run_offer, Step.binds, Catalogue.binderFor, Catalogue.binderFrom, select]
      -- nothing is chosen without a delegate, whether the gate is open or not
      cases isOpen origin w.context.field.shape with
      | false => exact .of_no_filings rfl
      | true => exact .of_no_filings rfl
  | .offer origin (some delegate) sink, w => by
      rw [Step.run_offer, Step.binds, Catalogue.binderFor, Catalogue.binderFrom, select]
      cases isOpen origin w.context.field.shape with
      | false => exact .of_no_filings rfl
      | true =>
          show w.AccountedBy (bindSelected ⟨_, some (Binder.composed delegate sink).run⟩ w).journal
            (delegate.binds w.handedOn ++ [⟨.composed delegate sink, w⟩])
          rw [journal_bindSelected]
          exact .composed sink (delegate.accounted w.handedOn)
  | .convert, w => by
      rw [Step.run, Step.binds, journal_bind_pure]
      exact .of_no_filings (filingsOf_converter w)
  | .takeTarget, w => by
      rw [Step.binds]
      exact .of_no_filings rfl
  | .setTopLevel topLevel, w => by
      rw [Step.binds]
      exact .of_no_filings rfl
  | .setSource source, w => by
      rw [Step.binds]
      exact .of_no_filings rfl
  | .query key, w => by
      rw [Step.binds]
      apply World.AccountedBy.of_no_filings
      rw [Step.run]
      show filingsOf (((w.context.source.notices key).map .notice ++ []) ++ []) = []
      rw [List.append_nil, List.append_nil]
      exact filingsOf_notices _
  | .scope request steps, w => by
      rw [Step.binds]
      cases hfield : scopeField w.context request with
      | error e =>
          rw [run_scope_of_refused w hfield]
          exact .of_no_filings rfl
      | ok field =>
          have hsteps := accounted_runSteps true steps (w.enter field)
          rw [journal_run_scope w hfield]
          exact hsteps.of_headers_eq rfl

/-- The records that are filed in steps are those of their binds. -/
theorem accounted_runSteps (haltIfRefused : Bool) : (steps : List Step) → (w : World) →
    w.AccountedBy (runSteps haltIfRefused steps w).journal (bindsOfSteps haltIfRefused steps w)
  | [], w => by
      rw [bindsOfSteps]
      exact .of_no_filings rfl
  | step :: rest, w => by
      have hrest := accounted_runSteps haltIfRefused rest (step.run w).world
      have hheaders := (step.stepwise_run.kept w).headers
      rw [journal_runSteps_cons, bindsOfSteps]
      apply (step.accounted w).append
      -- the run and the list of its binds halt at the same steps
      split
      · exact .of_no_filings rfl
      · exact hrest.of_headers_eq hheaders

end

end TypedHeaders
