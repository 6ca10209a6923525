import TypedHeaders.Proofs.Authorship
import TypedHeaders.Proofs.Silence

/-!
# What sinks are told

A header binder with a sink tells it that it starts, that the header is missing if it is, and that
it is done. These reports stand around those of its delegate and all name the same field, although
the last of them reads the name from a context that the delegate has worked on (`events_run`). Done
is told with whether a value was bound, and the header is told missing exactly if the outcome says
that it was not there, for every store.

A binder whose delegate never finishes does not tell that it is done, and neither does any binder
above it. `events_under_pending` says so of a pile of binders over a script that is pending: but for
their last reports all is told as it would have been. `Program.WaitsAt` lists the moments at which a
run may be waiting, however deep in binders, scripts and scopes, with the binders that are on the
stack. What has been told by then is the beginning of what the whole run tells; the rest of it has
the last reports of all binders on the stack, from the inside outwards
(`Program.WaitsAt.bracketed`).

That sinks decide nothing is shown in `TypedHeaders.Proofs.Silence`.
-/

set_option autoImplicit false

namespace TypedHeaders

open TypedHeaders.Header Activity Binding

/-! ## Events of a journal -/

@[simp] theorem eventsOf_append (first second : List Effect) :
    eventsOf (first ++ second) = eventsOf first ++ eventsOf second :=
  List.filterMap_append

@[simp] theorem eventsOf_taking {α : Type} (takes : Bool) (value : α) (w : World) :
    eventsOf (taking takes value w).journal = [] := by
  cases takes with
  | false => rfl
  | true => rfl

/-- Binding without a delegate reports nothing. -/
theorem eventsOf_standalone (w : World) : eventsOf (standalone w).journal = [] := by
  cases hpresent : w.context.extraction.present with
  | false =>
      rw [standalone_of_absent hpresent]
      rfl
  | true =>
      rw [standalone_of_present hpresent]
      cases w.context.ownModel with
      | none => exact eventsOf_taking _ _ w
      | some v =>
          show eventsOf (_ ++ [_]) = _
          rw [eventsOf_append, eventsOf_taking]
          rfl

/-- Binding by a delegate reports what the delegate does: filing a record is no report. -/
theorem eventsOf_composed {σ : Type} (delegate : Activity (Account σ)) (w : World) :
    eventsOf (composed delegate w).journal = eventsOf (delegate w.handedOn).journal := by
  rw [journal_composed, eventsOf_append]
  split
  · exact List.append_nil _
  · exact List.append_nil _

/-! ## The reports of one binder -/

namespace World

variable (w : World) (sink : Option Sink)

/-- What a sink is told of a stage of binding the field in the context. -/
def told (stage : Progress) : List Event :=
  match sink with
  | none => []
  | some s => [.progress s stage w.context.field.name w.context.field.modelName]

/-- What a binder tells its sink before it binds. -/
def opening : List Event :=
  w.told sink .attempting ++
    if w.context.headers.contains w.context.field.name then [] else w.told sink .foundNoValue

/-- What a binder tells its sink when binding ended with an outcome. -/
def closing (o : Outcome) : List Event :=
  if o.isFinished then w.told sink (.done o.isSet) else []

theorem closing_of_finished {o : Outcome} (h : o.isFinished = true) :
    w.closing sink o = w.told sink (.done o.isSet) := by
  rw [closing, h, if_pos rfl]

end World

/-- The last report names the field that the body started with, which a stepwise body keeps. -/
theorem events_reported {σ : Type} (s : Sink) {body : Activity (Account σ)}
    (hbody : Stepwise body) (w : World) :
    eventsOf (reported s body w).journal =
      eventsOf (body w).journal ++ w.closing (some s) (body w).value.outcome := by
  have hfield : (body w).world.context.field = w.context.field := (hbody.kept w).field
  have hannounce : ∀ stage v, eventsOf (announce s stage v).journal =
      v.told (some s) stage := fun _ _ => rfl
  rw [reported, journal_bind, eventsOf_append, World.closing]
  congr 1
  split
  · rw [journal_bind_pure, hannounce, World.told, World.told, hfield]
  · rfl

/-- The reports of a binder stand around those of what it does, and name the field that it started
with: what it does is stepwise and keeps the field. -/
theorem events_announced {σ : Type} (sink : Option Sink) {body : Activity (Account σ)}
    (hbody : Stepwise body) (w : World) :
    eventsOf (announced sink body w).journal =
      w.opening sink ++ eventsOf (body w).journal ++ w.closing sink (body w).value.outcome := by
  cases sink with
  | none =>
      have hopening : w.opening none = [] := by
        rw [World.opening]
        split
        · rfl
        · rfl
      have hclosing : w.closing none (body w).value.outcome = [] := by
        rw [World.closing]
        split
        · rfl
        · rfl
      rw [hopening, hclosing, List.nil_append, List.append_nil]
      rfl
  | some s =>
      have hannounce : ∀ stage v, eventsOf (announce s stage v).journal =
          v.told (some s) stage := fun _ _ => rfl
      rw [announced_some, journal_bind, eventsOf_append, hannounce, World.opening,
        List.append_assoc, List.append_assoc, ← events_reported s hbody]
      congr 1
      show eventsOf (Report.journal ((if w.context.headers.contains w.context.field.name then _
        else _ : Activity (Account σ)) w)) = _
      cases w.context.headers.contains w.context.field.name with
      | true => rfl
      | false => rfl

/-- What is reported while a binder binds, but for its own progress: what its delegate reports, in
the world that is handed on to it. -/
def Binder.eventsBelow : Binder → World → List Event
  | .standalone _, _ => []
  | .composed delegate _, w => eventsOf (delegate.run w.handedOn).journal

theorem events_run (b : Binder) (w : World) :
    eventsOf (b.run w).journal =
      w.opening b.sink? ++ b.eventsBelow w ++ w.closing b.sink? (b.run w).value.outcome := by
  cases b with
  | standalone sink =>
      have hvalue := (announced_value_world sink (unseen standalone) w).1
      have hbelow : eventsOf (unseen standalone w).journal = [] := by
        rw [unseen, journal_bind_pure]
        exact eventsOf_standalone w
      rw [Binder.run, hvalue,
        events_announced sink (Stepwise.compositional.unseen .standalone), hbelow]
      rfl
  | composed delegate sink =>
      have hvalue := (announced_value_world sink (composed delegate.run) w).1
      rw [Binder.run, hvalue, events_announced sink (.composed delegate.stepwise_run),
        eventsOf_composed]
      rfl

/-! ## What the last report says -/

theorem Outcome.isSet_iff {o : Outcome} :
    o.isSet = true ↔ ∃ b v, o = .bound b ∧ b.model = some v := by
  cases o with
  | bound b => simp [isSet, Bound.isSet, Option.isSome_iff_exists]
  | error e => simp [isSet]
  | dropped => simp [isSet]

@[simp] theorem Outcome.isSet_withPresence (o : Outcome) (present : Bool) :
    (o.withPresence present).isSet = o.isSet := by
  cases o with
  | bound b => rfl
  | error e => rfl
  | dropped => rfl

@[simp] theorem Outcome.isFinished_withPresence (o : Outcome) (present : Bool) :
    (o.withPresence present).isFinished = o.isFinished := by
  cases o with
  | bound b => rfl
  | error e => rfl
  | dropped => rfl

/-- What a binder with a delegate comes to is what the delegate comes to, with the presence of the
header. -/
theorem outcome_run_composed (d : Delegate) (sink : Option Sink) (w : World) :
    ((Binder.composed d sink).run w).value.outcome =
      (d.run w.handedOn).value.outcome.withPresence w.context.extraction.present := by
  rw [Binder.run, (announced_value_world sink _ w).1, value_composed]
  rfl

/-- An outcome that is no error says whether the header is there. -/
theorem attempted_of_run {b : Binder} {w : World} {bound : Bound}
    (h : (b.run w).value.outcome = .bound bound) :
    bound.attempted = w.context.headers.contains w.context.field.name := by
  have hpresent : w.context.extraction.present = w.context.headers.contains w.context.field.name :=
    present_extract _ _ _
  cases b with
  | standalone sink =>
      have hown : (Outcome.bound bound).withPresence w.context.extraction.present =
          .bound bound := by
        rw [← h, Binder.run, (announced_value_world sink _ w).1]
        show (standalone w).value.withPresence _ = (standalone w).value
        rw [value_standalone, Context.ownOutcome_withPresence]
      rw [← hpresent]
      exact (congrArg Bound.attempted (Outcome.bound.inj hown)).symm
  | composed d sink =>
      rw [outcome_run_composed, hpresent] at h
      cases hinner : (d.run w.handedOn).value.outcome with
      | bound inner =>
          rw [hinner] at h
          rw [← Outcome.bound.inj h]
      | error e =>
          rw [hinner] at h
          cases h
      | dropped =>
          rw [hinner] at h
          cases h

/-! ## Binders over a script that is pending -/

/-- The delegate under a pile of header binders with these sinks, the first of them on top. -/
def Delegate.under (d : Delegate) : List (Option Sink) → Delegate
  | [] => d
  | sink :: rest => .binder (.composed (d.under rest) sink)

/-- A pile of binders over a script finishes if the script does, and binds a value if the script
does. -/
theorem outcome_under (steps : List Step) (ending : Ending) (sinks : List (Option Sink))
    (w : World) :
    (((Delegate.script steps ending).under sinks).run w).value.outcome.isFinished =
        ending.outcome.isFinished ∧
      (((Delegate.script steps ending).under sinks).run w).value.outcome.isSet =
        ending.outcome.isSet := by
  induction sinks generalizing w with
  | nil =>
      rw [Delegate.under, Delegate.run]
      exact ⟨rfl, rfl⟩
  | cons sink rest ih =>
      rw [Delegate.under, Delegate.run, outcome_run_composed, Outcome.isFinished_withPresence,
        Outcome.isSet_withPresence]
      exact ih w.handedOn

/-- A pile of binders over a pending script tells all that it tells over a script that finishes,
but for the last report of each binder of the pile. -/
theorem events_under_pending (steps : List Step) {ending : Ending}
    (hfinished : ending.outcome.isFinished = true) (sinks : List (Option Sink)) (w : World) :
    eventsOf (((Delegate.script steps ending).under sinks).run w).journal =
      eventsOf (((Delegate.script steps .pending).under sinks).run w).journal ++
        sinks.reverse.flatMap fun sink => w.told sink (.done ending.outcome.isSet) := by
  induction sinks generalizing w with
  | nil =>
      rw [Delegate.under, Delegate.under, journal_run_script, journal_run_script]
      exact (List.append_nil _).symm
  | cons sink rest ih =>
      obtain ⟨hends, hset⟩ := outcome_under steps ending (sink :: rest) w
      obtain ⟨hwaits, -⟩ := outcome_under steps .pending (sink :: rest) w
      rw [Delegate.under, Delegate.run] at hends hset hwaits
      have hclosing : w.closing sink _ = _ := w.closing_of_finished sink (hends.trans hfinished)
      have hnone : w.closing sink ((Binder.composed
          ((Delegate.script steps .pending).under rest) sink).run w).value.outcome = [] := by
        rw [World.closing, hwaits]
        rfl
      -- the names that are told in the scope of a binder are those outside of it
      have hbelow := ih w.handedOn
      rw [Delegate.under, Delegate.under, Delegate.run, Delegate.run, events_run, events_run,
        Binder.sink?, Binder.sink?, hclosing, hnone, hset, Binder.eventsBelow, Binder.eventsBelow,
        hbelow, List.append_nil, List.reverse_cons, List.flatMap_append, List.flatMap_singleton]
      simp only [List.append_assoc]
      rfl

/-! ## Moments at which a run waits -/

namespace BinderRun

/-- What the bind tells its sink before its delegate runs. -/
def opening (r : BinderRun) : List Event := r.start.opening r.binder.sink?

/-- What the bind tells its sink after its delegate has finished. -/
def closing (r : BinderRun) : List Event := r.start.closing r.binder.sink? r.outcome

end BinderRun

namespace Program

/-- What is done in a run. -/
def journal : Program → World → List Effect
  | .delegate d, w => (d.run w).journal
  | .sequence haltIfRefused steps, w => (runSteps haltIfRefused steps w).journal

/-- The moments at which a run may be waiting that starts in the world, with the binds by header
binders that are on the stack, the outermost first, and with all that has been told by then. A run
may wait before it does anything, after any of its steps, and below any binder or scope. -/
inductive WaitsAt : Program → World → List BinderRun → List Event → Prop
  | here (p : Program) (w : World) : WaitsAt p w [] []
  | inside {d : Delegate} {w : World} {stack : List BinderRun} {told : List Event}
      (sink : Option Sink) :
      WaitsAt (.delegate d) w.handedOn stack told →
        WaitsAt (.delegate (.binder (.composed d sink))) w (⟨.composed d sink, w⟩ :: stack)
          (w.opening sink ++ told)
  | script {steps : List Step} {w : World} {stack : List BinderRun} {told : List Event}
      (ending : Ending) :
      WaitsAt (.sequence false steps) w stack told →
        WaitsAt (.delegate (.script steps ending)) w stack told
  -- the first step has ended, and did not halt the others
  | later {haltIfRefused : Bool} {step : Step} {rest : List Step} {w : World}
      {stack : List BinderRun} {told : List Event} :
      (haltIfRefused && (step.run w).value.refusal?.isSome) = false →
        WaitsAt (.sequence haltIfRefused rest) (step.run w).world stack told →
          WaitsAt (.sequence haltIfRefused (step :: rest)) w stack
            (eventsOf (step.run w).journal ++ told)
  | bind {haltIfRefused : Bool} {b : Binder} {rest : List Step} {w : World}
      {stack : List BinderRun} {told : List Event} :
      WaitsAt (.delegate (.binder b)) w stack told →
        WaitsAt (.sequence haltIfRefused (.bind b :: rest)) w stack told
  | offer {haltIfRefused : Bool} {origin : Option Origin} {d : Option Delegate}
      {sink : Option Sink} {b : Binder} {rest : List Step} {w : World}
      {stack : List BinderRun} {told : List Event} :
      (Catalogue.binderFor { sink } origin w.context.field.shape fun _ => d).chosen = some b →
        WaitsAt (.delegate (.binder b)) w stack told →
          WaitsAt (.sequence haltIfRefused (.offer origin d sink :: rest)) w stack told
  | inScope {haltIfRefused : Bool} {request : Option FieldRequest} {field : Field}
      {inner rest : List Step} {w : World} {stack : List BinderRun} {told : List Event} :
      scopeField w.context request = .ok field →
        WaitsAt (.sequence true inner) (w.enter field) stack told →
          WaitsAt (.sequence haltIfRefused (.scope request inner :: rest)) w stack told

end Program

/-- Events before and after a moment at which binds are on the stack, the outermost first: those
before it have the first reports of these binds, and those after it have their last reports, from
the inside outwards. -/
inductive Bracketed : List BinderRun → List Event → List Event → Prop
  | nil (before after : List Event) : Bracketed [] before after
  | cons (r : BinderRun) {stack : List BinderRun} {inner rest : List Event}
      (before after : List Event) :
      Bracketed stack inner rest →
        Bracketed (r :: stack) (before ++ (r.opening ++ inner)) (rest ++ r.closing ++ after)

/-- Binds on the stack stay so if more is told at the beginning and in the end. -/
theorem Bracketed.extend {stack : List BinderRun} {before after : List Event}
    (h : Bracketed stack before after) (first last : List Event) :
    Bracketed stack (first ++ before) (after ++ last) := by
  cases h with
  | nil before after => exact .nil _ _
  | cons r before after hinner =>
      rw [← List.append_assoc, List.append_assoc _ after]
      exact .cons r _ _ hinner

/-- What has been told when a run waits is the beginning of what the whole run tells, and what is
still to be told has the last reports of the binds on the stack. -/
theorem Program.WaitsAt.bracketed {p : Program} {w : World} {stack : List BinderRun}
    {told : List Event} (h : p.WaitsAt w stack told) :
    ∃ rest, eventsOf (p.journal w) = told ++ rest ∧ Bracketed stack told rest := by
  -- all that comes after the first step follows the rest of what the step tells
  have hstep : ∀ (haltIfRefused : Bool) (step : Step) (rest : List Step) (w : World),
      ∃ last, eventsOf (journal (.sequence haltIfRefused (step :: rest)) w) =
        eventsOf (step.run w).journal ++ last := by
    intro haltIfRefused step rest w
    rw [journal, journal_runSteps_cons, eventsOf_append]
    exact ⟨_, rfl⟩
  induction h with
  | here p w => exact ⟨_, rfl, .nil _ _⟩
  | @inside d w stack told sink _ ih =>
      obtain ⟨rest, hevents, hbracketed⟩ := ih
      have hopen := Bracketed.cons ⟨.composed d sink, w⟩ [] [] hbracketed
      refine ⟨rest ++ BinderRun.closing ⟨.composed d sink, w⟩, ?_, ?_⟩
      · rw [journal, Delegate.run, events_run, Binder.eventsBelow]
        rw [journal] at hevents
        rw [hevents, ← List.append_assoc, ← List.append_assoc]
        rfl
      · rw [List.append_nil] at hopen
        exact hopen
  | script ending _ ih =>
      obtain ⟨rest, hevents, hbracketed⟩ := ih
      refine ⟨rest, ?_, hbracketed⟩
      rw [journal, journal_run_script]
      exact hevents
  | @later haltIfRefused step rest w stack told hgoes _ ih =>
      obtain ⟨last, hevents, hbracketed⟩ := ih
      refine ⟨last, ?_, ?_⟩
      · rw [journal, journal_runSteps_cons, hgoes, eventsOf_append, List.append_assoc, ← hevents]
        rfl
      · have hextended := hbracketed.extend (eventsOf (step.run w).journal) []
        rw [List.append_nil] at hextended
        exact hextended
  | @bind haltIfRefused b rest w stack told _ ih =>
      obtain ⟨inner, hevents, hbracketed⟩ := ih
      obtain ⟨last, hlast⟩ := hstep haltIfRefused (.bind b) rest w
      refine ⟨inner ++ last, ?_, hbracketed.extend [] last⟩
      rw [hlast, journal_run_bind, ← List.append_assoc, ← hevents, journal, Delegate.run]
  | @offer haltIfRefused origin d sink b rest w stack told hchosen _ ih =>
      obtain ⟨inner, hevents, hbracketed⟩ := ih
      obtain ⟨last, hlast⟩ := hstep haltIfRefused (.offer origin d sink) rest w
      refine ⟨inner ++ last, ?_, hbracketed.extend [] last⟩
      rw [hlast, journal_run_offer w hchosen, ← List.append_assoc, ← hevents, journal,
        Delegate.run]
  | @inScope haltIfRefused request field inner rest w stack told hfield _ ih =>
      obtain ⟨later, hevents, hbracketed⟩ := ih
      obtain ⟨last, hlast⟩ := hstep haltIfRefused (.scope request inner) rest w
      refine ⟨later ++ last, ?_, hbracketed.extend [] last⟩
      rw [hlast, journal_run_scope w hfield, ← List.append_assoc, ← hevents, journal]

/-! ## All reports -/

/-- The reports of a header binder stand around those of its delegate, and name the field and the
model name with which it started: that it starts, that the header is missing if no line has its
name, and that it is done, with whether a value was bound. The outcome says the same of the header.
A pending script takes away the last reports of the binders above it, and so does a run that waits
anywhere, of the binders on its stack. Binders that are the same but for their sinks come to the
same value and the same world. -/
theorem progress_reports (b : Binder) (w : World) :
    let c := w.context
    let outcome := (b.run w).value.outcome
    let missing := (c.headers.getAll c.field.name).isEmpty
    eventsOf (b.run w).journal =
        w.told b.sink? .attempting ++ (if missing then w.told b.sink? .foundNoValue else []) ++
          b.eventsBelow w ++
          (if outcome.isFinished then w.told b.sink? (.done outcome.isSet) else []) ∧
      (outcome.isSet = true ↔ ∃ bound v, outcome = .bound bound ∧ bound.model = some v) ∧
      (∀ bound, outcome = .bound bound → bound.attempted = !missing) ∧
      -- below any number of binders, a script is pending where another one finishes
      (∀ (steps : List Step) (ending : Ending) (sinks : List (Option Sink)),
        ending.outcome.isFinished = true →
          eventsOf (((Delegate.script steps ending).under sinks).run w).journal =
            eventsOf (((Delegate.script steps .pending).under sinks).run w).journal ++
              sinks.reverse.flatMap fun sink => w.told sink (.done ending.outcome.isSet)) ∧
      (∀ stack told, (Program.delegate (.binder b)).WaitsAt w stack told →
        ∃ rest, eventsOf (b.run w).journal = told ++ rest ∧ Bracketed stack told rest) ∧
      ∀ b' : Binder, b'.muted = b.muted →
        (b'.run w).value = (b.run w).value ∧ (b'.run w).world = (b.run w).world := by
  intro c outcome missing
  have hmissing : c.headers.contains c.field.name = !missing :=
    c.headers.contains_eq_not_isEmpty c.field.name
  refine ⟨?_, Outcome.isSet_iff, ?_, ?_, ?_, ?_⟩
  · rw [events_run, World.opening, hmissing]
    cases missing with
    | false => rfl
    | true => rfl
  · intro bound hbound
    rw [attempted_of_run hbound]
    exact hmissing
  · intro steps ending sinks hfinished
    exact events_under_pending steps hfinished sinks w
  · intro stack told hwaits
    have hbracketed := hwaits.bracketed
    rw [Program.journal, Delegate.run] at hbracketed
    exact hbracketed
  · intro b' hsame
    exact Binder.actsLike_of_muted_eq hsame w

/-- Both binders miss the header, and neither is ever done: the script below them is pending. -/
example :
    let field : Field := { name := "X", modelName := "m", shape := .scalar (.simple .text) }
    let w : World := { context := { headers := .owned {}, field } }
    let pending : Delegate := .script [] .pending
    let told := fun sink stage => Event.progress sink stage "X" "m"
    eventsOf ((pending.under [some .tracing, none, some .recording]).run w).journal =
      [told .tracing .attempting, told .tracing .foundNoValue, told .recording .attempting,
        told .recording .foundNoValue] := by
  decide +kernel

end TypedHeaders
