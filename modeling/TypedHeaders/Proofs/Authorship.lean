import TypedHeaders.Proofs.History
import TypedHeaders.Session

/-!
# Every record has an author

A session binds fields one after another over the same headers, and any of its runs may be given up
on the way. `Program.Reaches` says which moments a run has, and which binds by header binders have
ended by then. `Session.Reachable` says which ledgers a session passes through that starts with an
empty one; those that a session notes are among them (`Session.reachable_of_mem_run`).

Every record that is found in such a ledger was filed by a bind of the session: one for a field with
that model name, whose header was there, and which ended with a value or in an error. It tells the
tokens of that header, and no bind that ended later filed under that name (`authored`).
-/

set_option autoImplicit false

namespace TypedHeaders

open Activity Binding
open TypedHeaders.Header

/-! ## The moments of a run -/

/-- What can be run: a delegate, or steps that are taken one after another. -/
inductive Program where
  | delegate (d : Delegate)
  | sequence (haltIfRefused : Bool) (steps : List Step)

namespace Program

/-- The world after a run. -/
def after : Program → World → World
  | .delegate d, w => (d.run w).world
  | .sequence haltIfRefused steps, w => (runSteps haltIfRefused steps w).world

/-- The binds by header binders in a run, in the order in which they end. -/
def binds : Program → World → List BinderRun
  | .delegate d, w => d.binds w
  | .sequence haltIfRefused steps, w => bindsOfSteps haltIfRefused steps w

/-- The moments of a run that starts in the first world. When the second world is reached, the
listed binds have ended. A run that is given up there leaves the scopes that it is in, from the
inside outwards. -/
inductive Reaches : Program → World → List BinderRun → World → Prop
  | started (p : Program) (w : World) : Reaches p w [] w
  | finished (p : Program) (w : World) : Reaches p w (p.binds w) (p.after w)
  -- the delegate of a binder is running, in the scope of the binder
  | inside {d : Delegate} {w reached : World} {ended : List BinderRun} (sink : Option Sink) :
      Reaches (.delegate d) w.handedOn ended reached →
        Reaches (.delegate (.binder (.composed d sink))) w ended reached
  -- the scope has been left, because the delegate ended or was given up, and nothing is filed yet
  | left {d : Delegate} {w reached : World} {ended : List BinderRun} (sink : Option Sink) :
      Reaches (.delegate d) w.handedOn ended reached →
        Reaches (.delegate (.binder (.composed d sink))) w ended (w.leave reached)
  | script {steps : List Step} {w reached : World} {ended : List BinderRun} (ending : Ending) :
      Reaches (.sequence false steps) w ended reached →
        Reaches (.delegate (.script steps ending)) w ended reached
  -- the first step has ended, and did not halt the others
  | later {haltIfRefused : Bool} {step : Step} {rest : List Step} {w reached : World}
      {ended : List BinderRun} :
      (haltIfRefused && (step.run w).value.refusal?.isSome) = false →
        Reaches (.sequence haltIfRefused rest) (step.run w).world ended reached →
          Reaches (.sequence haltIfRefused (step :: rest)) w (step.binds w ++ ended) reached
  | bind {haltIfRefused : Bool} {b : Binder} {rest : List Step} {w reached : World}
      {ended : List BinderRun} :
      Reaches (.delegate (.binder b)) w ended reached →
        Reaches (.sequence haltIfRefused (.bind b :: rest)) w ended reached
  | offer {haltIfRefused : Bool} {origin : Option Origin} {d : Option Delegate}
      {sink : Option Sink} {b : Binder} {rest : List Step} {w reached : World}
      {ended : List BinderRun} :
      (Catalogue.binderFor { sink } origin w.context.field.shape fun _ => d).chosen = some b →
        Reaches (.delegate (.binder b)) w ended reached →
          Reaches (.sequence haltIfRefused (.offer origin d sink :: rest)) w ended reached
  -- the steps of a nested scope are being taken
  | inScope {haltIfRefused : Bool} {request : Option FieldRequest} {field : Field}
      {inner rest : List Step} {w reached : World} {ended : List BinderRun} :
      scopeField w.context request = .ok field →
        Reaches (.sequence true inner) (w.enter field) ended reached →
          Reaches (.sequence haltIfRefused (.scope request inner :: rest)) w ended reached
  -- the nested scope has been left, at its end or anywhere before it
  | outOfScope {haltIfRefused : Bool} {request : Option FieldRequest} {field : Field}
      {inner rest : List Step} {w reached : World} {ended : List BinderRun} :
      scopeField w.context request = .ok field →
        Reaches (.sequence true inner) (w.enter field) ended reached →
          Reaches (.sequence haltIfRefused (.scope request inner :: rest)) w ended (w.leave reached)

/-- At every moment of a run, the ledger holds the records of the binds that have ended, and all of
them have the headers with which the run started. -/
theorem Reaches.accounted {p : Program} {w reached : World} {ended : List BinderRun}
    (h : p.Reaches w ended reached) :
    ∃ journal, reached.ledger = w.ledger.replay journal ∧ w.AccountedBy journal ended := by
  -- neither entering a scope nor leaving it touches the ledger or the headers
  induction h with
  | started p w => exact ⟨[], rfl, .of_no_filings rfl⟩
  | finished p w =>
      cases p with
      | delegate d => exact ⟨_, d.stepwise_run.ledger_eq_replay w, d.accounted w⟩
      | sequence haltIfRefused steps =>
          exact ⟨_, (stepwise_runSteps haltIfRefused steps).ledger_eq_replay w,
            accounted_runSteps haltIfRefused steps w⟩
  | inside sink _ ih =>
      obtain ⟨journal, hledger, haccounted⟩ := ih
      exact ⟨journal, hledger, haccounted.of_headers_eq rfl⟩
  | left sink _ ih =>
      obtain ⟨journal, hledger, haccounted⟩ := ih
      exact ⟨journal, hledger, haccounted.of_headers_eq rfl⟩
  | script ending _ ih => exact ih
  | @later haltIfRefused step rest w reached ended _ _ ih =>
      obtain ⟨journal, hledger, haccounted⟩ := ih
      have hheaders := (step.stepwise_run.kept w).headers
      refine ⟨(step.run w).journal ++ journal, ?_,
        (step.accounted w).append (haccounted.of_headers_eq hheaders)⟩
      rw [hledger, step.stepwise_run.ledger_eq_replay w, Ledger.replay_append]
  | bind _ ih => exact ih
  | offer _ _ ih => exact ih
  | inScope _ _ ih =>
      obtain ⟨journal, hledger, haccounted⟩ := ih
      exact ⟨journal, hledger, haccounted.of_headers_eq rfl⟩
  | outOfScope _ _ ih =>
      obtain ⟨journal, hledger, haccounted⟩ := ih
      exact ⟨journal, hledger, haccounted.of_headers_eq rfl⟩

end Program

/-! ## The ledgers of a session -/

namespace Session

/-- The ledgers that a session over some headers passes through, each with the binds that have ended
by then. Every run of the session starts from the ledger that the runs before it left, in any
context with these headers, and may be given up at any of its moments. -/
inductive Reachable (headers : HeaderStore) : List BinderRun → Ledger → Prop
  | empty : Reachable headers [] {}
  | run {p : Program} {c : Context} {l : Ledger} {before ended : List BinderRun}
      {reached : World} :
      Reachable headers before l → c.headers = headers →
        p.Reaches { context := c, ledger := l } ended reached →
          Reachable headers (before ++ ended) reached.ledger

variable {headers : HeaderStore} {ended : List BinderRun} {l : Ledger}

/-- A ledger of a session holds the records of the binds that have ended, filed one after another,
and all of them have the headers of the session. -/
theorem Reachable.accounted (h : Reachable headers ended l) :
    l = ({} : Ledger).fileAll (filingsBy ended) ∧
      ∀ r ∈ ended, r.start.context.headers = headers := by
  induction h with
  | empty =>
      refine ⟨rfl, ?_⟩
      intro r hr
      cases hr
  | run _ hheaders hreaches ih =>
      obtain ⟨hledger, hbefore⟩ := ih
      obtain ⟨journal, hreached, haccounted⟩ := hreaches.accounted
      constructor
      · rw [hreached, Ledger.replay_eq_fileAll, haccounted.filings, filingsBy_append,
          Ledger.fileAll_append, ← hledger]
      · intro r hr
        rcases List.mem_append.mp hr with hfirst | hlast
        · exact hbefore r hfirst
        · exact (haccounted.headers r hlast).trans hheaders

/-- The ledgers that are noted while steps are taken for a field are reachable, if the one from
which they start is. So is the one after the last step. -/
theorem reachable_runField (steps : List Step) (w : World) (hheaders : w.context.headers = headers)
    (h : Reachable headers ended w.ledger) :
    (∀ record ∈ (runField w steps).1, ∃ ended, Reachable headers ended record.ledger) ∧
      ∃ ended, Reachable headers ended (runField w steps).2 := by
  induction steps generalizing w ended with
  | nil =>
      refine ⟨?_, ended, h⟩
      intro record hrecord
      cases hrecord
  | cons step rest ih =>
      have hreaches : (Program.sequence false (step :: rest)).Reaches w _ (step.run w).world :=
        .later rfl (.started (.sequence false rest) _)
      have hstep : Reachable headers _ (step.run w).world.ledger := h.run hheaders hreaches
      have hkept := (step.stepwise_run.kept w).headers
      obtain ⟨hrecords, hlast⟩ := ih _ (hkept.trans hheaders) hstep
      refine ⟨?_, hlast⟩
      intro record hrecord
      rcases List.mem_cons.mp hrecord with rfl | hrest
      · exact ⟨_, hstep⟩
      · exact hrecords record hrest

/-- Every ledger that is noted while fields are bound is reachable, if the first one is. -/
theorem reachable_of_mem_runFrom {plans : List FieldPlan} (h : Reachable headers ended l)
    {records : List StepRecord} (hrecords : .ran records ∈ runFrom headers l plans)
    {record : StepRecord} (hrecord : record ∈ records) :
    ∃ ended, Reachable headers ended record.ledger := by
  induction plans generalizing l ended with
  | nil => cases hrecords
  | cons plan rest ih =>
      rw [runFrom] at hrecords
      split at hrecords
      · -- a refused field leaves the ledger as it is
        rcases List.mem_cons.mp hrecords with hrefused | hrest
        · cases hrefused
        · exact ih h hrest
      · next field _ =>
          let w : World := { context := plan.context headers field, ledger := l }
          obtain ⟨hfield, ended', hlast⟩ := reachable_runField plan.steps w rfl h
          rcases List.mem_cons.mp hrecords with hran | hrest
          · cases hran
            exact hfield record hrecord
          · exact ih hlast hrest

/-- Every ledger that a session notes is reachable. -/
theorem reachable_of_mem_run {plans : List FieldPlan} {records : List StepRecord}
    (hrecords : .ran records ∈ run headers plans) {record : StepRecord}
    (hrecord : record ∈ records) : ∃ ended, Reachable headers ended record.ledger :=
  reachable_of_mem_runFrom .empty hrecords hrecord

end Session

/-! ## Authors -/

namespace BinderRun

variable {r : BinderRun} {key : String}

/-- The bind files its record under the name. -/
def FilesUnder (r : BinderRun) (key : String) : Prop := r.files = true ∧ r.field.modelName = key

/-- The record of a bind is found under the name under which it is filed. -/
theorem FilesUnder.get?_fileAll (h : r.FilesUnder key) (l : Ledger) :
    (l.fileAll (filingsBy [r])).get? key = some r.start.context.record := by
  obtain ⟨hfiles, rfl⟩ := h
  rw [filingsBy_singleton, hfiles, if_pos rfl]
  exact l.get?_record_self _ _

/-- A bind that does not file under a name leaves what is found there. -/
theorem get?_fileAll_of_not_filesUnder (h : ¬r.FilesUnder key) (l : Ledger) :
    (l.fileAll (filingsBy [r])).get? key = l.get? key := by
  rw [filingsBy_singleton]
  cases hfiles : r.files with
  | false => rfl
  | true =>
      have hname : key ≠ r.field.modelName := fun heq => h ⟨hfiles, heq.symm⟩
      exact l.get?_record_of_ne _ hname

/-- The bind is the author of a record under a name: it ran for a field with that model name, whose
header was there, it ended with a value or in an error, the record tells the tokens of the header,
and the bind left it under the name. -/
structure Wrote (r : BinderRun) (key : String) (record : Record) : Prop where
  name : r.field.modelName = key
  present : r.start.context.headers.contains r.field.name = true
  outcome : (∃ b v, r.outcome = .bound b ∧ b.model = some v) ∨ ∃ e, r.outcome = .error e
  told : record =
    (extract r.start.context.headers r.field.name r.field.shape).record r.field.shape
  left : (r.binder.run r.start).world.ledger.get? key = some record

end BinderRun

/-- The last of the binds in a run of a header binder is its own. -/
theorem Binder.exists_binds_eq (b : Binder) (w : World) :
    ∃ inner, b.binds w = inner ++ [⟨b, w⟩] := by
  cases b with
  | standalone sink =>
      rw [binds]
      exact ⟨[], rfl⟩
  | composed delegate sink =>
      rw [binds]
      exact ⟨_, rfl⟩

/-- A bind that files its record under a name is its author. -/
theorem BinderRun.FilesUnder.wrote {r : BinderRun} {key : String} (h : r.FilesUnder key) :
    r.Wrote key r.start.context.record := by
  obtain ⟨hpresent, hkept⟩ := Bool.and_eq_true_iff.mp h.1
  obtain ⟨inner, hbinds⟩ := r.binder.exists_binds_eq r.start
  refine ⟨h.2, ?_, Outcome.exists_of_isKept hkept, rfl, ?_⟩
  · rw [← present_extract _ _ r.field.shape]
    exact hpresent
  · -- the binds below it may have filed under the same name, but they end before it does
    rw [r.binder.stepwise_run.ledger_eq_replay, Ledger.replay_eq_fileAll,
      (r.binder.accounted r.start).filings, hbinds, filingsBy_append, Ledger.fileAll_append]
    exact h.get?_fileAll _

/-- What is found after binds have filed their records was there before, or was filed by the last of
them that filed under the name. -/
theorem found_after_filings {l : Ledger} {made : List BinderRun} {key : String} {record : Record}
    (h : (l.fileAll (filingsBy made)).get? key = some record) :
    (l.get? key = some record ∧ ∀ r ∈ made, ¬r.FilesUnder key) ∨
      ∃ before r after, made = before ++ r :: after ∧ r.FilesUnder key ∧
        record = r.start.context.record ∧ ∀ later ∈ after, ¬later.FilesUnder key := by
  induction made generalizing l with
  | nil =>
      refine Or.inl ⟨h, ?_⟩
      intro r hr
      cases hr
  | cons r rest ih =>
      have hsplit : filingsBy (r :: rest) = filingsBy [r] ++ filingsBy rest :=
        filingsBy_append [r] rest
      rw [hsplit, Ledger.fileAll_append] at h
      -- the first bind is the author only if none of the rest is
      rcases ih h with ⟨hfound, hrest⟩ | ⟨before, last, after, rfl, hlast⟩
      · by_cases hfiles : r.FilesUnder key
        · rw [hfiles.get?_fileAll] at hfound
          exact Or.inr ⟨[], r, rest, rfl, hfiles, (Option.some.inj hfound).symm, hrest⟩
        · rw [BinderRun.get?_fileAll_of_not_filesUnder hfiles] at hfound
          exact Or.inl ⟨hfound, List.forall_mem_cons.mpr ⟨hfiles, hrest⟩⟩
      · exact Or.inr ⟨r :: before, last, after, rfl, hlast⟩

/-- Every record that is found in a ledger of a session was written by one of the binds that have
ended, and no later one filed under that name. The record holds tokens one by one exactly if the
field of the bind was a collection, and what it shows is the text of what it holds. -/
theorem authored {headers : HeaderStore} {ended : List BinderRun} {l : Ledger} {key : String}
    {record : Record} (h : Session.Reachable headers ended l) (hfound : l.get? key = some record) :
    ∃ before r after, ended = before ++ r :: after ∧
      r.start.context.headers = headers ∧ r.Wrote key record ∧
      (∀ later ∈ after, ¬later.FilesUnder key) ∧
      ((∃ tokens, record.raw = .many tokens) ↔ r.field.shape.isCollection = true) ∧
      record.attempted = record.raw.display := by
  obtain ⟨rfl, hheaders⟩ := h.accounted
  rcases found_after_filings hfound with ⟨hempty, -⟩ | ⟨before, r, after, rfl, hfiles, rfl, hlast⟩
  · -- the session started with nothing
    cases hempty
  · exact ⟨before, r, after, rfl, hheaders r List.mem_append_cons_self, hfiles.wrote, hlast,
      r.start.context.extraction.raw_record_eq_many_iff _,
      r.start.context.extraction.attempted_record _⟩

/-- A text is recorded first. Then a script records tokens of the same header under the same name,
in a scope of its own, and is dropped below a binder for another field. The tokens are found, and
nothing is found for the field whose binder never ended. -/
theorem authored_dropped :
    let headers : HeaderStore := .owned ⟨[("X", "a, b"), ("Y", "1")]⟩
    let text : Field := { name := "X", modelName := "k", shape := .scalar (.simple .text) }
    let outer : Field := { name := "Y", modelName := "m", shape := .scalar .complex }
    let tokens : FieldRequest :=
      { name := "X", shape := .collection .list (.simple .text), edits := [.rename "k"] }
    let converting : Binder := .composed .converter none
    let body : Delegate := .script [.scope (some tokens) [.bind converting]] .pending
    let first : World := { context := { headers, field := text } }
    let second : World :=
      { context := { headers, field := outer }
        ledger := ((Binder.standalone none).run first).world.ledger }
    let l := (body.run second.handedOn).world.ledger
    let record : Record := ⟨"a,b", .many ["a", "b"]⟩
    l.get? "m" = none ∧
      ∃ ended, Session.Reachable headers ended l ∧ l.get? "k" = some record ∧
        ∃ before r after, ended = before ++ r :: after ∧
          r.start.context.headers = headers ∧ r.Wrote "k" record ∧
          (∀ later ∈ after, ¬later.FilesUnder "k") ∧
          ((∃ tokens, record.raw = .many tokens) ↔ r.field.shape.isCollection = true) ∧
          record.attempted = record.raw.display := by
  intro headers text outer tokens converting body first second l record
  have hempty : Session.Reachable headers [] {} := .empty
  have halone : (Program.delegate (.binder (.standalone none))).Reaches first _ _ :=
    .finished _ first
  have hbody : (Program.delegate (.binder (.composed body none))).Reaches second _ _ :=
    .inside none (.finished (.delegate body) second.handedOn)
  have hfirst := hempty.run rfl halone
  have hsecond : Session.Reachable headers _ l := hfirst.run rfl hbody
  have hfound : l.get? "k" = some record := by decide +kernel
  have hmissing : l.get? "m" = none := by decide +kernel
  exact ⟨hmissing, _, hsecond, hfound, authored hsecond hfound⟩

end TypedHeaders
