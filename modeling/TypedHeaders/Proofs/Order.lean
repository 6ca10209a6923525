import TypedHeaders.Proofs.Stack
import Mathlib.Data.List.Nodup

/-!
# Fields may be bound in any order

Binding a field by a stack of header binders never looks at the ledger, and files at most one
record, under the model name of that field (`Job.ledgerFrom_eq`). So fields with different model
names may be bound one after another in any order: each comes to the same, and the ledger is the
same in the end (`bindAll_of_perm`). Their headers may coincide.
-/

set_option autoImplicit false

namespace TypedHeaders

open TypedHeaders.Header Activity Binding

/-- A field to be bound: the context of the field, and its binder. -/
structure Job where
  context : Context
  binder : Binder

/-- What binding a field came to: the outcome, and the context after it. -/
structure JobResult where
  job : Job
  outcome : Outcome
  after : Context

namespace Job

/-- The model name of the field. -/
def modelName (j : Job) : String := j.context.field.modelName

/-- Bind the field, starting from a ledger. -/
def report (j : Job) (l : Ledger) : Report (Account Seen) :=
  j.binder.run { context := j.context, ledger := l }

/-- What binding the field comes to, starting from a ledger. -/
def resultFrom (l : Ledger) (j : Job) : JobResult :=
  { job := j, outcome := (j.report l).value.outcome, after := (j.report l).world.context }

/-- The ledger after binding the field, starting from a ledger. -/
def ledgerFrom (l : Ledger) (j : Job) : Ledger := (j.report l).world.ledger

end Job

/-- Bind fields one after another, starting from a ledger. Gives what each of them came to, and the
ledger after the last. -/
def bindAll : Ledger → List Job → List JobResult × Ledger
  | l, [] => ([], l)
  | l, j :: rest =>
      let (results, last) := bindAll (j.ledgerFrom l) rest
      (j.resultFrom l :: results, last)

theorem ledger_bindAll (l : Ledger) (jobs : List Job) :
    (bindAll l jobs).2 = jobs.foldl Job.ledgerFrom l := by
  induction jobs generalizing l with
  | nil => rfl
  | cons j rest ih => exact ih (j.ledgerFrom l)

/-! ## One field -/

namespace Job

variable {j : Job}

/-- The record that is filed for the field, if one is. It is told from the context alone. -/
def filing (s : Settlement) (j : Job) : Option Record :=
  if j.context.files (s.outcome j.context) then some j.context.record else none

/-- What a field comes to is told from its context alone. -/
theorem resultFrom_eq {s : Settlement} (hj : j.binder.SettlesBy s) (l : Ledger) :
    j.resultFrom l =
      { job := j, outcome := s.outcome j.context,
        after := (World.taken { context := j.context } (s.takes j.context)).context } := by
  obtain ⟨hvalue, hworld⟩ := hj { context := j.context, ledger := l }
  rw [resultFrom, report, hvalue, hworld, World.context_filed, World.taken, World.taken]
  split
  · rfl
  · rfl

/-- At most one record is filed for a field, under its own model name. -/
theorem ledgerFrom_eq {s : Settlement} (hj : j.binder.SettlesBy s) (l : Ledger) :
    j.ledgerFrom l =
      match j.filing s with
      | some r => l.record j.modelName r
      | none => l := by
  obtain ⟨-, hworld⟩ := hj { context := j.context, ledger := l }
  rw [ledgerFrom, report, hworld, World.ledger_filed, World.ledger_taken, filing]
  cases j.context.files (s.outcome j.context) with
  | true => rfl
  | false => rfl

/-- What a field comes to does not depend on the ledger. -/
theorem resultFrom_eq_resultFrom (hj : j.binder.IsStack) (l l' : Ledger) :
    j.resultFrom l = j.resultFrom l' := by
  obtain ⟨s, hs⟩ := hj.exists_settlesBy
  rw [resultFrom_eq hs l, resultFrom_eq hs l']

/-- What is kept under any other model name stays. -/
theorem get?_ledgerFrom_of_ne (hj : j.binder.IsStack) {name : String} (hname : name ≠ j.modelName)
    (l : Ledger) : (j.ledgerFrom l).get? name = l.get? name := by
  obtain ⟨s, hs⟩ := hj.exists_settlesBy
  rw [ledgerFrom_eq hs]
  cases j.filing s with
  | none => rfl
  | some r => exact l.get?_record_of_ne r hname

/-- Two fields of different model names leave the same ledger in either order. -/
theorem ledgerFrom_comm {j' : Job} (hj : j.binder.IsStack) (hj' : j'.binder.IsStack)
    (hne : j.modelName ≠ j'.modelName) (l : Ledger) :
    j'.ledgerFrom (j.ledgerFrom l) = j.ledgerFrom (j'.ledgerFrom l) := by
  obtain ⟨s, hs⟩ := hj.exists_settlesBy
  obtain ⟨s', hs'⟩ := hj'.exists_settlesBy
  rw [ledgerFrom_eq hs, ledgerFrom_eq hs', ledgerFrom_eq hs, ledgerFrom_eq hs']
  cases j.filing s with
  | none => rfl
  | some r =>
      cases j'.filing s' with
      | none => rfl
      | some r' => exact l.record_comm hne r r'

end Job

/-! ## Many fields -/

/-- Bound after others, each field still comes to what it comes to when it is bound first. -/
theorem results_bindAll {jobs : List Job} (hstacks : ∀ j ∈ jobs, j.binder.IsStack)
    (l l' : Ledger) : (bindAll l jobs).1 = jobs.map (Job.resultFrom l') := by
  induction jobs generalizing l with
  | nil => rfl
  | cons j rest ih =>
      have hfirst := Job.resultFrom_eq_resultFrom (hstacks j List.mem_cons_self) l l'
      have hrest := ih (fun x hx => hstacks x (List.mem_cons_of_mem j hx)) (j.ledgerFrom l)
      show j.resultFrom l :: (bindAll (j.ledgerFrom l) rest).1 = _
      rw [hfirst, hrest]
      rfl

/-- Binding fields keeps what the ledger has under all other names. -/
theorem get?_ledger_bindAll {jobs : List Job} (hstacks : ∀ j ∈ jobs, j.binder.IsStack)
    {name : String} (hname : name ∉ jobs.map Job.modelName) (l : Ledger) :
    (bindAll l jobs).2.get? name = l.get? name := by
  induction jobs generalizing l with
  | nil => rfl
  | cons j rest ih =>
      rw [List.map_cons, List.mem_cons, not_or] at hname
      have hrest := ih (fun x hx => hstacks x (List.mem_cons_of_mem j hx)) hname.2 (j.ledgerFrom l)
      have hfirst := Job.get?_ledgerFrom_of_ne (hstacks j List.mem_cons_self) hname.1 l
      exact hrest.trans hfirst

/-- Jobs whose model names are all different are the same job if their names are the same. -/
theorem Job.eq_of_modelName_eq {jobs : List Job} (hnames : (jobs.map Job.modelName).Nodup)
    {j j' : Job} (hj : j ∈ jobs) (hj' : j' ∈ jobs) (heq : j.modelName = j'.modelName) : j = j' :=
  List.inj_on_of_nodup_map hnames hj hj' heq

/-- Fields of one request whose model names are all different are bound by stacks of header binders
in any order. Each of them comes to the same outcome and the same context, which are those of
binding it first; the ledger is the same in the end, and has under every other name what it had. -/
theorem bindAll_of_perm {jobs jobs' : List Job} (hstacks : ∀ j ∈ jobs, j.binder.IsStack)
    (hnames : (jobs.map Job.modelName).Nodup) (hperm : jobs.Perm jobs') (l : Ledger) :
    (bindAll l jobs).1 = jobs.map (Job.resultFrom l) ∧
      (bindAll l jobs').1 = jobs'.map (Job.resultFrom l) ∧
      (bindAll l jobs').2 = (bindAll l jobs).2 ∧
      ∀ name, name ∉ jobs.map Job.modelName → (bindAll l jobs).2.get? name = l.get? name := by
  have hstacks' : ∀ j ∈ jobs', j.binder.IsStack := fun j hj => hstacks j (hperm.mem_iff.mpr hj)
  refine ⟨results_bindAll hstacks l l, results_bindAll hstacks' l l, ?_,
    fun name hname => get?_ledger_bindAll hstacks hname l⟩
  rw [ledger_bindAll, ledger_bindAll]
  symm
  apply hperm.foldl_eq'
  intro j hj j' hj' between
  by_cases hname : j.modelName = j'.modelName
  · rw [Job.eq_of_modelName_eq hnames hj hj' hname]
  · exact Job.ledgerFrom_comm (hstacks j hj) (hstacks j' hj') hname between

/-- Two fields of one header and a field of a missing header, of which the second had a record
already. The last field may as well be the first. -/
theorem bindAll_of_perm_rotated :
    let headers : HeaderStore := .owned ⟨[("X", "1"), ("X", "2")]⟩
    let text : Job :=
      { context :=
          { headers, field := { name := "X", modelName := "a", shape := .scalar (.simple .text) } }
        binder := .standalone none }
    let numbers : Job :=
      { context :=
          { headers
            field :=
              { name := "X", modelName := "b", shape := .collection .list (.simple .integer) } }
        binder := .composed (.binder (.composed .converter none)) (some .tracing) }
    let missing : Job :=
      { context :=
          { headers, field := { name := "Y", modelName := "c", shape := .scalar .complex } }
        binder := .composed .converter none }
    let l := Ledger.record {} "b" ⟨"0", .single "0"⟩
    let jobs := [text, numbers, missing]
    let jobs' := [missing, text, numbers]
    (∀ j ∈ jobs, j.binder.IsStack) ∧ (jobs.map Job.modelName).Nodup ∧ jobs.Perm jobs' ∧
      (bindAll l jobs).1 = jobs.map (Job.resultFrom l) ∧
      (bindAll l jobs').1 = jobs'.map (Job.resultFrom l) ∧
      (bindAll l jobs').2 = (bindAll l jobs).2 ∧
      (bindAll l jobs).2.get? "b" = some ⟨"1,2", .many ["1", "2"]⟩ ∧
      ∀ name, name ∉ ["a", "b", "c"] → (bindAll l jobs).2.get? name = l.get? name := by
  intro headers text numbers missing l jobs jobs'
  have hstacks : ∀ j ∈ jobs, j.binder.IsStack := by
    intro j hj
    simp only [jobs, List.mem_cons, List.not_mem_nil, or_false] at hj
    rcases hj with rfl | rfl | rfl
    · exact .alone _
    · exact .layer _ (.converting _)
    · exact .converting _
  have hnames : (jobs.map Job.modelName).Nodup := by
    show ["a", "b", "c"].Nodup
    decide
  have hperm : jobs.Perm jobs' :=
    (List.perm_append_comm : ([text, numbers] ++ [missing]).Perm ([missing] ++ [text, numbers]))
  obtain ⟨hresults, hresults', hledger, hothers⟩ := bindAll_of_perm hstacks hnames hperm l
  have hnumbers : (bindAll l jobs).2.get? "b" = some ⟨"1,2", .many ["1", "2"]⟩ := by
    decide +kernel
  exact ⟨hstacks, hnames, hperm, hresults, hresults', hledger, hnumbers, hothers⟩

end TypedHeaders
