import TypedHeaders.Proofs.HandOut
import TypedHeaders.Proofs.Progress

/-!
# What is held is used at most once

A context outlives a run in it. The run may end, or it may be given up while it waits: then the
scopes that it was in are left, from the inside outwards, and the next run starts with what remains.
`Program.Stops` lists the ways in which a run may stop, each with the journal up to there, which is
the beginning of that of the whole run (`Program.Stops.prefix_journal`). `World.Lifetime` puts any
number of such runs one after another.

However a context has lived, its takings were handed out in order (`World.Lifetime.handsOut`). So
the collection that it was built with is given to the first read-only field that takes its target,
and is given to no other field after that (`used_at_most_once`).
-/

set_option autoImplicit false

namespace TypedHeaders

open Activity Binding

/-! ## Lifetimes -/

/-- The ways in which a run may stop that starts in the first world, with what it did up to there
and the world that remains. It may end, or be given up before it starts, after any of its steps, and
below any binder or scope, which are left then. -/
inductive Program.Stops : Program → World → List Effect → World → Prop
  | unstarted (p : Program) (w : World) : Stops p w [] w
  | finished (p : Program) (w : World) : Stops p w (p.journal w) (p.after w)
  -- the delegate has ended or was given up, and nothing is filed any more
  | binder {d : Delegate} {w left : World} {done : List Effect} (sink : Option Sink) :
      Stops (.delegate d) w.handedOn done left →
        Stops (.delegate (.binder (.composed d sink))) w
          ((w.opening sink).map .notice ++ done) (w.leave left)
  | script {steps : List Step} {w left : World} {done : List Effect} (ending : Ending) :
      Stops (.sequence false steps) w done left →
        Stops (.delegate (.script steps ending)) w done left
  -- the first step has ended, and did not halt the others
  | later {haltIfRefused : Bool} {step : Step} {rest : List Step} {w left : World}
      {done : List Effect} :
      (haltIfRefused && (step.run w).value.refusal?.isSome) = false →
        Stops (.sequence haltIfRefused rest) (step.run w).world done left →
          Stops (.sequence haltIfRefused (step :: rest)) w ((step.run w).journal ++ done) left
  | bind {haltIfRefused : Bool} {b : Binder} {rest : List Step} {w left : World}
      {done : List Effect} :
      Stops (.delegate (.binder b)) w done left →
        Stops (.sequence haltIfRefused (.bind b :: rest)) w done left
  | offer {haltIfRefused : Bool} {origin : Option Origin} {d : Option Delegate}
      {sink : Option Sink} {b : Binder} {rest : List Step} {w left : World}
      {done : List Effect} :
      (Catalogue.binderFor { sink } origin w.context.field.shape fun _ => d).chosen = some b →
        Stops (.delegate (.binder b)) w done left →
          Stops (.sequence haltIfRefused (.offer origin d sink :: rest)) w done left
  | scope {haltIfRefused : Bool} {request : Option FieldRequest} {field : Field}
      {inner rest : List Step} {w left : World} {done : List Effect} :
      scopeField w.context request = .ok field →
        Stops (.sequence true inner) (w.enter field) done left →
          Stops (.sequence haltIfRefused (.scope request inner :: rest)) w done (w.leave left)

/-- The lives of a world: runs one after another, each of which stops in one way or another, with
all that they did and the world that remains. -/
inductive World.Lifetime : World → List Effect → World → Prop
  | start (w : World) : Lifetime w [] w
  | run {w middle left : World} {before done : List Effect} {p : Program} :
      Lifetime w before middle → p.Stops middle done left → Lifetime w (before ++ done) left

/-- What a binder does begins with its first reports and goes on with what its body does. -/
theorem journal_announced {σ : Type} (sink : Option Sink) (body : Activity (Account σ))
    (w : World) :
    ∃ last, (announced sink body w).journal =
      (w.opening sink).map .notice ++ ((body w).journal ++ last) := by
  cases sink with
  | none =>
      refine ⟨[], ?_⟩
      rw [World.opening, announced, List.append_nil]
      cases w.context.headers.contains w.context.field.name with
      | false => rfl
      | true => rfl
  | some s =>
      obtain ⟨last, hlast⟩ : ∃ last, (reported s body w).journal = (body w).journal ++ last :=
        ⟨_, journal_bind _ _ w⟩
      refine ⟨last, ?_⟩
      rw [← hlast, announced_some, World.opening]
      show _ ++ (Report.journal ((if w.context.headers.contains w.context.field.name then _
        else _ : Activity (Account σ)) w)) = _
      cases w.context.headers.contains w.context.field.name with
      | false => rfl
      | true => rfl

/-- A run that stops has done the beginning of what the whole run does. -/
theorem Program.Stops.prefix_journal {p : Program} {w left : World} {done : List Effect}
    (h : p.Stops w done left) : done <+: p.journal w := by
  have hfirst : ∀ (haltIfRefused : Bool) (step : Step) (rest : List Step) (w : World),
      (step.run w).journal <+: journal (.sequence haltIfRefused (step :: rest)) w := by
    intro haltIfRefused step rest w
    rw [journal, journal_runSteps_cons]
    exact List.prefix_append _ _
  induction h with
  | unstarted p w => exact List.nil_prefix
  | finished p w => exact List.prefix_rfl
  | @binder d w left done sink _ ih =>
      -- the binder files and reports only after what its delegate does
      obtain ⟨last, hlast⟩ := journal_announced sink (composed d.run) w
      rw [journal, Delegate.run, Binder.run, hlast, journal_composed, List.append_assoc]
      exact (List.prefix_append_right_inj _).mpr (ih.trans (List.prefix_append _ _))
  | script ending _ ih =>
      rw [journal, journal_run_script]
      exact ih
  | later hgoes _ ih =>
      rw [journal, journal_runSteps_cons, hgoes]
      exact (List.prefix_append_right_inj _).mpr ih
  | @bind haltIfRefused b rest w left done _ ih =>
      have hbind := hfirst haltIfRefused (.bind b) rest w
      rw [journal_run_bind] at hbind
      exact ih.trans hbind
  | @offer haltIfRefused origin d sink b rest w left done hchosen _ ih =>
      have hoffer := hfirst haltIfRefused (.offer origin d sink) rest w
      rw [journal_run_offer w hchosen] at hoffer
      exact ih.trans hoffer
  | @scope haltIfRefused request field inner rest w left done hfield _ ih =>
      have hscope := hfirst haltIfRefused (.scope request inner) rest w
      rw [journal_run_scope w hfield] at hscope
      exact ih.trans hscope

/-- Wherever a run stops, what was held has been handed out in order up to there. -/
theorem Program.Stops.handsOut {p : Program} {w left : World} {done : List Effect}
    (h : p.Stops w done left) : w.HandsOut done left := by
  -- what is held passes into a scope and out of it unchanged
  induction h with
  | unstarted p w => exact .of_no_takes rfl rfl
  | finished p w =>
      cases p with
      | delegate d => exact d.stepwise_run.hands w
      | sequence haltIfRefused steps => exact (stepwise_runSteps haltIfRefused steps).hands w
  | @binder d w left done sink _ ih =>
      have hopening : w.HandsOut ((w.opening sink).map .notice) w.handedOn :=
        .of_no_takes (takesOf_notices _) rfl
      obtain ⟨htakes, hheld⟩ := hopening.append ih
      exact ⟨htakes, hheld⟩
  | script ending _ ih => exact ih
  | @later haltIfRefused step rest w left done _ _ ih => exact (step.stepwise_run.hands w).append ih
  | bind _ ih => exact ih
  | offer _ _ ih => exact ih
  | scope _ _ ih =>
      obtain ⟨htakes, hheld⟩ := ih
      exact ⟨htakes, hheld⟩

/-- So has it been in a whole life. -/
theorem World.Lifetime.handsOut {w left : World} {journal : List Effect}
    (h : w.Lifetime journal left) : w.HandsOut journal left := by
  induction h with
  | start => exact .of_no_takes rfl rfl
  | run _ hstops ih => exact ih.append hstops.handsOut

/-! ## What takers are given -/

/-- The collection that a field is given when it takes its target, if it is given one. -/
def Take.given? (t : Take) : Option HeldCollection :=
  match t.target with
  | .assignable => none
  | .readOnly held => held

/-- What is held is given once if any of those that take their targets is read-only, and otherwise
not at all. -/
theorem filterMap_given?_handOut (held : Option HeldCollection) (fields : List Field) :
    (handOut held fields).filterMap Take.given? =
      if fields.any (fun f => f.access = .readOnly) then held.toList else [] := by
  induction fields generalizing held with
  | nil => rfl
  | cons f rest ih =>
      rw [handOut, List.filterMap_cons, ih]
      cases haccess : f.access with
      | assignable => simp [Take.given?, Field.targetFrom, Field.leaves, haccess]
      | readOnly =>
          cases held with
          | none => simp [Take.given?, Field.targetFrom, Field.leaves, haccess]
          | some x => simp [Take.given?, Field.targetFrom, Field.leaves, haccess]

/-- A field takes its target from what those before it have left, and those after it from what it
leaves. -/
theorem handOut_split {held : Option HeldCollection} {before after : List Take} {t : Take}
    (h : before ++ t :: after = handOut held ((before ++ t :: after).map Take.field)) :
    let left := heldAfter held (before.map Take.field)
    t.target = t.field.targetFrom left ∧
      after = handOut (t.field.leaves left) (after.map Take.field) := by
  induction before generalizing held with
  | nil =>
      obtain ⟨htake, hafter⟩ := List.cons.inj h
      exact ⟨congrArg Take.target htake, hafter⟩
  | cons first rest ih => exact ih (List.cons.inj h).2

/-- A taking in a run was handed out of what those before it had left, and those after it got the
rest. -/
theorem World.HandsOut.split {w left : World} {journal : List Effect} {before after : List Take}
    {t : Take} (h : w.HandsOut journal left) (hsplit : takesOf journal = before ++ t :: after) :
    let held := heldAfter w.context.held (before.map Take.field)
    t.target = t.field.targetFrom held ∧
      after = handOut (t.field.leaves held) (after.map Take.field) := by
  have htakes := h.takes
  rw [takersOf, hsplit] at htakes
  exact handOut_split htakes

@[simp] theorem Field.leaves_none (f : Field) : f.leaves none = none := by
  rw [leaves]
  cases f.access with
  | assignable => rfl
  | readOnly => rfl

/-- When nothing is held, no field is given anything. -/
theorem target_of_mem_handOut_none {fields : List Field} {t : Take} (h : t ∈ handOut none fields) :
    t.target = t.field.targetFrom none := by
  induction fields with
  | nil => cases h
  | cons f rest ih =>
      rw [handOut, f.leaves_none] at h
      rcases List.mem_cons.mp h with rfl | hrest
      · rfl
      · exact ih hrest

theorem Take.given?_eq_some_iff {t : Take} {held : Option HeldCollection} {x : HeldCollection}
    (h : t.target = t.field.targetFrom held) :
    t.given? = some x ↔ t.field.access = .readOnly ∧ held = some x := by
  rw [given?, h, Field.targetFrom]
  cases t.field.access with
  | assignable => simp
  | readOnly => simp

/-- A context is built with a collection, and then lives for any number of runs, any of which may be
given up on the way. The takers of all these runs are given the collection once, as it was, if one
of them is read-only, and otherwise not at all; the one that is given it is read-only, and every
read-only taker after it is given nothing. A field that may be assigned is told so. What is held in
the end tells whether a read-only field has taken its target, so a run in which none does leaves
it. -/
theorem used_at_most_once {w left : World} {journal : List Effect} {x : HeldCollection}
    (hlife : w.Lifetime journal left) (hheld : w.context.held = some x) :
    let takes := takesOf journal
    let used := takes.any fun t => t.field.access = .readOnly
    takes.filterMap Take.given? = (if used then [x] else []) ∧
      left.context.held = (if used then none else some x) ∧
      (∀ before t after, takes = before ++ t :: after → t.given?.isSome →
        t.field.access = .readOnly ∧
          ∀ later ∈ after, later.field.access = .readOnly → later.target = .readOnly none) ∧
      (∀ t ∈ takes, t.field.access = .assignable → t.target = .assignable) ∧
      ∀ (p : Program) (done : List Effect) (after : World), p.Stops left done after →
        (∀ t ∈ takesOf done, t.field.access = .assignable) →
          after.context.held = left.context.held := by
  intro takes used
  have hhands := hlife.handsOut
  have hused : (takersOf journal).any (fun f => f.access = .readOnly) = used := List.any_map
  refine ⟨?_, ?_, ?_, ?_, ?_⟩
  · have hgiven := filterMap_given?_handOut (some x) (takersOf journal)
    rw [← hheld, ← hhands.takes, hused, hheld] at hgiven
    exact hgiven
  · rw [hhands.held, heldAfter_eq_ite, hused, hheld]
  · -- the one that is given something leaves nothing to those after it
    intro before t after hsplit hsome
    obtain ⟨htarget, hafter⟩ := hhands.split hsplit
    obtain ⟨y, hy⟩ := Option.isSome_iff_exists.mp hsome
    obtain ⟨haccess, -⟩ := (Take.given?_eq_some_iff htarget).mp hy
    refine ⟨haccess, ?_⟩
    intro later hlater hreadOnly
    rw [hafter, Field.leaves, haccess] at hlater
    rw [target_of_mem_handOut_none hlater, Field.targetFrom, hreadOnly]
  · intro t ht hassignable
    obtain ⟨before, after, hsplit⟩ := List.append_of_mem ht
    obtain ⟨htarget, -⟩ := hhands.split hsplit
    rw [htarget, Field.targetFrom, hassignable]
  · -- the run starts with what is left, and is a part of a life itself
    intro p done after hstops hassignable
    rw [hstops.handsOut.held, heldAfter_eq_ite, takersOf, List.any_map, if_neg]
    intro hany
    obtain ⟨t, ht, hreadOnly⟩ := List.any_eq_true.mp hany
    simp [hassignable t ht] at hreadOnly

/-- A frozen collection is taken by a delegate that is then given up below a binder, after a scope
for a field that may be assigned. Taking the target again in the same context gives nothing. -/
theorem used_at_most_once_given_up :
    let shape : Shape := .collection .list (.simple .text)
    let x : HeldCollection := { value := ⟨.linked, ["old"]⟩, mutable := false }
    let fixed : Field := { name := "F", modelName := "F", shape, access := .readOnly }
    let free : Field := { name := "G", modelName := "G", shape }
    let w : World := { context := { headers := .owned {}, field := fixed, held := some x } }
    ∃ journal left, w.Lifetime journal left ∧
      takesOf journal =
        [⟨free, .assignable⟩, ⟨fixed, .readOnly (some x)⟩, ⟨fixed, .readOnly none⟩] ∧
      (takesOf journal).filterMap Take.given? = [x] ∧ left.context.held = none := by
  intro shape x fixed free w
  let visit : Step := .scope (some { name := "G", shape }) [.takeTarget]
  let taker : Delegate := .script [.takeTarget, .convert] .absent
  let first : Program := .sequence false [visit, .bind (.composed taker none)]
  let again : Program := .sequence false [.takeTarget]
  -- the delegate has taken the target, and does not get to converting
  have htaker : (Program.delegate taker).Stops (visit.run w).world.handedOn _ _ :=
    .script .absent (.later rfl (.unstarted (.sequence false [.convert]) _))
  have hfirst : first.Stops w _ _ := .later rfl (.bind (.binder none htaker))
  obtain ⟨journal, left, hlife, htakes⟩ : ∃ journal left, w.Lifetime journal left ∧
      takesOf journal =
        [⟨free, .assignable⟩, ⟨fixed, .readOnly (some x)⟩, ⟨fixed, .readOnly none⟩] :=
    ⟨_, _, .run (.run (.start w) hfirst) (.finished again _), by decide +kernel⟩
  obtain ⟨hgiven, hheld, -⟩ := used_at_most_once hlife rfl
  refine ⟨journal, left, hlife, htakes, ?_, ?_⟩
  · rw [hgiven, htakes]
    rfl
  · rw [hheld, htakes]
    rfl

end TypedHeaders
