import LiveFacts.Proofs.Store.Evaluation
import LiveFacts.Template.Compile

/-!
# What a template means

A template is read from the facts to be found back to the fact that they are found from, while its
query walks from that fact to those that it finds. What a template says of a fact is stated here
without a query, and the query finds the facts of which it is true.
-/

namespace LiveFacts

def Hop.Leads (links : Links) : List Hop → Reference → Reference → Prop
  | [], fact, last => fact = last
  | hop :: rest, fact, last =>
    ∃ next, links fact hop.role next ∧ (∀ type ∈ hop.type?, next.type = type) ∧
      Hop.Leads links rest next last

namespace Placeholder

/-- From the fact that a function was handed, the placeholder leads to a fact, and all that is
asserted on the way is true. -/
def Reaches (links : Links) (placeholder : Placeholder) (start fact : Reference) : Prop :=
  (∀ type ∈ placeholder.rootType?, start.type = type) ∧
    Hop.Leads links placeholder.hops start fact

inductive Call where
  | hasType (type : String)
  | get (role : String)

def apply (placeholder : Placeholder) : Call → Placeholder
  | .hasType type => placeholder.hasType type
  | .get role => placeholder.get role

def ofCalls (calls : List Call) : Placeholder :=
  calls.foldl apply {}

/-- Calls lead from a fact to a fact: a type that was asserted is asked for when the fact is left,
or at the end, unless another was asserted since. -/
def Call.Leads (links : Links) : Option String → List Call → Reference → Reference → Prop
  | asserted?, [], fact, last => fact = last ∧ ∀ type ∈ asserted?, fact.type = type
  | _, .hasType type :: rest, fact, last => Call.Leads links (some type) rest fact last
  | asserted?, .get role :: rest, fact, last =>
    (∀ type ∈ asserted?, fact.type = type) ∧
      ∃ next, links fact role next ∧ Call.Leads links none rest next last

def untyped (placeholder : Placeholder) : Placeholder :=
  match placeholder.hops.getLast? with
  | none => { placeholder with rootType? := none }
  | some hop =>
    { placeholder with hops := placeholder.hops.dropLast ++ [{ hop with type? := none }] }

variable {links : Links} {placeholder : Placeholder} {start fact : Reference}

theorem hops_leads_append {hops more : List Hop} :
    Hop.Leads links (hops ++ more) start fact ↔
      ∃ middle, Hop.Leads links hops start middle ∧ Hop.Leads links more middle fact := by
  induction hops generalizing start with
  | nil => simp [Hop.Leads]
  | cons hop rest ih =>
    simp only [List.cons_append, Hop.Leads, ih]
    constructor
    · rintro ⟨next, hlink, htype, middle, hrest, hmore⟩
      exact ⟨middle, ⟨next, hlink, htype, hrest⟩, hmore⟩
    · rintro ⟨middle, ⟨next, hlink, htype, hrest⟩, hmore⟩
      exact ⟨next, hlink, htype, middle, hrest, hmore⟩

/-- A placeholder begins with the fact itself, or ends with a hop. -/
theorem hops_cases (placeholder : Placeholder) :
    placeholder.hops = [] ∨ ∃ hops hop, placeholder.hops = hops ++ [hop] := by
  cases hlast : placeholder.hops.getLast? with
  | none => exact Or.inl (List.getLast?_eq_none_iff.1 hlast)
  | some hop =>
    obtain ⟨hops, hhops⟩ := List.getLast?_eq_some_iff.1 hlast
    exact Or.inr ⟨hops, hop, hhops⟩

theorem reaches_iff_untyped :
    placeholder.Reaches links start fact ↔
      placeholder.untyped.Reaches links start fact ∧
        ∀ type ∈ placeholder.type?, fact.type = type := by
  rcases placeholder.hops_cases with hnone | ⟨hops, hop, hhops⟩
  · simp only [Reaches, untyped, type?, hnone, List.getLast?_nil, Hop.Leads]
    constructor
    · rintro ⟨htype, rfl⟩
      exact ⟨⟨by simp, rfl⟩, htype⟩
    · rintro ⟨⟨-, rfl⟩, htype⟩
      exact ⟨htype, rfl⟩
  · simp only [Reaches, untyped, type?, hhops, List.getLast?_concat, List.dropLast_concat,
      hops_leads_append, Hop.Leads]
    constructor
    · rintro ⟨hroot, middle, hhops, next, hlink, htype, rfl⟩
      exact ⟨⟨hroot, middle, hhops, next, hlink, by simp, rfl⟩, htype⟩
    · rintro ⟨⟨hroot, middle, hhops, next, hlink, -, rfl⟩, htype⟩
      exact ⟨hroot, middle, hhops, next, hlink, htype, rfl⟩

/-- A type takes the place of one that was asserted before of the same fact. -/
theorem untyped_hasType (type : String) :
    (placeholder.hasType type).untyped = placeholder.untyped ∧
      (placeholder.hasType type).type? = some type := by
  rcases placeholder.hops_cases with hnone | ⟨hops, hop, hhops⟩
  · simp [hasType, untyped, type?, hnone]
  · simp [hasType, untyped, type?, hhops]

theorem untyped_get (role : String) :
    (placeholder.get role).untyped = placeholder.get role ∧
      (placeholder.get role).type? = none := by
  simp [get, untyped, type?]

theorem reaches_get {role : String} :
    (placeholder.get role).Reaches links start fact ↔
      ∃ middle, placeholder.Reaches links start middle ∧ links middle role fact := by
  simp only [Reaches, get, hops_leads_append, Hop.Leads]
  constructor
  · rintro ⟨hroot, middle, hhops, next, hlink, -, rfl⟩
    exact ⟨middle, ⟨hroot, hhops⟩, hlink⟩
  · rintro ⟨middle, ⟨hroot, hhops⟩, hlink⟩
    exact ⟨hroot, middle, hhops, fact, hlink, by simp, rfl⟩

theorem reaches_foldl_apply (calls : List Call) :
    (calls.foldl apply placeholder).Reaches links start fact ↔
      ∃ middle, placeholder.untyped.Reaches links start middle ∧
        Call.Leads links placeholder.type? calls middle fact := by
  induction calls generalizing placeholder with
  | nil =>
    rw [List.foldl_nil, reaches_iff_untyped]
    simp only [Call.Leads]
    constructor
    · rintro ⟨hreaches, htype⟩
      exact ⟨fact, hreaches, rfl, htype⟩
    · rintro ⟨_, hreaches, rfl, htype⟩
      exact ⟨hreaches, htype⟩
  | cons call rest ih =>
    rw [List.foldl_cons, ih]
    cases call with
    | hasType type =>
      rw [apply, (untyped_hasType type).1, (untyped_hasType type).2]
      rfl
    | get role =>
      rw [apply, (untyped_get role).1, (untyped_get role).2]
      simp only [Call.Leads, reaches_get]
      constructor
      · rintro ⟨next, ⟨middle, hreaches, hlink⟩, hrest⟩
        obtain ⟨huntyped, htype⟩ := reaches_iff_untyped.1 hreaches
        exact ⟨middle, huntyped, htype, next, hlink, hrest⟩
      · rintro ⟨middle, huntyped, htype, next, hlink, hrest⟩
        exact ⟨next, ⟨middle, reaches_iff_untyped.2 ⟨huntyped, htype⟩, hlink⟩, hrest⟩

/-- A placeholder leads where the calls lead that made it. -/
theorem reaches_ofCalls (calls : List Call) :
    (ofCalls calls).Reaches links start fact ↔ Call.Leads links none calls start fact := by
  have hfresh : ∀ middle, ({} : Placeholder).untyped.Reaches links start middle ↔
      start = middle := by simp [Reaches, untyped, Hop.Leads]
  have htype : ({} : Placeholder).type? = none := rfl
  rw [ofCalls, reaches_foldl_apply, htype]
  simp only [hfresh, exists_eq_left']

theorem level_ofCalls (calls : List Call) : (ofCalls calls).level = 0 := by
  have hkept : ∀ placeholder : Placeholder,
      (calls.foldl apply placeholder).level = placeholder.level := by
    induction calls with
    | nil => exact fun _ => rfl
    | cons call rest ih =>
      intro placeholder
      rw [List.foldl_cons, ih]
      cases call with
      | hasType type =>
        rw [apply, hasType]
        split <;> rfl
      | get role => rfl
  exact hkept {}

theorem leads_typeSteps {type? : Option String} :
    links.Leads (typeSteps type?) start fact ↔
      start = fact ∧ ∀ type ∈ type?, start.type = type := by
  cases type? with
  | none => simp [typeSteps]
  | some type => simp [typeSteps, Links.leads_singleton]

theorem leads_hops {hops : List Hop} :
    links.Leads (hops.flatMap fun hop => .predecessor hop.role :: typeSteps hop.type?) start fact ↔
      Hop.Leads links hops start fact := by
  induction hops generalizing start with
  | nil => simp [Hop.Leads]
  | cons hop rest ih =>
    simp only [List.flatMap_cons, List.cons_append, Links.leads_cons, Links.leads_append,
      Links.stepLeads_predecessor, leads_typeSteps, ih, Hop.Leads]
    constructor
    · rintro ⟨next, hlink, _, ⟨rfl, htype⟩, hrest⟩
      exact ⟨next, hlink, htype, hrest⟩
    · rintro ⟨next, hlink, htype, hrest⟩
      exact ⟨next, hlink, next, ⟨rfl, htype⟩, hrest⟩

theorem leads_steps :
    links.Leads placeholder.steps start fact ↔ placeholder.Reaches links start fact := by
  simp only [steps, Reaches, Links.leads_append, leads_typeSteps, leads_hops]
  constructor
  · rintro ⟨_, ⟨rfl, htype⟩, hhops⟩
    exact ⟨htype, hhops⟩
  · rintro ⟨htype, hhops⟩
    exact ⟨start, ⟨rfl, htype⟩, hhops⟩

end Placeholder

namespace Shape

variable (links : Links) (start : Reference)

/-- A fact has the shape, seen from the fact that the function was handed in which the shape
stands. Of a template with other than one role, and of a list with other than one item, this is
never so. -/
def Matches : Shape → Reference → Prop
  | placeholder p, fact => p.level = 0 ∧ p.Reaches links start fact
  | template type [(role, shape)], fact =>
    fact.type = type ∧ ∃ named, links fact role named ∧ shape.Matches named
  | template _ _, _ => False
  | list [item], fact => item.Matches fact
  | list _, _ => False

variable {links start}

/-- What holds of each chain holds of all steps that shapes give: a placeholder begins the chain, a
template goes on from the chain of its one role, and the chain of a list is that of its one item. -/
theorem compile_induction {motive : Shape → Query → Prop}
    (hplaceholder : ∀ p : Placeholder, p.level = 0 → (∀ hop ∈ p.hops, hop.role ≠ "") →
      motive (placeholder p) p.steps)
    (htemplate : ∀ type role inner steps, type ≠ "" → role ≠ "" → motive inner steps →
      motive (template type [(role, inner)]) (steps ++ [.successor role, .field type]))
    (hlist : ∀ item steps, motive item steps → motive (list [item]) steps)
    {shape : Shape} {steps : Query} (h : shape.compile = .ok steps) : motive shape steps := by
  induction shape using compile.induct generalizing steps with
  | case1 p =>
    rw [compile, Placeholder.compile] at h
    split at h
    · cases h
    · next hlevel =>
      split at h
      · cases h
      · next hnamed =>
        cases h
        exact hplaceholder p (not_not.1 hlevel) (by simpa using hnamed)
  | case5 type htype role inner hrole ih =>
    rw [compile, if_neg htype, if_neg hrole] at h
    obtain ⟨steps, hinner, hsteps⟩ := bind_eq_ok.1 h
    cases hsteps
    rw [String.isEmpty_iff] at htype hrole
    exact htemplate type role inner steps htype hrole (ih hinner)
  | case7 item ih =>
    rw [compile] at h
    exact hlist item steps (ih h)
  -- the shapes that are left give no steps
  | case2 type roles htype => simp [compile.eq_def, htype] at h
  | case3 type htype => simp [compile, htype] at h
  | case4 type htype role inner hrole => simp [compile, htype, hrole] at h
  | case6 type htype => simp [compile, htype] at h
  | case8 => simp [compile] at h

/-- The steps that a shape gives lead to the facts that have the shape. -/
theorem leads_compile {shape : Shape} {steps : Query} {fact : Reference}
    (h : shape.compile = .ok steps) :
    links.Leads steps start fact ↔ shape.Matches links start fact := by
  refine compile_induction (motive := fun shape steps => ∀ fact,
    links.Leads steps start fact ↔ shape.Matches links start fact) ?_ ?_ ?_ h fact
  · intro p hlevel _ fact
    rw [Placeholder.leads_steps, Matches, and_iff_right hlevel]
  · intro type role inner innerSteps _ _ ih fact
    simp only [Links.leads_append, ih, Links.leads_cons, Links.stepLeads_successor,
      Links.stepLeads_field, Links.leads_nil, Matches]
    constructor
    · rintro ⟨named, hnamed, _, hlink, _, ⟨rfl, htype⟩, rfl⟩
      exact ⟨htype, named, hlink, hnamed⟩
    · rintro ⟨htype, named, hlink, hnamed⟩
      exact ⟨named, hnamed, fact, hlink, fact, ⟨rfl, htype⟩, rfl⟩
  · intro item innerSteps ih fact
    rw [Matches]
    exact ih fact

end Shape

namespace Condition

variable (links : Links)

mutual

def HoldsAt : Condition → Reference → Prop
  | mk quantifier shape conditions, fact =>
    quantifier.Holds (∃ found, shape.Matches links fact found ∧ AllHoldAt conditions found)

def AllHoldAt : List Condition → Reference → Prop
  | [], _ => True
  | condition :: rest, fact => condition.HoldsAt fact ∧ AllHoldAt rest fact

end

variable {links}

/-- A negation flips the condition that it is written on, and leaves those under it. -/
theorem holdsAt_negate (condition : Condition) (fact : Reference) :
    condition.negate.HoldsAt links fact ↔ ¬ condition.HoldsAt links fact := by
  cases condition with
  | mk quantifier shape conditions =>
    rw [negate, HoldsAt, HoldsAt]
    exact Quantifier.holds_negate

theorem compile_eq_ok {quantifier : Quantifier} {shape : Shape} {conditions : List Condition}
    {step : Step} :
    (mk quantifier shape conditions).compile = .ok step ↔
      ∃ chain filters, shape.compile = .ok chain ∧ compileAll conditions = .ok filters ∧
        step = .existential quantifier (chain ++ filters) := by
  rw [compile]
  constructor
  · intro h
    obtain ⟨filters, hfilters, hrest⟩ := bind_eq_ok.1 h
    obtain ⟨chain, hchain, hstep⟩ := bind_eq_ok.1 hrest
    exact ⟨chain, filters, hchain, hfilters, (Except.ok.inj hstep).symm⟩
  · rintro ⟨chain, filters, hchain, hfilters, rfl⟩
    exact bind_eq_ok.2 ⟨filters, hfilters, bind_eq_ok.2 ⟨chain, hchain, rfl⟩⟩

theorem compileAll_cons_eq_ok {condition : Condition} {rest : List Condition}
    {filters : List Step} :
    compileAll (condition :: rest) = .ok filters ↔
      ∃ step steps, condition.compile = .ok step ∧ compileAll rest = .ok steps ∧
        filters = step :: steps := by
  rw [compileAll]
  constructor
  · intro h
    obtain ⟨step, hstep, hrest⟩ := bind_eq_ok.1 h
    obtain ⟨steps, hsteps, hfilters⟩ := bind_eq_ok.1 hrest
    exact ⟨step, steps, hstep, hsteps, (Except.ok.inj hfilters).symm⟩
  · rintro ⟨step, steps, hstep, hsteps, rfl⟩
    exact bind_eq_ok.2 ⟨step, hstep, bind_eq_ok.2 ⟨steps, hsteps, rfl⟩⟩

mutual

theorem leads_compile (condition : Condition) {step : Step} {fact next : Reference}
    (h : condition.compile = .ok step) :
    links.StepLeads step fact next ↔ fact = next ∧ condition.HoldsAt links fact := by
  match condition with
  | mk quantifier shape conditions =>
    obtain ⟨steps, filters, hsteps, hfilters, rfl⟩ := compile_eq_ok.1 h
    rw [Links.stepLeads_existential, HoldsAt]
    refine and_congr_right fun _ => Quantifier.holds_congr (exists_congr fun found => ?_) quantifier
    simp only [Links.leads_append, Shape.leads_compile hsteps, leads_compileAll conditions hfilters]
    constructor
    · rintro ⟨_, hshape, rfl, hall⟩
      exact ⟨hshape, hall⟩
    · rintro ⟨hshape, hall⟩
      exact ⟨found, hshape, rfl, hall⟩

/-- Conditions filter the facts that meet all of them. -/
theorem leads_compileAll (conditions : List Condition) {filters : List Step}
    {fact last : Reference} (h : compileAll conditions = .ok filters) :
    links.Leads filters fact last ↔ fact = last ∧ AllHoldAt links conditions fact := by
  match conditions with
  | [] =>
    rw [compileAll, Except.ok.injEq] at h
    subst h
    simp [AllHoldAt]
  | condition :: rest =>
    obtain ⟨step, steps, hstep, hsteps, rfl⟩ := compileAll_cons_eq_ok.1 h
    simp only [Links.leads_cons, leads_compile condition hstep, leads_compileAll rest hsteps,
      AllHoldAt]
    constructor
    · rintro ⟨_, ⟨rfl, hcondition⟩, rfl, hall⟩
      exact ⟨rfl, hcondition, hall⟩
    · rintro ⟨rfl, hcondition, hall⟩
      exact ⟨fact, ⟨rfl, hcondition⟩, rfl, hall⟩

end

end Condition

namespace Specification

def Matches (links : Links) (specification : Specification) (start fact : Reference) : Prop :=
  specification.shape.Matches links start fact ∧
    Condition.AllHoldAt links specification.conditions fact

theorem compile_eq_ok {specification : Specification} {query : Query} :
    specification.compile = .ok query ↔
      ∃ chain filters, specification.shape.compile = .ok chain ∧
        Condition.compileAll specification.conditions = .ok filters ∧ query = chain ++ filters := by
  rw [compile]
  constructor
  · intro h
    obtain ⟨filters, hfilters, hrest⟩ := bind_eq_ok.1 h
    obtain ⟨chain, hchain, hquery⟩ := bind_eq_ok.1 hrest
    exact ⟨chain, filters, hchain, hfilters, (Except.ok.inj hquery).symm⟩
  · rintro ⟨chain, filters, hchain, hfilters, rfl⟩
    exact bind_eq_ok.2 ⟨filters, hfilters, bind_eq_ok.2 ⟨chain, hchain, rfl⟩⟩

theorem leads_compile {specification : Specification} {query : Query} {links : Links}
    {start fact : Reference} (h : specification.compile = .ok query) :
    links.Leads query start fact ↔ specification.Matches links start fact := by
  obtain ⟨steps, filters, hsteps, hfilters, rfl⟩ := compile_eq_ok.1 h
  simp only [Links.leads_append, Shape.leads_compile hsteps, Condition.leads_compileAll _ hfilters]
  constructor
  · rintro ⟨_, hshape, rfl, hall⟩
    exact ⟨hshape, hall⟩
  · rintro ⟨hshape, hall⟩
    exact ⟨fact, hshape, rfl, hall⟩

end Specification

namespace Selection

theorem ofTemplate_eq_ok {specification : Specification} {selection : Selection} :
    ofTemplate specification = .ok selection ↔
      ∃ query, specification.compile = .ok query ∧
        selection = ⟨query, specification.shape.type?⟩ := by
  rw [ofTemplate, bind_eq_ok]
  simp only [pure, Except.pure, Except.ok.injEq, eq_comm]

theorem followedBy_eq_ok {selection next : Selection} {specification : Specification} :
    selection.followedBy specification = .ok next ↔
      ∃ single, ofTemplate specification = .ok single ∧
        next = { single with query := selection.query ++ single.query } := by
  rw [followedBy, bind_eq_ok]
  simp only [pure, Except.pure, Except.ok.injEq, eq_comm]

end Selection

/-- From a stored fact of a closed store, the query of a template finds the facts that the template
describes. There a placeholder stands for what its calls lead to, and a condition that is negated
holds where it did not. -/
theorem Selection.mem_terminals_iff_matches {specification : Specification}
    {selection : Selection} (hcompiled : Selection.ofTemplate specification = .ok selection)
    {store : Store} (hsound : store.IsSound) (hclosed : store.IsClosed) {start : Reference}
    (hstart : store.contains start = true) :
    (∃ paths, store.evaluate start selection.query = .ok paths ∧
        ∀ fact, fact ∈ terminals paths ↔ specification.Matches store.links start fact) ∧
      (∀ calls start fact, (Shape.placeholder (Placeholder.ofCalls calls)).Matches store.links
        start fact ↔ Placeholder.Call.Leads store.links none calls start fact) ∧
      (∀ (condition : Condition) fact, condition.negate.HoldsAt store.links fact ↔
        ¬ condition.HoldsAt store.links fact) := by
  obtain ⟨query, hquery, rfl⟩ := ofTemplate_eq_ok.1 hcompiled
  refine ⟨?_, fun calls start fact => ?_, fun condition fact => Condition.holdsAt_negate ..⟩
  · obtain ⟨paths, hpaths, hfound⟩ := store.exists_evaluate hsound hclosed hstart query
    exact ⟨paths, hpaths, fun fact => (hfound fact).trans (Specification.leads_compile hquery)⟩
  · rw [Shape.Matches, Placeholder.reaches_ofCalls]
    exact and_iff_right (Placeholder.level_ofCalls calls)

namespace Reopened

def list : Record :=
  ⟨"List", "5ea541e58e82ca31cf238faabf95bdc9a18037a4e6baea92adf861588439dadd", [], []⟩

def task : Record :=
  ⟨"Task", "0ed478c70f18f1e94b3f3d543616a20b2b827ae3b8294f4d70ddaee35bac8dff", [],
    [("list", .one list.reference)]⟩

def completion : Record :=
  ⟨"Completion", "004f345d0d0e01ff4bf6504a7495eb87a20b78c96c877e8ead11c439bdd1b8fd", [],
    [("task", .one task.reference)]⟩

def laterTask : Record :=
  ⟨"Task", "f58cb46ee556b888c2a634f3b10ede70cf93ee8002b3c2b71ad9047cfa15b513", [],
    [("list", .many [list.reference])]⟩

def laterCompletion : Record :=
  ⟨"Completion", "2b18e61fe9986f5e323dff785079bcc17031f9faad0ccb1a51becdd20c0a21f5", [],
    [("task", .one laterTask.reference)]⟩

def revocation : Record :=
  ⟨"Revocation", "824045cef908564faf30e060253b1b93f2a582b4466a0c76c87702c7e7aefac0", [],
    [("completion", .one laterCompletion.reference)]⟩

def openTasks : Specification where
  shape := .template "Task" [("list", .list [.placeholder (Placeholder.hasType "List" {})])]
  conditions :=
    [(Condition.mk .present (.template "Completion" [("task", .placeholder {})])
      [Condition.mk .absent (.template "Revocation" [("completion", .placeholder {})]) []]).negate]

def openTasksQuery : Query :=
  [.field "List", .successor "list", .field "Task",
    .existential .absent [.successor "task", .field "Completion",
      .existential .absent [.successor "completion", .field "Revocation"]]]

theorem ofTemplate_openTasks :
    Selection.ofTemplate openTasks = .ok ⟨openTasksQuery, some "Task"⟩ := by
  simp [Selection.ofTemplate, Specification.compile, openTasks, openTasksQuery,
    Condition.negate, Condition.compileAll, Condition.compile, Shape.compile,
    Placeholder.compile, Placeholder.hasType, Placeholder.steps, Placeholder.typeSteps,
    Quantifier.negate, Shape.type?, bind, Except.bind, pure, Except.pure]

def store : Store :=
  Store.ofRecords [list, task, completion, laterTask, laterCompletion, revocation]

end Reopened

open Reopened in
/-- Of two tasks that were completed, the one is open again whose completion was revoked. -/
theorem matches_openTasks_iff_of_revocation :
    Selection.ofTemplate openTasks = .ok ⟨openTasksQuery, some "Task"⟩ ∧
      store.IsSound ∧ store.IsClosed ∧ store.contains list.reference = true ∧
      ∀ fact, openTasks.Matches store.links list.reference fact ↔ fact = laterTask.reference := by
  have hcompiled := ofTemplate_openTasks
  have hsound : store.IsSound := Store.isSound_ofRecords (by decide)
  have hclosed : store.IsClosed := by decide
  have hstart : store.contains list.reference = true := by decide
  obtain ⟨⟨paths, hpaths, hmatches⟩, -⟩ :=
    Selection.mem_terminals_iff_matches hcompiled hsound hclosed hstart
  have hfound : store.evaluate list.reference openTasksQuery =
      .ok [[list.reference, laterTask.reference]] := by decide
  have heq := Except.ok.inj (hfound.symm.trans hpaths)
  subst heq
  have hterminals : terminals [[list.reference, laterTask.reference]] =
      [laterTask.reference] := by decide
  refine ⟨hcompiled, hsound, hclosed, hstart, fun fact => (hmatches fact).symm.trans ?_⟩
  rw [hterminals, List.mem_singleton]

end LiveFacts
