import LiveFacts.Proofs.Query.Turns
import LiveFacts.Proofs.Template.Drafts
import LiveFacts.Proofs.Template.Meaning

/-!
# The templates that are accepted

What a template has to be is said of each part of each shape in it by itself, that of the template
and those of its conditions. A template is accepted if all parts are as they have to be, and its
query then has one step for each condition.
-/

namespace LiveFacts

theorem Placeholder.isPlain_typeSteps (type? : Option String) :
    Query.isPlain (typeSteps type?) = true := by
  cases type? <;> rfl

theorem Placeholder.isPlain_steps (placeholder : Placeholder) :
    placeholder.steps.isPlain = true := by
  rw [steps, Query.isPlain_append, isPlain_typeSteps, Bool.true_and]
  induction placeholder.hops with
  | nil => rfl
  | cons hop rest ih =>
    rw [List.flatMap_cons, Query.isPlain_append, ih, Bool.and_true]
    exact isPlain_typeSteps hop.type?

namespace Shape

inductive IsPartOf (part : Shape) : Shape → Prop
  | self : IsPartOf part part
  | role {type : String} {roles : List (String × Shape)} {role : String} {inner : Shape} :
      (role, inner) ∈ roles → IsPartOf part inner → IsPartOf part (template type roles)
  | item {items : List Shape} {item : Shape} :
      item ∈ items → IsPartOf part item → IsPartOf part (list items)

/-- A placeholder was handed to the function in whose shape it stands, and none of the roles that it
moves under is empty. A template has a type and one role, neither of them empty. A list has one
item. -/
def IsProper : Shape → Prop
  | placeholder p => p.level = 0 ∧ ∀ hop ∈ p.hops, hop.role ≠ ""
  | template type roles => type ≠ "" ∧ ∃ role inner, roles = [(role, inner)] ∧ role ≠ ""
  | list items => ∃ item, items = [item]

def IsWellFormed (shape : Shape) : Prop :=
  ∀ part : Shape, part.IsPartOf shape → part.IsProper

theorem IsWellFormed.isProper {shape : Shape} (h : shape.IsWellFormed) : shape.IsProper :=
  h shape .self

theorem isWellFormed_placeholder {p : Placeholder} :
    (placeholder p).IsWellFormed ↔ (placeholder p).IsProper := by
  refine ⟨IsWellFormed.isProper, fun hproper part hpart => ?_⟩
  cases hpart
  exact hproper

theorem isWellFormed_template {type role : String} {inner : Shape} :
    (template type [(role, inner)]).IsWellFormed ↔ type ≠ "" ∧ role ≠ "" ∧ inner.IsWellFormed := by
  constructor
  · intro h
    obtain ⟨htype, _, _, heq, hrole⟩ := h.isProper
    cases heq
    exact ⟨htype, hrole, fun part hpart => h part (.role (List.mem_singleton_self _) hpart)⟩
  · rintro ⟨htype, hrole, hinner⟩ part hpart
    cases hpart with
    | self => exact ⟨htype, role, inner, rfl, hrole⟩
    | role hmem hpart =>
      cases List.mem_singleton.1 hmem
      exact hinner part hpart

theorem isWellFormed_list {item : Shape} : (list [item]).IsWellFormed ↔ item.IsWellFormed := by
  constructor
  · exact fun h part hpart => h part (.item (List.mem_singleton_self item) hpart)
  · intro hitem part hpart
    cases hpart with
    | self => exact ⟨item, rfl⟩
    | item hmem hpart =>
      cases List.mem_singleton.1 hmem
      exact hitem part hpart

theorem compile_isOk_iff (shape : Shape) :
    (∃ steps, shape.compile = .ok steps) ↔ shape.IsWellFormed := by
  induction shape using compile.induct with
  | case1 p =>
    rw [isWellFormed_placeholder, IsProper, compile, Placeholder.compile]
    split
    · next hlevel => simp [hlevel]
    · next hlevel =>
      rw [not_not] at hlevel
      split
      · next hunnamed => simpa [hlevel] using hunnamed
      · next hnamed => simpa [hlevel] using hnamed
  | case5 type htype role inner hrole ih =>
    rw [isWellFormed_template, ← ih, compile, if_neg htype, if_neg hrole]
    rw [String.isEmpty_iff] at htype hrole
    constructor
    · rintro ⟨_, hsteps⟩
      obtain ⟨steps, hinner, -⟩ := bind_eq_ok.1 hsteps
      exact ⟨htype, hrole, steps, hinner⟩
    · rintro ⟨-, -, steps, hinner⟩
      exact ⟨_, bind_eq_ok.2 ⟨steps, hinner, rfl⟩⟩
  | case7 item ih => rw [isWellFormed_list, ← ih, compile]
  -- the shapes that are left are faulty by themselves
  | case2 type roles htype =>
    refine iff_of_false (by simp [compile.eq_def, htype]) fun h => ?_
    exact h.isProper.1 (String.isEmpty_iff.1 htype)
  | case3 type htype =>
    refine iff_of_false (by simp [compile, htype]) fun h => ?_
    obtain ⟨_, _, _, heq, -⟩ := h.isProper
    cases heq
  | case4 type htype role inner hrole =>
    refine iff_of_false (by simp [compile, htype, hrole]) fun h => ?_
    exact (isWellFormed_template.1 h).2.1 (String.isEmpty_iff.1 hrole)
  | case6 type htype roles hnone hone =>
    refine iff_of_false (by simp [compile, htype]) fun h => ?_
    obtain ⟨_, role, inner, heq, -⟩ := h.isProper
    exact hone role inner heq
  | case8 items hone =>
    refine iff_of_false (by simp [compile]) fun h => ?_
    obtain ⟨item, heq⟩ := h.isProper
    exact hone item heq

/-- On the chain of a shape no step is a condition. -/
theorem isPlain_compile {shape : Shape} {steps : Query} (h : shape.compile = .ok steps) :
    steps.isPlain = true := by
  refine compile_induction (motive := fun _ steps => steps.isPlain = true) ?_ ?_ ?_ h
  · exact fun p _ _ => p.isPlain_steps
  · intro type role inner steps _ _ ih
    rw [Query.isPlain_append, ih]
    rfl
  · exact fun _ _ ih => ih

end Shape

namespace Condition

def shape : Condition → Shape
  | mk _ shape _ => shape

def conditions : Condition → List Condition
  | mk _ _ conditions => conditions

inductive IsAttachedTo (condition : Condition) : List Condition → Prop
  | direct {conditions : List Condition} :
      condition ∈ conditions → IsAttachedTo condition conditions
  | under {host : Condition} {conditions : List Condition} :
      host ∈ conditions → IsAttachedTo condition host.conditions → IsAttachedTo condition conditions

def AllWellFormed (conditions : List Condition) : Prop :=
  ∀ condition : Condition, condition.IsAttachedTo conditions → condition.shape.IsWellFormed

theorem allWellFormed_nil : AllWellFormed [] := by
  intro condition hattached
  cases hattached with
  | direct hmem => cases hmem
  | under hmem => cases hmem

theorem allWellFormed_cons {condition : Condition} {rest : List Condition} :
    AllWellFormed (condition :: rest) ↔
      (condition.shape.IsWellFormed ∧ AllWellFormed condition.conditions) ∧ AllWellFormed rest := by
  constructor
  · intro h
    refine ⟨⟨h condition (.direct List.mem_cons_self), fun inner hinner => ?_⟩,
      fun other hother => ?_⟩
    · exact h inner (.under List.mem_cons_self hinner)
    · cases hother with
      | direct hmem => exact h other (.direct (List.mem_cons_of_mem _ hmem))
      | under hmem hunder => exact h other (.under (List.mem_cons_of_mem _ hmem) hunder)
  · rintro ⟨⟨hshape, hconditions⟩, hrest⟩ other hother
    cases hother with
    | direct hmem =>
      obtain rfl | hmem := List.mem_cons.1 hmem
      · exact hshape
      · exact hrest other (.direct hmem)
    | under hmem hunder =>
      obtain rfl | hmem := List.mem_cons.1 hmem
      · exact hconditions other hunder
      · exact hrest other (.under hmem hunder)

mutual

theorem compile_isOk_iff (condition : Condition) :
    (∃ step, condition.compile = .ok step) ↔
      condition.shape.IsWellFormed ∧ AllWellFormed condition.conditions := by
  match condition with
  | mk quantifier shape conditions =>
    simp only [compile_eq_ok, Condition.shape, Condition.conditions, ← Shape.compile_isOk_iff,
      ← compileAll_isOk_iff]
    constructor
    · rintro ⟨_, chain, filters, hchain, hfilters, -⟩
      exact ⟨⟨chain, hchain⟩, filters, hfilters⟩
    · rintro ⟨⟨chain, hchain⟩, filters, hfilters⟩
      exact ⟨_, chain, filters, hchain, hfilters, rfl⟩

theorem compileAll_isOk_iff (conditions : List Condition) :
    (∃ filters, compileAll conditions = .ok filters) ↔ AllWellFormed conditions := by
  match conditions with
  | [] => exact iff_of_true ⟨[], rfl⟩ allWellFormed_nil
  | condition :: rest =>
    rw [allWellFormed_cons, ← compile_isOk_iff condition, ← compileAll_isOk_iff rest]
    simp only [compileAll_cons_eq_ok]
    constructor
    · rintro ⟨_, step, steps, hstep, hsteps, -⟩
      exact ⟨⟨step, hstep⟩, steps, hsteps⟩
    · rintro ⟨⟨step, hstep⟩, steps, hsteps⟩
      exact ⟨_, step, steps, hstep, hsteps, rfl⟩

end

/-- A condition gives one step: it looks for the facts on the chain of its shape, on which there are
no conditions, and then come the steps that its own conditions give, one for each, in the order in
which they were attached. -/
inductive Gives : Condition → Step → Prop
  | mk {quantifier : Quantifier} {shape : Shape} {conditions : List Condition} {chain : Query}
      {filters : List Step} : shape.compile = .ok chain → chain.isPlain = true →
      List.Forall₂ Gives conditions filters →
      Gives (.mk quantifier shape conditions) (.existential quantifier (chain ++ filters))

mutual

theorem gives_of_compile (condition : Condition) {step : Step} (h : condition.compile = .ok step) :
    condition.Gives step := by
  match condition with
  | mk quantifier shape conditions =>
    obtain ⟨chain, filters, hchain, hfilters, rfl⟩ := compile_eq_ok.1 h
    exact .mk hchain (Shape.isPlain_compile hchain) (gives_of_compileAll conditions hfilters)

theorem gives_of_compileAll (conditions : List Condition) {filters : List Step}
    (h : compileAll conditions = .ok filters) : List.Forall₂ Gives conditions filters := by
  match conditions with
  | [] =>
    rw [compileAll, Except.ok.injEq] at h
    subst h
    exact .nil
  | condition :: rest =>
    obtain ⟨step, steps, hstep, hsteps, rfl⟩ := compileAll_cons_eq_ok.1 h
    exact .cons (gives_of_compile condition hstep) (gives_of_compileAll rest hsteps)

end

end Condition

namespace Specification

inductive HasShape (specification : Specification) : Shape → Prop
  | own : HasShape specification specification.shape
  | attached {condition : Condition} :
      condition.IsAttachedTo specification.conditions → HasShape specification condition.shape

def IsWellFormed (specification : Specification) : Prop :=
  ∀ shape, specification.HasShape shape → shape.IsWellFormed

/-- The query is the chain of the shape, on which there are no conditions, and then come the steps
of the conditions, one for each, in the order in which they were attached. -/
def Gives (specification : Specification) (query : Query) : Prop :=
  ∃ chain filters, query = chain ++ filters ∧ specification.shape.compile = .ok chain ∧
    chain.isPlain = true ∧ List.Forall₂ Condition.Gives specification.conditions filters

theorem isWellFormed_iff {specification : Specification} :
    specification.IsWellFormed ↔
      specification.shape.IsWellFormed ∧ Condition.AllWellFormed specification.conditions := by
  constructor
  · exact fun h => ⟨h _ .own, fun condition hattached => h _ (.attached hattached)⟩
  · rintro ⟨hshape, hconditions⟩ shape hhas
    cases hhas with
    | own => exact hshape
    | attached hattached => exact hconditions _ hattached

theorem compile_isOk_iff (specification : Specification) :
    (∃ query, specification.compile = .ok query) ↔ specification.IsWellFormed := by
  simp only [compile_eq_ok, isWellFormed_iff, ← Shape.compile_isOk_iff,
    ← Condition.compileAll_isOk_iff]
  constructor
  · rintro ⟨_, chain, filters, hchain, hfilters, -⟩
    exact ⟨⟨chain, hchain⟩, filters, hfilters⟩
  · rintro ⟨⟨chain, hchain⟩, filters, hfilters⟩
    exact ⟨_, chain, filters, hchain, hfilters, rfl⟩

theorem gives_of_compile {specification : Specification} {query : Query}
    (h : specification.compile = .ok query) : specification.Gives query := by
  obtain ⟨chain, filters, hchain, hfilters, rfl⟩ := compile_eq_ok.1 h
  exact ⟨chain, filters, rfl, hchain, Shape.isPlain_compile hchain,
    Condition.gives_of_compileAll _ hfilters⟩

end Specification

/-- A template is accepted, by itself or to go on from what was selected before, if and only if it
is well formed, and else there is a fault and no query. A query that is accepted has a step for each
condition, after the chain that the condition was attached to. Nothing of this changes if conditions
are compiled one by one as they are attached, and functions are told apart by numbers. -/
theorem Selection.ofTemplate_isOk_iff_isWellFormed (specification : Specification) :
    ((∃ selection, ofTemplate specification = .ok selection) ↔ specification.IsWellFormed) ∧
      (∀ before : Selection, (∃ after, before.followedBy specification = .ok after) ↔
        specification.IsWellFormed) ∧
      (¬ specification.IsWellFormed → ∃ fault, ofTemplate specification = .error fault ∧
        ∀ before : Selection, before.followedBy specification = .error fault) ∧
      (∀ selection, ofTemplate specification = .ok selection →
        specification.Gives selection.query ∧ ∀ before : Selection,
          before.followedBy specification =
            .ok { selection with query := before.query ++ selection.query }) ∧
      ∀ (outer : Numbering) next, outer.IsBefore next →
        specification.compileAt outer next = specification.compile := by
  have htemplate : (∃ selection, ofTemplate specification = .ok selection) ↔
      specification.IsWellFormed := by
    rw [← specification.compile_isOk_iff]
    simp only [ofTemplate_eq_ok]
    constructor
    · rintro ⟨_, query, hquery, -⟩
      exact ⟨query, hquery⟩
    · rintro ⟨query, hquery⟩
      exact ⟨_, query, hquery, rfl⟩
  refine ⟨htemplate, fun before => ?_, fun hfaulty => ?_, fun selection h => ⟨?_, fun before => ?_⟩,
    fun outer next hbefore => specification.compileAt_eq hbefore⟩
  · rw [← htemplate]
    simp only [followedBy_eq_ok]
    constructor
    · rintro ⟨_, selection, hselection, -⟩
      exact ⟨selection, hselection⟩
    · rintro ⟨selection, hselection⟩
      exact ⟨_, selection, hselection, rfl⟩
  · cases hresult : ofTemplate specification with
    | ok selection => exact absurd (htemplate.1 ⟨selection, hresult⟩) hfaulty
    | error fault =>
      refine ⟨fault, rfl, fun before => ?_⟩
      rw [followedBy, hresult]
      rfl
  · obtain ⟨query, hquery, rfl⟩ := ofTemplate_eq_ok.1 h
    exact Specification.gives_of_compile hquery
  · exact followedBy_eq_ok.2 ⟨selection, h, rfl⟩

namespace Reopened

def strayTasks : Specification where
  shape := openTasks.shape
  conditions :=
    [Condition.mk .absent (.template "Completion" [("task", .placeholder {})])
      [Condition.mk .absent
        (.template "Revocation" [("completion", .placeholder { level := 2 })]) []]]

/-- The placeholder of the template is foreign to the condition on its condition. -/
theorem not_isWellFormed_strayTasks :
    openTasks.IsWellFormed ∧ openTasks.Gives openTasksQuery ∧ ¬ strayTasks.IsWellFormed ∧
      Numbering.IsBefore (fun _ => 0) 1 ∧
      strayTasks.compileAt (fun _ => 0) 1 = .error .foreignPlaceholder := by
  have hstray : strayTasks.compile = .error .foreignPlaceholder := by
    simp [Specification.compile, strayTasks, Condition.compileAll, Condition.compile,
      Shape.compile, Placeholder.compile, bind, Except.bind]
  have hbefore : Numbering.IsBefore (fun _ => 0) 1 := fun _ => Nat.one_pos
  obtain ⟨hformed, -, -, hgives, -⟩ := Selection.ofTemplate_isOk_iff_isWellFormed openTasks
  obtain ⟨hformed', -, -, -, hnumbers⟩ := Selection.ofTemplate_isOk_iff_isWellFormed strayTasks
  refine ⟨hformed.1 ⟨_, ofTemplate_openTasks⟩, (hgives _ ofTemplate_openTasks).1, fun h => ?_,
    hbefore, (hnumbers _ 1 hbefore).trans hstray⟩
  obtain ⟨selection, hselection⟩ := hformed'.2 h
  rw [Selection.ofTemplate, hstray] at hselection
  cases hselection

end Reopened

end LiveFacts
