import LiveFacts.Proofs.Query.Texts
import LiveFacts.Proofs.Template.Meaning

/-!
# The texts of template queries

A template is accepted if its roles are not empty, while the text of its query reads back only if
they hold no blanks, parentheses and quotes as well. The query goes by the roles of the template,
so this alone decides whether the text of a chain of templates can be used in place of the query.
-/

namespace LiveFacts

open Query (roles stepRoles roles_append IsRoleName Delimits)

/-- The roles on the chain from the starting fact. A template with other than one role and a list
with other than one item are no chains. -/
def Shape.roles : Shape → List String
  | placeholder p => p.hops.map Hop.role
  | template _ [(role, shape)] => shape.roles ++ [role]
  | template _ _ => []
  | list [item] => item.roles
  | list _ => []

namespace Condition

mutual

def roles : Condition → List String
  | mk _ shape conditions => shape.roles ++ rolesOfAll conditions

def rolesOfAll : List Condition → List String
  | [] => []
  | condition :: rest => roles condition ++ rolesOfAll rest

end

end Condition

def Specification.roles (specification : Specification) : List String :=
  specification.shape.roles ++ Condition.rolesOfAll specification.conditions

theorem Placeholder.roles_typeSteps (type? : Option String) :
    Query.roles (typeSteps type?) = [] := by
  cases type? <;> rfl

theorem Placeholder.roles_steps (placeholder : Placeholder) :
    Query.roles placeholder.steps = placeholder.hops.map Hop.role := by
  rw [steps, roles_append, roles_typeSteps, List.nil_append]
  induction placeholder.hops with
  | nil => rfl
  | cons hop rest ih =>
    rw [List.flatMap_cons, roles_append, Query.roles, roles_typeSteps, ih]
    rfl

/-- A shape that is accepted has roles that are not empty, and its query goes by them. -/
theorem Shape.roles_compile {shape : Shape} {steps : Query} (h : shape.compile = .ok steps) :
    Query.roles steps = shape.roles ∧ ∀ role ∈ shape.roles, role ≠ "" := by
  refine compile_induction (motive := fun shape steps => Query.roles steps = shape.roles ∧
    ∀ role ∈ shape.roles, role ≠ "") ?_ ?_ (fun _ _ ih => ?_) h
  · intro p _ hnamed
    rw [Placeholder.roles_steps, roles]
    exact ⟨rfl, List.forall_mem_map.2 hnamed⟩
  · rintro type role inner innerSteps - hrole ⟨hroles, hnamed⟩
    rw [roles_append, hroles, roles]
    refine ⟨by simp [Query.roles, stepRoles], List.forall_mem_append.2 ⟨hnamed, ?_⟩⟩
    simpa using hrole
  · rw [roles]
    exact ih

namespace Condition

mutual

theorem roles_compile (condition : Condition) {step : Step} (h : condition.compile = .ok step) :
    stepRoles step = condition.roles ∧ ∀ role ∈ condition.roles, role ≠ "" := by
  match condition with
  | mk quantifier shape conditions =>
    obtain ⟨steps, filters, hsteps, hfilters, rfl⟩ := compile_eq_ok.1 h
    obtain ⟨hshape, hnamed⟩ := Shape.roles_compile hsteps
    obtain ⟨hconditions, hnamed'⟩ := roles_compileAll conditions hfilters
    rw [stepRoles, roles_append, hshape, hconditions, roles]
    exact ⟨rfl, List.forall_mem_append.2 ⟨hnamed, hnamed'⟩⟩

theorem roles_compileAll (conditions : List Condition) {filters : List Step}
    (h : compileAll conditions = .ok filters) :
    Query.roles filters = rolesOfAll conditions ∧ ∀ role ∈ rolesOfAll conditions, role ≠ "" := by
  match conditions with
  | [] =>
    rw [compileAll, Except.ok.injEq] at h
    rw [← h]
    exact ⟨rfl, by simp [rolesOfAll]⟩
  | condition :: rest =>
    obtain ⟨step, steps, hstep, hsteps, rfl⟩ := compileAll_cons_eq_ok.1 h
    obtain ⟨hfirst, hnamed⟩ := roles_compile condition hstep
    obtain ⟨hothers, hnamed'⟩ := roles_compileAll rest hsteps
    rw [Query.roles, hfirst, hothers, rolesOfAll]
    exact ⟨rfl, List.forall_mem_append.2 ⟨hnamed, hnamed'⟩⟩

end

end Condition

theorem Specification.roles_compile {specification : Specification} {query : Query}
    (h : specification.compile = .ok query) :
    Query.roles query = specification.roles ∧ ∀ role ∈ specification.roles, role ≠ "" := by
  obtain ⟨steps, filters, hsteps, hfilters, rfl⟩ := compile_eq_ok.1 h
  obtain ⟨hshape, hnamed⟩ := Shape.roles_compile hsteps
  obtain ⟨hconditions, hnamed'⟩ := Condition.roles_compileAll _ hfilters
  rw [roles_append, hshape, hconditions, roles]
  exact ⟨rfl, List.forall_mem_append.2 ⟨hnamed, hnamed'⟩⟩

namespace Selection

def ofTemplates (first : Specification) (others : List Specification) :
    Except ShapeFault Selection := do
  let selection ← ofTemplate first
  others.foldlM followedBy selection

theorem roles_followedBy {selection next : Selection} {specification : Specification}
    (h : selection.followedBy specification = .ok next) :
    roles next.query = roles selection.query ++ specification.roles ∧
      ∀ role ∈ specification.roles, role ≠ "" := by
  obtain ⟨_, htemplate, rfl⟩ := followedBy_eq_ok.1 h
  obtain ⟨query, hquery, rfl⟩ := ofTemplate_eq_ok.1 htemplate
  obtain ⟨hroles, hnamed⟩ := Specification.roles_compile hquery
  rw [roles_append, hroles]
  exact ⟨rfl, hnamed⟩

theorem roles_foldlM_followedBy {others : List Specification} {selection last : Selection}
    (h : others.foldlM followedBy selection = .ok last) :
    roles last.query = roles selection.query ++ others.flatMap Specification.roles ∧
      ∀ role ∈ others.flatMap Specification.roles, role ≠ "" := by
  induction others generalizing selection with
  | nil =>
    rw [List.foldlM_nil] at h
    have heq := Except.ok.inj h
    simp [heq]
  | cons specification rest ih =>
    rw [List.foldlM_cons] at h
    obtain ⟨next, hnext, hrest⟩ := bind_eq_ok.1 h
    obtain ⟨hroles, hnamed⟩ := roles_followedBy hnext
    obtain ⟨hothers, hnamed'⟩ := ih hrest
    rw [hothers, hroles, List.flatMap_cons, List.append_assoc]
    exact ⟨rfl, List.forall_mem_append.2 ⟨hnamed, hnamed'⟩⟩

theorem roles_ofTemplates {first : Specification} {others : List Specification}
    {selection : Selection} (h : ofTemplates first others = .ok selection) :
    roles selection.query = (first :: others).flatMap Specification.roles ∧
      ∀ role ∈ (first :: others).flatMap Specification.roles, role ≠ "" := by
  obtain ⟨_, htemplate, hothers⟩ := bind_eq_ok.1 h
  obtain ⟨query, hquery, rfl⟩ := ofTemplate_eq_ok.1 htemplate
  obtain ⟨hroles, hnamed⟩ := Specification.roles_compile hquery
  obtain ⟨hall, hnamed'⟩ := roles_foldlM_followedBy hothers
  rw [hall, hroles, List.flatMap_cons]
  exact ⟨rfl, List.forall_mem_append.2 ⟨hnamed, hnamed'⟩⟩

/-- The text of the query of accepted templates reads back exactly if no role in them holds a
blank, a parenthesis or a quote. That no role is empty has been seen to. -/
theorem read_text_iff_no_role_delimits {first : Specification} {others : List Specification}
    {selection : Selection} (hcompiled : ofTemplates first others = .ok selection) :
    Query.read selection.query.text = .ok selection.query ↔
      ∀ specification ∈ first :: others, ∀ role ∈ specification.roles,
        ∀ c ∈ role.toList, ¬ Delimits c := by
  obtain ⟨hroles, hnamed⟩ := roles_ofTemplates hcompiled
  rw [Query.read_text, hroles]
  constructor
  · intro hall specification hmem role hrole
    exact (hall role (List.mem_flatMap.2 ⟨specification, hmem, hrole⟩)).2
  · intro hall role hrole
    obtain ⟨specification, hmem, hin⟩ := List.mem_flatMap.1 hrole
    exact ⟨hnamed role hrole, hall specification hmem role hin⟩

end Selection

namespace Reopened

def completions : Specification where
  shape := .template "Completion" [("task", .placeholder {})]

def completionsQuery : Query :=
  openTasksQuery ++ [.successor "task", .field "Completion"]

def shoppingTasks : Specification where
  shape := .template "Task" [("shopping list", .placeholder {})]

def shoppingQuery : Query :=
  [.successor "shopping list", .field "Task"]

theorem ofTemplates_completions : Selection.ofTemplates openTasks [completions] =
    .ok ⟨completionsQuery, some "Completion"⟩ := by
  simp [Selection.ofTemplates, Selection.followedBy, Selection.ofTemplate, Specification.compile,
    openTasks, openTasksQuery, completions, completionsQuery, Condition.negate,
    Condition.compileAll, Condition.compile, Shape.compile, Placeholder.compile,
    Placeholder.hasType, Placeholder.steps, Placeholder.typeSteps, Quantifier.negate, Shape.type?,
    bind, Except.bind, pure, Except.pure]

theorem ofTemplates_shoppingTasks : Selection.ofTemplates shoppingTasks [] =
    .ok ⟨shoppingQuery, some "Task"⟩ := by
  simp [Selection.ofTemplates, Selection.ofTemplate, Specification.compile, shoppingTasks,
    shoppingQuery, Condition.compileAll, Shape.compile, Placeholder.compile, Placeholder.steps,
    Placeholder.typeSteps, Shape.type?, bind, Except.bind, pure, Except.pure]

end Reopened

open Reopened in
theorem completions_text_reads_back :
    Selection.ofTemplates openTasks [completions] = .ok ⟨completionsQuery, some "Completion"⟩ ∧
      (∀ specification ∈ [openTasks, completions], ∀ role ∈ specification.roles,
        ∀ c ∈ role.toList, ¬ Delimits c) ∧
      Query.read (Query.text completionsQuery) = .ok completionsQuery := by
  have hroles : ∀ specification ∈ [openTasks, completions], ∀ role ∈ specification.roles,
      ∀ c ∈ role.toList, ¬ Delimits c := by
    have hall : [openTasks, completions].all (fun specification =>
        specification.roles.all fun role => role.toList.all fun c => !decide (Delimits c)) := by
      decide
    simpa only [List.all_eq_true, Bool.not_eq_true', decide_eq_false_iff_not] using hall
  exact ⟨ofTemplates_completions, hroles,
    (Selection.read_text_iff_no_role_delimits ofTemplates_completions).2 hroles⟩

open Reopened in
/-- A role with a blank is accepted in a template, and the text of its query is refused. -/
theorem shoppingTasks_text_refused :
    Selection.ofTemplates shoppingTasks [] = .ok ⟨shoppingQuery, some "Task"⟩ ∧
      Query.read (Query.text shoppingQuery) = .error ⟨11, .unknownStep⟩ ∧
      ¬ ∀ (first : Specification) (others : List Specification) (selection : Selection),
        Selection.ofTemplates first others = .ok selection →
          Query.read selection.query.text = .ok selection.query := by
  have hread : Query.read (Query.text shoppingQuery) = .error ⟨11, .unknownStep⟩ := by
    decide +kernel
  refine ⟨ofTemplates_shoppingTasks, hread, fun hall => ?_⟩
  have hsame := hall _ _ _ ofTemplates_shoppingTasks
  rw [hread] at hsame
  cases hsame

/-- A role can also be taken for steps. -/
example : Query.read (Query.text [.successor "list P.owner"]) =
    .ok [.successor "list", .predecessor "owner"] := by decide +kernel

end LiveFacts
