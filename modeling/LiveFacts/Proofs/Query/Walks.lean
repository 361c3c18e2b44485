import LiveFacts.Proofs.Store.Links
import LiveFacts.Query.Basic

/-!
# Walks through a graph of links

What a query means, said without paths and without an index: the facts that it leads to from a
fact. A query taken backwards leads back, for filters and conditions stay with the fact that they
are about.
-/

namespace LiveFacts

def Quantifier.Holds : Quantifier → Prop → Prop
  | .present, found => found
  | .absent, found => ¬ found

theorem Quantifier.holds_congr {p q : Prop} (h : p ↔ q) (quantifier : Quantifier) :
    quantifier.Holds p ↔ quantifier.Holds q := by
  cases quantifier with
  | present => exact h
  | absent => exact not_congr h

theorem Quantifier.holds_negate {quantifier : Quantifier} {p : Prop} :
    quantifier.negate.Holds p ↔ ¬ quantifier.Holds p := by
  cases quantifier with
  | present => rfl
  | absent => exact not_not.symm

theorem Quantifier.accepts_iff {quantifier : Quantifier} {found : Bool} :
    quantifier.accepts found = true ↔ quantifier.Holds (found = true) := by
  cases quantifier with
  | present => rfl
  | absent => simp [accepts, Holds]

theorem Query.reversed_cons (step : Step) (rest : Query) :
    Query.reversed (step :: rest) = Query.reversed rest ++ [step.reversed] := by
  simp [Query.reversed]

namespace Links

variable (links : Links)

mutual

def StepLeads : Step → Reference → Reference → Prop
  | .field type, fact, next => fact = next ∧ fact.type = type
  | .successor role, fact, next => links next role fact
  | .predecessor role, fact, next => links fact role next
  | .existential quantifier steps, fact, next =>
    fact = next ∧ quantifier.Holds (∃ found, Leads steps fact found)

def Leads : List Step → Reference → Reference → Prop
  | [], fact, last => fact = last
  | step :: rest, fact, last => ∃ next, StepLeads step fact next ∧ Leads rest next last

end

variable {links}

@[simp] theorem leads_nil {fact last : Reference} : links.Leads [] fact last ↔ fact = last := by
  simp [Leads]

theorem leads_cons {step : Step} {rest : Query} {fact last : Reference} :
    links.Leads (step :: rest) fact last ↔
      ∃ next, links.StepLeads step fact next ∧ links.Leads rest next last := by
  simp [Leads]

@[simp] theorem stepLeads_field {type : String} {fact next : Reference} :
    links.StepLeads (.field type) fact next ↔ fact = next ∧ fact.type = type := by
  simp [StepLeads]

@[simp] theorem stepLeads_successor {role : String} {fact next : Reference} :
    links.StepLeads (.successor role) fact next ↔ links next role fact := by
  simp [StepLeads]

@[simp] theorem stepLeads_predecessor {role : String} {fact next : Reference} :
    links.StepLeads (.predecessor role) fact next ↔ links fact role next := by
  simp [StepLeads]

theorem stepLeads_existential {quantifier : Quantifier} {steps : List Step}
    {fact next : Reference} :
    links.StepLeads (.existential quantifier steps) fact next ↔
      fact = next ∧ quantifier.Holds (∃ found, links.Leads steps fact found) := by
  simp [StepLeads]

theorem leads_append {p q : Query} {fact last : Reference} :
    links.Leads (p ++ q) fact last ↔
      ∃ middle, links.Leads p fact middle ∧ links.Leads q middle last := by
  induction p generalizing fact with
  | nil => simp
  | cons step rest ih =>
    simp only [List.cons_append, leads_cons, ih]
    constructor
    · rintro ⟨next, hstep, middle, hrest, hq⟩
      exact ⟨middle, ⟨next, hstep, hrest⟩, hq⟩
    · rintro ⟨middle, ⟨next, hstep, hrest⟩, hq⟩
      exact ⟨next, hstep, middle, hrest, hq⟩

theorem leads_singleton {step : Step} {fact last : Reference} :
    links.Leads [step] fact last ↔ links.StepLeads step fact last := by
  simp [leads_cons]

theorem eq_of_stepLeads {step : Step} (hstep : step.isJoin = false) {fact next : Reference}
    (h : links.StepLeads step fact next) : fact = next := by
  cases step with
  | field type => exact (stepLeads_field.1 h).1
  | successor role => simp [Step.isJoin] at hstep
  | predecessor role => simp [Step.isJoin] at hstep
  | existential quantifier steps => exact (stepLeads_existential.1 h).1

theorem eq_of_leads {query : Query} (hquery : ∀ step ∈ query, step.isJoin = false)
    {fact last : Reference} (h : links.Leads query fact last) : fact = last := by
  induction query generalizing fact with
  | nil => exact leads_nil.1 h
  | cons step rest ih =>
    obtain ⟨next, hstep, hrest⟩ := leads_cons.1 h
    have hnext := eq_of_stepLeads (hquery step List.mem_cons_self) hstep
    exact hnext.trans (ih (fun s hs => hquery s (List.mem_cons_of_mem _ hs)) hrest)

theorem stepLeads_reversed {step : Step} {fact next : Reference} :
    links.StepLeads step.reversed next fact ↔ links.StepLeads step fact next := by
  cases step with
  | field type =>
    simp only [Step.reversed, stepLeads_field]
    constructor
    · rintro ⟨rfl, htype⟩
      exact ⟨rfl, htype⟩
    · rintro ⟨rfl, htype⟩
      exact ⟨rfl, htype⟩
  | successor role => simp [Step.reversed]
  | predecessor role => simp [Step.reversed]
  | existential quantifier steps =>
    simp only [Step.reversed, stepLeads_existential]
    constructor
    · rintro ⟨rfl, hholds⟩
      exact ⟨rfl, hholds⟩
    · rintro ⟨rfl, hholds⟩
      exact ⟨rfl, hholds⟩

theorem leads_reversed {query : Query} {fact last : Reference} :
    links.Leads query.reversed last fact ↔ links.Leads query fact last := by
  induction query generalizing fact with
  | nil => simp [eq_comm]
  | cons step rest ih =>
    rw [Query.reversed_cons, leads_append, leads_cons]
    simp only [leads_singleton, stepLeads_reversed, ih]
    constructor
    · rintro ⟨next, hrest, hstep⟩
      exact ⟨next, hstep, hrest⟩
    · rintro ⟨next, hstep, hrest⟩
      exact ⟨next, hrest, hstep⟩

end Links

def Step.isCondition : Step → Bool
  | .existential .. => true
  | .field _ | .successor _ | .predecessor _ => false

mutual

def Step.climbs : Step → Bool
  | .field _ | .successor _ => true
  | .predecessor _ => false
  | .existential _ steps => Step.allClimb steps

def Step.allClimb : List Step → Bool
  | [] => true
  | step :: rest => step.climbs && Step.allClimb rest

end

namespace Query

def isPlain (query : Query) : Bool :=
  query.all (!·.isCondition)

/-- Whether no step, at any depth, moves to predecessors. -/
def climbs (query : Query) : Bool :=
  Step.allClimb query

@[simp] theorem climbs_nil : climbs [] = true := by simp [climbs, Step.allClimb]

theorem climbs_cons (step : Step) (rest : Query) :
    climbs (step :: rest) = (step.climbs && climbs rest) := by
  simp [climbs, Step.allClimb]

theorem climbs_existential (quantifier : Quantifier) (steps : List Step) :
    (Step.existential quantifier steps).climbs = climbs steps := by
  simp [climbs, Step.climbs]

/-- What holds of a query when it holds of the queries of its conditions holds of all queries. -/
theorem nested_induction {motive : Query → Prop}
    (conditions : ∀ query : Query,
      (∀ quantifier steps, Step.existential quantifier steps ∈ query → motive steps) →
        motive query)
    (query : Query) : motive query :=
  conditions query fun _ steps _ => nested_induction conditions steps
termination_by sizeOf query
decreasing_by
  have := List.sizeOf_lt_of_mem ‹_›
  simp only [Step.existential.sizeOf_spec] at this
  omega

end Query

end LiveFacts
