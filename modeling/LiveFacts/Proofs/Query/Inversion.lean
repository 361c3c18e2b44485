import LiveFacts.Proofs.Query.Growth
import LiveFacts.Watch
import Mathlib.Data.List.TakeWhile

/-!
# What inverses say about a new fact

An inverse reports a change to a start when the new fact leads back to the start. Its walk back
takes the walk from the start in the opposite direction, up to where the new fact comes in: at the
end of a move to a successor, or inside a condition, where it may be several conditions deep.
-/

namespace LiveFacts

namespace Query

theorem leads_leadingFilters {links : Links} {rest : Query} {fact last : Reference}
    (h : links.Leads rest fact last) : links.Leads rest.leadingFilters fact fact := by
  induction rest with
  | nil => exact Links.leads_nil.2 rfl
  | cons step rest ih =>
    obtain ⟨next, hstep, hrest⟩ := Links.leads_cons.1 h
    cases step with
    | field type =>
      obtain ⟨rfl, htype⟩ := Links.stepLeads_field.1 hstep
      exact Links.leads_cons.2 ⟨fact, Links.stepLeads_field.2 ⟨rfl, htype⟩, ih hrest⟩
    | successor role => exact Links.leads_nil.2 rfl
    | predecessor role => exact Links.leads_nil.2 rfl
    | existential quantifier steps => exact Links.leads_nil.2 rfl

/-- A fact from which the rest of a query leads somewhere is of the type that the rest asks for
first. -/
theorem all_type_of_leads {links : Links} {rest : Query} {fact last : Reference}
    (h : links.Leads rest fact last) :
    (rest.leadingFilters.findSome? Step.type?).all (· == fact.type) = true := by
  cases rest with
  | nil => rfl
  | cons step rest =>
    obtain ⟨next, hstep, _⟩ := Links.leads_cons.1 h
    cases step with
    | field type =>
      have htype := (Links.stepLeads_field.1 hstep).2
      change ((Step.field type :: leadingFilters rest).findSome? Step.type?).all _ = true
      simp [List.findSome?_cons, Step.type?, htype]
    | successor role => rfl
    | predecessor role => rfl
    | existential quantifier steps => rfl

/-- Nothing names a new fact, so the next move from it is not to a successor. -/
theorem nextJoinIsSuccessor_eq_false {links : Links} {fact : Reference}
    (hunnamed : ∀ {a role}, ¬ links a role fact) {rest : Query} {last : Reference}
    (h : links.Leads rest fact last) : rest.nextJoinIsSuccessor = false := by
  induction rest with
  | nil => rfl
  | cons step rest ih =>
    obtain ⟨next, hstep, hrest⟩ := Links.leads_cons.1 h
    cases step with
    | field type =>
      obtain ⟨rfl, _⟩ := Links.stepLeads_field.1 hstep
      exact ih hrest
    | successor role => exact absurd (Links.stepLeads_successor.1 hstep) hunnamed
    | predecessor role => rfl
    | existential quantifier steps =>
      obtain ⟨rfl, _⟩ := Links.stepLeads_existential.1 hstep
      exact ih hrest

/-- A query is what leads to its last position, and the filters and conditions there. -/
theorem exists_eq_append_positional (before : Query) :
    ∃ way, before = way ++ before.positional ∧
      ∀ step ∈ before.positional, step.isJoin = false := by
  refine ⟨(before.reverse.dropWhile (!·.isJoin)).reverse, ?_, ?_⟩
  · rw [positional, ← List.reverse_append, List.takeWhile_append_dropWhile, List.reverse_reverse]
  · intro step hstep
    rw [positional, List.mem_reverse] at hstep
    simpa using List.mem_takeWhile_imp hstep

theorem leads_positional {links : Links} {before : Query} {start candidate : Reference}
    (h : links.Leads before start candidate) :
    links.Leads before.positional candidate candidate := by
  obtain ⟨way, heq, hstay⟩ := before.exists_eq_append_positional
  rw [heq] at h
  obtain ⟨middle, _, hpositional⟩ := Links.leads_append.1 h
  have hmiddle := Links.eq_of_leads hstay hpositional
  rwa [hmiddle] at hpositional

end Query

namespace Arrival

theorem mem_ofSteps {back : Query} {positive : Bool} {steps : List Step} {arrival : Arrival} :
    arrival ∈ ofSteps back positive steps ↔
      ∃ before step rest, steps = before ++ step :: rest ∧
        arrival ∈ ofStep (Query.reversed before ++ back) positive rest step := by
  induction steps generalizing back with
  | nil => simp [ofSteps]
  | cons first others ih =>
    rw [ofSteps, List.mem_append, ih]
    constructor
    · rintro (hfirst | ⟨before, step, rest, rfl, hstep⟩)
      · exact ⟨[], first, others, rfl, hfirst⟩
      · refine ⟨first :: before, step, rest, rfl, ?_⟩
        rwa [Query.reversed_cons, List.append_assoc]
    · rintro ⟨before, step, rest, heq, hstep⟩
      cases before with
      | nil =>
        obtain ⟨rfl, rfl⟩ := List.cons.inj heq
        exact Or.inl hstep
      | cons first' before =>
        obtain ⟨rfl, rfl⟩ := List.cons.inj heq
        rw [Query.reversed_cons, List.append_assoc] at hstep
        exact Or.inr ⟨before, step, rest, rfl, hstep⟩

end Arrival

namespace Query

theorem mem_inversesAfter {before query : Query} {inverse : Inverse} :
    inverse ∈ inversesAfter before query ↔
      ∃ middle step rest, query = middle ++ step :: rest ∧
        inverse ∈ stepInverses (before ++ middle) rest step := by
  induction query generalizing before with
  | nil => simp [inversesAfter]
  | cons first others ih =>
    rw [inversesAfter, List.mem_append, ih]
    constructor
    · rintro (hfirst | ⟨middle, step, rest, rfl, hstep⟩)
      · exact ⟨[], first, others, rfl, by simpa using hfirst⟩
      · exact ⟨first :: middle, step, rest, rfl, by simpa using hstep⟩
    · rintro ⟨middle, step, rest, heq, hstep⟩
      cases middle with
      | nil =>
        obtain ⟨rfl, rfl⟩ := List.cons.inj heq
        exact Or.inl (by simpa using hstep)
      | cons first' middle =>
        obtain ⟨rfl, rfl⟩ := List.cons.inj heq
        exact Or.inr ⟨middle, step, rest, rfl, by simpa using hstep⟩

theorem mem_inverses {query : Query} {inverse : Inverse} :
    inverse ∈ query.inverses ↔
      ∃ before step rest, query = before ++ step :: rest ∧
        inverse ∈ stepInverses before rest step := by
  rw [inverses, mem_inversesAfter]
  simp only [List.nil_append]

end Query

namespace Arrival

/-- The arrival is about facts of the type of this one, which it leads back to the candidate and,
from there, along the way that leads out of the condition. -/
def LeadsBack (links : Links) (fact candidate : Reference) (back : Query) (arrival : Arrival) :
    Prop :=
  (arrival.filters.findSome? Step.type?).all (· == fact.type) = true ∧
    ∀ start, links.Leads back candidate start → links.Leads arrival.back fact start

/-- Whenever a new fact gives the query of a condition a first result, some arrival counts for it,
and whenever it takes away the last one, some arrival counts against it. -/
def Covers (old new : Links) (fact candidate : Reference) (steps : List Step) : Prop :=
  ∀ (back : Query) (positive : Bool),
    ((∃ found, new.Leads steps candidate found) → ¬ (∃ found, old.Leads steps candidate found) →
      ∃ arrival ∈ ofSteps back positive steps,
        arrival.positive = positive ∧ arrival.LeadsBack new fact candidate back) ∧
    ((∃ found, old.Leads steps candidate found) → ¬ (∃ found, new.Leads steps candidate found) →
      ∃ arrival ∈ ofSteps back positive steps,
        arrival.positive = !positive ∧ arrival.LeadsBack new fact candidate back)

variable {old new : Links} {fact candidate : Reference} {steps : List Step}

theorem Covers.begins (hcovers : Covers old new fact candidate steps) {quantifier : Quantifier}
    (hholds : quantifier.Holds (∃ found, new.Leads steps candidate found))
    (hheld : ¬ quantifier.Holds (∃ found, old.Leads steps candidate found))
    (back : Query) (positive : Bool) :
    ∃ arrival ∈ ofSteps back (quantifier.accepts positive) steps,
      arrival.positive = positive ∧ arrival.LeadsBack new fact candidate back := by
  cases quantifier with
  | present => exact (hcovers back positive).1 hholds hheld
  | absent =>
    obtain ⟨arrival, hmem, hpositive, hback⟩ :=
      (hcovers back (!positive)).2 (not_not.1 hheld) hholds
    exact ⟨arrival, hmem, by simpa using hpositive, hback⟩

theorem Covers.ceases (hcovers : Covers old new fact candidate steps) {quantifier : Quantifier}
    (hheld : quantifier.Holds (∃ found, old.Leads steps candidate found))
    (hholds : ¬ quantifier.Holds (∃ found, new.Leads steps candidate found))
    (back : Query) (positive : Bool) :
    ∃ arrival ∈ ofSteps back (quantifier.accepts positive) steps,
      arrival.positive = !positive ∧ arrival.LeadsBack new fact candidate back := by
  cases quantifier with
  | present => exact (hcovers back positive).2 hheld hholds
  | absent => exact (hcovers back (!positive)).1 (not_not.1 hholds) hheld

/-- What leads back to a position inside a condition leads on to the candidate of the condition. -/
theorem LeadsBack.of_reversed {before back : Query} {inner : Reference} {arrival : Arrival}
    (h : arrival.LeadsBack new fact inner (Query.reversed before ++ back))
    (hbefore : new.Leads before candidate inner) : arrival.LeadsBack new fact candidate back := by
  refine ⟨h.1, fun start hstart => h.2 start ?_⟩
  exact Links.leads_append.2 ⟨candidate, Links.leads_reversed.2 hbefore, hstart⟩

theorem covers (grows : old.Grows new fact) (steps : List Step) {candidate : Reference}
    (hcandidate : candidate ≠ fact) : Covers old new fact candidate steps := by
  induction steps using Query.nested_induction generalizing candidate with
  | conditions steps ih =>
    intro back positive
    constructor
    · rintro ⟨found, hnew⟩ hold
      have hgain := grows.exists_gain hcandidate hnew fun h => hold ⟨found, h⟩
      rcases hgain with ⟨before, role, rest, middle, rfl, hbefore, hlink, hrest⟩ |
        ⟨before, quantifier, inner, rest, guarded, rfl, hguarded, hbefore, hholds, hheld, _⟩
      · have hnext := Query.nextJoinIsSuccessor_eq_false grows.unnamed hrest
        refine ⟨⟨Query.leadingFilters rest, Query.leadingFilters rest ++
            .predecessor role :: (Query.reversed before ++ back), positive⟩, ?_, rfl, ?_⟩
        · exact mem_ofSteps.2 ⟨before, _, rest, rfl, by simp [ofStep, hnext]⟩
        · refine ⟨Query.all_type_of_leads hrest, fun start hstart => ?_⟩
          refine Links.leads_append.2 ⟨fact, Query.leads_leadingFilters hrest, ?_⟩
          refine Links.leads_cons.2 ⟨middle, Links.stepLeads_predecessor.2 hlink, ?_⟩
          exact Links.leads_append.2 ⟨candidate, Links.leads_reversed.2 hbefore, hstart⟩
      · have hinner := ih quantifier inner (by simp) hguarded
        obtain ⟨arrival, hmem, hpositive, hback⟩ :=
          hinner.begins hholds hheld (Query.reversed before ++ back) positive
        refine ⟨arrival, mem_ofSteps.2 ⟨before, _, rest, rfl, ?_⟩, hpositive,
          hback.of_reversed hbefore⟩
        simpa [ofStep] using hmem
    · rintro ⟨found, hold⟩ hnew
      obtain ⟨before, quantifier, inner, rest, guarded, rfl, hguarded, hbefore, hheld, hholds, _⟩ :=
        grows.exists_loss hcandidate hold fun h => hnew ⟨found, h⟩
      have hinner := ih quantifier inner (by simp) hguarded
      obtain ⟨arrival, hmem, hpositive, hback⟩ :=
        hinner.ceases hheld hholds (Query.reversed before ++ back) positive
      refine ⟨arrival, mem_ofSteps.2 ⟨before, _, rest, rfl, ?_⟩, hpositive,
        hback.of_reversed hbefore⟩
      simpa [ofStep] using hmem

end Arrival

end LiveFacts
