import LiveFacts.Proofs.Query.Exactness
import Mathlib.Data.List.Chain

/-!
# Queries that turn at every move

A query without conditions that never moves twice in the same direction has no use for the order in
which facts arrive. It leaves a fact to its predecessors only where it has come to it as a
successor, so that the fact is stored; and a fact that it comes to as a successor is the last to
make the walk possible, whatever is stored already that names the fact. In a closed store the first
move alone decides whether a query can be run from a fact that is not stored.
-/

namespace LiveFacts

def Step.rises? : Step → Option Bool
  | .successor _ => some true
  | .predecessor _ => some false
  | .field _ | .existential .. => none

theorem Step.rises?_reversed (step : Step) : step.reversed.rises? = step.rises?.map not := by
  cases step <;> rfl

namespace Query

/-- The directions of the moves of a query. -/
def turns (query : Query) : List Bool :=
  query.filterMap Step.rises?

@[simp] theorem turns_nil : turns [] = [] := rfl

@[simp] theorem turns_field (type : String) (rest : Query) :
    turns (.field type :: rest) = turns rest := rfl

@[simp] theorem turns_successor (role : String) (rest : Query) :
    turns (.successor role :: rest) = true :: turns rest := rfl

@[simp] theorem turns_predecessor (role : String) (rest : Query) :
    turns (.predecessor role :: rest) = false :: turns rest := rfl

@[simp] theorem turns_existential (quantifier : Quantifier) (steps : List Step) (rest : Query) :
    turns (.existential quantifier steps :: rest) = turns rest := rfl

theorem turns_append (p q : Query) : turns (p ++ q) = turns p ++ turns q :=
  List.filterMap_append

theorem turns_reversed (query : Query) : turns query.reversed = (turns query).reverse.map not := by
  simp only [turns, reversed, List.filterMap_map, Function.comp_def, Step.rises?_reversed,
    ← List.filterMap_reverse, List.map_filterMap]

theorem turns_leadingFilters (rest : Query) : turns rest.leadingFilters = [] := by
  rw [turns, List.filterMap_eq_nil_iff]
  intro step hstep
  have htype := List.mem_takeWhile_imp hstep
  cases step <;> simp_all [Step.type?, Step.rises?]

theorem nextJoinIsSuccessor_eq (rest : Query) :
    rest.nextJoinIsSuccessor = (rest.turns.head? == some true) := by
  induction rest with
  | nil => rfl
  | cons step rest ih =>
    cases step with
    | field type => exact ih
    | successor role => rfl
    | predecessor role => rfl
    | existential quantifier steps => exact ih

def descends (query : Query) : Bool :=
  query.turns.head? == some false

def Alternates (query : Query) : Prop :=
  query.turns.IsChain (· ≠ ·)

instance (query : Query) : Decidable query.Alternates :=
  inferInstanceAs (Decidable (List.IsChain _ _))

namespace Alternates

variable {p q rest : Query} {step : Step} {role : String}

theorem left (h : Alternates (p ++ q)) : Alternates p := by
  rw [Alternates, turns_append] at h
  exact h.left_of_append

theorem right (h : Alternates (p ++ q)) : Alternates q := by
  rw [Alternates, turns_append] at h
  exact h.right_of_append

theorem reversed (h : Alternates q) : Alternates q.reversed := by
  rw [Alternates, turns_reversed, List.isChain_map, List.isChain_reverse]
  refine h.imp fun a b hne heq => hne ?_
  simpa using heq.symm

theorem tail (h : Alternates (step :: rest)) : Alternates rest :=
  right (List.singleton_append ▸ h)

/-- A query that alternates does not go on from a successor to successors. -/
theorem nextJoinIsSuccessor_eq_false (h : Alternates (.successor role :: rest)) :
    rest.nextJoinIsSuccessor = false := by
  rw [Alternates, turns_successor, List.isChain_cons] at h
  rw [nextJoinIsSuccessor_eq, beq_eq_false_iff_ne]
  exact fun hhead => h.1 true hhead rfl

/-- A query that alternates does not go on from a predecessor to predecessors. -/
theorem descends_eq_false (h : Alternates (.predecessor role :: rest)) :
    rest.descends = false := by
  rw [Alternates, turns_predecessor, List.isChain_cons] at h
  rw [descends, beq_eq_false_iff_ne]
  exact fun hhead => h.1 false hhead rfl

end Alternates

theorem isPlain_append (p q : Query) : isPlain (p ++ q) = (isPlain p && isPlain q) :=
  List.all_append

theorem isPlain_reversed (query : Query) : isPlain query.reversed = isPlain query := by
  simp only [isPlain, reversed, List.all_map, List.all_reverse]
  congr 1
  funext step
  cases step <;> rfl

theorem isPlain_leadingFilters (rest : Query) : isPlain rest.leadingFilters = true := by
  rw [isPlain, List.all_eq_true]
  intro step hstep
  have htype := List.mem_takeWhile_imp hstep
  cases step <;> simp_all [Step.type?, Step.isCondition]

theorem not_isPlain_existential {quantifier : Quantifier} {steps : List Step} {rest : Query} :
    ¬ isPlain (.existential quantifier steps :: rest) = true := by
  simp [isPlain, Step.isCondition]

theorem isPlain_of_cons {step : Step} {rest : Query} (h : isPlain (step :: rest) = true) :
    isPlain rest = true := by
  rw [isPlain, List.all_cons, Bool.and_eq_true] at h
  exact h.2

end Query

namespace Links

variable {links other : Links} {query : Query} {fact result : Reference}

/-- From a fact that nothing names, a query that does not move to predecessors first cannot move at
all. -/
theorem leads_of_descends_eq_false (hunnamed : ∀ {a role}, ¬ links a role fact)
    (hplain : query.isPlain = true) (hdescends : query.descends = false)
    (h : links.Leads query fact result) : other.Leads query fact result := by
  induction query with
  | nil => exact leads_nil.2 (leads_nil.1 h)
  | cons step rest ih =>
    obtain ⟨next, hstep, hrest⟩ := leads_cons.1 h
    cases step with
    | field type =>
      obtain ⟨rfl, htype⟩ := stepLeads_field.1 hstep
      have hother := ih (Query.isPlain_of_cons hplain) hdescends hrest
      exact leads_cons.2 ⟨fact, stepLeads_field.2 ⟨rfl, htype⟩, hother⟩
    | successor role => exact absurd (stepLeads_successor.1 hstep) hunnamed
    | predecessor role => cases hdescends
    | existential quantifier steps => exact absurd hplain Query.not_isPlain_existential

/-- From a fact that names nothing, a query that moves to predecessors first leads nowhere. -/
theorem not_leads_of_descends (hfresh : ∀ {role b}, ¬ links fact role b)
    (hplain : query.isPlain = true) (hdescends : query.descends = true) :
    ¬ links.Leads query fact result := by
  intro h
  induction query with
  | nil => cases hdescends
  | cons step rest ih =>
    obtain ⟨next, hstep, hrest⟩ := leads_cons.1 h
    cases step with
    | field type =>
      obtain ⟨rfl, -⟩ := stepLeads_field.1 hstep
      exact ih (Query.isPlain_of_cons hplain) hdescends hrest
    | successor role => cases hdescends
    | predecessor role => exact hfresh (stepLeads_predecessor.1 hstep)
    | existential quantifier steps => exact Query.not_isPlain_existential hplain

end Links

/-- A query that alternates fails from no fact, unless it moves to predecessors first and the fact
is not stored. -/
theorem Store.not_fails_of_alternates {store : Store} {query : Query}
    (hplain : query.isPlain = true) (halternates : query.Alternates) {start : Reference}
    (hstart : query.descends = true → store.contains start = true) :
    ¬ store.Fails query start := by
  induction query generalizing start with
  | nil => simp [Fails]
  | cons step rest ih =>
    rw [fails_cons]
    rintro (hfails | ⟨next, hstep, hfails⟩)
    · cases step with
      | field type => exact hfails
      | successor role => exact hfails
      | predecessor role =>
        rw [StepFails, hstart rfl] at hfails
        cases hfails
      | existential quantifier steps => exact Query.not_isPlain_existential hplain
    · refine ih (Query.isPlain_of_cons hplain) halternates.tail (fun hdescends => ?_) hfails
      cases step with
      | field type => exact (Links.stepLeads_field.1 hstep).1 ▸ hstart hdescends
      | successor role => exact contains_of_links (Links.stepLeads_successor.1 hstep)
      | predecessor role =>
        rw [halternates.descends_eq_false] at hdescends
        cases hdescends
      | existential quantifier steps => exact absurd hplain Query.not_isPlain_existential

namespace Links

variable {links old new : Links} {query rest : Query} {start next fact result : Reference}

theorem Arrives.cons {step : Step} (hstep : links.StepLeads step start next)
    (h : links.Arrives rest next fact result) :
    links.Arrives (step :: rest) start fact result := by
  obtain ⟨before, role, after, middle, rfl, hbefore, hlink, hafter⟩ := h
  exact ⟨step :: before, role, after, middle, rfl, leads_cons.2 ⟨next, hstep, hbefore⟩, hlink,
    hafter⟩

/-- If all new links are from one fact, a query that alternates leads to something new only through
a move to the fact as a successor. -/
theorem arrives_of_alternates
    (hothers : ∀ {a b : Reference} {role : String}, new a role b → a ≠ fact → old a role b)
    (hplain : query.isPlain = true) (halternates : query.Alternates)
    (hstart : query.descends = true → start ≠ fact) (hnew : new.Leads query start result)
    (hold : ¬ old.Leads query start result) : new.Arrives query start fact result := by
  induction query generalizing start with
  | nil => exact absurd (leads_nil.2 (leads_nil.1 hnew)) hold
  | cons step rest ih =>
    obtain ⟨next, hstep, hrest⟩ := leads_cons.1 hnew
    -- Where the step was possible before, the rest of the walk is what is new.
    have further (holdStep : old.StepLeads step start next)
        (hnext : Query.descends rest = true → next ≠ fact) :
        new.Arrives (step :: rest) start fact result := by
      refine (ih (Query.isPlain_of_cons hplain) halternates.tail hnext hrest ?_).cons hstep
      exact fun h => hold (leads_cons.2 ⟨next, holdStep, h⟩)
    cases step with
    | field type =>
      obtain ⟨rfl, htype⟩ := stepLeads_field.1 hstep
      exact further (stepLeads_field.2 ⟨rfl, htype⟩) hstart
    | successor role =>
      have hlink := stepLeads_successor.1 hstep
      by_cases hnext : next = fact
      · subst hnext
        exact ⟨[], role, rest, start, rfl, leads_nil.2 rfl, hlink, hrest⟩
      · exact further (stepLeads_successor.2 (hothers hlink hnext)) fun _ => hnext
    | predecessor role =>
      have hlink := hothers (stepLeads_predecessor.1 hstep) (hstart rfl)
      refine further (stepLeads_predecessor.2 hlink) fun hdescends => ?_
      rw [halternates.descends_eq_false] at hdescends
      cases hdescends
    | existential quantifier steps => exact absurd hplain Query.not_isPlain_existential

end Links

namespace Store

variable {store : Store} {query : Query} {start fact result : Reference} {record : Record}

/-- What a query that alternates finds through a move to a stored fact is told about the fact, even
if some facts on the way are not stored. -/
theorem tells_of_arrives (hsound : store.IsSound) (hplain : query.isPlain = true)
    (halternates : query.Alternates) (hfact : store.contains fact = true)
    (h : store.links.Arrives query start fact result) :
    store.Tells query start fact .added result := by
  obtain ⟨before, role, rest, middle, rfl, hbefore, hlink, hrest⟩ := h
  have hnext := halternates.right.nextJoinIsSuccessor_eq_false
  rw [Query.isPlain_append, Bool.and_eq_true] at hplain
  have hplainRest := Query.isPlain_of_cons hplain.2
  -- The way back goes to predecessors first, and in the other direction alternates as well.
  have hplainBack : (Query.successorInverse before role rest).affected.isPlain = true := by
    have hway : Query.isPlain (.predecessor role :: Query.reversed before) = true :=
      (Query.isPlain_reversed before).trans hplain.1
    rw [Query.successorInverse, Query.isPlain_append, Query.isPlain_leadingFilters, hway]
    rfl
  have hback : (Query.successorInverse before role rest).affected.Alternates := by
    have hway : Query.Alternates (Query.reversed (before ++ [.successor role])) := by
      rw [List.append_cons] at halternates
      exact halternates.left.reversed
    rw [Query.reversed_append] at hway
    rwa [Query.successorInverse, Query.Alternates, Query.turns_append,
      Query.turns_leadingFilters, List.nil_append]
  refine ⟨Query.successorInverse before role rest, ?_, Query.all_type_of_leads hrest, ?_, rest,
    rfl, ?_⟩
  · exact Query.mem_inverses.2 ⟨before, _, rest, rfl, by simp [Query.stepInverses, hnext]⟩
  · refine (finds_iff hsound).2 ⟨not_fails_of_alternates hplainBack hback fun _ => hfact, ?_⟩
    exact Links.leads_successorInverse.2
      ⟨Query.leads_leadingFilters hrest, middle, hlink, hbefore⟩
  · exact (finds_iff hsound).2
      ⟨not_fails_of_alternates hplainRest halternates.right.tail fun _ => hfact, hrest⟩

/-- Whatever is stored when a record arrives, all that it brings to a query that alternates is
told. -/
theorem leads_or_tells_of_alternates (hsound : store.IsSound) (hplain : query.isPlain = true)
    (halternates : query.Alternates) (hstart : query.descends = true → store.contains start = true)
    (hkeyed : record.IsKeyed) (hnew : store.contains record.reference = false)
    (h : (store.save record).links.Leads query start result) :
    store.links.Leads query start result ∨
      (store.save record).Tells query start record.reference .added result := by
  by_cases hold : store.links.Leads query start result
  · exact Or.inl hold
  · have hne : query.descends = true → start ≠ record.reference := by
      rintro hdescends rfl
      rw [hnew] at hstart
      cases hstart hdescends
    have harrives :=
      Links.arrives_of_alternates links_of_links_save hplain halternates hne h hold
    have hself := (contains_save_iff hnew).2 (Or.inr rfl)
    exact Or.inr (tells_of_arrives (hsound.save hkeyed) hplain halternates hself harrives)

/-- In a closed store all that a record brings to a query is told, if the facts that it names are
stored. -/
theorem Admits.leads_or_tells (hadmits : store.Admits record)
    (hstart : store.contains start = true)
    (h : (store.save record).links.Leads query start result) :
    store.links.Leads query start result ∨
      (store.save record).Tells query start record.reference .added result := by
  by_cases hold : store.links.Leads query start result
  · exact Or.inl hold
  · have hreports := hadmits.grows.reports_of_gain (hadmits.ne_of_contains hstart) h hold
    have hself := hadmits.contains_save_iff.2 (Or.inr rfl)
    exact Or.inr
      ((tells_iff_of_isClosed hadmits.sound_save hadmits.closed_save hself).2 hreports)

end Store

end LiveFacts
