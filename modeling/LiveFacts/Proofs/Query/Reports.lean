import LiveFacts.Proofs.Query.Inversion
import LiveFacts.Proofs.Store.Evaluation

/-!
# Reports about a new fact

From a new fact, the inverses of a query report which results of a start appear and which go.
Everything that appears is reported, whatever the query.
-/

namespace LiveFacts

def Change.opposite : Change → Change
  | .added => .removed
  | .removed => .added

@[simp] theorem Change.opposite_added : Change.added.opposite = .removed := rfl

@[simp] theorem Change.opposite_removed : Change.removed.opposite = .added := rfl

@[simp] theorem Change.opposite_opposite (change : Change) : change.opposite.opposite = change := by
  cases change <;> rfl

def Inverse.effect (inverse : Inverse) : Change → Option Query
  | .added => inverse.added
  | .removed => inverse.removed

/-- Some inverse of the query is about the fact, leads from it back to the start, and says that
the result appears, or that it goes. -/
def Links.Reports (links : Links) (query : Query) (start fact : Reference) (change : Change)
    (result : Reference) : Prop :=
  ∃ inverse ∈ query.inverses, inverse.appliesTo fact.type = true ∧
    links.Leads inverse.affected fact start ∧
    ∃ effect, inverse.effect change = some effect ∧ links.Leads effect fact result

/-- Reports as a round makes them: the lookups succeed, and find the start and the result. -/
def Store.Tells (store : Store) (query : Query) (start fact : Reference) (change : Change)
    (result : Reference) : Prop :=
  ∃ inverse ∈ query.inverses, inverse.appliesTo fact.type = true ∧
    store.Finds inverse.affected fact start ∧
    ∃ effect, inverse.effect change = some effect ∧ store.Finds effect fact result

theorem Store.Tells.reports {store : Store} (hsound : store.IsSound) {query : Query}
    {start fact result : Reference} {change : Change}
    (h : store.Tells query start fact change result) :
    store.links.Reports query start fact change result := by
  obtain ⟨inverse, hinverse, htype, haffected, effect, heffect, hresult⟩ := h
  exact ⟨inverse, hinverse, htype, ((finds_iff hsound).1 haffected).2, effect, heffect,
    ((finds_iff hsound).1 hresult).2⟩

/-- Lookups from a stored fact of a closed store do not fail. -/
theorem Store.tells_iff_of_isClosed {store : Store} (hsound : store.IsSound)
    (hclosed : store.IsClosed) {fact : Reference} (hfact : store.contains fact = true)
    {query : Query} {start result : Reference} {change : Change} :
    store.Tells query start fact change result ↔
      store.links.Reports query start fact change result := by
  simp only [Tells, Links.Reports, finds_iff_of_isClosed hsound hclosed hfact]

namespace Links

variable {links : Links} {start fact result : Reference}

theorem leads_successorInverse {before rest : Query} {role : String} :
    links.Leads (Query.successorInverse before role rest).affected fact start ↔
      links.Leads rest.leadingFilters fact fact ∧
        ∃ middle, links fact role middle ∧ links.Leads before start middle := by
  have hstay : ∀ step ∈ rest.leadingFilters, step.isJoin = false := by
    intro step hstep
    have htype := List.mem_takeWhile_imp hstep
    cases step <;> simp_all [Step.type?, Step.isJoin]
  simp only [Query.successorInverse, leads_append, leads_cons, stepLeads_predecessor,
    leads_reversed]
  constructor
  · rintro ⟨same, hfilters, hback⟩
    have hsame := eq_of_leads hstay hfilters
    subst hsame
    exact ⟨hfilters, hback⟩
  · rintro ⟨hfilters, hback⟩
    exact ⟨fact, hfilters, hback⟩

/-- A condition's inverse asks the condition again, in its sign or in the other one, of the
candidates that the new fact leads back to. -/
theorem leads_conditionInverse {before rest : Query} {quantifier : Quantifier}
    {steps : List Step} {arrival : Arrival} :
    links.Leads (Query.conditionInverse before quantifier steps rest arrival).affected fact start ↔
      ∃ candidate, links.Leads arrival.back fact candidate ∧
        links.Leads before start candidate := by
  simp only [Query.conditionInverse, leads_append, leads_reversed]

theorem leads_effect {before rest : Query} {quantifier : Quantifier} {steps : List Step}
    {arrival : Arrival} :
    links.Leads (arrival.back ++ before.positional ++ .existential quantifier steps :: rest)
        fact result ↔
      ∃ candidate, links.Leads arrival.back fact candidate ∧
        links.Leads before.positional candidate candidate ∧
        quantifier.Holds (∃ found, links.Leads steps candidate found) ∧
        links.Leads rest candidate result := by
  obtain ⟨_, _, hstay⟩ := before.exists_eq_append_positional
  simp only [List.append_assoc, leads_append, leads_cons, stepLeads_existential]
  constructor
  · rintro ⟨candidate, hback, same, hpositional, _, ⟨rfl, hholds⟩, hrest⟩
    have hsame := eq_of_leads hstay hpositional
    subst hsame
    exact ⟨candidate, hback, hpositional, hholds, hrest⟩
  · rintro ⟨candidate, hback, hpositional, hholds, hrest⟩
    exact ⟨candidate, hback, candidate, hpositional, candidate, ⟨rfl, hholds⟩, hrest⟩

end Links

def Change.asks : Change → Quantifier → Quantifier
  | .added, quantifier => quantifier
  | .removed, quantifier => quantifier.negate

def Change.isAddition : Change → Bool
  | .added => true
  | .removed => false

theorem effect_conditionInverse {before rest effect : Query} {quantifier : Quantifier}
    {steps : List Step} {arrival : Arrival} {change : Change} :
    (Query.conditionInverse before quantifier steps rest arrival).effect change = some effect ↔
      arrival.positive = change.isAddition ∧
        arrival.back ++ before.positional ++
          .existential (change.asks quantifier) steps :: rest = effect := by
  cases change <;> cases h : arrival.positive <;>
    simp [Query.conditionInverse, Inverse.effect, Change.isAddition, Change.asks, h]

/-- An inverse that says what appears does not say what goes, and the other way round. -/
theorem Query.effect_opposite_eq_none {query : Query} {inverse : Inverse}
    (h : inverse ∈ query.inverses) {change : Change} {effect : Query}
    (heffect : inverse.effect change = some effect) : inverse.effect change.opposite = none := by
  obtain ⟨before, step, rest, rfl, hmem⟩ := Query.mem_inverses.1 h
  cases step with
  | field type => simp [Query.stepInverses] at hmem
  | predecessor role => simp [Query.stepInverses] at hmem
  | successor role =>
    simp only [Query.stepInverses] at hmem
    split at hmem
    · cases hmem
    · rw [List.mem_singleton] at hmem
      subst hmem
      cases change with
      | added => rfl
      | removed => cases heffect
  | existential quantifier steps =>
    simp only [Query.stepInverses, List.mem_map] at hmem
    obtain ⟨arrival, -, rfl⟩ := hmem
    obtain ⟨hsign, -⟩ := effect_conditionInverse.1 heffect
    rw [Option.eq_none_iff_forall_ne_some]
    intro other hother
    obtain ⟨hsign', -⟩ := effect_conditionInverse.1 hother
    cases change <;> simp_all [Change.isAddition]

namespace Links

variable (links : Links) (query : Query) (start fact : Reference)

def Arrives (result : Reference) : Prop :=
  ∃ before role rest middle, query = before ++ .successor role :: rest ∧
    links.Leads before start middle ∧ links fact role middle ∧ links.Leads rest fact result

/-- Along one way out of a condition the fact leads back to `candidate`, to which the start leads,
and to `other`, which passes the filters and conditions at its position and from which the result
follows. For an addition `other` meets the condition, for a removal it does not. -/
def Recalls (change : Change) (result candidate other : Reference) : Prop :=
  ∃ (before : Query) (quantifier : Quantifier) (steps : List Step) (rest : Query)
    (arrival : Arrival), query = before ++ .existential quantifier steps :: rest ∧
    arrival ∈ Arrival.ofSteps [] (quantifier.accepts true) steps ∧
    arrival.positive = change.isAddition ∧
    (arrival.filters.findSome? Step.type?).all (· == fact.type) = true ∧
    (links.Leads arrival.back fact candidate ∧ links.Leads before start candidate) ∧
    links.Leads arrival.back fact other ∧ links.Leads before.positional other other ∧
    (change.asks quantifier).Holds (∃ found, links.Leads steps other found) ∧
    links.Leads rest other result

variable {links query start fact}

theorem arrives_or_recalls_of_reports {change : Change} {result : Reference}
    (h : links.Reports query start fact change result) :
    (change = .added ∧ links.Arrives query start fact result) ∨
      ∃ candidate other, links.Recalls query start fact change result candidate other := by
  obtain ⟨inverse, hinverse, htype, haffected, effect, heffect, hresult⟩ := h
  obtain ⟨before, step, rest, rfl, hmem⟩ := Query.mem_inverses.1 hinverse
  cases step with
  | field type => simp [Query.stepInverses] at hmem
  | predecessor role => simp [Query.stepInverses] at hmem
  | successor role =>
    simp only [Query.stepInverses] at hmem
    split at hmem
    · cases hmem
    · rw [List.mem_singleton] at hmem
      subst hmem
      obtain ⟨_, middle, hlink, hback⟩ := leads_successorInverse.1 haffected
      cases change with
      | added =>
        have heq : rest = effect := Option.some.inj heffect
        rw [← heq] at hresult
        exact Or.inl ⟨rfl, before, role, rest, middle, rfl, hback, hlink, hresult⟩
      | removed => cases heffect
  | existential quantifier steps =>
    simp only [Query.stepInverses, List.mem_map] at hmem
    obtain ⟨arrival, harrival, rfl⟩ := hmem
    obtain ⟨candidate, hcandidate⟩ := leads_conditionInverse.1 haffected
    obtain ⟨hsign, rfl⟩ := effect_conditionInverse.1 heffect
    obtain ⟨other, hother⟩ := leads_effect.1 hresult
    exact Or.inr ⟨candidate, other, before, quantifier, steps, rest, arrival, rfl, harrival, hsign,
      htype, hcandidate, hother⟩

theorem Arrives.reports (hunnamed : ∀ {a role}, ¬ links a role fact) {result : Reference}
    (h : links.Arrives query start fact result) :
    links.Reports query start fact .added result := by
  obtain ⟨before, role, rest, middle, rfl, hbefore, hlink, hrest⟩ := h
  have hnext := Query.nextJoinIsSuccessor_eq_false hunnamed hrest
  refine ⟨Query.successorInverse before role rest, ?_, Query.all_type_of_leads hrest, ?_, rest,
    rfl, hrest⟩
  · exact Query.mem_inverses.2 ⟨before, _, rest, rfl, by simp [Query.stepInverses, hnext]⟩
  · exact leads_successorInverse.2 ⟨Query.leads_leadingFilters hrest, middle, hlink, hbefore⟩

theorem Recalls.reports {change : Change} {result candidate other : Reference}
    (h : links.Recalls query start fact change result candidate other) :
    links.Reports query start fact change result := by
  obtain ⟨before, quantifier, steps, rest, arrival, rfl, harrival, hsign, htype, hcandidate,
    hother⟩ := h
  refine ⟨Query.conditionInverse before quantifier steps rest arrival, ?_, htype,
    leads_conditionInverse.2 ⟨candidate, hcandidate⟩, _,
    effect_conditionInverse.2 ⟨hsign, rfl⟩, leads_effect.2 ⟨other, hother⟩⟩
  refine Query.mem_inverses.2 ⟨before, _, rest, rfl, ?_⟩
  exact List.mem_map.2 ⟨arrival, harrival, rfl⟩

theorem reports_removed_iff {result : Reference} :
    links.Reports query start fact .removed result ↔
      ∃ candidate other, links.Recalls query start fact .removed result candidate other := by
  constructor
  · intro h
    exact (arrives_or_recalls_of_reports h).resolve_left fun harrives => nomatch harrives.1
  · rintro ⟨candidate, other, hrecalls⟩
    exact hrecalls.reports

theorem Arrives.leads {result : Reference} (h : links.Arrives query start fact result) :
    links.Leads query start result := by
  obtain ⟨before, role, rest, middle, rfl, hbefore, hlink, hrest⟩ := h
  exact leads_append.2 ⟨middle, hbefore, leads_cons.2 ⟨fact, stepLeads_successor.2 hlink, hrest⟩⟩

variable {old new : Links}

/-- Everything that a new fact brings into the results is reported. -/
theorem Grows.reports_of_gain (grows : old.Grows new fact) (hstart : start ≠ fact)
    {result : Reference} (hnew : new.Leads query start result)
    (hold : ¬ old.Leads query start result) : new.Reports query start fact .added result := by
  rcases grows.exists_gain hstart hnew hold with harrives |
    ⟨before, quantifier, steps, rest, candidate, rfl, hne, hbefore, hholds, hheld, hrest⟩
  · exact Arrives.reports grows.unnamed harrives
  · obtain ⟨arrival, harrival, hpositive, htype, hback⟩ :=
      (Arrival.covers grows steps hne).begins hholds hheld [] true
    have hcandidate := hback candidate (leads_nil.2 rfl)
    have hrecalls : new.Recalls (before ++ .existential quantifier steps :: rest) start fact
        .added result candidate candidate :=
      ⟨before, quantifier, steps, rest, arrival, rfl, harrival, hpositive, htype,
        ⟨hcandidate, hbefore⟩, hcandidate, Query.leads_positional hbefore, hholds, hrest⟩
    exact hrecalls.reports

end Links

/-- For every result that a new fact brings, some inverse of the query is about the fact, leads from
it back to the start, and leads from it to the result. -/
theorem exists_inverse_of_appears {records : List Record}
    (hkeyed : ∀ record ∈ records, record.IsKeyed) (hclosed : (Store.ofRecords records).IsClosed)
    {start : Reference} (hstart : (Store.ofRecords records).contains start = true)
    {record : Record} (hrecord : record.IsKeyed)
    (hnew : (Store.ofRecords records).contains record.reference = false)
    (hnamed : ∀ fact ∈ record.named, (Store.ofRecords records).contains fact = true)
    (query : Query) :
    ∃ before after, (Store.ofRecords records).evaluate start query = .ok before ∧
      ((Store.ofRecords records).save record).evaluate start query = .ok after ∧
      ∀ result ∈ terminals after, result ∉ terminals before →
        ∃ inverse ∈ query.inverses, inverse.appliesTo record.type = true ∧
          (∃ back, ((Store.ofRecords records).save record).evaluate record.reference
            inverse.affected = .ok back ∧ start ∈ terminals back) ∧
          ∃ added, inverse.added = some added ∧
            ∃ found, ((Store.ofRecords records).save record).evaluate record.reference added =
              .ok found ∧ result ∈ terminals found := by
  have hsound := Store.isSound_ofRecords hkeyed
  have hsound' := hsound.save hrecord
  have hclosed' := hclosed.save hnamed
  have hkept : ∀ fact, (Store.ofRecords records).contains fact = true ∨ fact = record.reference →
      ((Store.ofRecords records).save record).contains fact = true :=
    fun fact hfact => (Store.contains_save_iff hnew).2 hfact
  have grows := Store.grows_save hsound hclosed hrecord hnew hnamed
  have hne : start ≠ record.reference := by
    rintro rfl
    rw [hnew] at hstart
    cases hstart
  obtain ⟨before, hbefore, hfoundBefore⟩ := Store.exists_evaluate hsound hclosed hstart query
  obtain ⟨after, hafter, hfoundAfter⟩ :=
    Store.exists_evaluate hsound' hclosed' (hkept start (Or.inl hstart)) query
  refine ⟨before, after, hbefore, hafter, ?_⟩
  intro result hresult hfresh
  rw [hfoundAfter] at hresult
  rw [hfoundBefore] at hfresh
  obtain ⟨inverse, hinverse, htype, haffected, added, hadded, hlead⟩ :=
    grows.reports_of_gain hne hresult hfresh
  have hrun := Store.exists_evaluate hsound' hclosed' (hkept record.reference (Or.inr rfl))
  obtain ⟨back, hback, hfoundBack⟩ := hrun inverse.affected
  obtain ⟨found, hfound, hfoundAdded⟩ := hrun added
  exact ⟨inverse, hinverse, htype, ⟨back, hback, (hfoundBack start).2 haffected⟩, added, hadded,
    found, hfound, (hfoundAdded result).2 hlead⟩

namespace Revoked

def list : Record := ⟨"List", "groceries", [], []⟩

def task : Record := ⟨"Task", "milk", [], [("list", .one list.reference)]⟩

def completion : Record := ⟨"Completion", "done", [], [("task", .one task.reference)]⟩

def revocation : Record :=
  ⟨"Revocation", "undone", [], [("completion", .one completion.reference)]⟩

def openTasks : Query :=
  [.successor "list", .existential .absent
    [.successor "task", .field "Completion", .existential .absent [.successor "completion"]]]

end Revoked

open Revoked in
/-- A revocation brings a completed task back, from two conditions deep. -/
theorem exists_inverse_of_revocation :
    ∃ inverse ∈ openTasks.inverses, inverse.appliesTo "Revocation" = true ∧
      (∃ back, ((Store.ofRecords [list, task, completion]).save revocation).evaluate
        revocation.reference inverse.affected = .ok back ∧ list.reference ∈ terminals back) ∧
      ∃ added, inverse.added = some added ∧
        ∃ found, ((Store.ofRecords [list, task, completion]).save revocation).evaluate
          revocation.reference added = .ok found ∧ task.reference ∈ terminals found := by
  have hkeyed : ∀ record ∈ [list, task, completion], record.IsKeyed := by decide
  have hclosed : (Store.ofRecords [list, task, completion]).IsClosed := by decide
  have hstart : (Store.ofRecords [list, task, completion]).contains list.reference = true := by
    decide
  have hrecord : revocation.IsKeyed := by decide
  have hnew : (Store.ofRecords [list, task, completion]).contains revocation.reference =
      false := by decide
  have hnamed : ∀ fact ∈ revocation.named,
      (Store.ofRecords [list, task, completion]).contains fact = true := by decide
  have hbefore : (Store.ofRecords [list, task, completion]).evaluate list.reference openTasks =
      .ok [] := by decide
  have hafter : ((Store.ofRecords [list, task, completion]).save revocation).evaluate
      list.reference openTasks = .ok [[list.reference, task.reference]] := by decide
  obtain ⟨before, after, hb, ha, happears⟩ :=
    exists_inverse_of_appears hkeyed hclosed hstart hrecord hnew hnamed openTasks
  have hb' : before = [] := (Except.ok.inj (hbefore.symm.trans hb)).symm
  have ha' : after = [[list.reference, task.reference]] :=
    (Except.ok.inj (hafter.symm.trans ha)).symm
  subst hb' ha'
  exact happears task.reference (by decide) (by decide)

end LiveFacts
