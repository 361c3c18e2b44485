import LiveFacts.Proofs.Query.Reports
import LiveFacts.Proofs.Store.Closures

/-!
# What a closure carries over

A query that never asks for nothing to be found loses no results, whatever facts arrive. Whether it
finds in one store what it finds in another depends on what was carried over: the matches, and the
facts that these rest on. Where a query moves to predecessors first and to successors afterwards,
and its conditions move to predecessors only, that is all that a walk meets.
-/

namespace LiveFacts

mutual

/-- Whether no condition, at any depth, asks for nothing to be found. -/
def Step.isPositive : Step → Bool
  | .field _ | .successor _ | .predecessor _ => true
  | .existential quantifier steps => quantifier = .present && Step.allPositive steps

def Step.allPositive : List Step → Bool
  | [] => true
  | step :: rest => step.isPositive && Step.allPositive rest

end

namespace Query

def isPositive (query : Query) : Bool :=
  Step.allPositive query

theorem isPositive_append (p q : Query) :
    isPositive (p ++ q) = (isPositive p && isPositive q) := by
  induction p with
  | nil => simp [isPositive, Step.allPositive]
  | cons step rest ih =>
    simp only [isPositive] at ih
    simp [isPositive, Step.allPositive, ih, Bool.and_assoc]

theorem isPositive_cons (step : Step) (rest : Query) :
    isPositive (step :: rest) = (step.isPositive && isPositive rest) := by
  simp [isPositive, Step.allPositive]

theorem isPositive_existential {quantifier : Quantifier} {steps : List Step} :
    (Step.existential quantifier steps).isPositive = true ↔
      quantifier = .present ∧ isPositive steps = true := by
  simp [isPositive, Step.isPositive]

end Query

/-- Every arrival counts for a condition that never asks for nothing to be found. -/
theorem Arrival.positive_of_isPositive {back : Query} {steps : List Step} {arrival : Arrival}
    (h : arrival ∈ ofSteps back true steps) (hpositive : Query.isPositive steps = true) :
    arrival.positive = true := by
  induction steps using Query.nested_induction generalizing back with
  | conditions steps ih =>
    obtain ⟨before, step, rest, rfl, hmem⟩ := mem_ofSteps.1 h
    rw [Query.isPositive_append, Query.isPositive_cons, Bool.and_eq_true, Bool.and_eq_true]
      at hpositive
    cases step with
    | field type => simp [ofStep] at hmem
    | predecessor role => simp [ofStep] at hmem
    | successor role =>
      simp only [ofStep] at hmem
      split at hmem
      · cases hmem
      · rw [List.mem_singleton.1 hmem]
    | existential quantifier inner =>
      obtain ⟨rfl, hinner⟩ := Query.isPositive_existential.1 hpositive.2.1
      exact ih .present inner (by simp) hmem hinner

namespace Links

variable {links : Links} {query : Query} {start fact : Reference}

/-- No result of a query that never asks for nothing to be found is ever reported to go. -/
theorem not_reports_removed_of_isPositive (hpositive : query.isPositive = true)
    {result : Reference} : ¬ links.Reports query start fact .removed result := by
  intro hreports
  obtain ⟨_, _, before, quantifier, steps, rest, arrival, rfl, harrival, hsign, -⟩ :=
    reports_removed_iff.1 hreports
  rw [Query.isPositive_append, Query.isPositive_cons, Bool.and_eq_true, Bool.and_eq_true]
    at hpositive
  obtain ⟨rfl, hsteps⟩ := Query.isPositive_existential.1 hpositive.2.1
  rw [Arrival.positive_of_isPositive harrival hsteps] at hsign
  cases hsign

end Links

mutual

def Step.falls : Step → Bool
  | .field _ | .predecessor _ => true
  | .successor _ => false
  | .existential _ steps => Step.allFall steps

def Step.allFall : List Step → Bool
  | [] => true
  | step :: rest => step.falls && Step.allFall rest

end

def Step.lifts : Step → Bool
  | .field _ | .successor _ => true
  | .predecessor _ => false
  | .existential _ steps => Step.allFall steps

namespace Query

def falls (query : Query) : Bool :=
  Step.allFall query

theorem falls_cons (step : Step) (rest : Query) :
    falls (step :: rest) = (step.falls && falls rest) := by
  simp [falls, Step.allFall]

theorem falls_iff {query : Query} : query.falls = true ↔ ∀ step ∈ query, step.falls = true := by
  induction query with
  | nil => simp [falls, Step.allFall]
  | cons step rest ih => rw [falls_cons, Bool.and_eq_true, ih, List.forall_mem_cons]

/-- Whether the query moves to predecessors first and to successors afterwards, and its conditions
to predecessors only. -/
def isCarried (query : Query) : Bool :=
  (query.dropWhile Step.falls).all Step.lifts

end Query

namespace Links

variable {links other : Links} {query : Query} {fact last : Reference}

/-- From the fact, and all that it rests on, the links are the same in both. -/
def Shares (links other : Links) (fact : Reference) : Prop :=
  ∀ rested, links.RestsOn fact rested →
    ∀ role named, links rested role named ↔ other rested role named

theorem Shares.of_restsOn {rested : Reference} (h : links.Shares other fact)
    (hrests : links.RestsOn fact rested) : links.Shares other rested :=
  fun further hfurther => h further (hrests.trans hfurther)

/-- A query that moves to predecessors only leads to the same facts with all links that are the same
from there. -/
theorem Shares.leads_iff_of_falls (hshares : links.Shares other fact)
    (hfalls : query.falls = true) :
    links.Leads query fact last ↔ other.Leads query fact last := by
  induction query using Query.nested_induction generalizing fact last with
  | conditions query ih =>
    induction query generalizing fact with
    | nil => rw [leads_nil, leads_nil]
    | cons step rest ihrest =>
      rw [Query.falls_cons, Bool.and_eq_true] at hfalls
      have hrest : ∀ {fact}, links.Shares other fact →
          (links.Leads rest fact last ↔ other.Leads rest fact last) := fun hshares =>
        ihrest (fun q steps hmem => ih q steps (List.mem_cons_of_mem _ hmem)) hshares hfalls.2
      simp only [leads_cons]
      cases step with
      | field type =>
        simp only [stepLeads_field, and_assoc, exists_eq_left', hrest hshares]
      | successor role => simp [Step.falls] at hfalls
      | predecessor role =>
        simp only [stepLeads_predecessor, ← hshares fact .refl role]
        refine exists_congr fun next => and_congr_right fun hlink => hrest ?_
        exact hshares.of_restsOn (.single ⟨role, hlink⟩)
      | existential quantifier steps =>
        have hfound : (∃ found, links.Leads steps fact found) ↔
            ∃ found, other.Leads steps fact found :=
          exists_congr fun found => ih quantifier steps List.mem_cons_self hshares hfalls.1
        simp only [stepLeads_existential, and_assoc, exists_eq_left', hrest hshares,
          Quantifier.holds_congr hfound]

/-- A query that moves to successors only leads to facts that rest on the first one. -/
theorem restsOn_of_lifts (hlifts : query.all Step.lifts = true) (h : links.Leads query fact last) :
    links.RestsOn last fact := by
  induction query generalizing fact with
  | nil => exact leads_nil.1 h ▸ .refl
  | cons step rest ih =>
    rw [List.all_cons, Bool.and_eq_true] at hlifts
    obtain ⟨next, hstep, hrest⟩ := leads_cons.1 h
    have hfurther := ih hlifts.2 hrest
    cases step with
    | field type => exact (stepLeads_field.1 hstep).1 ▸ hfurther
    | successor role => exact hfurther.tail ⟨role, stepLeads_successor.1 hstep⟩
    | predecessor role => simp [Step.lifts] at hlifts
    | existential quantifier steps => exact (stepLeads_existential.1 hstep).1 ▸ hfurther

/-- A query that moves to successors only leads to a fact with all links that are the same from
there. -/
theorem Shares.leads_of_lifts (hshares : links.Shares other last)
    (hlifts : query.all Step.lifts = true) (h : links.Leads query fact last) :
    other.Leads query fact last := by
  induction query generalizing fact with
  | nil => exact leads_nil.2 (leads_nil.1 h)
  | cons step rest ih =>
    have hhere := hshares.of_restsOn (restsOn_of_lifts hlifts h)
    rw [List.all_cons, Bool.and_eq_true] at hlifts
    obtain ⟨next, hstep, hrest⟩ := leads_cons.1 h
    refine leads_cons.2 ⟨next, ?_, ih hlifts.2 hrest⟩
    cases step with
    | field type => exact stepLeads_field.2 (stepLeads_field.1 hstep)
    | successor role =>
      have hnext := hshares.of_restsOn (restsOn_of_lifts hlifts.2 hrest)
      exact stepLeads_successor.2
        ((hnext next .refl role fact).1 (stepLeads_successor.1 hstep))
    | predecessor role => simp [Step.lifts] at hlifts
    | existential quantifier steps =>
      obtain ⟨rfl, hholds⟩ := stepLeads_existential.1 hstep
      have hfound : (∃ found, links.Leads steps fact found) ↔
          ∃ found, other.Leads steps fact found :=
        exists_congr fun found => hhere.leads_iff_of_falls hlifts.1
      exact stepLeads_existential.2 ⟨rfl, (Quantifier.holds_congr hfound _).1 hholds⟩

/-- What a query finds is found again where the start and the match, and all that these rest on,
have the same links, if only such facts are met on the way. -/
theorem leads_of_isCarried (hcarried : query.isCarried = true) {start result : Reference}
    (hstart : links.Shares other start) (hresult : links.Shares other result)
    (h : links.Leads query start result) : other.Leads query start result := by
  have hparts : query.takeWhile Step.falls ++ query.dropWhile Step.falls = query :=
    List.takeWhile_append_dropWhile
  have hfalls : Query.falls (query.takeWhile Step.falls) = true :=
    Query.falls_iff.2 fun step hstep => List.mem_takeWhile_imp hstep
  rw [← hparts] at h ⊢
  obtain ⟨middle, hfirst, hrest⟩ := leads_append.1 h
  exact leads_append.2 ⟨middle, (hstart.leads_iff_of_falls hfalls).1 hfirst,
    hresult.leads_of_lifts hcarried hrest⟩

end Links

namespace Store

variable {store here : Store} {fact rested : Reference} {records : List Record}

def Matches (store here : Store) : Prop :=
  ∀ record ∈ store.records, ∀ other ∈ here.records,
    record.reference = other.reference → record = other

theorem Matches.links_iff (hmatches : store.Matches here) (hfact : store.contains fact = true)
    (hthere : here.contains fact = true) {role : String} {named : Reference} :
    store.links fact role named ↔ here.links fact role named := by
  constructor
  · rintro ⟨record, hrecord, rfl, hnamed⟩
    obtain ⟨other, hother, hreference⟩ := contains_iff.1 hthere
    have hsame := hmatches record hrecord other hother hreference.symm
    exact ⟨record, hsame ▸ hother, rfl, hnamed⟩
  · rintro ⟨other, hother, rfl, hnamed⟩
    obtain ⟨record, hrecord, hreference⟩ := contains_iff.1 hfact
    have hsame := hmatches record hrecord other hother hreference
    exact ⟨other, hsame ▸ hrecord, rfl, hnamed⟩

theorem Matches.saveAll (hmatches : store.Matches here) (hsound : store.IsSound)
    (hrecords : ∀ record ∈ records, record ∈ store.records) :
    store.Matches (records.foldl Store.save here) := by
  induction records generalizing here with
  | nil => exact hmatches
  | cons first rest ih =>
    rw [List.forall_mem_cons] at hrecords
    refine ih ?_ hrecords.2
    by_cases hknown : here.contains first.reference = true
    · rwa [save_of_contains hknown]
    · intro record hrecord other hother hreference
      rw [records_save_of_new (by simpa using hknown)] at hother
      rcases List.mem_append.1 hother with hold | hlast
      · exact hmatches record hrecord other hold hreference
      · rw [List.mem_singleton.1 hlast] at hreference ⊢
        exact hsound.eq_of_reference_eq hrecord hrecords.1 hreference

theorem Matches.shares (hmatches : store.Matches here) (hclosed : store.IsClosed)
    (hsound : store.IsSound) (hfact : store.contains fact = true)
    (hthere : ∀ rested, store.links.RestsOn fact rested → here.contains rested = true) :
    store.links.Shares here.links fact := fun _ hrests _ _ =>
  hmatches.links_iff (hclosed.contains_of_restsOn hsound hfact hrests) (hthere _ hrests)

theorem Matches.contains_of_restsOn (hmatches : store.Matches here) (hclosed : store.IsClosed)
    (hsound : store.IsSound) (hclosed' : here.IsClosed) (hsound' : here.IsSound)
    (hfact : store.contains fact = true) (hthere : here.contains fact = true)
    (hrests : store.links.RestsOn fact rested) : here.contains rested = true := by
  induction hrests with
  | refl => exact hthere
  | @tail middle named hbefore hnames ih =>
    obtain ⟨role, hlink⟩ := hnames
    have hmiddle := hclosed.contains_of_restsOn hsound hfact hbefore
    exact hclosed'.contains_of_links hsound' ((hmatches.links_iff hmiddle ih).1 hlink)

/-- What a query finds in one store it finds in another that has its match and all that this rests
on, if only such facts are met on the way. -/
theorem Matches.leads_of_isCarried (hmatches : store.Matches here) (hclosed : store.IsClosed)
    (hsound : store.IsSound) (hclosed' : here.IsClosed) (hsound' : here.IsSound) {query : Query}
    (hcarried : query.isCarried = true) {start result : Reference}
    (hstart : store.contains start = true) (hthere : here.contains start = true)
    (hresult : store.contains result = true)
    (hstored : ∀ rested, store.links.RestsOn result rested → here.contains rested = true)
    (h : store.links.Leads query start result) : here.links.Leads query start result := by
  refine Links.leads_of_isCarried hcarried ?_ ?_ h
  · exact hmatches.shares hclosed hsound hstart fun rested hrests =>
      hmatches.contains_of_restsOn hclosed hsound hclosed' hsound' hstart hthere hrests
  · exact hmatches.shares hclosed hsound hresult hstored

end Store

end LiveFacts
