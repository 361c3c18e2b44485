import LiveFacts.Proofs.Query.Reports

/-!
# Where reports are exact

A report of a result that appears is right unless the new fact leads back, from one arrival, to
several candidates, of which the start leads to some only. Where no role names two facts this
cannot happen to a condition whose query moves to successors only, and then reports say no more
than what changes. Without conditions they never do.
-/

namespace LiveFacts

/-- Reports of a change from one set of results to another: what they say is right, and they say
all there is to say. -/
structure ExactReports (reports : Change → Reference → Prop) (old new : Reference → Prop) :
    Prop where
  of_added : ∀ {result}, reports .added result → new result
  of_removed : ∀ {result}, reports .removed result → ¬ new result
  added : ∀ {result}, new result → ¬ old result → reports .added result
  removed : ∀ {result}, old result → ¬ new result → reports .removed result

def Links.IsSingleValued (links : Links) : Prop :=
  ∀ fact role a b, links fact role a → links fact role b → a = b

theorem Store.IsSingleValued.links {store : Store} (hsingle : store.IsSingleValued)
    (hsound : store.IsSound) : store.links.IsSingleValued := by
  rintro fact role a b ⟨record, hrecord, hreference, ha⟩ ⟨other, hother, hsame, hb⟩
  have heq := hsound.eq_of_reference_eq hother hrecord (hsame.trans hreference.symm)
  subst heq
  rw [Record.predecessorsIn] at ha hb
  cases hnamed : other.predecessors.find? role with
  | none => simp [hnamed] at ha
  | some named =>
    have hentry := (Keyed.find?_eq_some_iff (hsound.keyed other hother)).1 hnamed
    have hlength := hsingle other hother _ hentry
    rw [hnamed, Option.map_some, Option.getD_some] at ha hb
    rcases hlist : named.toList with _ | ⟨only, _ | ⟨second, rest⟩⟩
    · simp [hlist] at ha
    · rw [hlist, List.mem_singleton] at ha hb
      rw [ha, hb]
    · simp [hlist] at hlength

namespace Query

theorem climbs_append (p q : Query) : climbs (p ++ q) = (climbs p && climbs q) := by
  induction p with
  | nil => simp
  | cons step rest ih => rw [List.cons_append, climbs_cons, climbs_cons, ih, Bool.and_assoc]

theorem climbs_of_mem {query : Query} (hclimbs : query.climbs = true) {step : Step}
    (hstep : step ∈ query) : step.climbs = true := by
  obtain ⟨before, after, rfl⟩ := List.append_of_mem hstep
  rw [climbs_append, climbs_cons, Bool.and_eq_true, Bool.and_eq_true] at hclimbs
  exact hclimbs.2.1

theorem climbs_reversed_leadingFilters (rest : Query) :
    (Query.reversed rest.leadingFilters).climbs = true := by
  induction rest with
  | nil => rfl
  | cons step rest ih =>
    cases step with
    | field type =>
      change (Query.reversed (Step.field type :: leadingFilters rest)).climbs = true
      rw [Query.reversed_cons, climbs_append, ih]
      rfl
    | successor role => rfl
    | predecessor role => rfl
    | existential quantifier steps => rfl

end Query

namespace Links

variable {links : Links}

/-- A query that only moves to successors leads to a fact from one fact at most. -/
theorem eq_of_leads_of_climbs (hsingle : links.IsSingleValued) {query : Query}
    (hclimbs : query.climbs = true) {a b last : Reference} (ha : links.Leads query a last)
    (hb : links.Leads query b last) : a = b := by
  induction query generalizing a b with
  | nil => exact (leads_nil.1 ha).trans (leads_nil.1 hb).symm
  | cons step rest ih =>
    rw [Query.climbs_cons, Bool.and_eq_true] at hclimbs
    obtain ⟨next, hstep, hrest⟩ := leads_cons.1 ha
    obtain ⟨next', hstep', hrest'⟩ := leads_cons.1 hb
    have hnext := ih hclimbs.2 hrest hrest'
    subst hnext
    cases step with
    | field type => exact (stepLeads_field.1 hstep).1.trans (stepLeads_field.1 hstep').1.symm
    | successor role =>
      exact hsingle _ _ _ _ (stepLeads_successor.1 hstep) (stepLeads_successor.1 hstep')
    | predecessor role => simp [Step.climbs] at hclimbs
    | existential quantifier steps =>
      exact (stepLeads_existential.1 hstep).1.trans (stepLeads_existential.1 hstep').1.symm

end Links

/-- The way from a new fact back out of a condition, taken backwards, only moves to successors when
the query of the condition does. -/
theorem Arrival.climbs_reversed_back {steps : List Step} {back : Query} {positive : Bool}
    {arrival : Arrival} (h : arrival ∈ ofSteps back positive steps)
    (hsteps : Query.climbs steps = true) (hback : (Query.reversed back).climbs = true) :
    (Query.reversed arrival.back).climbs = true := by
  induction steps using Query.nested_induction generalizing back positive with
  | conditions steps ih =>
    obtain ⟨before, step, rest, rfl, hmem⟩ := mem_ofSteps.1 h
    rw [Query.climbs_append, Query.climbs_cons, Bool.and_eq_true, Bool.and_eq_true] at hsteps
    obtain ⟨hbefore, hstep, -⟩ := hsteps
    have hway : (Query.reversed (Query.reversed before ++ back)).climbs = true := by
      rw [Query.reversed_append, Query.reversed_reversed, Query.climbs_append, hback, hbefore]
      rfl
    cases step with
    | field type => simp [ofStep] at hmem
    | predecessor role => simp [ofStep] at hmem
    | successor role =>
      simp only [ofStep] at hmem
      split at hmem
      · cases hmem
      · rw [List.mem_singleton] at hmem
        subst hmem
        rw [Query.reversed_append, Query.reversed_cons, Query.climbs_append, Query.climbs_append,
          hway, Query.climbs_reversed_leadingFilters]
        rfl
    | existential quantifier inner =>
      rw [ofStep] at hmem
      exact ih quantifier inner (by simp) hmem hstep hway

namespace Links

variable (links : Links) (query : Query) (start fact : Reference)

/-- Along one way out of a condition the fact leads back to a candidate to which the start leads,
and to another, to which it does not. The other passes the filters and conditions at its position,
it meets the condition, and the result follows from it. -/
def Strays (result : Reference) : Prop :=
  ∃ (before : Query) (quantifier : Quantifier) (steps : List Step) (rest : Query)
    (arrival : Arrival) (candidate other : Reference),
    query = before ++ .existential quantifier steps :: rest ∧
    arrival ∈ Arrival.ofSteps [] (quantifier.accepts true) steps ∧
    arrival.positive = true ∧
    (arrival.filters.findSome? Step.type?).all (· == fact.type) = true ∧
    (links.Leads arrival.back fact candidate ∧ links.Leads before start candidate) ∧
    links.Leads arrival.back fact other ∧ ¬ links.Leads before start other ∧
    links.Leads before.positional other other ∧
    quantifier.Holds (∃ found, links.Leads steps other found) ∧
    links.Leads rest other result

variable {links query start fact}

theorem Strays.reports {result : Reference} (h : links.Strays query start fact result) :
    links.Reports query start fact .added result := by
  obtain ⟨before, quantifier, steps, rest, arrival, candidate, other, heq, harrival, hpositive,
    htype, hcandidate, hother, -, hpositional, hholds, hrest⟩ := h
  have hrecalls : links.Recalls query start fact .added result candidate other :=
    ⟨before, quantifier, steps, rest, arrival, heq, harrival, hpositive, htype, hcandidate,
      hother, hpositional, hholds, hrest⟩
  exact hrecalls.reports

theorem leads_or_strays_of_reports {result : Reference}
    (h : links.Reports query start fact .added result) :
    links.Leads query start result ∨ links.Strays query start fact result := by
  rcases arrives_or_recalls_of_reports h with ⟨-, harrives⟩ | ⟨candidate, other, before,
    quantifier, steps, rest, arrival, rfl, harrival, hpositive, htype, hcandidate, hother,
    hpositional, hholds, hrest⟩
  · exact Or.inl harrives.leads
  · by_cases hbefore : links.Leads before start other
    · refine Or.inl (leads_append.2 ⟨other, hbefore, leads_cons.2 ⟨other, ?_, hrest⟩⟩)
      exact stepLeads_existential.2 ⟨rfl, hholds⟩
    · exact Or.inr ⟨before, quantifier, steps, rest, arrival, candidate, other, rfl, harrival,
        hpositive, htype, hcandidate, hother, hbefore, hpositional, hholds, hrest⟩

/-- A fact leads back to one candidate when the way out of the condition, taken backwards, only
moves to successors. -/
theorem eq_of_leads_back (hsingle : links.IsSingleValued) {steps : List Step}
    (hclimbs : Query.climbs steps = true) {positive : Bool} {arrival : Arrival}
    (harrival : arrival ∈ Arrival.ofSteps [] positive steps) {candidate other : Reference}
    (hcandidate : links.Leads arrival.back fact candidate)
    (hother : links.Leads arrival.back fact other) : candidate = other := by
  rw [← Query.reversed_reversed arrival.back, leads_reversed] at hcandidate hother
  have hway := Arrival.climbs_reversed_back harrival hclimbs rfl
  exact eq_of_leads_of_climbs hsingle hway hcandidate hother

theorem not_strays (hsingle : links.IsSingleValued)
    (hclimbs : ∀ quantifier steps, Step.existential quantifier steps ∈ query →
      Query.climbs steps = true) {result : Reference} :
    ¬ links.Strays query start fact result := by
  rintro ⟨before, quantifier, steps, rest, arrival, candidate, other, rfl, harrival, -, -,
    ⟨hback, hbefore⟩, hother, hnot, -⟩
  have heq := eq_of_leads_back hsingle (hclimbs quantifier steps (by simp)) harrival hback hother
  rw [heq] at hbefore
  exact hnot hbefore

/-- Along one way out of a condition the fact leads back to a candidate to which the start leads,
and to another, from which the result follows but which fails the condition; and still the start
leads to a third one that meets the condition and from which the result follows, too. -/
def Remains (links : Links) (query : Query) (start fact result : Reference) : Prop :=
  ∃ (before : Query) (quantifier : Quantifier) (steps : List Step) (rest : Query)
    (arrival : Arrival) (candidate other third : Reference),
    query = before ++ .existential quantifier steps :: rest ∧
    arrival ∈ Arrival.ofSteps [] (quantifier.accepts true) steps ∧
    arrival.positive = false ∧
    (arrival.filters.findSome? Step.type?).all (· == fact.type) = true ∧
    (links.Leads arrival.back fact candidate ∧ links.Leads before start candidate) ∧
    links.Leads arrival.back fact other ∧ links.Leads before.positional other other ∧
    ¬ quantifier.Holds (∃ found, links.Leads steps other found) ∧
    links.Leads rest other result ∧ links.Leads before start third ∧
    quantifier.Holds (∃ found, links.Leads steps third found) ∧ links.Leads rest third result

theorem Remains.reports {result : Reference} (h : links.Remains query start fact result) :
    links.Reports query start fact .removed result := by
  obtain ⟨before, quantifier, steps, rest, arrival, candidate, other, -, heq, harrival, hpositive,
    htype, hcandidate, hother, hpositional, hfails, hrest, -⟩ := h
  have hrecalls : links.Recalls query start fact .removed result candidate other :=
    ⟨before, quantifier, steps, rest, arrival, heq, harrival, hpositive, htype, hcandidate, hother,
      hpositional, Quantifier.holds_negate.2 hfails, hrest⟩
  exact hrecalls.reports

theorem Remains.leads {result : Reference} (h : links.Remains query start fact result) :
    links.Leads query start result := by
  obtain ⟨before, quantifier, steps, rest, -, -, -, third, rfl, -, -, -, -, -, -, -, -, hbefore,
    hholds, hrest⟩ := h
  refine leads_append.2 ⟨third, hbefore, leads_cons.2 ⟨third, ?_, hrest⟩⟩
  exact stepLeads_existential.2 ⟨rfl, hholds⟩

theorem not_leads_or_remains_of_reports {result : Reference}
    (h : links.Reports query start fact .removed result) :
    ¬ links.Leads query start result ∨ links.Remains query start fact result := by
  rcases arrives_or_recalls_of_reports h with ⟨hchange, -⟩ | ⟨candidate, other, before,
    quantifier, steps, rest, arrival, rfl, harrival, hpositive, htype, hcandidate, hother,
    hpositional, hfails, hrest⟩
  · cases hchange
  · by_cases hleads :
      links.Leads (before ++ .existential quantifier steps :: rest) start result
    · obtain ⟨third, hbefore, hafter⟩ := leads_append.1 hleads
      obtain ⟨same, hstep, hlast⟩ := leads_cons.1 hafter
      obtain ⟨rfl, hholds⟩ := stepLeads_existential.1 hstep
      exact Or.inr ⟨before, quantifier, steps, rest, arrival, candidate, other, third, rfl,
        harrival, hpositive, htype, hcandidate, hother, hpositional,
        Quantifier.holds_negate.1 hfails, hrest, hbefore, hholds, hlast⟩
    · exact Or.inl hleads

variable {old new : Links}

/-- Nothing remains that is reported to go if, where no role names two facts, the query only moves
to successors after its conditions. -/
theorem not_remains (hsingle : links.IsSingleValued)
    (hclimbs : ∀ before quantifier steps rest,
      query = before ++ .existential quantifier steps :: rest → Query.climbs rest = true)
    {result : Reference} : ¬ links.Remains query start fact result := by
  rintro ⟨before, quantifier, steps, rest, arrival, candidate, other, third, heq, -, -, -, -, -, -,
    hfails, hrest, -, hholds, hlast⟩
  -- The result follows from one position only, so the condition would have to hold and to fail.
  have hposition :=
    eq_of_leads_of_climbs hsingle (hclimbs before quantifier steps rest heq) hlast hrest
  subst hposition
  exact hfails hholds

theorem not_leads_of_reports_removed (hsingle : links.IsSingleValued)
    (hclimbs : query.climbs = true) {result : Reference}
    (hreports : links.Reports query start fact .removed result) :
    ¬ links.Leads query start result := by
  refine (not_leads_or_remains_of_reports hreports).resolve_right (not_remains hsingle ?_)
  rintro before quantifier steps rest rfl
  rw [Query.climbs_append, Query.climbs_cons, Bool.and_eq_true, Bool.and_eq_true] at hclimbs
  exact hclimbs.2.2

/-- A condition that a candidate met is met no longer, and is all that keeps the start from leading
to the result now. -/
def Lapses (old new : Links) (query : Query) (start fact result : Reference) : Prop :=
  ∃ (before : Query) (quantifier : Quantifier) (steps : List Step) (rest : Query)
    (candidate : Reference),
    query = before ++ .existential quantifier steps :: rest ∧ candidate ≠ fact ∧
    new.Leads before start candidate ∧
    quantifier.Holds (∃ found, old.Leads steps candidate found) ∧
    ¬ quantifier.Holds (∃ found, new.Leads steps candidate found) ∧
    new.Leads rest candidate result

theorem Grows.recalls_of_lapses (grows : old.Grows new fact) {result : Reference}
    (h : Lapses old new query start fact result) :
    ∃ candidate, new.Recalls query start fact .removed result candidate candidate := by
  obtain ⟨before, quantifier, steps, rest, candidate, rfl, hne, hcandidate, hheld, hholds,
    hrest⟩ := h
  obtain ⟨arrival, harrival, hpositive, htype, hback⟩ :=
    (Arrival.covers grows steps hne).ceases hheld hholds [] true
  have hto := hback candidate (leads_nil.2 rfl)
  exact ⟨candidate, before, quantifier, steps, rest, arrival, rfl, harrival, hpositive, htype,
    ⟨hto, hcandidate⟩, hto, Query.leads_positional hcandidate,
    Quantifier.holds_negate.2 hholds, hrest⟩

/-- Of a query with one condition at most, a result that a new fact takes away goes because the
condition lapses. -/
theorem Grows.lapses_of_loss (grows : old.Grows new fact) (hstart : start ≠ fact)
    (hcount : query.countP Step.isCondition ≤ 1) {result : Reference}
    (hbefore : old.Leads query start result) (hleads : ¬ new.Leads query start result) :
    Lapses old new query start fact result := by
  obtain ⟨before, quantifier, steps, rest, candidate, rfl, hne, hcandidate, hheld, hholds,
    hrest⟩ := grows.exists_loss hstart hbefore hleads
  have hplain : Query.isPlain rest = true := by
    rw [List.countP_append, List.countP_cons] at hcount
    have hzero : List.countP Step.isCondition rest = 0 := by
      simp only [Step.isCondition, if_true] at hcount
      omega
    simpa [Query.isPlain] using hzero
  exact ⟨before, quantifier, steps, rest, candidate, rfl, hne, hcandidate, hheld, hholds,
    grows.leads_of_isPlain hplain hrest⟩

theorem Grows.reports_of_loss (grows : old.Grows new fact) (hstart : start ≠ fact)
    (hcount : query.countP Step.isCondition ≤ 1) {result : Reference}
    (hbefore : old.Leads query start result) (hleads : ¬ new.Leads query start result) :
    new.Reports query start fact .removed result := by
  obtain ⟨candidate, hrecalls⟩ :=
    grows.recalls_of_lapses (grows.lapses_of_loss hstart hcount hbefore hleads)
  exact hrecalls.reports

/-- Reports are exact for a query that only moves to successors and has one condition at most,
where no role names two facts. -/
theorem Grows.exactReports_of_climbs (grows : old.Grows new fact) (hsingle : new.IsSingleValued)
    (hclimbs : query.climbs = true) (hcount : query.countP Step.isCondition ≤ 1) :
    ExactReports (new.Reports query start fact) (old.Leads query start)
      (new.Leads query start) := by
  have hinner : ∀ quantifier steps, Step.existential quantifier steps ∈ query →
      Query.climbs steps = true := by
    intro quantifier steps hmem
    have hstep := Query.climbs_of_mem hclimbs hmem
    rwa [Query.climbs_existential] at hstep
  have hold : ∀ a role, ¬ old a role fact := fun a role h => grows.unnamed (grows.kept h)
  -- From the new fact itself the query leads nowhere that it did not lead before.
  have hsame : start = fact → ∀ result,
      old.Leads query start result ↔ new.Leads query start result := by
    rintro rfl result
    exact leads_iff_of_unnamed hold (fun a role => grows.unnamed) hclimbs
  refine ⟨?_, ?_, ?_, ?_⟩
  · intro result hreports
    exact (leads_or_strays_of_reports hreports).resolve_right (not_strays hsingle hinner)
  · intro result hreports
    exact not_leads_of_reports_removed hsingle hclimbs hreports
  · intro result hleads hbefore
    by_cases hstart : start = fact
    · exact absurd ((hsame hstart result).2 hleads) hbefore
    · exact grows.reports_of_gain hstart hleads hbefore
  · intro result hbefore hleads
    by_cases hstart : start = fact
    · exact absurd ((hsame hstart result).1 hbefore) hleads
    · exact grows.reports_of_loss hstart hcount hbefore hleads

theorem not_recalls_of_isPlain (hplain : query.isPlain = true) {change : Change}
    {result candidate other : Reference} :
    ¬ links.Recalls query start fact change result candidate other := by
  rintro ⟨before, quantifier, steps, rest, arrival, rfl, -⟩
  simp [Query.isPlain, Step.isCondition] at hplain

theorem not_reports_removed_of_isPlain (hplain : query.isPlain = true) {result : Reference} :
    ¬ links.Reports query start fact .removed result := by
  intro hreports
  rcases arrives_or_recalls_of_reports hreports with ⟨hchange, -⟩ | ⟨_, _, hrecalls⟩
  · cases hchange
  · exact not_recalls_of_isPlain hplain hrecalls

/-- About a query without conditions no more is reported than that walks arrive at the fact. -/
theorem reports_added_iff_of_isPlain (hunnamed : ∀ {a role}, ¬ links a role fact)
    (hplain : query.isPlain = true) {result : Reference} :
    links.Reports query start fact .added result ↔ links.Arrives query start fact result := by
  constructor
  · intro hreports
    rcases arrives_or_recalls_of_reports hreports with ⟨-, harrives⟩ | ⟨_, _, hrecalls⟩
    · exact harrives
    · exact absurd hrecalls (not_recalls_of_isPlain hplain)
  · exact fun harrives => harrives.reports hunnamed

theorem Grows.exactReports_of_isPlain (grows : old.Grows new fact) (hplain : query.isPlain = true)
    (hstart : start ≠ fact) :
    ExactReports (new.Reports query start fact) (old.Leads query start)
      (new.Leads query start) := by
  refine ⟨?_, ?_, ?_, ?_⟩
  · intro result hreports
    rcases arrives_or_recalls_of_reports hreports with ⟨-, harrives⟩ | ⟨_, _, hrecalls⟩
    · exact harrives.leads
    · exact absurd hrecalls (not_recalls_of_isPlain hplain)
  · intro result hreports
    exact absurd hreports (not_reports_removed_of_isPlain hplain)
  · intro result hleads hbefore
    exact grows.reports_of_gain hstart hleads hbefore
  · intro result hbefore hleads
    exact absurd (grows.leads_of_isPlain hplain hbefore) hleads

end Links

end LiveFacts
