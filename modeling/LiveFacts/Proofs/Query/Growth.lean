import LiveFacts.Proofs.Query.Walks

/-!
# Walks before and after a new fact

A new fact names facts that are there, and nothing names it yet. A walk that the new fact makes
possible either arrives at it, or passes a condition that did not hold before. A walk that it makes
impossible passes a condition that no longer holds, and up to the first such condition the walk is
still possible.
-/

namespace LiveFacts

structure Links.Grows (old new : Links) (fact : Reference) : Prop where
  kept : ∀ {a b : Reference} {role : String}, old a role b → new a role b
  others : ∀ {a b : Reference} {role : String}, new a role b → a ≠ fact → old a role b
  unnamed : ∀ {a : Reference} {role : String}, ¬ new a role fact
  fresh : ∀ {b : Reference} {role : String}, ¬ old fact role b

theorem Store.links_save {store : Store} {record : Record} {a b : Reference} {role : String}
    (h : store.links a role b) : (store.save record).links a role b := by
  by_cases hnew : store.contains record.reference = true
  · rwa [save_of_contains hnew]
  · obtain ⟨stored, hstored, hreference, hmem⟩ := h
    refine ⟨stored, ?_, hreference, hmem⟩
    rw [records_save_of_new (by simpa using hnew)]
    exact List.mem_append_left _ hstored

theorem Store.links_of_links_save {store : Store} {record : Record} {a b : Reference}
    {role : String} (h : (store.save record).links a role b) (hne : a ≠ record.reference) :
    store.links a role b := by
  by_cases hnew : store.contains record.reference = true
  · rwa [save_of_contains hnew] at h
  · obtain ⟨stored, hstored, hreference, hmem⟩ := h
    rw [records_save_of_new (by simpa using hnew)] at hstored
    rcases List.mem_append.1 hstored with hold | hlast
    · exact ⟨stored, hold, hreference, hmem⟩
    · rw [List.mem_singleton.1 hlast] at hreference
      exact absurd hreference.symm hne

theorem Store.grows_save {store : Store} (hsound : store.IsSound) (hclosed : store.IsClosed)
    {record : Record} (hkeyed : record.IsKeyed)
    (hnew : store.contains record.reference = false)
    (hnamed : ∀ fact ∈ record.named, store.contains fact = true) :
    store.links.Grows (store.save record).links record.reference where
  kept := links_save
  others := links_of_links_save
  unnamed := by
    intro a role hlink
    have hcontains : store.contains record.reference = true := by
      obtain ⟨stored, hstored, hreference, hmem⟩ := hlink
      rw [records_save_of_new hnew] at hstored
      rcases List.mem_append.1 hstored with hold | hlast
      · exact hclosed.contains_of_links hsound ⟨stored, hold, hreference, hmem⟩
      · rw [List.mem_singleton.1 hlast] at hmem
        have hlinked := (Record.mem_predecessorsIn hkeyed).1 hmem
        exact hnamed _ (Record.mem_named_iff.2 ⟨role, hlinked⟩)
    rw [hnew] at hcontains
    cases hcontains
  fresh := by
    intro b role hlink
    have hcontains := contains_of_links hlink
    rw [hnew] at hcontains
    cases hcontains

/-- A sound and closed store can take in the record: it is new and comes after the facts that it
names. -/
structure Store.Admits (store : Store) (record : Record) : Prop where
  sound : store.IsSound
  closed : store.IsClosed
  keyed : record.IsKeyed
  new : store.contains record.reference = false
  named : ∀ fact ∈ record.named, store.contains fact = true

theorem Store.Admits.grows {store : Store} {record : Record} (h : store.Admits record) :
    store.links.Grows (store.save record).links record.reference :=
  Store.grows_save h.sound h.closed h.keyed h.new h.named

theorem Store.Admits.sound_save {store : Store} {record : Record} (h : store.Admits record) :
    (store.save record).IsSound :=
  h.sound.save h.keyed

theorem Store.Admits.closed_save {store : Store} {record : Record} (h : store.Admits record) :
    (store.save record).IsClosed :=
  h.closed.save h.named

theorem Store.Admits.contains_save_iff {store : Store} {record : Record} (h : store.Admits record)
    {fact : Reference} :
    (store.save record).contains fact = true ↔
      store.contains fact = true ∨ fact = record.reference :=
  Store.contains_save_iff h.new

theorem Store.Admits.ne_of_contains {store : Store} {record : Record} (h : store.Admits record)
    {fact : Reference} (hfact : store.contains fact = true) : fact ≠ record.reference := by
  rintro rfl
  rw [h.new] at hfact
  cases hfact

namespace Links

variable {old new : Links} {fact : Reference}

theorem leads_mono (hkept : ∀ {a b : Reference} {role : String}, old a role b → new a role b)
    {query : Query} (hplain : query.isPlain = true) {start last : Reference}
    (h : old.Leads query start last) : new.Leads query start last := by
  induction query generalizing start with
  | nil => exact leads_nil.2 (leads_nil.1 h)
  | cons step rest ih =>
    obtain ⟨next, hstep, hrest⟩ := leads_cons.1 h
    simp only [Query.isPlain, List.all_cons, Bool.and_eq_true] at hplain
    refine leads_cons.2 ⟨next, ?_, ih hplain.2 hrest⟩
    cases step with
    | field type => exact stepLeads_field.2 (stepLeads_field.1 hstep)
    | successor role => exact stepLeads_successor.2 (hkept (stepLeads_successor.1 hstep))
    | predecessor role =>
      exact stepLeads_predecessor.2 (hkept (stepLeads_predecessor.1 hstep))
    | existential quantifier steps => simp [Step.isCondition] at hplain

theorem Grows.leads_of_isPlain (grows : old.Grows new fact) {query : Query}
    (hplain : query.isPlain = true) {start last : Reference} (h : old.Leads query start last) :
    new.Leads query start last :=
  leads_mono grows.kept hplain h

/-- A walk that is possible now and was not before arrives at the new fact, or passes a condition
that did not hold before. -/
theorem Grows.exists_gain (grows : old.Grows new fact) {query : Query} {start last : Reference}
    (hstart : start ≠ fact) (hnew : new.Leads query start last)
    (hold : ¬ old.Leads query start last) :
    (∃ before role rest middle, query = before ++ .successor role :: rest ∧
      new.Leads before start middle ∧ new fact role middle ∧ new.Leads rest fact last) ∨
    ∃ before quantifier steps rest candidate,
      query = before ++ .existential quantifier steps :: rest ∧ candidate ≠ fact ∧
      new.Leads before start candidate ∧
      quantifier.Holds (∃ found, new.Leads steps candidate found) ∧
      ¬ quantifier.Holds (∃ found, old.Leads steps candidate found) ∧
      new.Leads rest candidate last := by
  induction query generalizing start with
  | nil => exact absurd (leads_nil.2 (leads_nil.1 hnew)) hold
  | cons step rest ih =>
    obtain ⟨next, hstep, hrest⟩ := leads_cons.1 hnew
    -- Where the step was possible before, the rest of the walk is what is new.
    have further (hnext : next ≠ fact) (holdStep : old.StepLeads step start next) :=
      ih hnext hrest fun h => hold (leads_cons.2 ⟨next, holdStep, h⟩)
    have hmoved : ∀ {before : Query} {middle : Reference}, new.Leads before next middle →
        new.Leads (step :: before) start middle :=
      fun h => leads_cons.2 ⟨next, hstep, h⟩
    by_cases hturn : next ≠ fact ∧ old.StepLeads step start next
    · rcases further hturn.1 hturn.2 with
        ⟨before, role, rest', middle, rfl, hbefore, hlink, hafter⟩ |
        ⟨before, quantifier, steps, rest', candidate, rfl, hne, hbefore, hholds, hheld, hafter⟩
      · exact Or.inl ⟨step :: before, role, rest', middle, rfl, hmoved hbefore, hlink, hafter⟩
      · exact Or.inr ⟨step :: before, quantifier, steps, rest', candidate, rfl, hne,
          hmoved hbefore, hholds, hheld, hafter⟩
    · cases step with
      | field type =>
        obtain ⟨rfl, htype⟩ := stepLeads_field.1 hstep
        exact absurd ⟨hstart, stepLeads_field.2 ⟨rfl, htype⟩⟩ hturn
      | successor role =>
        have hlink := stepLeads_successor.1 hstep
        by_cases hnext : next = fact
        · subst hnext
          exact Or.inl ⟨[], role, rest, start, rfl, leads_nil.2 rfl, hlink, hrest⟩
        · exact absurd ⟨hnext, stepLeads_successor.2 (grows.others hlink hnext)⟩ hturn
      | predecessor role =>
        have hlink := stepLeads_predecessor.1 hstep
        have hnext : next ≠ fact := by
          rintro rfl
          exact grows.unnamed hlink
        exact absurd ⟨hnext, stepLeads_predecessor.2 (grows.others hlink hstart)⟩ hturn
      | existential quantifier steps =>
        obtain ⟨rfl, hholds⟩ := stepLeads_existential.1 hstep
        have hheld : ¬ quantifier.Holds (∃ found, old.Leads steps start found) := by
          intro h
          exact hturn ⟨hstart, stepLeads_existential.2 ⟨rfl, h⟩⟩
        exact Or.inr ⟨[], quantifier, steps, rest, start, rfl, hstart, leads_nil.2 rfl, hholds,
          hheld, hrest⟩

/-- A walk that was possible and is not any more passes a condition that no longer holds; the way
to the first such condition is still there. -/
theorem Grows.exists_loss (grows : old.Grows new fact) {query : Query} {start last : Reference}
    (hstart : start ≠ fact) (hold : old.Leads query start last)
    (hnew : ¬ new.Leads query start last) :
    ∃ before quantifier steps rest candidate,
      query = before ++ .existential quantifier steps :: rest ∧ candidate ≠ fact ∧
      new.Leads before start candidate ∧
      quantifier.Holds (∃ found, old.Leads steps candidate found) ∧
      ¬ quantifier.Holds (∃ found, new.Leads steps candidate found) ∧
      old.Leads rest candidate last := by
  induction query generalizing start with
  | nil => exact absurd (leads_nil.2 (leads_nil.1 hold)) hnew
  | cons step rest ih =>
    obtain ⟨next, hstep, hrest⟩ := leads_cons.1 hold
    have further (hnext : next ≠ fact) (hnewStep : new.StepLeads step start next) :
        ∃ before quantifier steps rest' candidate,
          step :: rest = before ++ .existential quantifier steps :: rest' ∧ candidate ≠ fact ∧
          new.Leads before start candidate ∧
          quantifier.Holds (∃ found, old.Leads steps candidate found) ∧
          ¬ quantifier.Holds (∃ found, new.Leads steps candidate found) ∧
          old.Leads rest' candidate last := by
      obtain ⟨before, quantifier, steps, rest', candidate, rfl, hne, hbefore, hheld, hholds,
        hafter⟩ := ih hnext hrest fun h => hnew (leads_cons.2 ⟨next, hnewStep, h⟩)
      exact ⟨step :: before, quantifier, steps, rest', candidate, rfl, hne,
        leads_cons.2 ⟨next, hnewStep, hbefore⟩, hheld, hholds, hafter⟩
    cases step with
    | field type =>
      obtain ⟨rfl, htype⟩ := stepLeads_field.1 hstep
      exact further hstart (stepLeads_field.2 ⟨rfl, htype⟩)
    | successor role =>
      have hlink := stepLeads_successor.1 hstep
      have hnext : next ≠ fact := by
        rintro rfl
        exact grows.fresh hlink
      exact further hnext (stepLeads_successor.2 (grows.kept hlink))
    | predecessor role =>
      have hlink := grows.kept (stepLeads_predecessor.1 hstep)
      have hnext : next ≠ fact := by
        rintro rfl
        exact grows.unnamed hlink
      exact further hnext (stepLeads_predecessor.2 hlink)
    | existential quantifier steps =>
      obtain ⟨rfl, hheld⟩ := stepLeads_existential.1 hstep
      by_cases hholds : quantifier.Holds (∃ found, new.Leads steps start found)
      · exact further hstart (stepLeads_existential.2 ⟨rfl, hholds⟩)
      · exact ⟨[], quantifier, steps, rest, start, rfl, hstart, leads_nil.2 rfl, hheld, hholds,
          hrest⟩

/-- Without conditions, a walk that is possible now and was not before arrives at the new fact. -/
theorem Grows.exists_arrival (grows : old.Grows new fact) {query : Query}
    (hplain : query.isPlain = true) {start last : Reference} (hstart : start ≠ fact)
    (hnew : new.Leads query start last) (hold : ¬ old.Leads query start last) :
    ∃ before role rest middle, query = before ++ .successor role :: rest ∧
      new.Leads before start middle ∧ new fact role middle ∧ new.Leads rest fact last := by
  rcases grows.exists_gain hstart hnew hold with harrives | ⟨before, quantifier, steps, rest, _,
    rfl, -⟩
  · exact harrives
  · simp [Query.isPlain, Step.isCondition] at hplain

/-- From a fact that nothing names, a query that only moves to successors leads to the same facts
whatever the other links are. -/
theorem leads_iff_of_unnamed {links other : Links} (hlinks : ∀ a role, ¬ links a role fact)
    (hother : ∀ a role, ¬ other a role fact) {query : Query} (hclimbs : query.climbs = true)
    {last : Reference} : links.Leads query fact last ↔ other.Leads query fact last := by
  induction query using Query.nested_induction generalizing last with
  | conditions query ih =>
    induction query with
    | nil => simp
    | cons step rest ihrest =>
      rw [Query.climbs_cons, Bool.and_eq_true] at hclimbs
      have hrest := ihrest (fun q steps hmem => ih q steps (List.mem_cons_of_mem _ hmem))
        hclimbs.2
      simp only [leads_cons]
      cases step with
      | field type =>
        simp only [stepLeads_field, and_assoc, exists_eq_left', hrest]
      | successor role => simp [hlinks, hother]
      | predecessor role => simp [Step.climbs] at hclimbs
      | existential quantifier steps =>
        have hfound : (∃ found, links.Leads steps fact found) ↔
            ∃ found, other.Leads steps fact found :=
          exists_congr fun found => ih quantifier steps List.mem_cons_self hclimbs.1
        simp only [stepLeads_existential, and_assoc, exists_eq_left', hrest,
          Quantifier.holds_congr hfound]

end Links

end LiveFacts
