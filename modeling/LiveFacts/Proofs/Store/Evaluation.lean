import LiveFacts.Proofs.Query.Walks
import LiveFacts.Proofs.Traversals
import LiveFacts.Store.Evaluate

/-!
# Running a query follows the links

Where a run succeeds, its paths end in the facts to which the query leads. A run fails when some
walk, or a condition on its way, has to move to the predecessors of a fact that is not stored; in
a closed store this never happens to a stored fact.
-/

namespace LiveFacts

def ends (paths : List Path) : List Reference :=
  paths.filterMap List.getLast?

theorem mem_ends {paths : List Path} {fact : Reference} :
    fact ∈ ends paths ↔ ∃ path ∈ paths, path.getLast? = some fact := by
  simp [ends]

theorem exists_mem_ends_iff {paths : List Path} (h : ∀ path ∈ paths, path ≠ []) :
    (∃ fact, fact ∈ ends paths) ↔ (!paths.isEmpty) = true := by
  cases paths with
  | nil => simp [ends]
  | cons path rest =>
    have hpath : path ≠ [] := h path List.mem_cons_self
    simp only [List.isEmpty_cons, Bool.not_false, iff_true]
    exact ⟨path.getLast hpath,
      mem_ends.2 ⟨path, List.mem_cons_self, List.getLast?_eq_some_getLast hpath⟩⟩

theorem distinct_spec (references : List Reference) :
    (distinct references).Nodup ∧ ∀ fact, fact ∈ distinct references ↔ fact ∈ references := by
  have hfold : ∀ kept : List Reference, kept.Nodup →
      (references.foldl (fun kept r => if kept.contains r then kept else kept ++ [r]) kept).Nodup ∧
      ∀ fact, fact ∈ references.foldl
        (fun kept r => if kept.contains r then kept else kept ++ [r]) kept ↔
          fact ∈ kept ∨ fact ∈ references := by
    induction references with
    | nil => simp
    | cons r rest ih =>
      intro kept hkept
      rw [List.foldl_cons]
      by_cases hr : kept.contains r = true
      · rw [if_pos hr]
        refine ⟨(ih kept hkept).1, fun fact => ?_⟩
        rw [(ih kept hkept).2, List.mem_cons]
        have hmem : r ∈ kept := by simpa using hr
        constructor
        · rintro (hfact | hfact)
          · exact Or.inl hfact
          · exact Or.inr (Or.inr hfact)
        · rintro (hfact | rfl | hfact)
          · exact Or.inl hfact
          · exact Or.inl hmem
          · exact Or.inr hfact
      · rw [if_neg hr]
        have hmem : r ∉ kept := by simpa using hr
        have hnext : (kept ++ [r]).Nodup := by
          rw [List.nodup_append]
          refine ⟨hkept, by simp, ?_⟩
          intro fact hfact other hother heq
          rw [List.mem_singleton.1 hother] at heq
          exact hmem (heq ▸ hfact)
        refine ⟨(ih _ hnext).1, fun fact => ?_⟩
        rw [(ih _ hnext).2, List.mem_append, List.mem_singleton, List.mem_cons, or_assoc]
  obtain ⟨hnodup, hmem⟩ := hfold [] List.nodup_nil
  exact ⟨hnodup, fun fact => (hmem fact).trans (by simp)⟩

theorem nodup_terminals (paths : List Path) : (terminals paths).Nodup :=
  (distinct_spec _).1

theorem mem_terminals {paths : List Path} {fact : Reference} :
    fact ∈ terminals paths ↔ fact ∈ ends paths :=
  (distinct_spec _).2 fact

namespace Store

mutual

def StepFails (store : Store) : Step → Reference → Prop
  | .field _, _ | .successor _, _ => False
  | .predecessor _, fact => store.contains fact = false
  | .existential _ steps, fact => Fails store steps fact

def Fails (store : Store) : List Step → Reference → Prop
  | [], _ => False
  | step :: rest, fact =>
    StepFails store step fact ∨
      ∃ next, store.links.StepLeads step fact next ∧ Fails store rest next

end

theorem fails_cons {store : Store} {step : Step} {rest : Query} {fact : Reference} :
    store.Fails (step :: rest) fact ↔
      store.StepFails step fact ∨
        ∃ next, store.links.StepLeads step fact next ∧ store.Fails rest next := by
  simp [Fails]

theorem extend_nil (store : Store) (step : Step) : store.extend step [] = .ok [] := by
  cases step <;> simp [extend]

theorem extend_predecessor_eq_ok {store : Store} {role : String} {path : Path}
    {found : List Path} {fact : Reference} (hlast : path.getLast? = some fact) :
    store.extend (.predecessor role) path = .ok found ↔
      ∃ record, store.find? fact = some record ∧
        found = (record.predecessorsIn role).map fun next => path ++ [next] := by
  simp only [extend, hlast, get]
  cases store.find? fact with
  | none => simp [bind, Except.bind]
  | some record =>
    simp only [bind, Except.bind, pure, Except.pure, Except.ok.injEq, Option.some.injEq,
      exists_eq_left']
    exact eq_comm

theorem extend_existential_eq_ok {store : Store} {quantifier : Quantifier} {steps : List Step}
    {path : Path} {found : List Path} {fact : Reference} (hlast : path.getLast? = some fact) :
    store.extend (.existential quantifier steps) path = .ok found ↔
      ∃ inner, store.walk steps [[fact]] = .ok inner ∧
        found = if quantifier.accepts (!inner.isEmpty) then [path] else [] := by
  simp only [extend, hlast]
  cases store.walk steps [[fact]] with
  | error e => simp [bind, Except.bind]
  | ok inner =>
    simp only [bind, Except.bind, pure, Except.pure, Except.ok.injEq, exists_eq_left']
    exact eq_comm

theorem ne_nil_of_extend {store : Store} {step : Step} {path : Path} {found : List Path}
    (h : store.extend step path = .ok found) : ∀ next ∈ found, next ≠ [] := by
  intro next hnext hnil
  subst hnil
  cases hlast : path.getLast? with
  | none =>
    have hpath : path = [] := List.getLast?_eq_none_iff.1 hlast
    rw [hpath, extend_nil, Except.ok.injEq] at h
    simp [← h] at hnext
  | some fact =>
    have hpath : path ≠ [] := by
      intro hpath
      simp [hpath] at hlast
    cases step with
    | field type =>
      simp only [extend, Except.ok.injEq] at h
      rw [← h] at hnext
      split at hnext
      · exact hpath (List.mem_singleton.1 hnext).symm
      · cases hnext
    | successor role =>
      simp only [extend, Except.ok.injEq] at h
      simp [← h] at hnext
    | predecessor role =>
      obtain ⟨record, _, rfl⟩ := (extend_predecessor_eq_ok hlast).1 h
      simp at hnext
    | existential quantifier steps =>
      obtain ⟨inner, _, rfl⟩ := (extend_existential_eq_ok hlast).1 h
      split at hnext
      · exact hpath (List.mem_singleton.1 hnext).symm
      · cases hnext

theorem walk_cons_eq_ok {store : Store} {step : Step} {rest : Query} {paths found : List Path} :
    store.walk (step :: rest) paths = .ok found ↔
      ∃ extended, paths.mapM (store.extend step) = .ok extended ∧
        store.walk rest extended.flatten = .ok found := by
  rw [walk]
  cases h : paths.mapM (store.extend step) <;> simp [bind, Except.bind]

theorem ne_nil_of_walk {store : Store} {query : Query} {paths found : List Path}
    (h : store.walk query paths = .ok found) (hpaths : ∀ path ∈ paths, path ≠ []) :
    ∀ path ∈ found, path ≠ [] := by
  induction query generalizing paths with
  | nil =>
    rw [walk, Except.ok.injEq] at h
    rwa [← h]
  | cons step rest ih =>
    obtain ⟨extended, hextended, hrest⟩ := walk_cons_eq_ok.1 h
    apply ih hrest
    intro path hpath
    obtain ⟨before, _, part, hpart, hmem⟩ := (mem_flatten_of_mapM hextended).1 hpath
    exact ne_nil_of_extend hpart path hmem

theorem mem_ends_flatten {paths : List Path} {extended : List (List Path)}
    {f : Path → Except Reference (List Path)} (h : paths.mapM f = .ok extended)
    {fact : Reference} :
    fact ∈ ends extended.flatten ↔
      ∃ path ∈ paths, ∃ part, f path = .ok part ∧ fact ∈ ends part := by
  simp only [mem_ends, mem_flatten_of_mapM h]
  constructor
  · rintro ⟨next, ⟨path, hpath, part, hpart, hnext⟩, hlast⟩
    exact ⟨path, hpath, part, hpart, next, hnext, hlast⟩
  · rintro ⟨path, hpath, part, hpart, next, hnext, hlast⟩
    exact ⟨next, ⟨path, hpath, part, hpart, hnext⟩, hlast⟩

variable {store : Store}

mutual

/-- One step takes a path to the facts to which the step leads. -/
theorem mem_ends_extend (hsound : store.IsSound) (step : Step) {path : Path} {found : List Path}
    (h : store.extend step path = .ok found) (last : Reference) :
    last ∈ ends found ↔
      ∃ fact, path.getLast? = some fact ∧ store.links.StepLeads step fact last := by
  cases hlast : path.getLast? with
  | none =>
    have hpath : path = [] := List.getLast?_eq_none_iff.1 hlast
    rw [hpath, extend_nil, Except.ok.injEq] at h
    simp [← h, ends]
  | some fact =>
    simp only [Option.some.injEq, exists_eq_left']
    match step with
    | .field type =>
      simp only [extend, hlast, Except.ok.injEq, Option.any_some, decide_eq_true_eq] at h
      rw [Links.stepLeads_field, ← h]
      by_cases htype : fact.type = type
      · simp [htype, ends, hlast, eq_comm]
      · simp [htype, ends]
    | .successor role =>
      simp only [extend, hlast, Except.ok.injEq] at h
      rw [Links.stepLeads_successor, ← h, ← hsound.mem_successors]
      simp [mem_ends]
    | .predecessor role =>
      obtain ⟨record, hfind, rfl⟩ := (extend_predecessor_eq_ok hlast).1 h
      rw [Links.stepLeads_predecessor, hsound.links_iff_of_get hfind]
      simp [mem_ends]
    | .existential quantifier steps =>
      obtain ⟨inner, hinner, rfl⟩ := (extend_existential_eq_ok hlast).1 h
      have hfound : (!inner.isEmpty) = true ↔ ∃ y, store.links.Leads steps fact y := by
        rw [← exists_mem_ends_iff (ne_nil_of_walk hinner (by simp))]
        refine exists_congr fun y => ?_
        rw [mem_ends_walk hsound steps hinner y]
        simp [ends]
      rw [Links.stepLeads_existential, ← Quantifier.holds_congr hfound, ← Quantifier.accepts_iff]
      by_cases haccepts : quantifier.accepts (!inner.isEmpty) = true
      · simp [haccepts, ends, hlast, eq_comm]
      · simp [haccepts, ends]

/-- A run takes paths to the facts to which the query leads. -/
theorem mem_ends_walk (hsound : store.IsSound) (query : List Step) {paths found : List Path}
    (h : store.walk query paths = .ok found) (last : Reference) :
    last ∈ ends found ↔ ∃ fact ∈ ends paths, store.links.Leads query fact last := by
  match query with
  | [] =>
    rw [walk, Except.ok.injEq] at h
    simp [h]
  | step :: rest =>
    obtain ⟨extended, hextended, hrest⟩ := walk_cons_eq_ok.1 h
    have hnext : ∀ next, next ∈ ends extended.flatten ↔
        ∃ fact ∈ ends paths, store.links.StepLeads step fact next := by
      intro next
      rw [mem_ends_flatten hextended]
      constructor
      · rintro ⟨path, hpath, part, hpart, hmem⟩
        obtain ⟨fact, hlast, hstep⟩ := (mem_ends_extend hsound step hpart next).1 hmem
        exact ⟨fact, mem_ends.2 ⟨path, hpath, hlast⟩, hstep⟩
      · rintro ⟨fact, hfact, hstep⟩
        obtain ⟨path, hpath, hlast⟩ := mem_ends.1 hfact
        obtain ⟨part, hpart⟩ := mapM_isOk_iff.1 ⟨extended, hextended⟩ path hpath
        exact ⟨path, hpath, part, hpart,
          (mem_ends_extend hsound step hpart next).2 ⟨fact, hlast, hstep⟩⟩
    rw [mem_ends_walk hsound rest hrest last]
    simp only [hnext, Links.leads_cons]
    constructor
    · rintro ⟨next, ⟨fact, hfact, hstep⟩, hrest⟩
      exact ⟨fact, hfact, next, hstep, hrest⟩
    · rintro ⟨fact, hfact, next, hstep, hrest⟩
      exact ⟨next, ⟨fact, hfact, hstep⟩, hrest⟩

end

mutual

theorem extend_isOk_iff (hsound : store.IsSound) (step : Step) {path : Path} {fact : Reference}
    (hlast : path.getLast? = some fact) :
    (∃ found, store.extend step path = .ok found) ↔ ¬ store.StepFails step fact := by
  match step with
  | .field type => simp [extend, StepFails]
  | .successor role => simp [extend, StepFails]
  | .predecessor role =>
    simp only [extend_predecessor_eq_ok hlast, StepFails, contains]
    cases store.find? fact <;> simp
  | .existential quantifier steps =>
    have hwalk := walk_isOk_iff hsound steps [[fact]]
    simp only [ends, List.filterMap_cons, List.getLast?_singleton, List.filterMap_nil,
      List.mem_singleton, forall_eq] at hwalk
    rw [StepFails, ← hwalk]
    simp only [extend_existential_eq_ok hlast]
    constructor
    · rintro ⟨_, inner, hinner, _⟩
      exact ⟨inner, hinner⟩
    · rintro ⟨inner, hinner⟩
      exact ⟨_, inner, hinner, rfl⟩

/-- A run succeeds when the query fails from none of the facts that the paths end in. -/
theorem walk_isOk_iff (hsound : store.IsSound) (query : List Step) (paths : List Path) :
    (∃ found, store.walk query paths = .ok found) ↔
      ∀ fact ∈ ends paths, ¬ store.Fails query fact := by
  match query with
  | [] => simp [walk, Fails]
  | step :: rest =>
    simp only [walk_cons_eq_ok, fails_cons, not_or, not_exists, not_and]
    constructor
    · rintro ⟨found, extended, hextended, hrest⟩ fact hfact
      obtain ⟨path, hpath, hlast⟩ := mem_ends.1 hfact
      obtain ⟨part, hpart⟩ := mapM_isOk_iff.1 ⟨extended, hextended⟩ path hpath
      refine ⟨(extend_isOk_iff hsound step hlast).1 ⟨part, hpart⟩, fun next hnext => ?_⟩
      apply (walk_isOk_iff hsound rest extended.flatten).1 ⟨found, hrest⟩
      rw [mem_ends_flatten hextended]
      exact ⟨path, hpath, part, hpart,
        (mem_ends_extend hsound step hpart next).2 ⟨fact, hlast, hnext⟩⟩
    · intro h
      have hstep : ∀ path ∈ paths, ∃ part, store.extend step path = .ok part := by
        intro path hpath
        cases hlast : path.getLast? with
        | none =>
          rw [List.getLast?_eq_none_iff.1 hlast, extend_nil]
          exact ⟨[], rfl⟩
        | some fact =>
          exact (extend_isOk_iff hsound step hlast).2 (h fact (mem_ends.2 ⟨path, hpath, hlast⟩)).1
      obtain ⟨extended, hextended⟩ := mapM_isOk_iff.2 hstep
      have hrest : ∀ next ∈ ends extended.flatten, ¬ store.Fails rest next := by
        intro next hnext
        obtain ⟨path, hpath, part, hpart, hmem⟩ := (mem_ends_flatten hextended).1 hnext
        obtain ⟨fact, hlast, hlead⟩ := (mem_ends_extend hsound step hpart next).1 hmem
        exact (h fact (mem_ends.2 ⟨path, hpath, hlast⟩)).2 next hlead
      obtain ⟨found, hfound⟩ := (walk_isOk_iff hsound rest extended.flatten).2 hrest
      exact ⟨found, extended, hextended, hfound⟩

end

/-- A query answers unless it fails, and then finds the facts to which it leads. -/
theorem mem_terminals_evaluate (hsound : store.IsSound) {start : Reference} {query : Query}
    {paths : List Path} (h : store.evaluate start query = .ok paths) {fact : Reference} :
    fact ∈ terminals paths ↔ store.links.Leads query start fact := by
  rw [mem_terminals, mem_ends_walk hsound query h fact]
  simp [ends]

theorem evaluate_isOk_iff (hsound : store.IsSound) {start : Reference} {query : Query} :
    (∃ paths, store.evaluate start query = .ok paths) ↔ ¬ store.Fails query start := by
  rw [evaluate, walk_isOk_iff hsound]
  simp [ends]

/-- In a closed store a step leads from stored facts to stored facts, and only from those. -/
theorem IsClosed.contains_iff_of_stepLeads (hclosed : store.IsClosed) (hsound : store.IsSound)
    {step : Step} {fact next : Reference} (h : store.links.StepLeads step fact next) :
    store.contains next = true ↔ store.contains fact = true := by
  cases step with
  | field type => rw [(Links.stepLeads_field.1 h).1]
  | successor role =>
    have hlink := Links.stepLeads_successor.1 h
    exact iff_of_true (Store.contains_of_links hlink) (hclosed.contains_of_links hsound hlink)
  | predecessor role =>
    have hlink := Links.stepLeads_predecessor.1 h
    exact iff_of_true (hclosed.contains_of_links hsound hlink) (Store.contains_of_links hlink)
  | existential quantifier steps => rw [(Links.stepLeads_existential.1 h).1]

theorem IsClosed.contains_iff_of_leads (hclosed : store.IsClosed) (hsound : store.IsSound)
    {query : Query} {fact last : Reference} (h : store.links.Leads query fact last) :
    store.contains last = true ↔ store.contains fact = true := by
  induction query generalizing fact with
  | nil => rw [Links.leads_nil.1 h]
  | cons step rest ih =>
    obtain ⟨next, hstep, hrest⟩ := Links.leads_cons.1 h
    exact (ih hrest).trans (hclosed.contains_iff_of_stepLeads hsound hstep)

theorem not_fails_of_isClosed (hsound : store.IsSound) (hclosed : store.IsClosed) (query : Query)
    {start : Reference} (hstart : store.contains start = true) : ¬ store.Fails query start := by
  induction query using Query.nested_induction generalizing start with
  | conditions query ih =>
    induction query generalizing start with
    | nil => simp [Fails]
    | cons step rest ihrest =>
      rw [fails_cons]
      rintro (hfails | ⟨next, hstep, hfails⟩)
      · cases step with
        | field type => exact hfails
        | successor role => exact hfails
        | predecessor role =>
          rw [StepFails, hstart] at hfails
          cases hfails
        | existential quantifier steps =>
          rw [StepFails] at hfails
          exact ih quantifier steps List.mem_cons_self hstart hfails
      · have hnext := (hclosed.contains_iff_of_stepLeads hsound hstep).2 hstart
        exact ihrest (fun q steps hmem => ih q steps (List.mem_cons_of_mem _ hmem)) hnext hfails

theorem not_fails_of_climbs {query : Query} (hclimbs : query.climbs = true) (start : Reference) :
    ¬ store.Fails query start := by
  induction query using Query.nested_induction generalizing start with
  | conditions query ih =>
    induction query generalizing start with
    | nil => simp [Fails]
    | cons step rest ihrest =>
      rw [Query.climbs_cons, Bool.and_eq_true] at hclimbs
      rw [fails_cons]
      rintro (hfails | ⟨next, hstep, hfails⟩)
      · cases step with
        | field type => exact hfails
        | successor role => exact hfails
        | predecessor role => exact absurd hclimbs.1 (by simp [Step.climbs])
        | existential quantifier steps =>
          rw [StepFails] at hfails
          exact ih quantifier steps List.mem_cons_self hclimbs.1 start hfails
      · exact ihrest (fun q steps hmem => ih q steps (List.mem_cons_of_mem _ hmem)) hclimbs.2
          next hfails

def Finds (store : Store) (query : Query) (start result : Reference) : Prop :=
  ∃ paths, store.evaluate start query = .ok paths ∧ result ∈ terminals paths

theorem finds_iff_of_evaluate {start result : Reference} {query : Query} {paths : List Path}
    (h : store.evaluate start query = .ok paths) :
    store.Finds query start result ↔ result ∈ terminals paths := by
  simp [Finds, h]

/-- What a query finds from a fact: nothing, if its run fails. -/
def found (store : Store) (query : Query) (start : Reference) : List Reference :=
  match store.evaluate start query with
  | .ok paths => terminals paths
  | .error _ => []

theorem mem_found {start result : Reference} {query : Query} :
    result ∈ store.found query start ↔ store.Finds query start result := by
  rw [found]
  cases h : store.evaluate start query with
  | error missing => simp [Finds, h]
  | ok paths => exact (finds_iff_of_evaluate h).symm

theorem finds_iff (hsound : store.IsSound) {start result : Reference} {query : Query} :
    store.Finds query start result ↔
      ¬ store.Fails query start ∧ store.links.Leads query start result := by
  rw [← evaluate_isOk_iff hsound]
  constructor
  · rintro ⟨paths, hpaths, hresult⟩
    exact ⟨⟨paths, hpaths⟩, (mem_terminals_evaluate hsound hpaths).1 hresult⟩
  · rintro ⟨⟨paths, hpaths⟩, hleads⟩
    exact ⟨paths, hpaths, (mem_terminals_evaluate hsound hpaths).2 hleads⟩

/-- A query from a stored fact of a closed store finds the facts to which it leads. -/
theorem exists_evaluate (hsound : store.IsSound) (hclosed : store.IsClosed) {start : Reference}
    (hstart : store.contains start = true) (query : Query) :
    ∃ paths, store.evaluate start query = .ok paths ∧
      ∀ fact, fact ∈ terminals paths ↔ store.links.Leads query start fact := by
  obtain ⟨paths, hpaths⟩ :=
    (evaluate_isOk_iff hsound).2 (not_fails_of_isClosed hsound hclosed query hstart)
  exact ⟨paths, hpaths, fun fact => mem_terminals_evaluate hsound hpaths⟩

theorem finds_iff_of_isClosed (hsound : store.IsSound) (hclosed : store.IsClosed)
    {start result : Reference} (hstart : store.contains start = true) {query : Query} :
    store.Finds query start result ↔ store.links.Leads query start result := by
  rw [finds_iff hsound]
  exact and_iff_right (not_fails_of_isClosed hsound hclosed query hstart)

end Store

end LiveFacts
