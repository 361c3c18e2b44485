import LiveFacts.Proofs.Store.Evaluation
import Mathlib.Algebra.BigOperators.Group.List.Basic
import Mathlib.Data.List.Count
import Mathlib.Data.Prod.Basic

/-!
# Which paths a run finds

A walk of a query goes through the graph of links as its steps say: each join moves along a link,
and each filter and condition holds where the walk stands. The records alone tell what the walks
are, and how often the links of a walk are listed. A run, which moves to successors by way of the
index, finds the walks from its start and nothing else, each as often as there are choices of links
for it. It fails exactly if some walk, or some walk of a condition on it, is stranded: it comes to a
fact that is not stored and has to move on to the predecessors of that fact.
-/

namespace LiveFacts

namespace Links

variable {links : Links}

/-- The facts met along the steps of a query, the first of them the one where it starts. -/
inductive IsWalk (links : Links) : Query → Path → Prop
  | done (fact : Reference) : IsWalk links [] [fact]
  | stay {step : Step} {rest : Query} {fact : Reference} {path : Path} :
      step.isJoin = false → links.StepLeads step fact fact → IsWalk links rest (fact :: path) →
      IsWalk links (step :: rest) (fact :: path)
  | move {step : Step} {rest : Query} {fact next : Reference} {path : Path} :
      step.isJoin = true → links.StepLeads step fact next → IsWalk links rest (next :: path) →
      IsWalk links (step :: rest) (fact :: next :: path)

namespace IsWalk

variable {query rest : Query} {step : Step} {path : Path} {fact next : Reference}

theorem length_eq (h : links.IsWalk query path) : path.length = query.countP Step.isJoin + 1 := by
  induction h with
  | done fact => rfl
  | stay hstep _ _ ih => rw [ih, List.countP_cons_of_neg (by simp [hstep])]
  | move hstep _ _ ih => rw [List.length_cons, ih, List.countP_cons_of_pos hstep]

/-- A step that leads to the beginning of a walk begins a longer one with the same end. -/
theorem exists_cons (hlead : links.StepLeads step fact next)
    (h : links.IsWalk rest (next :: path)) :
    ∃ later, links.IsWalk (step :: rest) (fact :: later) ∧
      (fact :: later).getLast? = (next :: path).getLast? := by
  cases hstep : step.isJoin with
  | false =>
    obtain rfl := eq_of_stepLeads hstep hlead
    exact ⟨path, stay hstep hlead h, rfl⟩
  | true => exact ⟨next :: path, move hstep hlead h, by simp⟩

end IsWalk

/-- A query leads from a fact to those in which its walks from there end. -/
theorem leads_iff_exists_isWalk {query : Query} {fact last : Reference} :
    links.Leads query fact last ↔
      ∃ path, links.IsWalk query path ∧ path.head? = some fact ∧ path.getLast? = some last := by
  constructor
  · intro h
    induction query generalizing fact with
    | nil =>
      obtain rfl := leads_nil.1 h
      exact ⟨[fact], IsWalk.done fact, rfl, rfl⟩
    | cons step rest ih =>
      obtain ⟨next, hlead, hrest⟩ := leads_cons.1 h
      obtain ⟨path, hwalk, hhead, hlast⟩ := ih hrest
      obtain ⟨later, rfl⟩ := List.head?_eq_some_iff.1 hhead
      obtain ⟨longer, hlonger, hsame⟩ := IsWalk.exists_cons hlead hwalk
      exact ⟨fact :: longer, hlonger, rfl, hsame.trans hlast⟩
  · rintro ⟨path, hwalk, hhead, hlast⟩
    induction hwalk generalizing fact with
    | done other => simp_all
    | stay hstep hlead _ ih =>
      obtain rfl : _ = fact := by simpa using hhead
      exact leads_cons.2 ⟨_, hlead, ih rfl hlast⟩
    | move hstep hlead _ ih =>
      obtain rfl : _ = fact := by simpa using hhead
      exact leads_cons.2 ⟨_, hlead, ih rfl (by simpa using hlast)⟩

end Links

namespace Store

/-- How often the record of a fact lists another under a role. -/
def timesListed (store : Store) (fact : Reference) (role : String) (named : Reference) : Nat :=
  ((store.find? fact).map fun record => (record.predecessorsIn role).count named).getD 0

def timesTaken (store : Store) : Step → Reference → Reference → Nat
  | .successor role, fact, next => store.timesListed next role fact
  | .predecessor role, fact, next => store.timesListed fact role next
  | .field _, _, _ | .existential .., _, _ => 1

/-- The product of the numbers of times that the links of a walk are listed: the moves along the
path are those of the joins of the query, one by one. -/
def multiplicity (store : Store) (query : Query) (path : Path) : Nat :=
  (((query.filter Step.isJoin).zip (path.zip path.tail)).map fun (step, fact, next) =>
    store.timesTaken step fact next).prod

variable {store : Store}

theorem multiplicity_stay {step : Step} (hstep : step.isJoin = false) (rest : Query)
    (path : Path) : store.multiplicity (step :: rest) path = store.multiplicity rest path := by
  rw [multiplicity, multiplicity, List.filter_cons_of_neg (by simp [hstep])]

theorem multiplicity_move {step : Step} (hstep : step.isJoin = true) (rest : Query)
    (fact next : Reference) (path : Path) :
    store.multiplicity (step :: rest) (fact :: next :: path) =
      store.timesTaken step fact next * store.multiplicity rest (next :: path) := by
  simp [multiplicity, List.filter_cons_of_pos hstep]

end Store

theorem Record.count_links {record : Record} (h : record.IsKeyed) (role : String)
    (fact : Reference) :
    record.links.count (role, fact) = (record.predecessorsIn role).count fact := by
  rw [IsKeyed] at h
  rw [links, predecessorsIn, Keyed.find?]
  generalize record.predecessors = entries at h
  induction entries with
  | nil => simp
  | cons entry rest ih =>
    obtain ⟨key, named⟩ := entry
    rw [List.map_cons, List.nodup_cons] at h
    rw [List.flatMap_cons, List.count_append, ih h.2, List.lookup_cons]
    by_cases hkey : role = key
    · subst hkey
      have hnone : rest.lookup role = none := by
        rw [List.lookup_eq_none_iff]
        intro other hother
        rw [bne_iff_ne]
        intro heq
        exact h.1 (List.mem_map.2 ⟨other, hother, heq.symm⟩)
      simp [hnone, List.count_map_of_injective _ _ (Prod.mk_right_injective role)]
    · have hne : (role == key) = false := beq_eq_false_iff_ne.2 hkey
      have hnot : (role, fact) ∉ named.toList.map (key, ·) := by
        simp [Ne.symm hkey]
      rw [hne, List.count_eq_zero.2 hnot, Nat.zero_add]

theorem Record.count_references {records : List Record}
    (h : (records.map Record.reference).Nodup) (link : String × Reference)
    (next : Reference) :
    (records.flatMap fun record =>
      (record.links.filter (· = link)).map fun _ => record.reference).count next =
      ((records.find? (·.reference = next)).map fun record => record.links.count link).getD 0 := by
  induction records with
  | nil => simp
  | cons record rest ih =>
    rw [List.map_cons, List.nodup_cons] at h
    have hfirst : ((record.links.filter (· = link)).map fun _ => record.reference).count next =
        if record.reference = next then record.links.count link else 0 := by
      have hcount : record.links.countP (· = link) = record.links.count link :=
        List.countP_congr (by simp)
      rw [List.map_const', List.count_replicate, ← List.countP_eq_length_filter, hcount]
      simp only [beq_iff_eq]
    rw [List.flatMap_cons, List.count_append, ih h.2, hfirst, List.find?_cons]
    by_cases hnext : record.reference = next
    · subst hnext
      have hnone : rest.find? (·.reference = record.reference) = none := by
        rw [List.find?_eq_none]
        intro other hother heq
        exact h.1 (List.mem_map.2 ⟨other, hother, by simpa using heq⟩)
      simp [hnone]
    · simp [hnext]

namespace Store

variable {store : Store}

/-- The index lists a successor as often as its record lists the fact. -/
theorem IsSound.count_successors (hsound : store.IsSound) (fact next : Reference) (role : String) :
    (store.successors fact role).count next = store.timesListed next role fact := by
  rw [hsound.successors_eq, Record.count_references hsound.nodup, timesListed, ← find?]
  cases hfind : store.find? next with
  | none => rfl
  | some record =>
    have hrecord := (hsound.find?_eq_some_iff.1 hfind).1
    exact Record.count_links (hsound.keyed record hrecord) role fact

theorem IsSound.timesListed_pos_iff (hsound : store.IsSound) {fact named : Reference}
    {role : String} : 0 < store.timesListed fact role named ↔ store.links fact role named := by
  rw [← hsound.count_successors, List.count_pos_iff, hsound.mem_successors]

theorem IsSound.timesTaken_pos_iff (hsound : store.IsSound) {step : Step}
    (hstep : step.isJoin = true) {fact next : Reference} :
    0 < store.timesTaken step fact next ↔ store.links.StepLeads step fact next := by
  cases step with
  | field type => cases hstep
  | successor role =>
    rw [timesTaken, hsound.timesListed_pos_iff, Links.stepLeads_successor]
  | predecessor role =>
    rw [timesTaken, hsound.timesListed_pos_iff, Links.stepLeads_predecessor]
  | existential quantifier steps => cases hstep

theorem IsSound.multiplicity_pos (hsound : store.IsSound) {query : Query} {path : Path}
    (h : store.links.IsWalk query path) : 0 < store.multiplicity query path := by
  induction h with
  | done fact => simp [multiplicity]
  | stay hstep _ _ ih => rwa [multiplicity_stay hstep]
  | move hstep hlead _ ih =>
    rw [multiplicity_move hstep]
    exact Nat.mul_pos ((hsound.timesTaken_pos_iff hstep).2 hlead) ih

theorem extend_stay (hsound : store.IsSound) {step : Step} (hstep : step.isJoin = false)
    {path : Path} {found : List Path} {fact : Reference} (hlast : path.getLast? = some fact)
    (h : store.extend step path = .ok found) :
    (store.links.StepLeads step fact fact ∧ found = [path]) ∨
      (¬ store.links.StepLeads step fact fact ∧ found = []) := by
  have hkept : found = [path] ∨ found = [] := by
    cases step with
    | field type =>
      simp only [extend, Except.ok.injEq] at h
      rw [← h]
      split <;> simp
    | successor role => cases hstep
    | predecessor role => cases hstep
    | existential quantifier steps =>
      obtain ⟨inner, _, rfl⟩ := (extend_existential_eq_ok hlast).1 h
      split <;> simp
  have hlead := mem_ends_extend hsound step h fact
  simp only [hlast, Option.some.injEq, exists_eq_left'] at hlead
  rw [← hlead]
  rcases hkept with rfl | rfl
  · exact Or.inl ⟨mem_ends.2 ⟨path, List.mem_singleton_self path, hlast⟩, rfl⟩
  · exact Or.inr ⟨by simp [ends], rfl⟩

/-- A join extends a path to each fact to which it leads, as often as the link there is listed. -/
theorem extend_move (hsound : store.IsSound) {step : Step} (hstep : step.isJoin = true)
    {path : Path} {found : List Path} {fact : Reference} (hlast : path.getLast? = some fact)
    (h : store.extend step path = .ok found) :
    ∃ nexts : List Reference, found = nexts.map (fun next => path ++ [next]) ∧
      ∀ next, nexts.count next = store.timesTaken step fact next := by
  cases step with
  | field type => cases hstep
  | successor role =>
    simp only [extend, hlast, Option.toList_some, List.flatMap_singleton, Except.ok.injEq] at h
    exact ⟨_, h.symm, fun next => hsound.count_successors fact next role⟩
  | predecessor role =>
    obtain ⟨record, hfind, rfl⟩ := (extend_predecessor_eq_ok hlast).1 h
    refine ⟨_, rfl, fun next => ?_⟩
    rw [timesTaken, timesListed, hfind, Option.map_some, Option.getD_some]
  | existential quantifier steps => cases hstep

theorem exists_getLast?_of_extend {step : Step} {path longer : Path} {found : List Path}
    (h : store.extend step path = .ok found) (hmem : longer ∈ found) :
    ∃ fact, path.getLast? = some fact := by
  cases hlast : path.getLast? with
  | none =>
    rw [List.getLast?_eq_none_iff.1 hlast, extend_nil, Except.ok.injEq] at h
    rw [← h] at hmem
    cases hmem
  | some fact => exact ⟨fact, rfl⟩

theorem count_mapM_stay (hsound : store.IsSound) {step : Step} (hstep : step.isJoin = false)
    {paths : List Path} {extended : List (List Path)}
    (h : paths.mapM (store.extend step) = .ok extended) {path : Path} {fact : Reference}
    (hlast : path.getLast? = some fact) (hlead : store.links.StepLeads step fact fact) :
    extended.flatten.count path = paths.count path := by
  rw [← Nat.mul_one (paths.count path)]
  apply count_flatten_of_mapM h
  · intro part hpart
    rcases extend_stay hsound hstep hlast hpart with ⟨_, rfl⟩ | ⟨hnot, _⟩
    · exact List.count_singleton_self
    · exact absurd hlead hnot
  · intro other part hpart hmem
    obtain ⟨_, hother⟩ := exists_getLast?_of_extend hpart hmem
    rcases extend_stay hsound hstep hother hpart with ⟨_, rfl⟩ | ⟨_, rfl⟩
    · exact (List.mem_singleton.1 hmem).symm
    · cases hmem

theorem count_mapM_move (hsound : store.IsSound) {step : Step} (hstep : step.isJoin = true)
    {paths : List Path} {extended : List (List Path)}
    (h : paths.mapM (store.extend step) = .ok extended) {path : Path} {fact : Reference}
    (hlast : path.getLast? = some fact) (next : Reference) :
    extended.flatten.count (path ++ [next]) =
      paths.count path * store.timesTaken step fact next := by
  apply count_flatten_of_mapM h
  · intro part hpart
    obtain ⟨nexts, rfl, hcount⟩ := extend_move hsound hstep hlast hpart
    have hinj : Function.Injective fun next : Reference => path ++ [next] := by
      intro a b hab
      simpa using hab
    rw [List.count_map_of_injective nexts _ hinj, hcount]
  · intro other part hpart hmem
    obtain ⟨_, hother⟩ := exists_getLast?_of_extend hpart hmem
    obtain ⟨nexts, rfl, _⟩ := extend_move hsound hstep hother hpart
    obtain ⟨_, _, heq⟩ := List.mem_map.1 hmem
    exact (List.append_inj' heq rfl).1

/-- A run continues a path along a walk as often as the links of the walk are listed. -/
theorem count_walk (hsound : store.IsSound) {query : Query} {fact : Reference} {later : Path}
    (hwalk : store.links.IsWalk query (fact :: later)) {paths found : List Path}
    (h : store.walk query paths = .ok found) (before : Path) :
    found.count (before ++ fact :: later) =
      paths.count (before ++ [fact]) * store.multiplicity query (fact :: later) := by
  generalize hpath : fact :: later = path at hwalk
  induction hwalk generalizing fact later before paths with
  | done last =>
    obtain ⟨rfl, rfl⟩ := List.cons.inj hpath
    rw [walk, Except.ok.injEq] at h
    simp [h, multiplicity]
  | stay hstep hlead _ ih =>
    obtain ⟨rfl, rfl⟩ := List.cons.inj hpath
    obtain ⟨extended, hextended, hrest⟩ := walk_cons_eq_ok.1 h
    rw [ih hrest before rfl, multiplicity_stay hstep,
      count_mapM_stay hsound hstep hextended List.getLast?_concat hlead]
  | move hstep hlead _ ih =>
    obtain ⟨rfl, rfl⟩ := List.cons.inj hpath
    obtain ⟨extended, hextended, hrest⟩ := walk_cons_eq_ok.1 h
    rw [List.append_cons, ih hrest _ rfl, multiplicity_move hstep,
      count_mapM_move hsound hstep hextended List.getLast?_concat, Nat.mul_assoc]

/-- A run only continues paths, along walks. -/
theorem isWalk_of_mem_walk (hsound : store.IsSound) {query : Query} {paths found : List Path}
    (hpaths : ∀ path ∈ paths, path ≠ []) (h : store.walk query paths = .ok found) {path : Path}
    (hmem : path ∈ found) :
    ∃ before fact later, path = before ++ fact :: later ∧ before ++ [fact] ∈ paths ∧
      store.links.IsWalk query (fact :: later) := by
  induction query generalizing paths with
  | nil =>
    rw [walk, Except.ok.injEq] at h
    subst h
    have hsplit := List.dropLast_concat_getLast (hpaths path hmem)
    refine ⟨path.dropLast, path.getLast (hpaths path hmem), [], hsplit.symm, ?_,
      Links.IsWalk.done _⟩
    rwa [hsplit]
  | cons step rest ih =>
    obtain ⟨extended, hextended, hrest⟩ := walk_cons_eq_ok.1 h
    have hnext : ∀ longer ∈ extended.flatten, longer ≠ [] := by
      intro longer hlonger
      obtain ⟨_, _, part, hpart, hpath⟩ := (mem_flatten_of_mapM hextended).1 hlonger
      exact ne_nil_of_extend hpart longer hpath
    obtain ⟨before, next, later, rfl, hlonger, hwalk⟩ := ih hnext hrest
    obtain ⟨first, hfirst, part, hpart, hmem⟩ := (mem_flatten_of_mapM hextended).1 hlonger
    obtain ⟨fact, hlast⟩ := exists_getLast?_of_extend hpart hmem
    cases hstep : step.isJoin with
    | false =>
      rcases extend_stay hsound hstep hlast hpart with ⟨hlead, rfl⟩ | ⟨_, rfl⟩
      · obtain rfl := List.mem_singleton.1 hmem
        obtain rfl : next = fact := by simpa using hlast
        exact ⟨before, next, later, rfl, hfirst, hwalk.stay hstep hlead⟩
      · cases hmem
    | true =>
      obtain ⟨nexts, rfl, hcount⟩ := extend_move hsound hstep hlast hpart
      obtain ⟨_, hnexts, heq⟩ := List.mem_map.1 hmem
      obtain ⟨rfl, hsame⟩ := List.append_inj' heq rfl
      obtain rfl := (List.cons.inj hsame).1
      have hlead : store.links.StepLeads step fact _ :=
        (hsound.timesTaken_pos_iff hstep).1 (hcount _ ▸ List.count_pos_iff.2 hnexts)
      obtain ⟨shorter, rfl⟩ := List.getLast?_eq_some_iff.1 hlast
      exact ⟨shorter, fact, _ :: later, by simp, hfirst, hwalk.move hstep hlead⟩

theorem count_evaluate (hsound : store.IsSound) {start : Reference} {query : Query}
    {paths : List Path} (h : store.evaluate start query = .ok paths) {path : Path}
    (hhead : path.head? = some start) (hwalk : store.links.IsWalk query path) :
    paths.count path = store.multiplicity query path := by
  obtain ⟨later, rfl⟩ := List.head?_eq_some_iff.1 hhead
  have hcount := count_walk hsound hwalk h []
  simpa using hcount

theorem mem_evaluate_iff (hsound : store.IsSound) {start : Reference} {query : Query}
    {paths : List Path} (h : store.evaluate start query = .ok paths) {path : Path} :
    path ∈ paths ↔ path.head? = some start ∧ store.links.IsWalk query path := by
  constructor
  · intro hmem
    obtain ⟨before, fact, later, rfl, hstart, hwalk⟩ :=
      isWalk_of_mem_walk hsound (by simp) h hmem
    have hsame : before ++ [fact] = [] ++ [start] := List.mem_singleton.1 hstart
    obtain ⟨rfl, hfact⟩ := List.append_inj' hsame rfl
    obtain rfl := (List.cons.inj hfact).1
    exact ⟨rfl, hwalk⟩
  · rintro ⟨hhead, hwalk⟩
    rw [← List.count_pos_iff, count_evaluate hsound h hhead hwalk]
    exact hsound.multiplicity_pos hwalk

/-- A walk of a part of the query comes to a fact that is not stored and has to move on to the
predecessors of that fact, or a condition that it comes to cannot be checked for this reason. -/
inductive Strands (store : Store) : Query → Reference → Prop
  | move {before after : Query} {role : String} {path : Path} {start last : Reference} :
      store.links.IsWalk before path → path.head? = some start → path.getLast? = some last →
      store.contains last = false → Strands store (before ++ .predecessor role :: after) start
  | check {before after : Query} {quantifier : Quantifier} {steps : List Step} {path : Path}
      {start last : Reference} :
      store.links.IsWalk before path → path.head? = some start → path.getLast? = some last →
      Strands store steps last →
      Strands store (before ++ .existential quantifier steps :: after) start

theorem Strands.cons {step : Step} {rest : Query} {fact next : Reference}
    (hlead : store.links.StepLeads step fact next) (h : store.Strands rest next) :
    store.Strands (step :: rest) fact := by
  cases h with
  | move hwalk hhead hlast hlacks =>
    obtain ⟨later, rfl⟩ := List.head?_eq_some_iff.1 hhead
    obtain ⟨longer, hlonger, hsame⟩ := Links.IsWalk.exists_cons hlead hwalk
    exact move hlonger rfl (hsame.trans hlast) hlacks
  | check hwalk hhead hlast hinner =>
    obtain ⟨later, rfl⟩ := List.head?_eq_some_iff.1 hhead
    obtain ⟨longer, hlonger, hsame⟩ := Links.IsWalk.exists_cons hlead hwalk
    exact check hlonger rfl (hsame.trans hlast) hinner

theorem fails_of_leads {before : Query} {step : Step} {after : Query} {start last : Reference}
    (hleads : store.links.Leads before start last) (hfails : store.StepFails step last) :
    store.Fails (before ++ step :: after) start := by
  induction before generalizing start with
  | nil =>
    obtain rfl := Links.leads_nil.1 hleads
    exact fails_cons.2 (Or.inl hfails)
  | cons first rest ih =>
    obtain ⟨next, hlead, hrest⟩ := Links.leads_cons.1 hleads
    exact fails_cons.2 (Or.inr ⟨next, hlead, ih hrest⟩)

theorem strands_of_fails {query : Query} {start : Reference} (h : store.Fails query start) :
    store.Strands query start := by
  induction query using Query.nested_induction generalizing start with
  | conditions query ih =>
    induction query generalizing start with
    | nil => simp [Fails] at h
    | cons step rest ihrest =>
      rcases fails_cons.1 h with hstep | ⟨next, hlead, hrest⟩
      · cases step with
        | field type => cases hstep
        | successor role => cases hstep
        | predecessor role =>
          exact @Strands.move store [] rest role [start] start start (Links.IsWalk.done start)
            rfl rfl hstep
        | existential quantifier steps =>
          have hinner := ih quantifier steps List.mem_cons_self hstep
          exact @Strands.check store [] rest quantifier steps [start] start start
            (Links.IsWalk.done start) rfl rfl hinner
      · apply Strands.cons hlead
        exact ihrest (fun q steps hmem => ih q steps (List.mem_cons_of_mem _ hmem)) hrest

/-- A run fails exactly if it is stranded. -/
theorem fails_iff_strands {query : Query} {start : Reference} :
    store.Fails query start ↔ store.Strands query start := by
  refine ⟨strands_of_fails, fun h => ?_⟩
  induction h with
  | move hwalk hhead hlast hlacks =>
    exact fails_of_leads (Links.leads_iff_exists_isWalk.2 ⟨_, hwalk, hhead, hlast⟩) hlacks
  | check hwalk hhead hlast _ ih =>
    exact fails_of_leads (Links.leads_iff_exists_isWalk.2 ⟨_, hwalk, hhead, hlast⟩) ih

theorem evaluate_isError_iff (hsound : store.IsSound) {start : Reference} {query : Query} :
    (∃ missing, store.evaluate start query = .error missing) ↔ store.Strands query start := by
  rw [← fails_iff_strands, ← not_iff_not, ← evaluate_isOk_iff hsound]
  cases store.evaluate start query <;> simp

/-- Of whatever records were saved and in whatever order: a query finds its walks from the start,
each as often as the links along it are listed, and fails exactly if one of them is stranded. -/
theorem evaluate_walks_of_saves {records : List Record}
    (hkeyed : ∀ record ∈ records, record.IsKeyed) (start : Reference) (query : Query) :
    (∀ paths, (ofRecords records).evaluate start query = .ok paths →
      ∀ path,
        (path ∈ paths ↔ path.head? = some start ∧ (ofRecords records).links.IsWalk query path) ∧
        (path ∈ paths → paths.count path = (ofRecords records).multiplicity query path ∧
          path.length = query.countP Step.isJoin + 1)) ∧
      ((∃ missing, (ofRecords records).evaluate start query = .error missing) ↔
        (ofRecords records).Strands query start) := by
  have hsound := isSound_ofRecords hkeyed
  refine ⟨fun paths hpaths path => ?_, evaluate_isError_iff hsound⟩
  have hmem : path ∈ paths ↔
      path.head? = some start ∧ (ofRecords records).links.IsWalk query path :=
    mem_evaluate_iff hsound hpaths
  refine ⟨hmem, fun hpath => ?_⟩
  obtain ⟨hhead, hwalk⟩ := hmem.1 hpath
  exact ⟨count_evaluate hsound hpaths hhead hwalk, hwalk.length_eq⟩

namespace Shelves

def book : Record := ⟨"Book", "walden", [], []⟩

def shelf : Record := ⟨"Shelf", "attic", [], [("books", .many [book.reference, book.reference])]⟩

def neighbours : Query := [.successor "books", .field "Shelf", .predecessor "books"]

end Shelves

open Shelves in
/-- On a shelf that lists a book twice, and that arrives before the book, the walk from the book to
itself is found once for each of the four choices. -/
theorem evaluate_walks_shelf :
    ∃ paths, (ofRecords [shelf, book]).evaluate book.reference neighbours = .ok paths ∧
      (ofRecords [shelf, book]).links.IsWalk neighbours
        [book.reference, shelf.reference, book.reference] ∧
      paths.count [book.reference, shelf.reference, book.reference] = 4 := by
  have hfound : (ofRecords [shelf, book]).evaluate book.reference neighbours =
      .ok (List.replicate 4 [book.reference, shelf.reference, book.reference]) := by decide
  have hkeyed : ∀ record ∈ [shelf, book], record.IsKeyed := by decide
  obtain ⟨hwalks, _⟩ := evaluate_walks_of_saves hkeyed book.reference neighbours
  obtain ⟨hmem, hcount⟩ := hwalks _ hfound [book.reference, shelf.reference, book.reference]
  have hpath : [book.reference, shelf.reference, book.reference] ∈
      List.replicate 4 [book.reference, shelf.reference, book.reference] := by decide
  refine ⟨_, hfound, (hmem.1 hpath).2, ?_⟩
  rw [(hcount hpath).1]
  decide

end Store

end LiveFacts
