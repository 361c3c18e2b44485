import LiveFacts.Proofs.Node.Maintenance
import LiveFacts.Proofs.Query.Turns

/-!
# Watches from a start that is not stored yet

A watch may be asked for before its start is stored. If its query moves to predecessors first, the
lookup that is to give it its first results fails, and when the start arrives no inverse is about
what it names. The watch then has the results that some walk reaches by a move to a successor that
came with the start or after it, and misses the others.
-/

namespace LiveFacts

namespace Links

variable {old new : Links} {query : Query} {start fact other result : Reference}

theorem Grows.leads_iff_of_isPlain (grows : old.Grows new fact) (hplain : query.isPlain = true)
    (hstart : start ≠ fact) :
    new.Leads query start result ↔
      old.Leads query start result ∨ new.Arrives query start fact result := by
  constructor
  · intro hnew
    by_cases hold : old.Leads query start result
    · exact Or.inl hold
    · exact Or.inr (grows.exists_arrival hplain hstart hnew hold)
  · rintro (hold | harrives)
    · exact grows.leads_of_isPlain hplain hold
    · exact harrives.leads

theorem Grows.arrives_of_isPlain (grows : old.Grows new fact) (hplain : query.isPlain = true)
    (h : old.Arrives query start other result) : new.Arrives query start other result := by
  obtain ⟨before, role, rest, middle, rfl, hbefore, hlink, hrest⟩ := h
  rw [Query.isPlain_append, Bool.and_eq_true] at hplain
  exact ⟨before, role, rest, middle, rfl, grows.leads_of_isPlain hplain.1 hbefore,
    grows.kept hlink, grows.leads_of_isPlain (Query.isPlain_of_cons hplain.2) hrest⟩

/-- A walk that arrives at a fact was possible before, or arrives at the new fact as well. -/
theorem Grows.arrives_or_arrives (grows : old.Grows new fact) (hplain : query.isPlain = true)
    (hstart : start ≠ fact) (h : new.Arrives query start other result) :
    old.Arrives query start other result ∨ new.Arrives query start fact result := by
  obtain ⟨before, role, rest, middle, rfl, hbefore, hlink, hrest⟩ := h
  have hparts := hplain
  rw [Query.isPlain_append, Bool.and_eq_true] at hparts
  by_cases hother : other = fact
  · subst hother
    exact Or.inr ⟨before, role, rest, middle, rfl, hbefore, hlink, hrest⟩
  by_cases holdBefore : old.Leads before start middle
  · by_cases holdRest : old.Leads rest other result
    · exact Or.inl
        ⟨before, role, rest, middle, rfl, holdBefore, grows.others hlink hother, holdRest⟩
    · obtain ⟨first, role', last, middle', rfl, hfirst, hlink', hlast⟩ :=
        grows.exists_arrival (Query.isPlain_of_cons hparts.2) hother hrest holdRest
      refine Or.inr ⟨before ++ .successor role :: first, role', last, middle', by simp, ?_, hlink',
        hlast⟩
      exact leads_append.2
        ⟨middle, hbefore, leads_cons.2 ⟨other, stepLeads_successor.2 hlink, hfirst⟩⟩
  · obtain ⟨first, role', last, middle', rfl, hfirst, hlink', hlast⟩ :=
      grows.exists_arrival hparts.1 hstart hbefore holdBefore
    refine Or.inr ⟨first, role', last ++ .successor role :: rest, middle', by simp, hfirst, hlink',
      ?_⟩
    exact leads_append.2
      ⟨middle, hlast, leads_cons.2 ⟨other, stepLeads_successor.2 hlink, hrest⟩⟩

end Links

namespace Store

variable {store : Store} {query : Query} {start fact result : Reference} {record : Record}

/-- In a closed store a query without conditions finds what it leads to, also from a fact that is
not stored. -/
theorem finds_iff_of_isPlain (hsound : store.IsSound) (hclosed : store.IsClosed)
    (hplain : query.isPlain = true) :
    store.Finds query start result ↔ store.links.Leads query start result := by
  rw [finds_iff hsound]
  refine and_iff_right_of_imp fun h => ?_
  cases hstart : store.contains start with
  | true => exact not_fails_of_isClosed hsound hclosed query hstart
  | false =>
    have hunlinked : ∀ {a b role}, store.links a role b → a ≠ start ∧ b ≠ start := by
      intro a b role hlink
      constructor
      · rintro rfl
        rw [contains_of_links hlink] at hstart
        cases hstart
      · rintro rfl
        rw [hclosed.contains_of_links hsound hlink] at hstart
        cases hstart
    induction query with
    | nil => simp [Fails]
    | cons step rest ih =>
      obtain ⟨next, hstep, hrest⟩ := Links.leads_cons.1 h
      cases step with
      | field type =>
        obtain ⟨rfl, htype⟩ := Links.stepLeads_field.1 hstep
        rw [fails_cons]
        rintro (hfails | ⟨same, hsame, hfails⟩)
        · exact hfails
        · obtain ⟨rfl, -⟩ := Links.stepLeads_field.1 hsame
          exact ih (Query.isPlain_of_cons hplain) hrest hfails
      | successor role => exact absurd rfl (hunlinked (Links.stepLeads_successor.1 hstep)).2
      | predecessor role => exact absurd rfl (hunlinked (Links.stepLeads_predecessor.1 hstep)).1
      | existential quantifier steps => exact absurd hplain Query.not_isPlain_existential

def storedBefore (store : Store) (fact : Reference) : List Reference :=
  (store.records.map Record.reference).takeWhile (· ≠ fact)

theorem contains_of_mem_storedBefore {other : Reference} (h : other ∈ store.storedBefore fact) :
    store.contains other = true := by
  obtain ⟨record, hrecord, hreference⟩ := List.mem_map.1 (List.takeWhile_subset _ h)
  exact contains_iff.2 ⟨record, hrecord, hreference⟩

theorem not_mem_storedBefore_self : fact ∉ store.storedBefore fact := by
  intro h
  simpa using List.mem_takeWhile_imp h

theorem storedBefore_save_of_contains (hfact : store.contains fact = true) :
    (store.save record).storedBefore fact = store.storedBefore fact := by
  obtain ⟨added, hadded⟩ := records_grow_save store record
  obtain ⟨stored, hstored, hreference⟩ := contains_iff.1 hfact
  have hshort : ((store.records.map Record.reference).takeWhile (· ≠ fact)).length ≠
      (store.records.map Record.reference).length := by
    intro hlength
    have hall := (List.takeWhile_prefix (· ≠ fact)).eq_of_length hlength
    have hmem : fact ∈ store.records.map Record.reference :=
      List.mem_map.2 ⟨stored, hstored, hreference⟩
    simpa using List.takeWhile_eq_self_iff.1 hall fact hmem
  rw [storedBefore, ← hadded, List.map_append, List.takeWhile_append, if_neg hshort, storedBefore]

/-- When a record is saved, all that is stored is stored before it. -/
theorem mem_storedBefore_save_self (hnew : store.contains record.reference = false)
    (hfact : store.contains fact = true) :
    fact ∈ (store.save record).storedBefore record.reference := by
  obtain ⟨stored, hstored, rfl⟩ := contains_iff.1 hfact
  have hother : ∀ other ∈ store.records.map Record.reference,
      decide (other ≠ record.reference) = true := by
    intro other hmem
    obtain ⟨record', hrecord', rfl⟩ := List.mem_map.1 hmem
    refine decide_eq_true fun heq => ?_
    rw [contains_iff.2 ⟨record', hrecord', heq⟩] at hnew
    cases hnew
  rw [storedBefore, records_save_of_new hnew, List.map_append, List.takeWhile_append_of_pos hother]
  exact List.mem_append_left _ (List.mem_map_of_mem hstored)

/-- Some walk to the result moves to a successor that came with the start or after it. -/
def Recovers (store : Store) (query : Query) (start result : Reference) : Prop :=
  ∃ fact, fact ∉ store.storedBefore start ∧ store.links.Arrives query start fact result

/-- The results of an early watch when another record has come. -/
theorem Admits.recovers_save_iff (hadmits : store.Admits record) (hplain : query.isPlain = true)
    (hstart : store.contains start = true) :
    (store.save record).Recovers query start result ↔
      store.Recovers query start result ∨
        (store.save record).links.Arrives query start record.reference result := by
  have hne := hadmits.ne_of_contains hstart
  have hbefore : (store.save record).storedBefore start = store.storedBefore start :=
    storedBefore_save_of_contains hstart
  rw [Recovers, hbefore]
  constructor
  · rintro ⟨fact, hfact, harrives⟩
    exact (hadmits.grows.arrives_or_arrives hplain hne harrives).imp_left fun hold =>
      ⟨fact, hfact, hold⟩
  · rintro (⟨fact, hfact, harrives⟩ | harrives)
    · exact ⟨fact, hfact, hadmits.grows.arrives_of_isPlain hplain harrives⟩
    · refine ⟨record.reference, fun hmem => ?_, harrives⟩
      have hcontains := contains_of_mem_storedBefore hmem
      rw [hadmits.new] at hcontains
      cases hcontains

/-- When the start itself comes, a result is recovered by a walk that comes back to the start. -/
theorem Admits.recovers_save_self_iff (hadmits : store.Admits record) :
    (store.save record).Recovers query record.reference result ↔
      (store.save record).links.Arrives query record.reference record.reference result := by
  constructor
  · rintro ⟨fact, hfact, harrives⟩
    obtain ⟨before, role, rest, middle, -, -, hlink, -⟩ := id harrives
    rcases hadmits.contains_save_iff.1 (contains_of_links hlink) with hold | rfl
    · exact absurd (mem_storedBefore_save_self hadmits.new hold) hfact
    · exact harrives
  · exact fun harrives => ⟨record.reference, not_mem_storedBefore_self, harrives⟩

/-- What a watch has: what its query leads to, but if the start came after the watch and the query
moves to predecessors first, only what is recovered. -/
def Shows (known : Prop) (query : Query) (start : Reference) (store : Store)
    (result : Reference) : Prop :=
  store.links.Leads query start result ∧
    (known ∨ query.descends = false ∨ store.contains start = false ∨
      store.Recovers query start result)

theorem Admits.shows_save_iff (hadmits : store.Admits record) (hplain : query.isPlain = true)
    {known : Prop} (hknown : known → store.contains start = true) :
    Shows known query start (store.save record) result ↔
      Shows known query start store result ∨
        (store.save record).links.Arrives query start record.reference result := by
  by_cases hself : start = record.reference
  · subst hself
    have hunknown : ¬ known := fun h => hadmits.ne_of_contains (hknown h) rfl
    have hcontains := hadmits.contains_save_iff.2 (Or.inr rfl)
    cases hdescends : query.descends with
    | false =>
      have hleads : (store.save record).links.Leads query record.reference result ↔
          store.links.Leads query record.reference result ∨
            (store.save record).links.Arrives query record.reference record.reference result := by
        constructor
        · intro h
          exact Or.inl (Links.leads_of_descends_eq_false hadmits.grows.unnamed hplain hdescends h)
        · rintro (hold | harrives)
          · exact hadmits.grows.leads_of_isPlain hplain hold
          · exact harrives.leads
      simpa [Shows, hdescends] using hleads
    | true =>
      have hnone : ¬ store.links.Leads query record.reference result :=
        Links.not_leads_of_descends hadmits.grows.fresh hplain hdescends
      simp only [Shows, hunknown, hdescends, hcontains, hnone, hadmits.recovers_save_self_iff,
        false_and, false_or, reduceCtorEq]
      exact and_iff_right_of_imp Links.Arrives.leads
  · have hleads : (store.save record).links.Leads query start result ↔
        store.links.Leads query start result ∨
          (store.save record).links.Arrives query start record.reference result :=
      hadmits.grows.leads_iff_of_isPlain hplain hself
    cases hstart : store.contains start with
    | true =>
      have hcontains := hadmits.contains_save_iff.2 (Or.inl hstart)
      simp only [Shows, hleads, hstart, hcontains, hadmits.recovers_save_iff hplain hstart,
        reduceCtorEq, false_or]
      grind
    | false =>
      have hcontains : (store.save record).contains start = false := by
        rw [← Bool.not_eq_true, hadmits.contains_save_iff, hstart]
        simp [hself]
      simpa [Shows, hstart, hcontains] using hleads

end Store

namespace World

open Node

variable {start : Reference} {query : Query} {listener : Listener} {known : Prop}

structure Awaits (known : Prop) (start : Reference) (query : Query) (listener : Listener)
    (store : Store) (watch : Watch) : Prop extends watch.Follows start query listener where
  stored : known → store.contains start = true
  results : watch.isStopped = false → watch.HasResults (Store.Shows known query start store)

theorem keptBySaves_awaits (hplain : query.isPlain = true) (hpanics : listener.NeverPanics) :
    KeptBySaves (Awaits known start query listener) := by
  rintro store record watch taken hadmits htakes ⟨hfollows, hstored, hresults⟩
  have hfollows' := hfollows.takeAll taken
  obtain ⟨rfl, rfl, rfl⟩ := hfollows
  refine ⟨hfollows', fun h =>
    Store.contains_of_grown (Store.records_grow_save store record) (hstored h), fun hactive => ?_⟩
  obtain ⟨hnodup, hmem⟩ := hresults (Watch.isStopped_of_takeAll hactive)
  refine ⟨Watch.nodup_results_takeAll hnodup taken, fun result => ?_⟩
  rw [htakes.mem_results hplain hpanics hactive hnodup, hmem,
    Links.reports_added_iff_of_isPlain hadmits.grows.unnamed hplain,
    hadmits.shows_save_iff hplain hstored]

theorem Awaits.stop {store : Store} {watch : Watch}
    (h : Awaits known start query listener store watch) :
    Awaits known start query listener store watch.stop :=
  ⟨⟨h.start_eq, h.query_eq, h.listener_eq⟩, h.stored, nofun⟩

/-- A watch shows what it can after every run, whether or not its start was stored when it began. -/
theorem exists_awaits {name : String} {opened final : World} {later : List Call}
    (hopened : (opened.node name).IsSettled) (hplain : query.isPlain = true)
    (hpanics : listener.NeverPanics)
    (hlater : Run name (opened.watch name start query listener).1 later final) :
    ∃ id early, (opened.watch name start query listener).2 = .handle id ∧
      (final.node name).watch? id = some early ∧
      Awaits ((opened.node name).facts.contains start = true) start query listener
        (final.node name).facts early := by
  obtain ⟨houtcome, first, hfirst, hfollows, -, ⟨hnodup, hseeded⟩, -⟩ :=
    exists_seeded hopened.isReady hopened.network? start query hpanics
  obtain ⟨hwatched, hfacts, -⟩ := watch_frame hopened start query listener
  have hbegin : Awaits ((opened.node name).facts.contains start = true) start query listener
      ((opened.watch name start query listener).1.node name).facts first := by
    rw [hfacts]
    refine ⟨hfollows, id, fun _ => ⟨hnodup, fun result => ?_⟩⟩
    rw [hseeded, Store.finds_iff_of_isPlain hopened.sound hopened.closed hplain, Store.Shows]
    cases (opened.node name).facts.contains start <;> simp
  obtain ⟨early, hearly, hawaits⟩ := hlater.preserves hwatched
    (keptBySaves_awaits hplain hpanics) (fun _ _ _ h => h.stop) hfirst hbegin
  exact ⟨_, early, houtcome, hearly, hawaits⟩

/-- Of a query without conditions an early watch has, when its start is stored, true results only.
It has those that a late watch has, from the same start and with the same query, if the start was
stored when it began, or the query does not move to predecessors first, and otherwise if all are
recovered. -/
theorem early_results_iff {config : Config} {node : Node}
    (hnode : Node.ofConfig? config = some node) {name : String} {world : World}
    (hworld : world.node name = node) {earlier : List Call} {opened : World}
    (hearlier : Run name world earlier opened) (start : Reference)
    (hplain : query.isPlain = true) (hpanics : listener.NeverPanics) {listener' : Listener}
    (hpanics' : listener'.NeverPanics) {later : List Call} {final : World}
    (hlater : Run name (opened.watch name start query listener).1 later final)
    (hstart : (final.node name).facts.contains start = true) :
    ∃ id id' early late found,
      (opened.watch name start query listener).2 = .handle id ∧
      (final.watch name start query listener').2 = .handle id' ∧
      ((final.watch name start query listener').1.node name).watch? id = some early ∧
      ((final.watch name start query listener').1.node name).watch? id' = some late ∧
      (final.node name).facts.evaluate start query = .ok found ∧
      late.results.Perm (terminals found) ∧
      (early.isStopped = false →
        (∀ result, result ∈ early.results ↔ result ∈ terminals found ∧
          ((opened.node name).facts.contains start = true ∨ query.descends = false ∨
            (final.node name).facts.Recovers query start result)) ∧
        (early.results.Perm late.results ↔
          (opened.node name).facts.contains start = true ∨ query.descends = false ∨
            ∀ result ∈ terminals found,
              (final.node name).facts.Recovers query start result)) := by
  have hopened : (opened.node name).IsSettled :=
    hearlier.isSettled (hworld ▸ isSettled_of_ofConfig? hnode)
  obtain ⟨id, early, houtcome, hearly, hawaits⟩ := exists_awaits hopened hplain hpanics hlater
  obtain ⟨hwatched, -, -⟩ := watch_frame hopened start query listener
  have hfinal := hlater.isSettled hwatched
  obtain ⟨found, hfound, hmem⟩ :=
    Store.exists_evaluate hfinal.sound hfinal.closed hstart query
  obtain ⟨houtcome', late, hlate, -, -, -, -, hresults, -⟩ :=
    exists_seeded_watch hfinal hpanics' hfound
  have hperm : late.results.Perm (terminals found) := hresults.perm hfinal.sound hfound
  obtain ⟨-, -, hkept⟩ := watch_frame hfinal start query listener'
  refine ⟨id, _, early, late, found, houtcome, houtcome', hkept hearly, hlate, hfound, hperm,
    fun hactive => ?_⟩
  obtain ⟨hnodupEarly, hshows⟩ := hawaits.results hactive
  have hhas : ∀ result, result ∈ early.results ↔ result ∈ terminals found ∧
      ((opened.node name).facts.contains start = true ∨ query.descends = false ∨
        (final.node name).facts.Recovers query start result) := by
    intro result
    rw [hshows, Store.Shows, hstart, hmem]
    simp
  refine ⟨hhas, ?_⟩
  have hsame : early.results.Perm late.results ↔ early.results.Perm (terminals found) :=
    ⟨fun h => h.trans hperm, fun h => h.trans hperm.symm⟩
  rw [hsame, List.perm_ext_iff_of_nodup hnodupEarly (nodup_terminals found)]
  simp only [hhas, and_iff_left_iff_imp]
  constructor
  · intro hall
    by_cases hcomplete : (opened.node name).facts.contains start = true ∨ query.descends = false
    · exact or_assoc.1 (Or.inl hcomplete)
    · rw [not_or] at hcomplete
      exact Or.inr (Or.inr fun result hresult =>
        ((hall result hresult).resolve_left hcomplete.1).resolve_left hcomplete.2)
  · rintro (hstored | hdescends | hrecovers) result hresult
    · exact Or.inl hstored
    · exact Or.inr (Or.inl hdescends)
    · exact Or.inr (Or.inr (hrecovers result hresult))

namespace Errands

def listOfTask : Query := [.predecessor "list"]

def siblings : Query := [.predecessor "list", .successor "list"]

def taskDocument : Json :=
  .object [("list", .object [("type", .string "List")]), ("type", .string "Task")]

theorem dehydrate_task : Document.dehydrateFact [] taskDocument =
    .ok ([list, task], task.reference) := by
  decide +kernel

theorem isKeyed_taskDocument : taskDocument.isKeyed = true := by decide

def awaited (query : Query) : World :=
  ((World.watch "a" task.reference query .quiet {}).1.fact "a" taskDocument).1

theorem run_awaited (query : Query) :
    Run "a" (World.watch "a" task.reference query .quiet {}).1 [.fact taskDocument]
      (awaited query) :=
  Run.cons (Performs.fact isKeyed_taskDocument (makes_fact "a" taskDocument _)) (Run.nil _)

/-- The walk to the tasks of its list comes back to the task when the task comes, so the watch has
what a late watch has. -/
theorem siblings_recovered :
    ∃ id id' early late,
      (World.watch "a" task.reference siblings .quiet {}).2 = .handle id ∧
      ((awaited siblings).watch "a" task.reference siblings .quiet).2 = .handle id' ∧
      (((awaited siblings).watch "a" task.reference siblings .quiet).1.node "a").watch? id =
        some early ∧
      (((awaited siblings).watch "a" task.reference siblings .quiet).1.node "a").watch? id' =
        some late ∧
      early.results.Perm late.results ∧ late.results = [task.reference] := by
  have hnode : Node.ofConfig? {} = some {} := rfl
  have hquiet := Listener.neverPanics_quiet
  obtain ⟨hwatching, hsame, -⟩ := watch_frame isSettled_fresh task.reference siblings .quiet
  have hlater := run_awaited siblings
  have hfacts : ((awaited siblings).node "a").facts = [list, task].foldl Store.save {} := by
    rw [awaited, (makes_fact "a" taskDocument _).facts_eq isKeyed_taskDocument hwatching
      dehydrate_task, hsame]
    rfl
  have hstart : ((awaited siblings).node "a").facts.contains task.reference = true := by
    rw [hfacts]
    decide
  have hplain : siblings.isPlain = true := by decide
  obtain ⟨id, id', early, late, found, houtcome, houtcome', hearly, hlate, hfound, hperm,
    hresults⟩ := early_results_iff hnode rfl (Run.nil _) task.reference hplain hquiet hquiet
      hlater hstart
  obtain ⟨hfirst, first, hwatch, hfollows, hactive, -⟩ :=
    exists_seeded isSettled_fresh.isReady isSettled_fresh.network? task.reference siblings hquiet
  rw [← WatchOutcome.handle.inj (houtcome.symm.trans hfirst)] at hwatch
  obtain ⟨still, hstill, hactive'⟩ := hlater.exists_active hwatching
    (hfollows.listener_eq ▸ Listener.neverStops_quiet) (show Call.stop id ∉ _ by simp) hwatch
    hactive
  obtain ⟨-, -, hkept⟩ := watch_frame (hlater.isSettled hwatching) task.reference siblings .quiet
  have hearly' : early = still := Option.some.inj (hearly.symm.trans (hkept hstill))
  have hone : (Store.evaluate ([list, task].foldl Store.save {}) task.reference siblings) =
      .ok [[task.reference, list.reference, task.reference]] := by decide
  rw [hfacts] at hfound
  rw [Except.ok.inj (hfound.symm.trans hone)] at hperm hresults
  have hlink : Store.links ([list, task].foldl Store.save {}) task.reference "list"
      list.reference := ⟨task, by decide, rfl, by decide⟩
  have hrecovers : Store.Recovers ([list, task].foldl Store.save {}) siblings task.reference
      task.reference := by
    refine ⟨task.reference, Store.not_mem_storedBefore_self, [.predecessor "list"], "list", [],
      list.reference, rfl, ?_, hlink, Links.leads_nil.2 rfl⟩
    exact Links.leads_singleton.2 (Links.stepLeads_predecessor.2 hlink)
  refine ⟨id, id', early, late, houtcome, houtcome', hearly, hlate, ?_,
    List.perm_singleton.1 hperm⟩
  refine ((hresults (hearly' ▸ hactive')).2).2 (Or.inr (Or.inr fun result hresult => ?_))
  have hresult' : result = task.reference := List.mem_singleton.1 hresult
  rw [hfacts, hresult']
  exact hrecovers

theorem awaited_eq : awaited listOfTask =
    World.relay "a" [list, task]
      (World.setNode "a" (((World.watch "a" task.reference listOfTask .quiet {}).1.node
        "a").saveAll [list, task]).1 (World.watch "a" task.reference listOfTask .quiet {}).1) := by
  have hsave : (((World.watch "a" task.reference listOfTask .quiet {}).1.node "a").saveAll
      [list, task]).2 = .ok 2 := by decide +kernel
  rw [awaited, fst_fact_of_new dehydrate_task (by decide) hsave]

/-- A watch for the list of a task has nothing, although the task has come with its list, and a late
watch has the list. -/
theorem listOfTask_missed :
    Run "a" (World.watch "a" task.reference listOfTask .quiet {}).1 [.fact taskDocument]
        (awaited listOfTask) ∧
      ((awaited listOfTask).node "a").facts.contains task.reference = true ∧
      ((((awaited listOfTask).watch "a" task.reference listOfTask .quiet).1.node "a").phase 1) =
        .live ∧
      ((((awaited listOfTask).watch "a" task.reference listOfTask .quiet).1.node "a").watch?
        1).map Watch.results = some [] ∧
      ((((awaited listOfTask).watch "a" task.reference listOfTask .quiet).1.node "a").watch?
        2).map Watch.results = some [list.reference] := by
  refine ⟨run_awaited listOfTask, ?_⟩
  rw [awaited_eq]
  exact ⟨by decide +kernel, by decide +kernel, by decide +kernel, by decide +kernel⟩

end Errands

end World

end LiveFacts
