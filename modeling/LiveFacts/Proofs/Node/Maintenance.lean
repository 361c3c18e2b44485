import LiveFacts.Proofs.Node.Runs

/-!
# Results are kept up to date

After every call the results of a watch are what its query finds from its start, and its listener
has heard of each difference once. This holds of queries without conditions, and, where no role
names two facts, of queries that only move to successors and have one condition.
-/

namespace LiveFacts

def differences (before after : List Reference) : List Event :=
  (after.filter (· ∉ before)).map (Event.mk .added) ++
    (before.filter (· ∉ after)).map (Event.mk .removed)

theorem perm_differences {told : List Event} {before after : List Reference}
    (htold : told.Nodup) (hbefore : before.Nodup) (hafter : after.Nodup)
    (hadded : ∀ fact, ⟨.added, fact⟩ ∈ told ↔ fact ∈ after ∧ fact ∉ before)
    (hremoved : ∀ fact, ⟨.removed, fact⟩ ∈ told ↔ fact ∈ before ∧ fact ∉ after) :
    told.Perm (differences before after) := by
  have hinjective : ∀ change, Function.Injective (Event.mk change) := by
    intro change a b h
    exact (Event.mk.injEq .. ▸ h).2
  have hnodup : (differences before after).Nodup := by
    refine List.nodup_append.2 ⟨?_, ?_, ?_⟩
    · exact (hafter.filter _).map (hinjective .added)
    · exact (hbefore.filter _).map (hinjective .removed)
    · intro a ha b hb heq
      obtain ⟨fact, -, rfl⟩ := List.mem_map.1 ha
      obtain ⟨other, -, rfl⟩ := List.mem_map.1 hb
      cases heq
  refine (List.perm_ext_iff_of_nodup htold hnodup).2 fun event => ?_
  obtain ⟨change, fact⟩ := event
  cases change with
  | added => simp [differences, hadded]
  | removed => simp [differences, hremoved]

namespace Watch

variable {watch : Watch}

theorem HasResults.perm {store : Store} {start : Reference} {query : Query} {paths : List Path}
    (h : watch.HasResults (store.links.Leads query start)) (hsound : store.IsSound)
    (hpaths : store.evaluate start query = .ok paths) : watch.results.Perm (terminals paths) := by
  refine (List.perm_ext_iff_of_nodup h.1 (nodup_terminals paths)).2 fun fact => ?_
  rw [h.2, Store.mem_terminals_evaluate hsound hpaths]

/-- A watch that is active after a save has taken up what is reported; where that is exact, its
results are brought up to date. -/
theorem Takes.keeps {links : Links} {fact : Reference} {taken : List Event}
    (htakes : watch.Takes links fact taken) (hlistener : watch.listener.NeverPanics)
    (hactive : (watch.takeAll taken).isStopped = false) {old new : Reference → Prop}
    (exact : ExactReports (links.Reports watch.query watch.start fact) old new)
    (hold : watch.HasResults old) :
    (watch.takeAll taken).HasResults new ∧
      ∃ told, (watch.takeAll taken).events = watch.events ++ told ∧ told.Nodup ∧
        (∀ fact, ⟨.added, fact⟩ ∈ told ↔ new fact ∧ ¬ old fact) ∧
        ∀ fact, ⟨.removed, fact⟩ ∈ told ↔ old fact ∧ ¬ new fact := by
  refine takeAll_of_exactReports exact (fun change fact => ?_) hactive hold
  exact ⟨htakes.reported change fact, htakes.all hlistener hactive change fact⟩

end Watch

namespace World

open Node

variable {name : String} {world : World}

/-- A new watch whose listener does not fail has the results that its query finds, none if the
lookup fails, and its listener has heard of each of them once. -/
theorem exists_seeded (hready : (world.node name).IsReady)
    (hnetwork : (world.node name).network? = none) (start : Reference) (query : Query)
    {listener : Listener} (hlistener : listener.NeverPanics) :
    (world.watch name start query listener).2 = .handle ((world.node name).watches.length + 1) ∧
      ∃ watch, ((world.watch name start query listener).1.node name).watch?
          ((world.node name).watches.length + 1) = some watch ∧
        watch.Follows start query listener ∧ watch.isStopped = false ∧
        watch.HasResults ((world.node name).facts.Finds query start) ∧ watch.events.Nodup ∧
        (∀ fact, ⟨.added, fact⟩ ∈ watch.events ↔ fact ∈ watch.results) ∧
        ∀ fact, ⟨.removed, fact⟩ ∉ watch.events := by
  obtain ⟨watch, taken, hwatch, hstart, hquery, hlisten, hstopped, hresults, hevents, hall⟩ :=
    exists_adds hready hnetwork start query listener
  obtain ⟨houtcome, rfl⟩ := hall hlistener
  have hactive : ((beginning world name start query listener).takeAll
      (((world.node name).facts.found query start).map (Event.mk .added))).isStopped = false := by
    rw [Watch.isStopped_takeAll (Or.inl rfl)]
    rfl
  have exact : ExactReports
      (fun change fact => change = .added ∧ (world.node name).facts.Finds query start fact)
      (fun _ => False) ((world.node name).facts.Finds query start) :=
    ⟨fun h => h.2, (fun h => nomatch h.1), fun h _ => ⟨rfl, h⟩, fun h _ => h.elim⟩
  have htaken : ∀ change fact,
      ⟨change, fact⟩ ∈ ((world.node name).facts.found query start).map (Event.mk .added) ↔
        change = .added ∧ (world.node name).facts.Finds query start fact := by
    intro change fact
    rw [Event.mem_map_added, Store.mem_found]
  have hnone : (beginning world name start query listener).HasResults fun _ => False :=
    ⟨List.nodup_nil, by simp [beginning]⟩
  obtain ⟨hhas, told, htold, hnodup, hadded, hremoved⟩ :=
    Watch.takeAll_of_exactReports exact htaken hactive hnone
  have htold' : watch.events = told := hevents.trans htold
  have hmem : ∀ fact, fact ∈ watch.results ↔ (world.node name).facts.Finds query start fact := by
    rw [hresults]
    exact hhas.2
  refine ⟨houtcome, watch, hwatch, ⟨hstart, hquery, hlisten⟩, hstopped.trans hactive,
    ⟨?_, hmem⟩, ?_⟩
  · rw [hresults]
    exact hhas.1
  · rw [htold']
    refine ⟨hnodup, fun fact => ?_, fun fact => by simpa using hremoved fact⟩
    rw [hmem]
    simpa using hadded fact

theorem exists_seeded_watch (hsettled : (world.node name).IsSettled) {start : Reference}
    {query : Query} {listener : Listener} (hlistener : listener.NeverPanics) {paths : List Path}
    (hpaths : (world.node name).facts.evaluate start query = .ok paths) :
    (world.watch name start query listener).2 = .handle ((world.node name).watches.length + 1) ∧
      ∃ watch, ((world.watch name start query listener).1.node name).watch?
          ((world.node name).watches.length + 1) = some watch ∧
        watch.start = start ∧ watch.query = query ∧ watch.listener = listener ∧
        watch.isStopped = false ∧
        watch.HasResults ((world.node name).facts.links.Leads query start) ∧ watch.events.Nodup ∧
        (∀ fact, ⟨.added, fact⟩ ∈ watch.events ↔ fact ∈ watch.results) ∧
        ∀ fact, ⟨.removed, fact⟩ ∉ watch.events := by
  obtain ⟨houtcome, watch, hwatch, ⟨hstart, hquery, hlisten⟩, hactive, ⟨hnodup, hmem⟩, hevents⟩ :=
    exists_seeded hsettled.isReady hsettled.network? start query hlistener
  refine ⟨houtcome, watch, hwatch, hstart, hquery, hlisten, hactive, ⟨hnodup, fun fact => ?_⟩,
    hevents⟩
  rw [hmem, Store.finds_iff_of_evaluate hpaths, Store.mem_terminals_evaluate hsettled.sound hpaths]

theorem Run.exists_active {calls : List Call} {final : World} (h : Run name world calls final)
    (hsettled : (world.node name).IsSettled) {id : Nat} {watch : Watch}
    (hstops : watch.listener.NeverStops) (hstop : Call.stop id ∉ calls)
    (hwatch : (world.node name).watch? id = some watch) (hactive : watch.isStopped = false) :
    ∃ watch', (final.node name).watch? id = some watch' ∧ watch'.isStopped = false := by
  have hkept : KeptBySaves fun _ watch => watch.listener.NeverStops ∧ watch.isStopped = false := by
    rintro store record watch taken - - ⟨hstops, hactive⟩
    have htask : Watch.SameTask (watch.takeAll taken) watch := Watch.sameTask_takeAll taken
    rw [htask.listener, Watch.isStopped_takeAll (Or.inr hstops)]
    exact ⟨hstops, hactive⟩
  obtain ⟨watch', hwatch', -, hactive'⟩ :=
    h.preserves hsettled hkept (fun hmem => absurd hmem hstop) hwatch ⟨hstops, hactive⟩
  exact ⟨watch', hwatch', hactive'⟩

section Climbing

variable {start : Reference} {query : Query} {listener : Listener}

structure IsUpToDate (start : Reference) (query : Query) (listener : Listener) (store : Store)
    (watch : Watch) : Prop extends watch.Follows start query listener where
  active : watch.isStopped = false
  results : store.IsSingleValued → watch.HasResults (store.links.Leads query start)

theorem exactReports_of_admits (start : Reference) (hclimbs : query.climbs = true)
    (hcount : query.countP Step.isCondition ≤ 1) {store : Store} {record : Record}
    (hadmits : store.Admits record) (hsingle : (store.save record).IsSingleValued) :
    ExactReports ((store.save record).links.Reports query start record.reference)
      (store.links.Leads query start) ((store.save record).links.Leads query start) :=
  hadmits.grows.exactReports_of_climbs (hsingle.links (hadmits.sound.save hadmits.keyed)) hclimbs
    hcount

theorem keptBySaves_isUpToDate (hclimbs : query.climbs = true)
    (hcount : query.countP Step.isCondition ≤ 1) (hpanics : listener.NeverPanics)
    (hstops : listener.NeverStops) : KeptBySaves (IsUpToDate start query listener) := by
  rintro store record watch taken hadmits htakes ⟨hfollows, hactive, hresults⟩
  obtain ⟨rfl, rfl, rfl⟩ := id hfollows
  have hstill := Watch.isStopped_takeAll_of_neverStops hactive hstops taken
  refine ⟨hfollows.takeAll taken, hstill, fun hsingle => ?_⟩
  have exact := exactReports_of_admits watch.start hclimbs hcount hadmits hsingle
  have hbefore := hresults (hsingle.of_grown (Store.records_grow_save store record))
  exact (htakes.keeps hpanics hstill exact hbefore).1

/-- One save: the listener hears once of each fact that enters the results and of each that leaves
them. -/
theorem IsUpToDate.save {record : Record} {before after : Node} {new : Bool} {id : Nat}
    {watch : Watch} (h : IsUpToDate start query listener before.facts watch)
    (hclimbs : query.climbs = true) (hcount : query.countP Step.isCondition ≤ 1)
    (hpanics : listener.NeverPanics) (hstops : listener.NeverStops)
    (hsettled : before.IsSettled) (hkeyed : record.IsKeyed)
    (hnamed : ∀ fact ∈ record.named, before.facts.contains fact = true)
    (hsave : Saves record before after new) (hwatch : before.watch? id = some watch)
    (hsingle : after.facts.IsSingleValued) :
    ∃ watch' told found found', after.watch? id = some watch' ∧
      before.facts.evaluate start query = .ok found ∧
      after.facts.evaluate start query = .ok found' ∧ watch'.events = watch.events ++ told ∧
      told.Perm (differences (terminals found) (terminals found')) := by
  obtain ⟨found, hfound⟩ :=
    (Store.evaluate_isOk_iff hsettled.sound).2 (Store.not_fails_of_climbs hclimbs start)
  cases new with
  | false =>
    obtain ⟨rfl, -⟩ := hsave.of_known hsettled
    refine ⟨watch, [], found, found, hwatch, hfound, hfound, by simp, ?_⟩
    refine perm_differences List.nodup_nil (nodup_terminals _) (nodup_terminals _) ?_ ?_
    · simp
    · simp
  | true =>
    obtain ⟨hadmits, hafter, hfacts, htakes⟩ := hsave.of_new hsettled hkeyed hnamed
    obtain ⟨taken, htaken, htake⟩ := htakes hwatch
    obtain ⟨found', hfound'⟩ :=
      (Store.evaluate_isOk_iff hafter.sound).2 (Store.not_fails_of_climbs hclimbs start)
    obtain ⟨⟨rfl, rfl, rfl⟩, hactive, hresults⟩ := h
    have hstill := Watch.isStopped_takeAll_of_neverStops hactive hstops taken
    rw [hfacts] at htake hsingle
    have exact := exactReports_of_admits watch.start hclimbs hcount hadmits hsingle
    have hbefore :=
      hresults (hsingle.of_grown (Store.records_grow_save before.facts record))
    obtain ⟨-, told, htold, hnodup, hadded, hremoved⟩ := htake.keeps hpanics hstill exact hbefore
    refine ⟨_, told, found, found', htaken, hfound, hfound', htold, ?_⟩
    refine perm_differences hnodup (nodup_terminals _) (nodup_terminals _) ?_ ?_
    · intro fact
      rw [hadded, Store.mem_terminals_evaluate hsettled.sound hfound,
        Store.mem_terminals_evaluate hafter.sound hfound', hfacts]
    · intro fact
      rw [hremoved, Store.mem_terminals_evaluate hsettled.sound hfound,
        Store.mem_terminals_evaluate hafter.sound hfound', hfacts]

/-- Of a query that only moves to successors and has one condition at most, a watch keeps exactly
what the query finds, in any run in which no role names two facts; its listener hears once of each
fact that enters the results and of each that leaves them. -/
theorem results_exact_of_climbs {config : Config} {node : Node}
    (hnode : Node.ofConfig? config = some node) {name : String} {world : World}
    (hworld : world.node name = node) (hclimbs : query.climbs = true)
    (hcount : query.countP Step.isCondition ≤ 1) (hpanics : listener.NeverPanics)
    (hstops : listener.NeverStops) (start : Reference) {earlier : List Call} {opened : World}
    (hearlier : Run name world earlier opened) :
    ∃ id, (opened.watch name start query listener).2 = .handle id ∧
      ∀ {later : List Call} {final : World},
        Run name (opened.watch name start query listener).1 later final → Call.stop id ∉ later →
        ((final.node name).facts.IsSingleValued →
          ∃ watch found, (final.node name).watch? id = some watch ∧ watch.isStopped = false ∧
            (final.node name).facts.evaluate start query = .ok found ∧
            watch.results.Perm (terminals found)) ∧
        ∀ {record : Record} {before after : Node} {new : Bool},
          ComesTo name final record before → Saves record before after new →
          after.facts.IsSingleValued →
          ∃ watch watch' told found found', before.watch? id = some watch ∧
            after.watch? id = some watch' ∧ before.facts.evaluate start query = .ok found ∧
            after.facts.evaluate start query = .ok found' ∧ watch'.events = watch.events ++ told ∧
            told.Perm (differences (terminals found) (terminals found')) := by
  have hopened : (opened.node name).IsSettled :=
    hearlier.isSettled (hworld ▸ isSettled_of_ofConfig? hnode)
  have hkept : KeptBySaves (IsUpToDate start query listener) :=
    keptBySaves_isUpToDate hclimbs hcount hpanics hstops
  have finds : ∀ {node : Node}, node.IsSettled →
      ∃ found, node.facts.evaluate start query = .ok found :=
    fun h => (Store.evaluate_isOk_iff h.sound).2 (Store.not_fails_of_climbs hclimbs start)
  obtain ⟨first, hfirst⟩ := finds hopened
  obtain ⟨houtcome, watch, hwatch, hstart, hquery, hlistener, hactive, hhas, -⟩ :=
    exists_seeded_watch hopened hpanics hfirst
  obtain ⟨hwatched, hfacts, -⟩ := watch_frame hopened start query listener
  have hbegin : IsUpToDate start query listener
      ((opened.watch name start query listener).1.node name).facts watch := by
    refine ⟨⟨hstart, hquery, hlistener⟩, hactive, fun _ => ?_⟩
    rw [hfacts]
    exact hhas
  refine ⟨_, houtcome, ?_⟩
  intro later final hlater hstop
  have hfinal := hlater.isSettled hwatched
  obtain ⟨watch', hwatch', hholds⟩ :=
    hlater.preserves hwatched hkept (fun h => absurd h hstop) hwatch hbegin
  constructor
  · intro hsingle
    obtain ⟨found, hfound⟩ := finds hfinal
    exact ⟨watch', found, hwatch', hholds.active, hfound,
      (hholds.results hsingle).perm hfinal.sound hfound⟩
  · intro record before after new hcomes hsave hsingle
    obtain ⟨hbefore, hkeyed, hnamed, hkeep⟩ := hcomes.spec hfinal
    obtain ⟨middle, hmiddle, hupToDate⟩ := hkeep hkept hwatch' hholds
    obtain ⟨watch'', told, found, found', h⟩ := hupToDate.save hclimbs hcount hpanics hstops
      hbefore hkeyed hnamed hsave hmiddle hsingle
    exact ⟨middle, watch'', told, found, found', hmiddle, h⟩

end Climbing

namespace Errands

def list : Record :=
  ⟨"List", "5ea541e58e82ca31cf238faabf95bdc9a18037a4e6baea92adf861588439dadd", [], []⟩

def task : Record :=
  ⟨"Task", "0ed478c70f18f1e94b3f3d543616a20b2b827ae3b8294f4d70ddaee35bac8dff", [],
    [("list", .one list.reference)]⟩

def completion : Record :=
  ⟨"Completion", "004f345d0d0e01ff4bf6504a7495eb87a20b78c96c877e8ead11c439bdd1b8fd", [],
    [("task", .one task.reference)]⟩

def completionDocument : Json :=
  .object
    [("task", .object [("list", .object [("type", .string "List")]), ("type", .string "Task")]),
      ("type", .string "Completion")]

theorem dehydrate_completion : Document.dehydrateFact [] completionDocument =
    .ok ([list, task, completion], completion.reference) := by
  decide +kernel

theorem isKeyed_completionDocument : completionDocument.isKeyed = true := by decide

theorem isSettled_fresh : (World.node {} "a").IsSettled :=
  isSettled_of_ofConfig? (rfl : Node.ofConfig? {} = some {})

def openTasks : Query :=
  [.successor "list", .field "Task",
    .existential .absent [.successor "task", .field "Completion"]]

def watching : World :=
  (World.watch "a" list.reference openTasks .quiet {}).1

/-- A task is open until its completion arrives. -/
theorem openTasks_exact :
    ∃ id, (World.watch "a" list.reference openTasks .quiet {}).2 = .handle id ∧
      (∃ watch, ((watching.fact "a" completionDocument).1.node "a").watch? id = some watch ∧
        watch.results = []) ∧
      ∃ before after watch watch', ComesTo "a" watching completion before ∧
        Saves completion before after true ∧ before.watch? id = some watch ∧
        after.watch? id = some watch' ∧
        watch'.events = watch.events ++ [⟨.removed, task.reference⟩] := by
  have hnode : Node.ofConfig? {} = some {} := rfl
  have hclimbs : openTasks.climbs = true := by decide
  have hrun : Run "a" {} [] {} := Run.nil {}
  obtain ⟨id, houtcome, hexact⟩ := results_exact_of_climbs hnode rfl hclimbs (by decide)
    Listener.neverPanics_quiet Listener.neverStops_quiet list.reference hrun
  obtain ⟨hsettled', hnone', -⟩ := watch_frame isSettled_fresh list.reference openTasks .quiet
  have hsettled : (watching.node "a").IsSettled := hsettled'
  have hnone : (watching.node "a").facts = {} := hnone'
  have hkeyed := isKeyed_completionDocument
  refine ⟨id, houtcome, ?_, ?_⟩
  · have hmakes := makes_fact "a" completionDocument watching
    have hfacts := hmakes.facts_eq hkeyed hsettled dehydrate_completion
    rw [hnone] at hfacts
    have hlater := Run.cons (Performs.fact hkeyed hmakes) (Run.nil _)
    have hsingle : ((watching.fact "a" completionDocument).1.node "a").facts.IsSingleValued := by
      rw [hfacts]
      decide
    obtain ⟨watch, found, hwatch, -, hfound, hperm⟩ := (hexact hlater (by simp)).1 hsingle
    have hcompleted : (Store.evaluate ([list, task, completion].foldl Store.save {})
        list.reference openTasks) = .ok [] := by decide
    rw [hfacts] at hfound
    have hpaths := Except.ok.inj (hfound.symm.trans hcompleted)
    rw [hpaths] at hperm
    exact ⟨watch, hwatch, List.perm_nil.1 hperm⟩
  · have hrecords : Document.dehydrateFact [] completionDocument =
        .ok ([list, task] ++ completion :: [], completion.reference) := dehydrate_completion
    obtain ⟨before, hcomes, hbefore⟩ := exists_comesTo hsettled hkeyed hrecords
    rw [hnone] at hbefore
    obtain ⟨hready, hrecord, hnamed, -⟩ := hcomes.spec hsettled
    obtain ⟨after, hsave⟩ : ∃ after, Saves completion before after true :=
      exists_saves_of_new hready (by rw [hbefore]; decide)
    have hafter := (hsave.spec hready hrecord hnamed).2
    rw [hbefore] at hafter
    have hsingle : after.facts.IsSingleValued := by
      rw [hafter]
      decide
    obtain ⟨watch, watch', told, found, found', hwatch, hwatch', hfound, hfound', hevents, hperm⟩ :=
      (hexact (Run.nil _) (by simp)).2 hcomes hsave hsingle
    have hopen : (Store.evaluate ([list, task].foldl Store.save {}) list.reference openTasks) =
        .ok [[list.reference, task.reference]] := by decide
    have hcompleted : (Store.evaluate (([list, task].foldl Store.save {}).save completion)
        list.reference openTasks) = .ok [] := by decide
    rw [hbefore] at hfound
    rw [hafter] at hfound'
    rw [Except.ok.inj (hfound.symm.trans hopen), Except.ok.inj (hfound'.symm.trans hcompleted)]
      at hperm
    have htold : told = [⟨.removed, task.reference⟩] := List.perm_singleton.1 hperm
    exact ⟨before, after, watch, watch', hcomes, hsave, hwatch, hwatch', by rw [hevents, htold]⟩

end Errands

section Plain

variable {start : Reference} {query : Query} {listener : Listener}

/-- The watch has never told of a removal; while it is active it is up to date, and has told once of
each of its results. -/
structure Gathers (start : Reference) (query : Query) (listener : Listener) (store : Store)
    (watch : Watch) : Prop extends watch.Follows start query listener where
  stored : store.contains start = true
  removals : ∀ fact, ⟨.removed, fact⟩ ∉ watch.events
  results : watch.isStopped = false → watch.HasResults (store.links.Leads query start)
  additions : watch.isStopped = false →
    watch.events.Nodup ∧ ∀ fact, ⟨.added, fact⟩ ∈ watch.events ↔ fact ∈ watch.results

theorem keptBySaves_gathers (hplain : query.isPlain = true) (hpanics : listener.NeverPanics) :
    KeptBySaves (Gathers start query listener) := by
  rintro store record watch taken hadmits htakes
    ⟨hfollows, hstored, hremovals, hresults, hadditions⟩
  obtain ⟨rfl, rfl, rfl⟩ := id hfollows
  have hne : watch.start ≠ record.reference := by
    intro heq
    rw [heq, hadmits.new] at hstored
    cases hstored
  have exact := hadmits.grows.exactReports_of_isPlain hplain hne
  refine ⟨hfollows.takeAll taken,
    Store.contains_of_grown (Store.records_grow_save store record) hstored, ?_, ?_, ?_⟩
  · intro fact hmem
    obtain ⟨told, htold, hsub⟩ := watch.exists_told taken
    rw [htold] at hmem
    rcases List.mem_append.1 hmem with hold | hnew
    · exact hremovals fact hold
    · exact Links.not_reports_removed_of_isPlain hplain (htakes.reported _ _ (hsub.subset hnew))
  · intro hactive
    exact (htakes.keeps hpanics hactive exact (hresults (Watch.isStopped_of_takeAll hactive))).1
  · intro hactive
    have hbefore := Watch.isStopped_of_takeAll hactive
    obtain ⟨hnodup, hadded⟩ := hadditions hbefore
    obtain ⟨hafter, told, htold, htoldNodup, htoldAdded, -⟩ :=
      htakes.keeps hpanics hactive exact (hresults hbefore)
    have hmem := (hresults hbefore).2
    rw [htold]
    constructor
    · refine List.nodup_append.2 ⟨hnodup, htoldNodup, ?_⟩
      rintro ⟨change, fact⟩ hevent other hother rfl
      cases change with
      | added => exact ((htoldAdded fact).1 hother).2 ((hmem fact).1 ((hadded fact).1 hevent))
      | removed => exact hremovals fact hevent
    · intro fact
      rw [List.mem_append, hadded, htoldAdded, hafter.2, hmem]
      constructor
      · rintro (hold | ⟨hnew, -⟩)
        · exact hadmits.grows.leads_of_isPlain hplain hold
        · exact hnew
      · intro hnew
        by_cases hold : store.links.Leads watch.query watch.start fact
        · exact Or.inl hold
        · exact Or.inr ⟨hnew, hold⟩

theorem Gathers.stop {store : Store} {watch : Watch}
    (h : Gathers start query listener store watch) :
    Gathers start query listener store watch.stop :=
  ⟨⟨h.start_eq, h.query_eq, h.listener_eq⟩, h.stored, h.removals, nofun, nofun⟩

/-- Of a query without conditions, from a start that is stored, a watch that is not stopped keeps
exactly what the query finds, in any run; its listener hears once of each result, and of no
removal. -/
theorem results_exact_of_isPlain {config : Config} {node : Node}
    (hnode : Node.ofConfig? config = some node) {name : String} {world : World}
    (hworld : world.node name = node) (hplain : query.isPlain = true)
    (hpanics : listener.NeverPanics) {earlier : List Call} {opened : World}
    (hearlier : Run name world earlier opened)
    (hstart : (opened.node name).facts.contains start = true) :
    ∃ id, (opened.watch name start query listener).2 = .handle id ∧
      ∀ {later : List Call} {final : World},
        Run name (opened.watch name start query listener).1 later final →
        ∃ watch, (final.node name).watch? id = some watch ∧
          (∀ fact, ⟨.removed, fact⟩ ∉ watch.events) ∧
          (watch.isStopped = false →
            ∃ found, (final.node name).facts.evaluate start query = .ok found ∧
              watch.results.Perm (terminals found) ∧
              ∀ fact ∈ watch.results, watch.events.count ⟨.added, fact⟩ = 1) := by
  have hopened : (opened.node name).IsSettled :=
    hearlier.isSettled (hworld ▸ isSettled_of_ofConfig? hnode)
  obtain ⟨first, hfirst, -⟩ :=
    Store.exists_evaluate hopened.sound hopened.closed hstart query
  obtain ⟨houtcome, watch, hwatch, rfl, rfl, rfl, -, hhas, hnodup, hadded, hremoved⟩ :=
    exists_seeded_watch hopened hpanics hfirst
  obtain ⟨hwatched, hfacts, -⟩ := watch_frame hopened watch.start watch.query watch.listener
  refine ⟨_, houtcome, ?_⟩
  intro later final hlater
  have hbegin : Gathers watch.start watch.query watch.listener
      ((opened.watch name watch.start watch.query watch.listener).1.node name).facts watch := by
    rw [hfacts]
    exact ⟨⟨rfl, rfl, rfl⟩, hstart, hremoved, fun _ => hhas, fun _ => ⟨hnodup, hadded⟩⟩
  obtain ⟨watch', hwatch', hgathers⟩ := hlater.preserves hwatched
    (keptBySaves_gathers hplain hpanics) (fun _ _ _ h => h.stop) hwatch hbegin
  refine ⟨watch', hwatch', hgathers.removals, fun hactive => ?_⟩
  have hfinal := hlater.isSettled hwatched
  obtain ⟨found, hfound, -⟩ :=
    Store.exists_evaluate hfinal.sound hfinal.closed hgathers.stored watch.query
  obtain ⟨hevents, hmem⟩ := hgathers.additions hactive
  refine ⟨found, hfound, (hgathers.results hactive).perm hfinal.sound hfound, ?_⟩
  intro fact hfact
  exact List.count_eq_one_of_mem hevents ((hmem fact).2 hfact)

end Plain

namespace Errands

def allTasks : Query := [.successor "list", .field "Task"]

def listDocument : Json := .object [("type", .string "List")]

theorem dehydrate_list :
    Document.dehydrateFact [] listDocument = .ok ([list], list.reference) := by
  decide +kernel

theorem isKeyed_listDocument : listDocument.isKeyed = true := by decide

def listed : World := (World.fact "a" listDocument {}).1

theorem run_listed : Run "a" {} [.fact listDocument] listed :=
  Run.cons (Performs.fact isKeyed_listDocument (makes_fact "a" listDocument {})) (Run.nil _)

theorem facts_listed : (listed.node "a").facts = Store.save {} list :=
  (makes_fact "a" listDocument {}).facts_eq isKeyed_listDocument isSettled_fresh dehydrate_list

theorem contains_listed : (listed.node "a").facts.contains list.reference = true := by
  rw [facts_listed]
  decide

theorem listed_eq : listed =
    World.relay "a" [list] (World.setNode "a" (Node.saveAll [list] {}).1 {}) := by
  have hsave : ((World.node {} "a").saveAll [list]).2 = .ok 1 := by decide +kernel
  rw [listed, fst_fact_of_new dehydrate_list (by decide) hsave]
  rfl

theorem watches_listed : (listed.node "a").watches = [] := by
  rw [listed_eq]
  rfl

/-- A task is told of once, when it arrives. -/
theorem allTasks_exact :
    ∃ id, (listed.watch "a" list.reference allTasks .quiet).2 = .handle id ∧
      ∃ watch, (((listed.watch "a" list.reference allTasks .quiet).1.fact "a"
          completionDocument).1.node "a").watch? id = some watch ∧
        watch.isStopped = false ∧ watch.results = [task.reference] ∧
        watch.events.count ⟨.added, task.reference⟩ = 1 ∧
        ∀ fact, ⟨.removed, fact⟩ ∉ watch.events := by
  have hnode : Node.ofConfig? {} = some {} := rfl
  have hquiet := Listener.neverPanics_quiet
  have hlisted := run_listed.isSettled isSettled_fresh
  have hplain : allTasks.isPlain = true := by decide
  obtain ⟨id, houtcome, hexact⟩ :=
    results_exact_of_isPlain hnode rfl hplain hquiet run_listed contains_listed
  obtain ⟨found, hfound⟩ : ∃ found, (listed.node "a").facts.evaluate list.reference allTasks =
      .ok found := by
    rw [facts_listed]
    exact ⟨[], by decide⟩
  obtain ⟨houtcome', watch, hwatch, -, -, hlistener, hactive, -⟩ :=
    exists_seeded_watch hlisted hquiet hfound
  obtain ⟨hwatching, hsame, -⟩ := watch_frame hlisted list.reference allTasks .quiet
  have hid := WatchOutcome.handle.inj (houtcome.symm.trans houtcome')
  have hmakes' := makes_fact "a" completionDocument
    (listed.watch "a" list.reference allTasks .quiet).1
  have hlater := Run.cons (Performs.fact isKeyed_completionDocument hmakes') (Run.nil _)
  have hfinal := hmakes'.facts_eq isKeyed_completionDocument hwatching dehydrate_completion
  rw [hsame, facts_listed] at hfinal
  obtain ⟨watch', hwatch', hremoved, hresults⟩ := hexact hlater
  obtain ⟨same, hsame', hactive'⟩ := hlater.exists_active hwatching
    (hlistener ▸ Listener.neverStops_quiet) (show Call.stop id ∉ _ by simp) (hid ▸ hwatch) hactive
  rw [hwatch', Option.some.injEq] at hsame'
  subst hsame'
  obtain ⟨found', hfound', hperm, hcount⟩ := hresults hactive'
  have hone : (Store.evaluate ([list, task, completion].foldl Store.save (Store.save {} list))
      list.reference allTasks) = .ok [[list.reference, task.reference]] := by decide
  rw [hfinal] at hfound'
  rw [Except.ok.inj (hfound'.symm.trans hone)] at hperm
  have honly : watch'.results = [task.reference] := List.perm_singleton.1 hperm
  refine ⟨id, houtcome, watch', hwatch', hactive', honly, hcount _ ?_, hremoved⟩
  rw [honly]
  exact List.mem_singleton_self _

end Errands

end World

end LiveFacts
