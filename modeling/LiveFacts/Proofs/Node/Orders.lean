import LiveFacts.Proofs.Node.EarlyWatches
import LiveFacts.Proofs.Node.Receipts
import LiveFacts.Proofs.Node.Tellings
import LiveFacts.Proofs.Query.Losses

/-!
# When the order of a round shows

The units of a round may run in any order. Some order delivers a given change last, so a fact that
is reported both to appear and to go is a result after some orders and none after others. Where no
two reports contradict each other, a watch has the same results whatever the order.
-/

namespace LiveFacts

namespace Round

variable {round : Round} {node middle final : Node} {id : Nat} {watch : Watch}

/-- How the units of a pool are listed makes no difference to the orders that there are. -/
theorem Finishes.perm {pool other : List Work} (h : round.Finishes node pool final)
    (hperm : pool.Perm other) : round.Finishes node other final := by
  induction h generalizing other with
  | done node =>
    rw [List.nil_perm.1 hperm]
    exact Finishes.done node
  | @unit node final before after work _ ih =>
    have hwork : work ∈ other := hperm.subset (by simp)
    obtain ⟨before', after', rfl⟩ := List.append_of_mem hwork
    have hrest : (before ++ after).Perm (before' ++ after') := by
      have hfront := (List.perm_middle.symm.trans hperm).trans List.perm_middle
      exact (List.perm_cons work).1 hfront
    exact Finishes.unit (ih (hrest.append_right _))

theorem finishes_singleton {work : Work} (h : (round.run node work).2 = []) :
    round.Finishes node [work] (round.run node work).1 := by
  have hunit : round.Finishes node ([] ++ work :: []) (round.run node work).1 := by
    apply Finishes.unit
    rw [h]
    exact Finishes.done _
  exact hunit

/-- A unit may wait until all others, and all that they leave, have run. -/
theorem Finishes.with_last {pool : List Work} {last : Work} (h : round.Finishes node pool middle)
    (hlast : round.Finishes middle [last] final) : round.Finishes node (last :: pool) final := by
  induction h with
  | done node => exact hlast
  | @unit node middle before after work _ ih =>
    have hunit : round.Finishes node (last :: before ++ work :: after) final :=
      Finishes.unit (ih hlast)
    exact hunit

/-- Whatever else a round tells, what an inverse says can be delivered last, and then its opposite
makes a difference in the end. -/
theorem IsOpen.exists_told_last (hopen : round.IsOpen node) (event : Event)
    (hwatch : node.watch? id = some watch) (hactive : watch.isStopped = false)
    (hpanics : watch.listener.NeverPanics) (hstops : watch.listener.NeverStops)
    (hnodup : watch.results.Nodup) {inverse : Inverse} {effect : Query}
    (heffect : inverse.effect event.change = some effect)
    (hnone : inverse.effect event.change.opposite = none)
    (haffected : node.facts.Finds inverse.affected round.fact watch.start)
    (hresult : node.facts.Finds effect round.fact event.fact) (before after : List Work) :
    ∃ final watch', round.Finishes node (before ++ .check id inverse :: after) final ∧
      final.watch? id = some watch' ∧ event.opposite.Alters watch'.results := by
  obtain ⟨hleft, hfirst⟩ := hopen.run_check_of_effect hwatch hactive heffect hnone haffected
  have hchecked := round.alike_run node (.check id inverse)
  obtain ⟨drained, hdrained⟩ : ∃ drained, round.Finishes (round.run node (.check id inverse)).1
      (before ++ after) drained := ⟨_, round.finishes_drain _ _⟩
  obtain ⟨earlier, hearlier, -⟩ := hdrained.exists_taken (hopen.of_alike hchecked) hfirst
  have halike := hdrained.alike.trans hchecked
  have htask : Watch.SameTask (watch.takeAll earlier) watch := Watch.sameTask_takeAll earlier
  rw [← halike.facts] at hresult
  obtain ⟨hnothing, taken, htaken, halters⟩ := (hopen.of_alike halike).exists_taken_of_deliver
    hearlier (Watch.isStopped_takeAll_of_neverStops hactive hstops earlier)
    (htask.listener ▸ hpanics) (htask.listener ▸ hstops)
    (Watch.nodup_results_takeAll hnodup earlier) hresult
  refine ⟨_, _, Finishes.unit ?_, htaken, halters⟩
  rw [hleft]
  have hlast := hdrained.with_last (finishes_singleton hnothing)
  exact hlast.perm (List.perm_append_singleton _ _).symm

end Round

def Store.Contradicts (store : Store) (query : Query) (start fact result : Reference) : Prop :=
  store.Tells query start fact .added result ∧ store.Tells query start fact .removed result

instance (store : Store) (query : Query) (start fact result : Reference) :
    Decidable (store.Contradicts query start fact result) :=
  inferInstanceAs (Decidable (_ ∧ _))

theorem Store.not_contradicts_of_exactReports {store : Store} (hsound : store.IsSound)
    {query : Query} {start fact : Reference} {old new : Reference → Prop}
    (exact : ExactReports (store.links.Reports query start fact) old new) (result : Reference) :
    ¬ store.Contradicts query start fact result := by
  rintro ⟨hadded, hremoved⟩
  exact exact.of_removed (hremoved.reports hsound) (exact.of_added (hadded.reports hsound))

theorem Watch.Hears.mem_results_iff {watch : Watch} {store : Store} {fact : Reference}
    {taken : List Event} (h : watch.Hears store fact taken)
    (hconsistent : ∀ result, ¬ store.Contradicts watch.query watch.start fact result)
    (hpanics : watch.listener.NeverPanics) (hactive : (watch.takeAll taken).isStopped = false)
    (hnodup : watch.results.Nodup) {result : Reference} :
    result ∈ (watch.takeAll taken).results ↔
      (result ∈ watch.results ∨ store.Tells watch.query watch.start fact .added result) ∧
        ¬ store.Tells watch.query watch.start fact .removed result := by
  have hall : ∀ change other, ⟨change, other⟩ ∈ taken ↔
      store.Tells watch.query watch.start fact change other :=
    fun change other => ⟨h.told change other, h.all hpanics hactive change other⟩
  rw [mem_results_takeAll hactive hnodup, hall, hall]
  intro other hadded hremoved
  exact hconsistent other ⟨(hall _ _).1 hadded, (hall _ _).1 hremoved⟩

namespace Node

variable {node before after other : Node} {record : Record} {fact : Reference} {id : Nat}
  {watch : Watch}

/-- Some order of the round delivers last what is told, so that its opposite makes a difference in
the end. -/
theorem IsReady.exists_propagates_last (hready : node.IsReady)
    (hwatch : node.watch? id = some watch) (hactive : watch.isStopped = false)
    (hpanics : watch.listener.NeverPanics) (hstops : watch.listener.NeverStops)
    (hnodup : watch.results.Nodup) (event : Event)
    (htells : node.facts.Tells watch.query watch.start fact event.change event.fact) :
    ∃ settled watch', Propagates fact node settled ∧ settled.watch? id = some watch' ∧
      event.opposite.Alters watch'.results := by
  obtain ⟨inverse, hinverse, htype, haffected, effect, heffect, hresult⟩ := htells
  have hnone := Query.effect_opposite_eq_none hinverse heffect
  obtain ⟨hmem, hid⟩ := hready.watch?_eq_some_iff.1 hwatch
  have hcheck : Work.check id inverse ∈ node.triggered fact :=
    mem_triggered.2 ⟨watch, hmem, hactive, inverse, hinverse, htype, by rw [hid]⟩
  rcases hready.startRound_eq fact with ⟨-, hnoUnit⟩ |
    ⟨opened, round, hround, rfl, hopen, -, hfacts, hwatches⟩
  · rw [hnoUnit] at hcheck
    cases hcheck
  · obtain ⟨pre, post, hpool⟩ := List.append_of_mem hcheck
    have hopened : opened.watch? id = some watch := by rwa [watch?, hwatches]
    rw [← hfacts] at haffected hresult
    obtain ⟨final, watch', hfinishes, hwatch', halters⟩ := hopen.exists_told_last event hopened
      hactive hpanics hstops hnodup heffect hnone haffected hresult pre post
    rw [← hpool] at hfinishes
    exact ⟨_, watch', Propagates.round hround hfinishes, hwatch', halters⟩

/-- In whatever order the units of the record's round run, the watch has the same results in the
end. -/
def IsOrderFree (before : Node) (record : Record) (id : Nat) : Prop :=
  ∀ ⦃after other : Node⦄, Saves record before after true → Saves record before other true →
    ∃ watch watch', after.watch? id = some watch ∧ other.watch? id = some watch' ∧
      watch.results.Perm watch'.results

theorem isOrderFree_of_not_contradicts (hready : before.IsReady) (hkeyed : record.IsKeyed)
    (hwatch : before.watch? id = some watch) (hpanics : watch.listener.NeverPanics)
    (hstops : watch.listener.NeverStops) (hnodup : watch.results.Nodup)
    (hconsistent : watch.isStopped = false → ∀ result, ¬ (before.facts.save record).Contradicts
      watch.query watch.start record.reference result) :
    IsOrderFree before record id := by
  intro after other hafter hother
  obtain ⟨-, -, hfacts, hhears⟩ := hafter.hears hready hkeyed
  obtain ⟨-, -, hfacts', hhears'⟩ := hother.hears hready hkeyed
  obtain ⟨taken, htaken, hhear⟩ := hhears hwatch
  obtain ⟨taken', htaken', hhear'⟩ := hhears' hwatch
  refine ⟨_, _, htaken, htaken', ?_⟩
  cases hactive : watch.isStopped with
  | true => rw [Watch.takeAll_of_isStopped hactive, Watch.takeAll_of_isStopped hactive]
  | false =>
    have hstill := Watch.isStopped_takeAll_of_neverStops hactive hstops
    rw [hfacts] at hhear
    rw [hfacts'] at hhear'
    refine (List.perm_ext_iff_of_nodup (Watch.nodup_results_takeAll hnodup taken)
      (Watch.nodup_results_takeAll hnodup taken')).2 fun result => ?_
    rw [hhear.mem_results_iff (hconsistent hactive) hpanics (hstill taken) hnodup,
      hhear'.mem_results_iff (hconsistent hactive) hpanics (hstill taken') hnodup]

/-- Some order of the round of a new record delivers last what is told. -/
theorem IsReady.exists_saves_last (hready : before.IsReady) (hkeyed : record.IsKeyed)
    (hnew : before.facts.contains record.reference = false)
    (hwatch : before.watch? id = some watch) (hactive : watch.isStopped = false)
    (hpanics : watch.listener.NeverPanics) (hstops : watch.listener.NeverStops)
    (hnodup : watch.results.Nodup) (event : Event)
    (htells : (before.facts.save record).Tells watch.query watch.start record.reference
      event.change event.fact) :
    ∃ after watch', Saves record before after true ∧ after.watch? id = some watch' ∧
      event.opposite.Alters watch'.results := by
  have hsave := hready.saveRecord_eq record
  rw [hnew] at hsave
  have hstored : IsReady { before with storage := before.storage.save record } :=
    ⟨hready.faults, hready.sound.save hkeyed, hready.ids⟩
  obtain ⟨settled, watch', hpropagates, hwatch', halters⟩ :=
    hstored.exists_propagates_last hwatch hactive hpanics hstops hnodup event htells
  exact ⟨settled, watch', Saves.new hsave hpropagates, hwatch', halters⟩

theorem not_contradicts_of_isOrderFree (hfree : IsOrderFree before record id)
    (hready : before.IsReady) (hkeyed : record.IsKeyed)
    (hnew : before.facts.contains record.reference = false)
    (hwatch : before.watch? id = some watch) (hactive : watch.isStopped = false)
    (hpanics : watch.listener.NeverPanics) (hstops : watch.listener.NeverStops)
    (hnodup : watch.results.Nodup) (result : Reference) :
    ¬ (before.facts.save record).Contradicts watch.query watch.start record.reference result := by
  rintro ⟨hadded, hremoved⟩
  obtain ⟨after, first, hafter, hfirst, hresult⟩ := hready.exists_saves_last hkeyed hnew hwatch
    hactive hpanics hstops hnodup ⟨.added, result⟩ hadded
  obtain ⟨other, second, hother, hsecond, hnone⟩ := hready.exists_saves_last hkeyed hnew hwatch
    hactive hpanics hstops hnodup ⟨.removed, result⟩ hremoved
  obtain ⟨watch', watch'', hwatch', hwatch'', hperm⟩ := hfree hafter hother
  rw [hfirst, Option.some.injEq] at hwatch'
  rw [hsecond, Option.some.injEq] at hwatch''
  subst hwatch' hwatch''
  exact hnone (hperm.subset hresult)

structure IsOrderly (node : Node) : Prop extends node.IsReady where
  nodup : ∀ {id : Nat} {watch : Watch}, node.watch? id = some watch → watch.results.Nodup

theorem isOrderly_of_ofConfig? {config : Config} (h : Node.ofConfig? config = some node) :
    node.IsOrderly := by
  refine ⟨(isSettled_of_ofConfig? h).isReady, ?_⟩
  rw [eq_of_ofConfig? h]
  simp [watch?]

theorem SameSetup.exists_watch? {a b : Node} (h : SameSetup a b)
    (hwatch : a.watch? id = some watch) : ∃ watch', b.watch? id = some watch' := by
  have hmem : id ∈ b.watches.map Watch.id := by
    rw [← h.ids, ← id_of_watch? hwatch]
    exact List.mem_map_of_mem (List.mem_of_find?_eq_some hwatch)
  obtain ⟨watch', hwatch', hid⟩ := List.mem_map.1 hmem
  rw [← Option.isSome_iff_exists, watch?, List.find?_isSome]
  exact ⟨watch', hwatch', by simpa using hid⟩

/-- A node stays orderly when its watches take up changes. -/
theorem IsOrderly.of_taken (horderly : node.IsOrderly) (hready : after.IsReady)
    (hsame : SameSetup after node)
    (htaken : ∀ {id : Nat} {watch : Watch}, node.watch? id = some watch →
      ∃ taken, after.watch? id = some (watch.takeAll taken)) : after.IsOrderly := by
  refine ⟨hready, fun {id watch'} hwatch' => ?_⟩
  obtain ⟨watch, hwatch⟩ := hsame.exists_watch? hwatch'
  obtain ⟨taken, htaken⟩ := htaken hwatch
  rw [hwatch', Option.some.injEq] at htaken
  rw [htaken]
  exact Watch.nodup_results_takeAll (horderly.nodup hwatch) taken

theorem IsOrderly.of_sameContent (horderly : node.IsOrderly) (hsame : SameContent after node) :
    after.IsOrderly := by
  have hready := horderly.toIsReady.of_sameSetup hsame.toSameSetup (hsame.facts ▸ horderly.sound)
  refine horderly.of_taken hready hsame.toSameSetup fun {id watch} hwatch => ⟨[], ?_⟩
  rw [watch?, hsame.watches]
  exact hwatch

theorem Saves.isOrderly {new : Bool} (h : Saves record node after new) (horderly : node.IsOrderly)
    (hkeyed : record.IsKeyed) : after.IsOrderly := by
  cases new with
  | false =>
    obtain ⟨rfl, -⟩ := h.eq_of_known horderly.toIsReady
    exact horderly
  | true =>
    obtain ⟨hready, hsame, -⟩ := h.isReady horderly.toIsReady hkeyed
    obtain ⟨-, -, -, hhears⟩ := h.hears horderly.toIsReady hkeyed
    refine horderly.of_taken hready hsame fun hwatch => ?_
    obtain ⟨taken, htaken, -⟩ := hhears hwatch
    exact ⟨taken, htaken⟩

theorem SavesAll.isOrderly {records : List Record} {count : Except Error Nat}
    (h : SavesAll records node after count) (horderly : node.IsOrderly)
    (hkeyed : ∀ record ∈ records, record.IsKeyed) : after.IsOrderly := by
  induction h with
  | nil node => exact horderly
  | refused hsave =>
    rw [horderly.toIsReady.saveRecord_eq] at hsave
    split at hsave <;> simp at hsave
  | cons hsave _ ih =>
    obtain ⟨hrecord, hrest⟩ := List.forall_mem_cons.1 hkeyed
    exact ih (hsave.isOrderly horderly hrecord) hrest

theorem IsOrderly.stopWatch (horderly : node.IsOrderly) (id : Nat) :
    (node.stopWatch id).IsOrderly := by
  have hid : ∀ watch, (Watch.stop watch).id = watch.id := fun _ => rfl
  have hspares := spares_modifyWatch hid node id
  refine ⟨hspares.isReady horderly.toIsReady, fun {other watch} hwatch => ?_⟩
  rw [Node.stopWatch, watch?_modifyWatch hid] at hwatch
  obtain ⟨before, hbefore, rfl⟩ := Option.map_eq_some_iff.1 hwatch
  have hnodup := horderly.nodup hbefore
  split
  · exact hnodup
  · exact hnodup

end Node

namespace World

open Node

variable {name : String} {world next final : World} {record : Record} {source : Source}

theorem Makes.isOrderly {document : Json} {made : World × Except Error Reference}
    (h : Makes name document world made) (hkeyed : document.isKeyed = true)
    (horderly : (world.node name).IsOrderly) (hnetwork : (world.node name).network? = none) :
    (made.1.node name).IsOrderly := by
  have keyed : ∀ {records : List Record} {root : Reference},
      Document.dehydrateFact [] document = .ok (records, root) →
      ∀ record ∈ records, record.IsKeyed :=
    fun hrecords =>
      Record.isKeyed_of_areGrounded (Document.areGrounded_dehydrateFact hkeyed hrecords)
  cases h with
  | invalid hfault => exact horderly
  | refused hrecords hsaves =>
    rw [node_setNode]
    exact hsaves.isOrderly horderly (keyed hrecords)
  | @made changed records root last count hrecords hlast hsaves =>
    have hchanged := hsaves.isOrderly horderly (keyed hrecords)
    obtain ⟨-, hsame, -⟩ := hsaves.isReady horderly.toIsReady (keyed hrecords)
    have hset : ((world.setNode name changed).node name).network? = none := by
      rw [node_setNode, hsame.network?, hnetwork]
    split
    · have hrelayed := sameContent_relay hset records
      rw [node_setNode] at hrelayed
      exact hchanged.of_sameContent hrelayed
    · rwa [node_setNode]

/-- A new watch begins without results, and takes up each change at most once. -/
theorem isOrderly_watch (horderly : (world.node name).IsOrderly)
    (hnetwork : (world.node name).network? = none) (start : Reference) (query : Query)
    (listener : Listener) :
    ((world.watch name start query listener).1.node name).IsOrderly := by
  have hspares := spares_watch hnetwork start query listener
  refine ⟨hspares.isReady horderly.toIsReady.register, fun {id watch} hwatch => ?_⟩
  obtain ⟨added, taken, hadds⟩ := exists_adds horderly.toIsReady hnetwork start query listener
  by_cases hid : id = (world.node name).watches.length + 1
  · subst hid
    rw [hadds.watch?_eq, Option.some.injEq] at hwatch
    rw [← hwatch, hadds.results_eq]
    exact Watch.nodup_results_takeAll List.nodup_nil taken
  · rw [hspares.others id hid, Node.watch?, register, List.find?_append] at hwatch
    have hother : List.find? (fun watch : Watch => watch.id = id)
        [{ id := (world.node name).watches.length + 1, start, query, listener }] = none := by
      simp [Ne.symm hid]
    rw [hother, Option.or_none] at hwatch
    exact horderly.nodup hwatch

theorem Performs.isOrderly {call : Call} (h : Performs name world call next)
    (horderly : (world.node name).IsOrderly) (hnetwork : (world.node name).network? = none) :
    (next.node name).IsOrderly := by
  cases h with
  | fact hkeyed hmakes => exact hmakes.isOrderly hkeyed horderly hnetwork
  | watch start query listener => exact isOrderly_watch horderly hnetwork start query listener
  | stop id =>
    rw [node_modifyNode]
    exact horderly.stopWatch id

theorem Receives.isOrderly (h : Receives name record source world next)
    (hlocal : (world.node name).IsLocal) (horderly : (world.node name).IsOrderly)
    (hkeyed : record.IsKeyed) : (next.node name).IsOrderly := by
  rcases h.spec hlocal hkeyed with ⟨-, hsame⟩ | ⟨changed, new, hsave, hsame⟩
  · exact horderly.of_sameContent hsame
  · exact (hsave.isOrderly horderly hkeyed).of_sameContent hsame

theorem Reaches.isOrderly (h : Reaches name world final) (hlocal : (world.node name).IsLocal)
    (horderly : (world.node name).IsOrderly) : (final.node name).IsOrderly := by
  induction h with
  | start => exact horderly
  | call hreaches hcall ih => exact hcall.isOrderly ih (hreaches.isLocal hlocal).network?
  | receipt hreaches hkeyed hreceives ih =>
    exact hreceives.isOrderly (hreaches.isLocal hlocal) ih hkeyed

/-- At a node that came about by calls and receipts, and has gone on to save records, a new record
comes to be saved. An active watch whose listener neither fails nor stops it has the same results
after every order of the record's round exactly if no two reports about the record contradict each
other; a stopped watch always has. -/
theorem isOrderFree_iff_not_contradicts {config : Config} {node : Node}
    (hnode : Node.ofConfig? config = some node) {name : String} {world : World}
    (hworld : world.node name = node) {opened : World} (hopened : Reaches name world opened)
    {saved : List Record} (hsaved : ∀ record ∈ saved, record.IsKeyed) {before : Node}
    {count : Except Error Nat} (hbefore : SavesAll saved (opened.node name) before count)
    {record : Record} (hkeyed : record.IsKeyed)
    (hnew : before.facts.contains record.reference = false) {id : Nat} {watch : Watch}
    (hwatch : before.watch? id = some watch) (hpanics : watch.listener.NeverPanics)
    (hstops : watch.listener.NeverStops) :
    IsOrderFree before record id ↔
      (watch.isStopped = false → ∀ result, ¬ (before.facts.save record).Contradicts watch.query
        watch.start record.reference result) := by
  have hlocal := isLocal_of_ofConfig? hnode
  have hbegin := isOrderly_of_ofConfig? hnode
  rw [← hworld] at hlocal hbegin
  have horderly := hbefore.isOrderly (hopened.isOrderly hlocal hbegin) hsaved
  constructor
  · intro hfree hactive
    exact not_contradicts_of_isOrderFree hfree horderly.toIsReady hkeyed hnew hwatch hactive hpanics
      hstops (horderly.nodup hwatch)
  · intro hconsistent
    exact isOrderFree_of_not_contradicts horderly.toIsReady hkeyed hwatch hpanics hstops
      (horderly.nodup hwatch) hconsistent

namespace Errands

def watchingOpenTasks : World := (listed.watch "a" list.reference openTasks .quiet).1

theorem reaches_watchingOpenTasks : Reaches "a" {} watchingOpenTasks :=
  reaches_listed.call (Performs.watch listed list.reference openTasks .quiet)

/-- Of the open tasks of a list, a round tells a watch the same in every order. -/
theorem openTasks_order_free :
    (((watchingOpenTasks.node "a").saveAll [list, task]).1.watch? 1).map Watch.isStopped =
        some false ∧
      IsOrderFree ((watchingOpenTasks.node "a").saveAll [list, task]).1 completion 1 := by
  have hnode : Node.ofConfig? {} = some {} := rfl
  have hlisted := run_listed.isSettled isSettled_fresh
  obtain ⟨hwatching, hsame, -⟩ := watch_frame hlisted list.reference openTasks .quiet
  have hsaves := savesAll_saveAll [list, task] (watchingOpenTasks.node "a")
  have hrecords : Document.dehydrateFact [] completionDocument =
      .ok ([list, task] ++ completion :: [], completion.reference) := dehydrate_completion
  have hcomes : ComesTo "a" watchingOpenTasks completion _ :=
    ⟨completionDocument, _, _, _, _, isKeyed_completionDocument, hrecords, hsaves⟩
  have hkeyed : ∀ record ∈ [list, task], record.IsKeyed := by decide
  have hbefore := (hsaves.isReady hwatching.isReady hkeyed).2.2
  rw [watchingOpenTasks, hsame, facts_listed] at hbefore
  have hnew : (((watchingOpenTasks.node "a").saveAll [list, task]).1).facts.contains
      completion.reference = false := by
    rw [watchingOpenTasks, hbefore]
    decide
  obtain ⟨-, hadmits, watch, found, hwatch, ⟨hfollows, -, -⟩, -⟩ :=
    exists_attends hnode rfl run_listed contains_listed openTasks .quiet (Run.nil _) hcomes hnew
  rw [watches_listed, List.length_nil] at hwatch
  have hsingle : ((((watchingOpenTasks.node "a").saveAll [list, task]).1).facts.save
      completion).IsSingleValued := by
    rw [watchingOpenTasks, hbefore]
    decide
  have hclimbs : openTasks.climbs = true := by decide
  have exact := exactReports_of_admits list.reference hclimbs (by decide) hadmits hsingle
  have hactive : (((watchingOpenTasks.node "a").saveAll [list, task]).1.watch? 1).map
      Watch.isStopped = some false := by
    rw [watchingOpenTasks, listed_eq]
    decide +kernel
  refine ⟨hactive, (isOrderFree_iff_not_contradicts hnode rfl reaches_watchingOpenTasks hkeyed
    hsaves hadmits.keyed hnew hwatch (hfollows.listener_eq ▸ Listener.neverPanics_quiet)
    (hfollows.listener_eq ▸ Listener.neverStops_quiet)).2 fun _ => ?_⟩
  rw [hfollows.start_eq, hfollows.query_eq]
  exact Store.not_contradicts_of_exactReports hadmits.sound_save exact

def replacement : Record :=
  ⟨"Task", "3e101dc54006d19abb21c43ccfac0f77edc6ab5f9f65cb2005fd2553b13300fe", [],
    [("list", .one list.reference), ("replaces", .one task.reference)]⟩

def currentLists : Query :=
  [.successor "list", .field "Task", .existential .absent [.successor "replaces"],
    .predecessor "list"]

def watchingCurrentLists : World :=
  ((World.fact "a" taskDocument {}).1.watch "a" list.reference currentLists .quiet).1

/-- When a task is replaced, the list is found through the new task and no longer through the old
one. Whether the watch keeps the list turns on which of the two is delivered last. -/
theorem currentLists_order_shows :
    Reaches "a" {} watchingCurrentLists ∧ (watchingCurrentLists.node "a").facts.IsClosed ∧
      replacement.IsKeyed ∧
      ∃ after other watch watch', Saves replacement (watchingCurrentLists.node "a") after true ∧
        Saves replacement (watchingCurrentLists.node "a") other true ∧
        after.watch? 1 = some watch ∧ list.reference ∉ watch.results ∧
        other.watch? 1 = some watch' ∧ list.reference ∈ watch'.results := by
  have hmakes := makes_fact "a" taskDocument {}
  have hmade := Performs.fact isKeyed_taskDocument hmakes
  have hreaches : Reaches "a" {} watchingCurrentLists :=
    (Reaches.start.call hmade).call (Performs.watch _ list.reference currentLists .quiet)
  have hsettled := (hmade.spec isSettled_fresh).1
  have hfacts := hmakes.facts_eq isKeyed_taskDocument isSettled_fresh dehydrate_task
  have hseeds : (([list, task].foldl Store.save {}).evaluate list.reference currentLists) =
      .ok [[list.reference, task.reference, list.reference]] := by decide
  have hpaths : ((World.fact "a" taskDocument {}).1.node "a").facts.evaluate list.reference
      currentLists = .ok [[list.reference, task.reference, list.reference]] := by
    rw [hfacts]
    exact hseeds
  obtain ⟨-, watch, hwatch, hstart, hquery, hlistener, hactive, ⟨hnodup, -⟩, -⟩ :=
    exists_seeded_watch hsettled Listener.neverPanics_quiet hpaths
  have hone : ((World.fact "a" taskDocument {}).1.node "a").watches.length + 1 = 1 := by
    rw [fst_fact_of_new dehydrate_task (by decide : 0 < 2) (by decide +kernel)]
    decide +kernel
  rw [hone] at hwatch
  obtain ⟨hwatching, hsame, -⟩ := watch_frame hsettled list.reference currentLists .quiet
  rw [hfacts] at hsame
  have hpanics : watch.listener.NeverPanics := hlistener ▸ Listener.neverPanics_quiet
  have hstops : watch.listener.NeverStops := hlistener ▸ Listener.neverStops_quiet
  have hnew : (watchingCurrentLists.node "a").facts.contains replacement.reference = false := by
    rw [watchingCurrentLists, hsame]
    decide
  have hadded : ((watchingCurrentLists.node "a").facts.save replacement).Tells watch.query
      watch.start replacement.reference .added list.reference := by
    rw [hstart, hquery, watchingCurrentLists, hsame]
    decide
  have hremoved : ((watchingCurrentLists.node "a").facts.save replacement).Tells watch.query
      watch.start replacement.reference .removed list.reference := by
    rw [hstart, hquery, watchingCurrentLists, hsame]
    decide
  obtain ⟨after, last, hafter, hlast, hgone⟩ := hwatching.isReady.exists_saves_last (by decide)
    hnew hwatch hactive hpanics hstops hnodup ⟨.removed, list.reference⟩ hremoved
  obtain ⟨other, last', hother, hlast', hthere⟩ := hwatching.isReady.exists_saves_last (by decide)
    hnew hwatch hactive hpanics hstops hnodup ⟨.added, list.reference⟩ hadded
  exact ⟨hreaches, hwatching.closed, by decide, after, other, last, last', hafter, hother, hlast,
    hgone, hlast', hthere⟩

end Errands

end World

end LiveFacts
