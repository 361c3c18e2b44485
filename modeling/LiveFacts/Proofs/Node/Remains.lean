import LiveFacts.Proofs.Node.Maintenance
import LiveFacts.Proofs.Node.Tellings

/-!
# Removals that are not true

A round may tell a watch that a fact is gone which is still a result: one that remains, because it
follows from several candidates of a condition, of which only one fails. For a watch that is told
of no false removal, in whatever order the units of the round run, it is necessary and enough that
no fact remains that is held to be a result or reported to appear.
-/

namespace LiveFacts

namespace Node

variable {before after : Node} {record : Record} {id : Nat} {watch : Watch} {found : List Path}

/-- Whatever order the round of the record runs in, the removals that the watch is told of are not
among the facts. -/
def RemovesOnly (before : Node) (record : Record) (id : Nat) (watch : Watch)
    (facts : List Reference) : Prop :=
  ∀ ⦃after : Node⦄ ⦃watch' : Watch⦄ ⦃told : List Event⦄, Saves record before after true →
    after.watch? id = some watch' → watch'.events = watch.events ++ told →
    ∀ result, ⟨.removed, result⟩ ∈ told → result ∉ facts

/-- What remains is not held to be a result, and is not made one. -/
def IsUnheld (before : Node) (record : Record) (watch : Watch) : Prop :=
  ∀ result,
    (before.facts.save record).links.Remains watch.query watch.start record.reference result →
    result ∉ watch.results ∧
      ¬ (before.facts.save record).links.Reports watch.query watch.start record.reference .added
        result

/-- The round of a record tells a watch of removals that are true, or of facts that remain. -/
theorem Saves.exists_told_removed (hsave : Saves record before after true)
    (hsettled : before.IsSettled) (hadmits : before.facts.Admits record)
    (hwatch : before.watch? id = some watch)
    (hfound : (before.facts.save record).evaluate watch.start watch.query = .ok found) :
    ∃ taken told, after.watch? id = some (watch.takeAll taken) ∧
      watch.Takes (before.facts.save record).links record.reference taken ∧
      (watch.takeAll taken).events = watch.events ++ told ∧
      ∀ result, ⟨.removed, result⟩ ∈ told → result ∉ terminals found ∨
        (before.facts.save record).links.Remains watch.query watch.start record.reference
          result := by
  obtain ⟨taken, told, htaken, htake, htold, hsub⟩ :=
    hsave.exists_told_takes hsettled hadmits hwatch
  refine ⟨taken, told, htaken, htake, htold, fun result hmem => ?_⟩
  rw [Store.mem_terminals_evaluate (hadmits.sound.save hadmits.keyed) hfound]
  exact Links.not_leads_or_remains_of_reports (htake.reported _ _ (hsub.subset hmem))

theorem removesOnly_of_isUnheld (hunheld : IsUnheld before record watch)
    (hsettled : before.IsSettled) (hadmits : before.facts.Admits record)
    (hwatch : before.watch? id = some watch)
    (hfound : (before.facts.save record).evaluate watch.start watch.query = .ok found) :
    RemovesOnly before record id watch (terminals found) := by
  intro after watch' told hsave hwatch' htold result hmem
  obtain ⟨taken, same, htaken, htake, hsame, hremoved⟩ :=
    hsave.exists_told_removed hsettled hadmits hwatch hfound
  rw [htaken, Option.some.injEq] at hwatch'
  subst hwatch'
  rw [hsame, List.append_cancel_left_eq] at htold
  subst htold
  rcases hremoved result hmem with hgone | hremains
  · exact hgone
  · obtain ⟨hnot, hquiet⟩ := hunheld result hremains
    have hadded : ⟨.added, result⟩ ∉ taken := fun h => hquiet (htake.reported _ _ h)
    have hidle : ¬ Event.Alters ⟨.removed, result⟩ watch.results := hnot
    exact absurd hmem (Watch.not_mem_told_of_not_alters hidle hadded hsame)

theorem isUnheld_of_removesOnly (hremoves : RemovesOnly before record id watch (terminals found))
    (hsettled : before.IsSettled) (hadmits : before.facts.Admits record)
    (hwatch : before.watch? id = some watch)
    (hfound : (before.facts.save record).evaluate watch.start watch.query = .ok found)
    (hactive : watch.isStopped = false) (hpanics : watch.listener.NeverPanics)
    (hstops : watch.listener.NeverStops) (hnodup : watch.results.Nodup) :
    IsUnheld before record watch := by
  intro result hremains
  by_contra hnot
  rw [not_and_or, not_not, not_not] at hnot
  obtain ⟨after, watch', told, hsave, hwatch', htold, hmem⟩ :=
    exists_saves_of_reports ⟨.removed, result⟩ hsettled hadmits hwatch hactive hpanics
      hstops hnodup hremains.reports hnot
  refine hremoves hsave hwatch' htold result hmem ?_
  rw [Store.mem_terminals_evaluate (hadmits.sound.save hadmits.keyed) hfound]
  exact hremains.leads

end Node

namespace World

open Node

/-- The removals that the round of a new record tells a watch of are true, or of facts that remain.
They are true in every order of the round if no fact remains that is held to be a result or made
one, and, of a watch that is active and whose listener neither fails nor stops it, only then. -/
theorem removals_true_iff_isUnheld {config : Config} {node : Node}
    (hnode : Node.ofConfig? config = some node) {name : String} {world : World}
    (hworld : world.node name = node) {earlier : List Call} {opened : World}
    (hearlier : Run name world earlier opened) {start : Reference}
    (hstart : (opened.node name).facts.contains start = true) (query : Query)
    (listener : Listener) {later : List Call} {final : World}
    (hlater : Run name (opened.watch name start query listener).1 later final) {record : Record}
    {before : Node} (hcomes : ComesTo name final record before)
    (hnew : before.facts.contains record.reference = false) :
    ∃ id watch found, id = (opened.node name).watches.length + 1 ∧
      before.watch? id = some watch ∧ watch.Follows start query listener ∧
      (before.facts.save record).evaluate start query = .ok found ∧
      (∀ {after : Node}, Saves record before after true →
        after.facts = before.facts.save record ∧
        ∃ watch' told, after.watch? id = some watch' ∧ watch'.events = watch.events ++ told ∧
          ∀ result, ⟨.removed, result⟩ ∈ told → result ∉ terminals found ∨
            after.facts.links.Remains query start record.reference result) ∧
      (IsUnheld before record watch → RemovesOnly before record id watch (terminals found)) ∧
      (watch.isStopped = false → listener.NeverPanics → listener.NeverStops →
        RemovesOnly before record id watch (terminals found) →
        IsUnheld before record watch) := by
  obtain ⟨hsettled, hadmits, watch, found, hwatch, ⟨hfollows, -, hnodup⟩, hfound⟩ :=
    exists_attends hnode hworld hearlier hstart query listener hlater hcomes hnew
  obtain ⟨rfl, rfl, rfl⟩ := id hfollows
  refine ⟨_, watch, found, rfl, hwatch, hfollows, hfound, ?_, ?_, ?_⟩
  · intro after hsave
    obtain ⟨-, hafter⟩ := hsave.spec hsettled hadmits.keyed hadmits.named
    obtain ⟨taken, told, htaken, -, htold, hremoved⟩ :=
      hsave.exists_told_removed hsettled hadmits hwatch hfound
    exact ⟨hafter, _, told, htaken, htold, hafter ▸ hremoved⟩
  · intro hunheld
    exact removesOnly_of_isUnheld hunheld hsettled hadmits hwatch hfound
  · intro hactive hpanics hstops hremoves
    exact isUnheld_of_removesOnly hremoves hsettled hadmits hwatch hfound hactive hpanics hstops
      hnodup

namespace Errands

/-- After their condition the open tasks of a list need no further move, so nothing remains, and of
a task that is completed a watch is rightly told that it is gone. -/
theorem openTasks_removals_true :
    ∃ before watch,
      ComesTo "a" (listed.watch "a" list.reference openTasks .quiet).1 completion before ∧
        before.watch? 1 = some watch ∧
        (before.facts.save completion).evaluate list.reference openTasks = .ok [] ∧
        RemovesOnly before completion 1 watch [] := by
  have hnode : Node.ofConfig? {} = some {} := rfl
  have hlisted := run_listed.isSettled isSettled_fresh
  obtain ⟨hwatching, hsame, -⟩ := watch_frame hlisted list.reference openTasks .quiet
  have hrecords : Document.dehydrateFact [] completionDocument =
      .ok ([list, task] ++ completion :: [], completion.reference) := dehydrate_completion
  obtain ⟨before, hcomes, hbefore⟩ :=
    exists_comesTo hwatching isKeyed_completionDocument hrecords
  rw [hsame, facts_listed] at hbefore
  have hnew : before.facts.contains completion.reference = false := by
    rw [hbefore]
    decide
  obtain ⟨id, watch, found, hid, hwatch, hfollows, hfound, -, hremoves, -⟩ :=
    removals_true_iff_isUnheld hnode rfl run_listed contains_listed openTasks .quiet (Run.nil _)
      hcomes hnew
  have hdone : (Store.evaluate (([list, task].foldl Store.save (Store.save {} list)).save
      completion) list.reference openTasks) = .ok [] := by decide
  have hone : id = 1 := by rw [hid, watches_listed, List.length_nil]
  obtain ⟨hsettled, hkeyed, -⟩ := hcomes.spec hwatching
  have hsingle : (before.facts.save completion).IsSingleValued := by
    rw [hbefore]
    decide
  have hpaths := Except.ok.inj (hfound.symm.trans (hbefore ▸ hdone))
  subst hone
  refine ⟨before, watch, hcomes, hwatch, hbefore ▸ hdone, ?_⟩
  rw [hpaths] at hremoves
  refine hremoves fun result hremains => ?_
  rw [hfollows.query_eq] at hremains
  refine absurd hremains (Links.not_remains (hsingle.links (hsettled.sound.save hkeyed)) ?_)
  -- The condition comes last, so nothing follows it.
  intro prior quantifier steps rest heq
  have hrest : rest = [] := by
    rcases prior with _ | ⟨_, _ | ⟨_, _ | ⟨_, prior⟩⟩⟩
    all_goals simp_all [openTasks]
  rw [hrest, Query.climbs_nil]

def otherTask : Record :=
  ⟨"Task", "0399a193f7aabf9ced76092e7506ef1eec1ee3a224fd5ad68d3056b5b7e27682",
    [("name", .string "eggs")], [("list", .one list.reference)]⟩

def otherTaskDocument : Json :=
  .object
    [("list", .object [("type", .string "List")]), ("name", .string "eggs"),
      ("type", .string "Task")]

theorem dehydrate_otherTask : Document.dehydrateFact [] otherTaskDocument =
    .ok ([list, otherTask], otherTask.reference) := by
  decide +kernel

def unfinishedLists : Query := openTasks ++ [.predecessor "list"]

def unfinished : World :=
  ((World.fact "a" otherTaskDocument {}).1.watch "a" list.reference unfinishedLists .quiet).1

theorem unfinished_eq : unfinished =
    (World.watch "a" list.reference unfinishedLists .quiet
      (World.relay "a" [list, otherTask]
        (World.setNode "a" (Node.saveAll [list, otherTask] {}).1 {}))).1 := by
  have hsave : ((World.node {} "a").saveAll [list, otherTask]).2 = .ok 2 := by decide +kernel
  rw [unfinished, fst_fact_of_new dehydrate_otherTask (by decide) hsave]
  rfl

def uncompleted : Node :=
  ((unfinished.node "a").saveAll [list, task]).1

def completed : Node :=
  (uncompleted.saveRecord completion).1.propagate completion.reference

/-- When one of two tasks of a list is completed, the watch is told that the list is gone, though
the query still finds it through the other task. -/
theorem unfinishedLists_removes_list :
    ComesTo "a" unfinished completion uncompleted ∧ Saves completion uncompleted completed true ∧
      (uncompleted.watch? 1).map Watch.events = some [⟨.added, list.reference⟩] ∧
      (completed.watch? 1).map Watch.events =
        some [⟨.added, list.reference⟩, ⟨.removed, list.reference⟩] ∧
      completed.facts.evaluate list.reference unfinishedLists =
        .ok [[list.reference, otherTask.reference, list.reference]] := by
  have hrecords : Document.dehydrateFact [] completionDocument =
      .ok ([list, task] ++ completion :: [], completion.reference) := dehydrate_completion
  have hsaves := savesAll_saveAll [list, task] (unfinished.node "a")
  rw [← uncompleted] at hsaves
  refine ⟨⟨completionDocument, completion.reference, _, _, _, isKeyed_completionDocument, hrecords,
    hsaves⟩, ?_, ?_, ?_, ?_⟩
  · refine saves_propagate ?_
    rw [uncompleted, unfinished_eq]
    decide +kernel
  · rw [uncompleted, unfinished_eq]
    decide +kernel
  · rw [completed, uncompleted, unfinished_eq]
    decide +kernel
  · rw [completed, uncompleted, unfinished_eq]
    decide +kernel

end Errands

end World

end LiveFacts
