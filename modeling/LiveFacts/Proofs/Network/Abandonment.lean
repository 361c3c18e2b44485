import LiveFacts.Proofs.Network.Histories
import LiveFacts.Proofs.Network.Independence
import LiveFacts.Proofs.Node.Abandonment

/-!
# Calls for a watch that end without a handle

A call for a watch ends without a handle exactly if its listener fails at one of the first results.
It leaves a watch and an open connection behind: the watch has taken up the results as far as the
one at which its listener failed, is registered as if the call had ended well, and is served by
later saves as if it were live.
-/

namespace LiveFacts

namespace Node

variable {node next : Node} {watch : Watch}

/-- The second node is the first with one more watch that is registered and served, but in nobody's
hands, and with one more open connection. -/
structure IsLeftWith (watch : Watch) (node next : Node) : Prop where
  active : next.activeWatches = node.activeWatches ++ [watch]
  held : watch.held = false
  openCount : next.storage.openCount = node.storage.openCount + 1
  facts : next.facts = node.facts
  /-- Saves treat the watch as if it were live. -/
  served : ∀ records, (next.modifyWatch watch.id (·.advance .live)).saveAll records =
    ((next.saveAll records).1.modifyWatch watch.id (·.advance .live), (next.saveAll records).2)

theorem isLeftWith_lookedUp (hloose : watch.IsLoose) (hfree : node.IsFree watch.id)
    (start : Reference) (query : Query) :
    node.IsLeftWith watch ((node.lookedUp start query).withWatch watch) where
  active := by
    simp [activeWatches, withWatch, lookedUp, List.filter_append, hloose.active]
  held := hloose.held
  openCount := by
    simp [withWatch, lookedUp, Storage.openCount, Storage.openConnection]
  facts := rfl
  served := by
    intro records
    apply saveAll_advance
    intro other hother hid
    rcases List.mem_append.1 hother with hold | hlast
    · exact absurd hid (hfree other hold)
    · rwa [List.mem_singleton.1 hlast]

end Node

namespace World

variable {world : World} {name : String} {start : Reference} {query : Query} {listener : Listener}

theorem seeded_eq (hids : (world.node name).watches.map Watch.id =
      List.range' 1 (world.node name).watches.length) :
    world.seeded start query listener name =
      ((world.node name).withWatch (.unseeded ((world.node name).watches.length + 1) start query
        listener)).seed ((world.node name).watches.length + 1) start query := by
  rw [seeded, Node.begun_eq hids]

theorem snd_watch_eq_panicked_iff :
    (world.watch name start query listener).2 = .panicked ↔
      (world.seeded start query listener name).2 = true := by
  rw [watch_eq_seeded]
  cases (world.seeded start query listener name).2 with
  | false => exact iff_of_false nofun nofun
  | true => exact iff_of_true rfl rfl

/-- A call for a watch ends without a handle exactly if the storage lets the query be looked up and
the listener fails at one of the facts that are found. Then the call has told the listener of the
facts up to this one, and has left a watch and an open connection behind. -/
theorem watch_panicked_leaves {first : World}
    (hnew : ∀ name, ∃ config, Node.ofConfig? config = some (first.node name))
    (hrun : first.Unfolds world) (name : String) (start : Reference) (query : Query)
    (listener : Listener) :
    ((world.watch name start query listener).2 = .panicked ↔
      (world.node name).Grants query ∧
        ∃ number < ((world.node name).facts.found query start).length,
          (listener .added (number + 1)).panics = true) ∧
    ((world.watch name start query listener).2 = .panicked →
      ∃ earlier fact later watch next,
        (world.node name).facts.found query start = earlier ++ fact :: later ∧
        (∀ number < earlier.length, (listener .added (number + 1)).panics = false) ∧
        (listener .added (earlier.length + 1)).panics = true ∧
        watch = ((Watch.unseeded ((world.node name).watches.length + 1) start query
          listener).afterAdding earlier).afterFailing fact ∧
        (world.watch name start query listener).1 = world.setNode name next ∧
        (world.node name).IsLeftWith watch next) := by
  have hids := hrun.map_id (hnew name)
  have hfree := Node.isFree_next hids
  rw [snd_watch_eq_panicked_iff, seeded_eq hids, Node.snd_seed_unseeded_iff hfree]
  refine ⟨Iff.rfl, fun ⟨hgrants, hfails⟩ => ?_⟩
  obtain ⟨earlier, fact, later, hfound, hcalm, hfirst, hseed⟩ :=
    hgrants.exists_seed_of_failing hfree hfails
  have hloose : (((Watch.unseeded ((world.node name).watches.length + 1) start query
      listener).afterAdding earlier).afterFailing fact).IsLoose :=
    (Watch.isLoose_unseeded.afterAdding earlier).afterFailing fact
  refine ⟨earlier, fact, later, _, _, hfound, hcalm, hfirst, rfl, ?_,
    Node.isLeftWith_lookedUp hloose hfree start query⟩
  rw [watch_eq_seeded, seeded_eq hids, hseed, if_pos rfl]

namespace Errands

def taskMade : World := (World.fact "a" taskDocument {}).1

/-- Open tasks are watched for by a listener that fails when it is told of the one that there is.
The call gives no handle, but a watch and an open connection stay behind, and the listener is told
when the task is completed. -/
theorem failing_remains :
    let after := (taskMade.watch "a" list.reference openTasks failing).1
    (taskMade.watch "a" list.reference openTasks failing).2 = .panicked ∧
      (taskMade.node "a").activeWatches.map Watch.id = [] ∧
      (after.node "a").activeWatches.map Watch.id = [1] ∧
      (taskMade.node "a").storage.openCount = 0 ∧ (after.node "a").storage.openCount = 1 ∧
      ((after.fact "a" completionDocument).1.node "a").watches.map Watch.events =
        [[⟨.added, task.reference⟩, ⟨.removed, task.reference⟩]] := by
  rw [snd_watch_eq_panicked_iff]
  simp only [taskMade, World.fact, Document.dehydrate_eq_ok.2 ⟨_, dehydrate_task⟩,
    Document.dehydrate_eq_ok.2 ⟨_, dehydrate_completion⟩]
  decide +kernel

def tasksOfReport : Query := [.predecessor "tasks", .field "Task"]

def faltering : Listener := fun _ number => { panics := number == 2 }

def reportMade : World := (World.fact "a" reportDocument {}).1

/-- A report names two tasks, and the listener of a watch fails at the second: the watch holds both,
counts the first, and stays behind. -/
theorem faltering_leaves :
    (reportMade.watch "a" report.reference tasksOfReport faltering).2 = .panicked ∧
      ∃ watch next, (reportMade.watch "a" report.reference tasksOfReport faltering).1 =
          reportMade.setNode "a" next ∧ (reportMade.node "a").IsLeftWith watch next ∧
        watch.results = [task.reference, looseTask.reference] ∧ watch.addedCount = 1 := by
  have hrun : World.Unfolds {} reportMade :=
    Unfolds.start.command (.call "a" (.fact reportDocument))
  have hfound : (reportMade.node "a").facts.found tasksOfReport report.reference =
      [task.reference, looseTask.reference] := by
    simp only [reportMade, World.fact, Document.dehydrate_eq_ok.2 ⟨_, dehydrate_report⟩]
    decide +kernel
  have hfaults : (reportMade.node "a").faults = {} := by
    simp only [reportMade, World.fact, Document.dehydrate_eq_ok.2 ⟨_, dehydrate_report⟩]
    decide +kernel
  obtain ⟨hiff, hleaves⟩ := watch_panicked_leaves exists_ofConfig? hrun "a" report.reference
    tasksOfReport faltering
  have hpanicked := hiff.2 ⟨⟨by rw [hfaults], by rw [hfaults]; rfl⟩, 1, by simp [hfound], rfl⟩
  obtain ⟨earlier, fact, later, watch, next, heq, -, hfirst, rfl, hnext, hleft⟩ :=
    hleaves hpanicked
  have hlength : earlier.length = 1 := by simpa [faltering] using hfirst
  obtain ⟨first, rfl⟩ := List.length_eq_one_iff.1 hlength
  obtain ⟨rfl, rfl, -⟩ : task.reference = first ∧ looseTask.reference = fact ∧ [] = later := by
    simpa [hfound] using heq
  exact ⟨hpanicked, _, next, hnext, hleft, rfl, rfl⟩

end Errands

end World

end LiveFacts
