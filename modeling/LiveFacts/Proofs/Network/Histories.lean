import LiveFacts.Proofs.Network.Commands
import LiveFacts.Proofs.Node.Drains
import LiveFacts.Proofs.Node.Strays

/-!
# What watches go through

A world of new nodes goes on by commands and by parts of commands, in whatever order these come. At
every moment each watch has told its listener by turns of what came and what went, and its results
and counts agree with that. A watch that is stopped, by a call or by its own listener in the middle
of a delivery, is stopped for good. A round that starts at any of these moments makes proper use of
one connection, whatever its watches do.
-/

namespace LiveFacts

namespace World

/-- A world goes on from another: commands are carried out, each in full, and nodes do parts of
commands, such as a unit of a round, the start or the end of one, a save or a stop, of which all
that counts is what it makes of the watches of each node. -/
inductive Unfolds (first : World) : World → Prop
  | start : Unfolds first first
  | command {world : World} (command : Command) :
      Unfolds first world → Unfolds first (world.perform command)
  | part {world next : World} :
      Unfolds first world → Leads Node.Becomes world next → Unfolds first next

namespace Unfolds

variable {first world final : World}

theorem leads (h : first.Unfolds world) : Leads Node.Becomes first world := by
  induction h with
  | start => exact Leads.refl Node.becomes_calls first
  | command command _ ih =>
    exact Leads.trans Node.becomes_calls ih (Leads.perform Node.becomes_calls _ command)
  | part _ hpart ih => exact Leads.trans Node.becomes_calls ih hpart

theorem performAll (h : first.Unfolds world) (commands : List Command) :
    first.Unfolds (world.performAll commands) := by
  induction commands generalizing world with
  | nil => exact h
  | cons command rest ih => exact ih (h.command command)

/-- A unit of a round may run at any time. -/
theorem run (h : first.Unfolds world) (name : String) (round : Round) (work : Work) :
    first.Unfolds (world.modifyNode name fun node => (round.run node work).1) :=
  h.part (Leads.setNode Node.becomes_calls (Node.becomes_run round _ work))

/-- A call may be carried out with the units of each round in any order. -/
theorem performs {name : String} {call : Call} (h : first.Unfolds world)
    (hperforms : Performs name world call final) : first.Unfolds final :=
  h.part (Leads.performs Node.becomes_calls hperforms)

theorem receives {name : String} {record : Record} {source : Source} (h : first.Unfolds world)
    (hreceives : Receives name record source world final) : first.Unfolds final :=
  h.part (Leads.receives Node.becomes_calls hreceives)

variable {name : String}

theorem map_id (h : first.Unfolds world)
    (hnew : ∃ config, Node.ofConfig? config = some (first.node name)) :
    (world.node name).watches.map Watch.id =
      List.range' 1 (world.node name).watches.length := by
  obtain ⟨config, hconfig⟩ := hnew
  exact (h.leads name).map_id (Node.isSettled_of_ofConfig? hconfig).ids

end Unfolds

/-- Whatever is done in a world of new nodes, and in whatever order the units of its rounds run: a
watch tells its listener of each fact by turns that it came and that it went, its results are the
facts of which it last told that they came, and if no call of the listener has failed, its counts
are the numbers of these calls and differ by the number of its results. -/
theorem isAccounted_of_unfolds {first world : World}
    (hnew : ∀ name, ∃ config, Node.ofConfig? config = some (first.node name))
    (hrun : first.Unfolds world) (name : String) {watch : Watch}
    (hwatch : watch ∈ (world.node name).watches) : watch.IsAccounted := by
  obtain ⟨config, hconfig⟩ := hnew name
  have hnone : (first.node name).watches = [] := by rw [Node.eq_of_ofConfig? hconfig]
  have hfresh : ∀ id start query listener,
      ({ id, start, query, listener } : Watch).IsAccounted := fun _ _ _ _ =>
    Watch.isAccounted_of_events_eq_nil rfl rfl rfl rfl
  have hnobody : ∀ watch ∈ (first.node name).watches, watch.IsAccounted := by
    rw [hnone]
    nofun
  exact (hrun.leads name).forall_mem hfresh Watch.IsAccounted.goes hnobody watch hwatch

namespace Errands

theorem exists_ofConfig? (name : String) :
    ∃ config, Node.ofConfig? config = some (World.node {} name) :=
  ⟨{}, rfl⟩

def completedTask : List Command :=
  [.call "a" (.watch list.reference openTasks .quiet), .call "a" (.fact completionDocument)]

/-- The task comes and goes, and is then reported anew by a unit that runs late: the listener hears
of it three times, and it is the one result. -/
theorem completedTask_isAccounted :
    ∃ watch : Watch, watch.IsAccounted ∧ watch.IsCounted ∧
      watch.changesOf task.reference = [.added, .removed, .added] ∧
      watch.results = [task.reference] ∧ watch.addedCount = 2 ∧ watch.removedCount = 1 := by
  let late : Node.Act := .deliver 1 .added [task.reference]
  let world := World.performAll completedTask {}
  have hrun : World.Unfolds {} (world.modifyNode "a" (·.act late)) :=
    (Unfolds.start.performAll completedTask).part
      (Leads.setNode Node.becomes_calls (Node.Becomes.of_act late rfl))
  obtain ⟨watch, hwatch, hunfailing, hrest⟩ :
      ∃ watch ∈ ((world.modifyNode "a" (·.act late)).node "a").watches,
        watch.IsUnfailing ∧ watch.changesOf task.reference = [.added, .removed, .added] ∧
          watch.results = [task.reference] ∧ watch.addedCount = 2 ∧ watch.removedCount = 1 := by
    decide +kernel
  have haccounted : watch.IsAccounted := isAccounted_of_unfolds exists_ofConfig? hrun "a" hwatch
  exact ⟨watch, haccounted, haccounted.counts hunfailing, hrest⟩

end Errands

end World

/-- A watch is stopped at a node: by a call, or by its own listener, which is told of a fact in the
middle of what a unit delivers. The last watch is what is left of it: after a call as it was, and
else with the call of the listener that was under way. -/
inductive Node.Stops (node : Node) (id : Nat) (watch : Watch) : Node → Watch → Prop
  | call : Stops node id watch (node.stopWatch id) watch.stop
  | listener {round : Round} {change : Change} {query : Query} {paths : List Path}
      {earlier later : List Reference} {fact : Reference} {reached : Watch} :
      (node.lookup round.connection round.fact query).2 = .ok paths →
      terminals paths = earlier ++ fact :: later →
      watch.deliverAll change earlier = (reached, false) →
      reached.isStopped = false → reached.held = true →
      Event.Alters ⟨change, fact⟩ reached.results →
      (reached.listener change (reached.count change + 1)).stops = true →
      Stops node id watch (round.run node (.deliver id change query)).1
        (reached.stopIn ⟨change, fact⟩)

/-- A watch is over: it holds what it held in the end, counts as stopped to whoever looks, is not
listed, and to stop it again changes nothing. -/
structure Node.IsOver (id : Nat) (last : Watch) (node : Node) : Prop where
  watch : ∃ held, node.watch? id = some { last with held }
  phase : node.phase id = .stopped
  unlisted : ∀ other ∈ node.activeWatches, other.id ≠ id
  again : node.stopWatch id = node

namespace Node

variable {node next : Node} {id : Nat} {watch last : Watch}

theorem isOver_of_watch? (hids : node.watches.map Watch.id = List.range' 1 node.watches.length)
    (hlast : last.isStopped = true) {held : Bool}
    (hwatch : node.watch? id = some { last with held }) : node.IsOver id last := by
  have hall : ∀ other ∈ node.watches, other.id = id → other.isStopped = true := by
    intro other hother hid
    have hsame := (watch?_eq_some_iff hids).2 ⟨hother, hid⟩
    rw [hwatch, Option.some.injEq] at hsame
    rw [← hsame]
    exact hlast
  refine ⟨⟨held, hwatch⟩, ?_, ?_, ?_⟩
  · have hphase : last.phase = .stopped := by simpa [Watch.isStopped] using hlast
    simp [phase, hwatch, hphase]
  · intro other hother hid
    obtain ⟨hmem, hactive⟩ := List.mem_filter.1 hother
    rw [hall other hmem hid] at hactive
    cases hactive
  · have hsame : ∀ other ∈ node.watches,
        (if other.id = id then other.stop else other) = other := by
      intro other hother
      split
      · next hid => exact Watch.stop_of_isStopped (hall other hother hid)
      · rfl
    rw [stopWatch, modifyWatch, List.map_congr_left hsame, List.map_id']

theorem Stops.spec (h : node.Stops id watch next last) (hwatch : node.watch? id = some watch) :
    Becomes node next ∧ last.isStopped = true ∧ next.watch? id = some last ∧
      ∀ other, other ≠ id → next.watch? other = node.watch? other := by
  have hid := id_of_watch? hwatch
  cases h with
  | call =>
    refine ⟨Becomes.of_act (.stop id) rfl, rfl, ?_, (spares_modifyWatch id_stop node id).others⟩
    rw [stopWatch, watch?_modifyWatch id_stop, hwatch, Option.map_some, if_pos hid]
  | @listener round change query paths earlier later fact reached hlookup hpaths hreached hactive
      hheld halters hstops =>
    have hlast := Watch.deliver_of_stops hactive hheld halters hstops
    have hwhole : (watch.deliverAll change (terminals paths)).1 =
        reached.stopIn ⟨change, fact⟩ := by
      rw [hpaths, Watch.deliverAll_of_stops hreached (by rw [hlast]; rfl), hlast]
    have hlooked : ∀ other,
        (node.lookup round.connection round.fact query).1.watch? other = node.watch? other :=
      fun _ => rfl
    have hrun : (round.run node (.deliver id change query)).1 =
        (node.lookup round.connection round.fact query).1.modifyWatch id
          fun watch => (watch.deliverAll change (terminals paths)).1 := by
      rw [Round.run]
      split
      · next hfails =>
        rw [hfails] at hlookup
        cases hlookup
      · next looked found hfound =>
        rw [hfound, Except.ok.injEq] at hlookup
        rw [hfound, hlookup]
    refine ⟨becomes_run round node _, rfl, ?_, fun other hother => ?_⟩
    · rw [hrun, watch?_modifyWatch (id_deliverAll change _), hlooked, hwatch, Option.map_some,
        if_pos hid, hwhole]
    · rw [hrun, (spares_modifyWatch (id_deliverAll change _) _ id).others other hother, hlooked]

end Node

namespace World

/-- Where a watch is stopped, at any moment of whatever is done in a world of new nodes, it is over
for good: the listener hears nothing more, and no result and no count changes, but for the call of
the listener that is under way; whoever looks finds it stopped and does not find it listed, and to
stop it again changes nothing. The stop leaves every other watch of the node as it is. -/
theorem isOver_of_stops {first world final : World}
    (hnew : ∀ name, ∃ config, Node.ofConfig? config = some (first.node name))
    (hrun : first.Unfolds world) {name : String} {id : Nat} {watch last : Watch} {node : Node}
    (hwatch : (world.node name).watch? id = some watch)
    (hstops : (world.node name).Stops id watch node last)
    (hlater : (world.setNode name node).Unfolds final) :
    (final.node name).IsOver id last ∧
      ∀ other, other ≠ id → node.watch? other = (world.node name).watch? other := by
  obtain ⟨hbecomes, hstopped, hleft, hothers⟩ := hstops.spec hwatch
  have hfinal := hlater.leads name
  rw [node_setNode] at hfinal
  obtain ⟨after, hafter, hgoes⟩ := hfinal.watch? hleft
  obtain ⟨-, heq⟩ := Watch.isStopped_of_goes hgoes hstopped
  have hids := hfinal.map_id (hbecomes.map_id (hrun.map_id (hnew name)))
  rw [heq] at hafter
  exact ⟨Node.isOver_of_watch? hids hstopped hafter, hothers⟩

namespace Errands

def stopsAtOnce : Listener := fun _ _ => { stops := true }

def awaitingOne : World :=
  performAll [.call "a" (.fact listDocument),
    .call "a" (.watch list.reference reportedTasks stopsAtOnce)] {}

def reporting : Node :=
  ((((awaitingOne.node "a").saveAll [list, task, looseTask]).1.saveRecord report).1.startRound
    report.reference).1

def addedTasks : Query :=
  [.field "Report", .predecessor "tasks", .field "Task",
    .existential .present [.successor "tasks", .field "Report"]]

def reportedOnce : Node :=
  ((Round.mk report.reference 3).run reporting (.deliver 1 .added addedTasks)).1

/-- Of the two tasks that a report adds, the listener hears of the first, stops its watch and hears
no more, though the report is made anew and the watch stopped again. -/
theorem stopsAtOnce_isOver :
    ∃ watch last, reporting.watch? 1 = some watch ∧ watch.isStopped = false ∧
      reporting.Stops 1 watch reportedOnce last ∧ last.events = [⟨.added, task.reference⟩] ∧
      last.results = [task.reference] ∧ last.addedCount = 1 ∧
      (((awaitingOne.setNode "a" reporting).setNode "a" reportedOnce).performAll
        [.call "a" (.fact reportDocument), .call "a" (.stop 1)] |>.node "a").IsOver 1 last := by
  have hreporting : Node.Becomes (awaitingOne.node "a") reporting :=
    Node.becomes_steps.trans
      (Node.becomes_steps.trans (Node.becomes_steps.saveAll _ [list, task, looseTask])
        (Node.becomes_steps.save _ report)) (Node.becomes_steps.start _ report.reference)
  have hrun : World.Unfolds {} (awaitingOne.setNode "a" reporting) :=
    (Unfolds.start.performAll _).part (Leads.setNode Node.becomes_calls hreporting)
  obtain ⟨watch, hwatch, hview⟩ : ∃ watch, reporting.watch? 1 = some watch ∧
      decide (watch.isStopped = false ∧ watch.held = true ∧ watch.results = [] ∧
        watch.events = [] ∧ watch.addedCount = 0 ∧
        watch.listener .added 1 = { stops := true }) = true :=
    (Option.any_eq_true _ _).1 (by decide +kernel)
  obtain ⟨hactive, hheld, hresults, hevents, hcount, hlistener⟩ := of_decide_eq_true hview
  have hlookup : (reporting.lookup 3 report.reference addedTasks).2 =
      .ok [[report.reference, task.reference], [report.reference, looseTask.reference]] := by
    decide +kernel
  have hpaths : terminals
      [[report.reference, task.reference], [report.reference, looseTask.reference]] =
        [] ++ task.reference :: [looseTask.reference] := rfl
  have hcall : watch.listener .added (watch.count .added + 1) = { stops := true } := by
    rw [Watch.count, hevents]
    exact hlistener
  have halters : Event.Alters ⟨.added, task.reference⟩ watch.results := by
    rw [hresults]
    decide
  have hstops : reporting.Stops 1 watch reportedOnce
      (watch.stopIn ⟨.added, task.reference⟩) :=
    Node.Stops.listener hlookup hpaths rfl hactive hheld halters (by rw [hcall])
  have hnode : ((awaitingOne.setNode "a" reporting).node "a") = reporting := node_setNode _ _ _
  obtain ⟨hover, -⟩ := isOver_of_stops exists_ofConfig? hrun (hnode ▸ hwatch) (hnode ▸ hstops)
    (Unfolds.start.performAll [.call "a" (.fact reportDocument), .call "a" (.stop 1)])
  refine ⟨watch, _, hwatch, hactive, hstops, ?_, ?_, ?_, hover⟩
  · simp [Watch.stopIn, hevents]
  · simp [Watch.stopIn, hresults, Event.alter]
  · simp [Watch.stopIn, hcount, hcall]

end Errands

/-- At any moment of whatever is done in a world of new nodes, a round that a fact starts opens one
connection, runs its lookups on it while it is open, whatever turns its units take and in whatever
way they end, and closes it once when no unit is left. Without a watch that the fact concerns there
is no round. So saves leave as many connections open as there were. -/
theorem isTidy_of_unfolds {first world : World}
    (hnew : ∀ name, ∃ config, Node.ofConfig? config = some (first.node name))
    (hrun : first.Unfolds world) (name : String) :
    (∀ fact, (world.node name).IsTidy fact) ∧
      ∀ records, ((world.node name).saveAll records).1.storage.openCount =
        (world.node name).storage.openCount := by
  have hids := hrun.map_id (hnew name)
  exact ⟨Node.isTidy hids, Node.openCount_saveAll hids⟩

namespace Errands

def collapsing : Listener := fun _ _ => { stops := true, panics := true }

def collapsingSoon : World :=
  performAll [.call "a" (.fact listDocument),
    .call "a" (.watch list.reference reportedTasks collapsing)] {}

def awaitingRound : Node :=
  (((collapsingSoon.node "a").saveAll [list, task, looseTask]).1.saveRecord report).1

/-- The round of the report looks up whom it concerns and what it adds. The listener stops its watch
and fails at the first task, and the connection is closed all the same. The list would start no
round. -/
theorem awaitingRound_isTidy :
    ∃ opened pool last, awaitingRound.startRound report.reference =
        (opened, some (⟨report.reference, 3⟩, pool)) ∧
      Shift.Reaches ⟨report.reference, 3⟩ (Shift.begin opened pool) last ∧
      last.IsDisciplined ⟨report.reference, 3⟩ awaitingRound ∧ last.caller = .gone ∧
      last.node.journal = awaitingRound.journal ++ [.opened 3,
        .lookup 3 report.reference
          [.field "Report", .predecessor "tasks", .field "Task", .predecessor "list"] false,
        .lookup 3 report.reference addedTasks false, .closed 3] ∧
      last.node.watches.map (fun watch => (watch.phase, watch.events, watch.addedCount)) =
        [(.stopped, [⟨.added, task.reference⟩], 0)] ∧
      awaitingRound.startRound list.reference = (awaitingRound, none) := by
  have hsaved : Node.Becomes (collapsingSoon.node "a") awaitingRound :=
    Node.becomes_steps.trans (Node.becomes_steps.saveAll _ [list, task, looseTask])
      (Node.becomes_steps.save _ report)
  have hrun : World.Unfolds {} (collapsingSoon.setNode "a" awaitingRound) :=
    (Unfolds.start.performAll _).part (Leads.setNode Node.becomes_calls hsaved)
  have htidy := (isTidy_of_unfolds exists_ofConfig? hrun "a").1
  rw [node_setNode] at htidy
  have hround : (awaitingRound.startRound report.reference).2.map Prod.fst =
      some ⟨report.reference, 3⟩ := by
    decide +kernel
  obtain ⟨⟨_, pool⟩, hpool, rfl⟩ := Option.map_eq_some_iff.1 hround
  rcases hstart : awaitingRound.startRound report.reference with ⟨opened, _⟩
  rw [hstart] at hpool
  subst hpool
  obtain ⟨last, hreaches, hgone, hlast⟩ := (htidy report.reference).finished hstart
  have hpropagated : (awaitingRound.propagate report.reference).journal =
      awaitingRound.journal ++ [.opened 3,
        .lookup 3 report.reference
          [.field "Report", .predecessor "tasks", .field "Task", .predecessor "list"] false,
        .lookup 3 report.reference addedTasks false, .closed 3] := by
    decide +kernel
  have hcalm : awaitingRound.IsUnconcerned list.reference := by decide +kernel
  have hfailed : (awaitingRound.propagate report.reference).watches.map
      (fun watch => (watch.phase, watch.events, watch.addedCount)) =
        [(.stopped, [⟨.added, task.reference⟩], 0)] := by
    decide +kernel
  exact ⟨opened, pool, last, rfl, hreaches,
    (htidy report.reference).disciplined hstart (List.Perm.refl pool) hreaches, hgone,
    by rw [hlast, hpropagated], by rw [hlast, hfailed], (htidy list.reference).calm hcalm⟩

end Errands

end World

end LiveFacts
