import LiveFacts.Proofs.Node.Runs

/-!
# What a round tells a watch

A watch is told of a change that makes a difference when it comes. The units of a round may run in
any order, so of a change and its opposite, both reported, either may come first: some order tells
of the one, some order of the other.
-/

namespace LiveFacts

namespace Round

variable {round : Round} {node : Node} {id : Nat} {watch : Watch}

theorem deliveries_of_effect {inverse : Inverse} {change : Change} {effect : Query}
    (heffect : inverse.effect change = some effect)
    (hnone : inverse.effect change.opposite = none) (id : Nat) :
    Work.deliveries id inverse = [.deliver id change effect] := by
  cases change <;>
    simp_all only [Inverse.effect, Change.opposite_added, Change.opposite_removed,
      Work.deliveries, Option.toList_some, Option.toList_none, List.map_cons, List.map_nil,
      List.append_nil, List.nil_append]

theorem IsOpen.run_check_of_effect (hopen : round.IsOpen node)
    (hwatch : node.watch? id = some watch) (hactive : watch.isStopped = false) {inverse : Inverse}
    {change : Change} {effect : Query} (heffect : inverse.effect change = some effect)
    (hnone : inverse.effect change.opposite = none)
    (haffected : node.facts.Finds inverse.affected round.fact watch.start) :
    (round.run node (.check id inverse)).2 = [.deliver id change effect] ∧
      (round.run node (.check id inverse)).1.watch? id = some watch := by
  obtain ⟨hwatches, hleft⟩ := hopen.run_check id inverse
  constructor
  · rcases hleft with ⟨-, hleft⟩ | ⟨hnot, -⟩
    · rw [hleft, deliveries_of_effect heffect hnone]
    · exact absurd ⟨watch, hwatch, hactive, haffected⟩ hnot
  · rw [Node.watch?, hwatches]
    exact hwatch

/-- After a delivery that finds a fact, the opposite of the change makes a difference. -/
theorem IsOpen.exists_taken_of_deliver (hopen : round.IsOpen node)
    (hwatch : node.watch? id = some watch) (hactive : watch.isStopped = false)
    (hpanics : watch.listener.NeverPanics) (hstops : watch.listener.NeverStops)
    (hnodup : watch.results.Nodup) {event : Event} {effect : Query}
    (hresult : node.facts.Finds effect round.fact event.fact) :
    (round.run node (.deliver id event.change effect)).2 = [] ∧
      ∃ taken, (round.run node (.deliver id event.change effect)).1.watch? id =
          some (watch.takeAll taken) ∧
        event.opposite.Alters (watch.takeAll taken).results := by
  obtain ⟨hnothing, taken, htaken, hsub, hall⟩ := hopen.run_deliver hwatch id event.change effect
  have hstill := Watch.isStopped_takeAll_of_neverStops hactive hstops taken
  refine ⟨hnothing, taken, htaken, Watch.alters_opposite_takeAll hstill hnodup ?_ ?_⟩
  · intro other hmem
    exact (hsub other hmem).2.1.symm
  · exact hall hpanics event ⟨rfl, rfl, hresult⟩

/-- What an inverse says can be delivered before anything else is done, and then its opposite makes
a difference. -/
theorem IsOpen.exists_told_first (hopen : round.IsOpen node) (event : Event)
    (hwatch : node.watch? id = some watch) (hactive : watch.isStopped = false)
    (hpanics : watch.listener.NeverPanics) (hstops : watch.listener.NeverStops)
    (hnodup : watch.results.Nodup) {inverse : Inverse} {effect : Query}
    (heffect : inverse.effect event.change = some effect)
    (hnone : inverse.effect event.change.opposite = none)
    (haffected : node.facts.Finds inverse.affected round.fact watch.start)
    (hresult : node.facts.Finds effect round.fact event.fact) :
    ∃ middle taken, Node.Alike middle node ∧ middle.watch? id = some (watch.takeAll taken) ∧
      event.opposite.Alters (watch.takeAll taken).results ∧
      ∀ {before after : List Work} {final : Node}, round.Finishes middle (before ++ after) final →
        round.Finishes node (before ++ .check id inverse :: after) final := by
  obtain ⟨hleft, hfirst⟩ := hopen.run_check_of_effect hwatch hactive heffect hnone haffected
  have halike := round.alike_run node (.check id inverse)
  generalize hchecked : round.run node (.check id inverse) = checked at hleft hfirst halike
  obtain ⟨first, left⟩ := checked
  rw [← halike.facts] at hresult
  obtain ⟨hnothing, taken, htaken, halters⟩ := (hopen.of_alike halike).exists_taken_of_deliver
    hfirst hactive hpanics hstops hnodup hresult
  refine ⟨_, taken, (round.alike_run first _).trans halike, htaken, halters, ?_⟩
  intro before after final hfinishes
  have hdelivered : round.Finishes first
      ((before ++ after) ++ .deliver id event.change effect :: []) final := by
    apply Finishes.unit
    rw [hnothing]
    simpa using hfinishes
  apply Finishes.unit
  rw [hchecked]
  simp only at hleft
  rw [hleft]
  exact hdelivered

end Round

namespace Node

variable {node before after : Node} {record : Record} {fact : Reference} {id : Nat}
  {watch : Watch}

/-- When a change and its opposite are both told, some order of the round tells of the change. -/
theorem IsReady.exists_propagates_of_tells (hready : node.IsReady)
    (hwatch : node.watch? id = some watch) (hactive : watch.isStopped = false)
    (hpanics : watch.listener.NeverPanics) (hstops : watch.listener.NeverStops)
    (hnodup : watch.results.Nodup) {event : Event}
    (htells : node.facts.Tells watch.query watch.start fact event.change event.fact)
    (hopposite : node.facts.Tells watch.query watch.start fact event.change.opposite event.fact) :
    ∃ settled taken, Propagates fact node settled ∧
      settled.watch? id = some (watch.takeAll taken) ∧
      ∀ told, (watch.takeAll taken).events = watch.events ++ told → event ∈ told := by
  obtain ⟨telling, htelling, htold⟩ := (hready.tells_triggered hwatch).2 ⟨hactive, htells⟩
  obtain ⟨inverse, hinverse, htype, haffected, effect, heffect, hresult⟩ := hopposite
  have hnone := Query.effect_opposite_eq_none hinverse heffect
  obtain ⟨hmem, hid⟩ := hready.watch?_eq_some_iff.1 hwatch
  have hcheck : Work.check id inverse ∈ node.triggered fact :=
    mem_triggered.2 ⟨watch, hmem, hactive, inverse, hinverse, htype, by rw [hid]⟩
  obtain ⟨pre, post, hpool⟩ := List.append_of_mem hcheck
  rcases hready.startRound_eq fact with ⟨-, hnoUnit⟩ |
    ⟨opened, round, hround, rfl, hopen, -, hfacts, hwatches⟩
  · rw [hnoUnit] at hcheck
    cases hcheck
  · have hopened : opened.watch? id = some watch := by rwa [watch?, hwatches]
    rw [← hfacts] at haffected hresult htold
    obtain ⟨middle, first, halike, hmiddle, halters, hfinish⟩ := hopen.exists_told_first
      event.opposite hopened hactive hpanics hstops hnodup heffect hnone haffected hresult
    rw [Event.opposite_opposite] at halters
    -- The check that leads to the change is still in the pool.
    have hleft : telling ∈ pre ++ post := by
      rw [hpool] at htelling
      simp only [List.mem_append, List.mem_cons] at htelling ⊢
      rcases htelling with hpre | rfl | hpost
      · exact Or.inl hpre
      · obtain ⟨-, -, other, hother, -⟩ := htold
        rw [Change.opposite_opposite] at hnone
        rw [hnone] at hother
        cases hother
      · exact Or.inr hpost
    have hsame : middle.facts = opened.facts := halike.facts
    have htask : Watch.SameTask (watch.takeAll first) watch := Watch.sameTask_takeAll first
    have hdrained := round.finishes_drain middle (pre ++ post)
    obtain ⟨later, hlater, -, hall⟩ := hdrained.exists_taken (hopen.of_alike halike) hmiddle
    have hstill : (watch.takeAll (first ++ later)).isStopped = false :=
      Watch.isStopped_takeAll_of_neverStops hactive hstops _
    have hactive' : ((watch.takeAll first).takeAll later).isStopped = false := by
      rwa [← Watch.takeAll_append]
    rw [hsame, htask.start, htask.listener] at hall
    have htaken := hall hpanics hactive' telling hleft _ htold
    refine ⟨_, first ++ later, Propagates.round hround (by rw [hpool]; exact hfinish hdrained), ?_,
      fun told htold => Watch.mem_told_of_alters_later hstill halters htaken htold⟩
    rw [Watch.takeAll_append]
    exact hlater

/-- In some order the round of a new record tells an active watch of a change that is reported, if
the change makes a difference or its opposite is also reported. -/
theorem exists_saves_of_reports (event : Event) (hsettled : before.IsSettled)
    (hadmits : before.facts.Admits record) (hwatch : before.watch? id = some watch)
    (hactive : watch.isStopped = false) (hpanics : watch.listener.NeverPanics)
    (hstops : watch.listener.NeverStops) (hnodup : watch.results.Nodup)
    (hreports : (before.facts.save record).links.Reports watch.query watch.start record.reference
      event.change event.fact)
    (halters : event.Alters watch.results ∨ (before.facts.save record).links.Reports watch.query
      watch.start record.reference event.change.opposite event.fact) :
    ∃ after watch' told, Saves record before after true ∧ after.watch? id = some watch' ∧
      watch'.events = watch.events ++ told ∧ event ∈ told := by
  rcases halters with halters | hopposite
  · obtain ⟨after, hsave⟩ := exists_saves_of_new hsettled hadmits.new
    obtain ⟨-, -, hfacts, htakes⟩ := hsave.of_new hsettled hadmits.keyed hadmits.named
    obtain ⟨taken, htaken, htake⟩ := htakes hwatch
    obtain ⟨told, htold, -⟩ := watch.exists_told taken
    have hstill := Watch.isStopped_takeAll_of_neverStops hactive hstops taken
    rw [← hfacts] at hreports
    exact ⟨after, _, told, hsave, htaken, htold,
      Watch.mem_told_of_alters hstill halters (htake.all hpanics hstill _ _ hreports) htold⟩
  · have hsave := hsettled.isReady.saveRecord_eq record
    rw [hadmits.new] at hsave
    have hstored := hsettled.save hadmits.keyed hadmits.named
    have htells : ∀ {change result}, (before.facts.save record).links.Reports watch.query
        watch.start record.reference change result → (before.facts.save record).Tells watch.query
        watch.start record.reference change result :=
      fun h => (Store.tells_iff_of_isClosed hstored.sound hstored.closed
        (Store.contains_save_self _ record)).2 h
    obtain ⟨settled, taken, hpropagates, hsettled', htold⟩ :=
      hstored.isReady.exists_propagates_of_tells hwatch hactive hpanics hstops hnodup
        (htells hreports) (htells hopposite)
    obtain ⟨told, heq, -⟩ := watch.exists_told taken
    exact ⟨settled, _, told, Saves.new hsave hpropagates, hsettled', heq, htold told heq⟩

theorem Saves.exists_told_takes (hsave : Saves record before after true)
    (hsettled : before.IsSettled) (hadmits : before.facts.Admits record)
    (hwatch : before.watch? id = some watch) :
    ∃ taken told, after.watch? id = some (watch.takeAll taken) ∧
      watch.Takes (before.facts.save record).links record.reference taken ∧
      (watch.takeAll taken).events = watch.events ++ told ∧ told.Sublist taken := by
  obtain ⟨-, -, hfacts, htakes⟩ := hsave.of_new hsettled hadmits.keyed hadmits.named
  obtain ⟨taken, htaken, htake⟩ := htakes hwatch
  obtain ⟨told, htold, hsub⟩ := watch.exists_told taken
  exact ⟨taken, told, htaken, hfacts ▸ htake, htold, hsub⟩

end Node

namespace World

open Node

structure Attends (start : Reference) (query : Query) (listener : Listener) (store : Store)
    (watch : Watch) : Prop extends watch.Follows start query listener where
  stored : store.contains start = true
  nodup : watch.results.Nodup

theorem keptBySaves_attends (start : Reference) (query : Query) (listener : Listener) :
    KeptBySaves (Attends start query listener) := by
  rintro store record watch taken - - ⟨hfollows, hstored, hnodup⟩
  exact ⟨hfollows.takeAll taken,
    Store.contains_of_grown (Store.records_grow_save store record) hstored,
    Watch.nodup_results_takeAll hnodup taken⟩

/-- When a call of a run comes to a new record, a watch that the run began with attends, and its
query succeeds on the store with the record. -/
theorem exists_attends {config : Config} {node : Node}
    (hnode : Node.ofConfig? config = some node) {name : String} {world : World}
    (hworld : world.node name = node) {earlier : List Call} {opened : World}
    (hearlier : Run name world earlier opened) {start : Reference}
    (hstart : (opened.node name).facts.contains start = true) (query : Query)
    (listener : Listener) {later : List Call} {final : World}
    (hlater : Run name (opened.watch name start query listener).1 later final) {record : Record}
    {before : Node} (hcomes : ComesTo name final record before)
    (hnew : before.facts.contains record.reference = false) :
    before.IsSettled ∧ before.facts.Admits record ∧
      ∃ watch found, before.watch? ((opened.node name).watches.length + 1) = some watch ∧
        Attends start query listener before.facts watch ∧
        (before.facts.save record).evaluate start query = .ok found := by
  have hopened : (opened.node name).IsSettled :=
    hearlier.isSettled (hworld ▸ isSettled_of_ofConfig? hnode)
  obtain ⟨hwatched, hfacts, -⟩ := watch_frame hopened start query listener
  obtain ⟨first, taken, hfirst, hfirstStart, hfirstQuery, hfirstListener, -, hresults, -⟩ :=
    exists_watch_of_watch hopened start query listener
  have hbegin : Attends start query listener
      ((opened.watch name start query listener).1.node name).facts first := by
    refine ⟨⟨hfirstStart, hfirstQuery, hfirstListener⟩, hfacts ▸ hstart, ?_⟩
    rw [hresults]
    exact Watch.nodup_results_takeAll List.nodup_nil taken
  have hkept := keptBySaves_attends start query listener
  obtain ⟨middle, hmiddle, hmiddleAttends⟩ := hlater.preserves hwatched hkept
    (fun _ _ _ h => ⟨⟨h.start_eq, h.query_eq, h.listener_eq⟩, h.stored, h.nodup⟩) hfirst hbegin
  obtain ⟨hsettled, hkeyed, hnamed, hkeep⟩ := hcomes.spec (hlater.isSettled hwatched)
  obtain ⟨watch, hwatch, hattends⟩ := hkeep hkept hmiddle hmiddleAttends
  have hadmits : before.facts.Admits record :=
    ⟨hsettled.sound, hsettled.closed, hkeyed, hnew, hnamed⟩
  have hgrown := Store.records_grow_save before.facts record
  obtain ⟨found, hfound, -⟩ := Store.exists_evaluate (hadmits.sound.save hkeyed)
    (hadmits.closed.save hnamed) (Store.contains_of_grown hgrown hattends.stored) query
  exact ⟨hsettled, hadmits, watch, found, hwatch, hattends, hfound⟩

end World

end LiveFacts
