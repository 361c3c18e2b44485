import LiveFacts.Proofs.Network.Acts
import LiveFacts.Proofs.Node.EarlyWatches
import LiveFacts.Proofs.Query.Carried

/-!
# What a mirrored watch brings in

A node that is asked for what a watch of its peer finds sends its matches and all that they rest on,
predecessors first, and the peer takes them in one after another. The watch, which is live by then,
has whatever its query finds among the facts that are stored in the end.
-/

namespace LiveFacts

open Record (Holds)

namespace Node

theorem SavesAll.saves_or_error {node final : Node} {record : Record} {count : Except Error Nat}
    (h : SavesAll [record] node final count) :
    (∃ new, Saves record node final new) ∨ ∃ error, count = .error error := by
  cases h with
  | refused hsave => exact Or.inr ⟨_, rfl⟩
  | cons hsave hrest =>
    cases hrest with
    | nil => exact Or.inl ⟨_, hsave⟩

theorem exists_saves_of_takeIn {node : Node} {record : Record} {source : Source} {new : Bool}
    (h : (node.takeIn record source).2 = .ok new) :
    ∃ new, Saves record node (node.takeIn record source).1 new := by
  rw [takeIn] at h ⊢
  split at h
  · next hauthentic =>
    obtain ⟨count, hcount, -⟩ := map_eq_ok.1 h
    rw [if_pos hauthentic]
    refine (savesAll_saveAll [record] node).saves_or_error.resolve_right ?_
    rintro ⟨error, herror⟩
    rw [hcount] at herror
    cases herror
  · cases h

end Node

namespace World

theorem savesAll_takeInAll {name : String} {source : Source} {records : List Record}
    {world : World} (halive : (world.node name).alive = true)
    (h : (world.takeInAll name source records).2 = .ok ()) :
    ∃ count, Node.SavesAll records (world.node name)
      ((world.takeInAll name source records).1.node name) count := by
  induction records generalizing world with
  | nil => exact ⟨_, .nil _⟩
  | cons record rest ih =>
    have hcontinues := (world.node name).continues_takeIn record source
    rw [takeInAll, reach_of_alive _ halive] at h ⊢
    cases htaken : ((world.node name).takeIn record source).2 with
    | error error =>
      simp only [htaken] at h
      cases h
    | ok new =>
      obtain ⟨new', hsave⟩ := Node.exists_saves_of_takeIn htaken
      simp only [htaken] at h ⊢
      obtain ⟨count, hall⟩ := ih (by rwa [node_setNode, hcontinues.alive]) h
      rw [node_setNode] at hall
      exact ⟨_, .cons hsave hall⟩

/-- The watch is active and in nobody's hand yet, its start is stored, and it has all that its query
leads to. -/
structure Collects (start : Reference) (query : Query) (listener : Listener) (store : Store)
    (watch : Watch) : Prop extends watch.Follows start query listener where
  free : watch.held = false
  active : watch.isStopped = false
  nodup : watch.results.Nodup
  stored : store.contains start = true
  collected : ∀ fact, store.links.Leads query start fact → fact ∈ watch.results

variable {name : String} {world : World} {start : Reference} {query : Query} {listener : Listener}

/-- Results of a query that never asks for nothing to be found are told when they appear, and are
never told to go. -/
theorem keptBySaves_collects (hpositive : query.isPositive = true)
    (hlistener : listener.NeverPanics) : KeptBySaves (Collects start query listener) := by
  rintro store record watch taken hadmits htakes
    ⟨hfollows, hfree, hactive, hnodup, hstored, hcollected⟩
  have hstill : (watch.takeAll taken).isStopped = false := by
    rw [Watch.isStopped_takeAll (Or.inl hfree), hactive]
  have htask : Watch.SameTask (watch.takeAll taken) watch := Watch.sameTask_takeAll taken
  obtain ⟨rfl, rfl, rfl⟩ := id hfollows
  have hmem := (Watch.takeAll_of_no_removal
    (fun _ => Links.not_reports_removed_of_isPositive hpositive)
    (fun change fact => ⟨htakes.reported change fact, htakes.all hlistener hstill change fact⟩)
    hstill hnodup).2
  refine ⟨hfollows.takeAll taken, htask.held.trans hfree, hstill,
    Watch.nodup_results_takeAll hnodup taken, hadmits.contains_save_iff.2 (Or.inl hstored), ?_⟩
  intro fact hleads
  rw [hmem]
  by_cases hold : store.links.Leads watch.query watch.start fact
  · exact Or.inl (hcollected fact hold)
  · exact Or.inr (hadmits.grows.reports_of_gain (hadmits.ne_of_contains hstored) hleads hold)

theorem spares_started :
    Node.Spares ((world.node name).watches.length + 1)
      ((world.started start query listener name).node name)
      ((world.node name).register start query listener).1 := by
  rw [started, node_setNode]
  exact ((Node.spares_modifyWatch (Node.id_advance .live) _ _).trans
    (Node.spares_seed _ _ start query)).trans Node.spares_begun

theorem Collects.of_sameResults {store : Store} {watch other : Watch}
    (h : Collects start query listener store watch) (hsame : Watch.SameTask other watch)
    (hstopped : other.isStopped = watch.isStopped) (hresults : other.results = watch.results) :
    Collects start query listener store other :=
  ⟨⟨hsame.start.trans h.start_eq, hsame.query.trans h.query_eq,
    hsame.listener.trans h.listener_eq⟩, hsame.held.trans h.free, hstopped.trans h.active,
    hresults ▸ h.nodup, h.stored, hresults ▸ h.collected⟩

/-- A watch that begins and is given what its query finds has all that its query leads to. -/
theorem collects_beginning (query : Query) (listener : Listener)
    (hcomplete : (world.node name).IsComplete)
    (hstart : (world.node name).facts.contains start = true) :
    Collects start query listener (world.node name).facts
      ((beginning world name start query listener).takeAll
        (((world.node name).facts.found query start).map (Event.mk .added))) := by
  have hactive : ((beginning world name start query listener).takeAll
      (((world.node name).facts.found query start).map (Event.mk .added))).isStopped = false := by
    rw [Watch.isStopped_takeAll (Or.inl rfl)]
    rfl
  obtain ⟨hnodup, hmem⟩ := @Watch.takeAll_of_no_removal (beginning world name start query listener)
    (fun change fact => change = .added ∧ fact ∈ (world.node name).facts.found query start)
    (fun _ h => nomatch h.1) _ (fun _ _ => Event.mem_map_added) hactive List.nodup_nil
  have hfollows : (beginning world name start query listener).Follows start query listener :=
    ⟨rfl, rfl, rfl⟩
  have htask : Watch.SameTask _ (beginning world name start query listener) :=
    Watch.sameTask_takeAll (((world.node name).facts.found query start).map (Event.mk .added))
  refine ⟨hfollows.takeAll _, htask.held, hactive, hnodup, hstart, fun fact hleads => ?_⟩
  refine (hmem fact).2 (Or.inr ⟨rfl, Store.mem_found.2 ?_⟩)
  exact (Store.finds_iff_of_isClosed hcomplete.sound hcomplete.closed hstart).2 hleads

/-- A new watch from a fact of a closed store has all that its query leads to when it is live. -/
theorem exists_collects_started (query : Query) (hcomplete : (world.node name).IsComplete)
    (hlistener : listener.NeverPanics) (hstart : (world.node name).facts.contains start = true) :
    (world.seeded start query listener name).2 = false ∧
      ∃ watch, ((world.started start query listener name).node name).watch?
          ((world.node name).watches.length + 1) = some watch ∧
        Collects start query listener (world.node name).facts watch := by
  have hbegun : ((world.node name).begun start query listener).watch?
      ((world.node name).watches.length + 1) = some (beginning world name start query listener) :=
    hcomplete.toIsReady.watch?_begun
  have hfaults : ((world.node name).begun start query listener).faults = {} := hcomplete.faults
  obtain ⟨hcalm, hseeded⟩ := Node.seed_eq hfaults hbegun hlistener start query
  change (world.seeded start query listener name).1.watch? _ = some ((beginning world name start
    query listener).takeAll (((world.node name).facts.found query start).map (Event.mk .added)))
    at hseeded
  have hcollects := collects_beginning query listener hcomplete hstart
  generalize (beginning world name start query listener).takeAll _ = watch at hseeded hcollects
  obtain ⟨hsame, hresults, -⟩ := Node.advance_frame .live watch
  refine ⟨hcalm, watch.advance .live, ?_,
    hcollects.of_sameResults hsame (Node.isStopped_advance_live watch) hresults⟩
  rw [started, node_setNode, Node.watch?_modifyWatch (Node.id_advance .live), hseeded,
    Option.map_some, if_pos (Node.id_of_watch? hseeded)]

end World

namespace Store

variable {peer before here : Store} {facts : List Reference} {all : List Record} {query : Query}
  {start : Reference}

/-- A store into which a closure has been saved has all that its facts rest on. -/
theorem contains_of_closure (hsound : peer.IsSound) (hall : peer.closure facts = .ok all)
    (hhere : here = (predecessorsFirst all facts).foldl save before) :
    ∀ fact ∈ facts, ∀ rested, peer.links.RestsOn fact rested → here.contains rested = true := by
  intro fact hfact rested hrests
  obtain ⟨record, hrecord, rfl⟩ :=
    (predecessorsFirst_closure hsound hall).1 fact hfact rested hrests
  rw [hhere]
  exact contains_saveAll hrecord

/-- Where the closure of what a query finds has been saved, the query finds it again, if it meets
only facts on the way that the start or the match rests on. -/
theorem Matches.leads_of_closure (hmatches : peer.Matches before)
    (hclosed : peer.IsClosed) (hsound : peer.IsSound) (hclosed' : here.IsClosed)
    (hsound' : here.IsSound) (hall : peer.closure facts = .ok all)
    (hhere : here = (predecessorsFirst all facts).foldl save before)
    (hcarried : query.isCarried = true) (hstart : peer.contains start = true)
    (hthere : here.contains start = true) {fact : Reference} (hfact : fact ∈ facts)
    (h : peer.links.Leads query start fact) : here.links.Leads query start fact := by
  have hsent : ∀ record ∈ predecessorsFirst all facts, record ∈ peer.records := by
    intro record hrecord
    exact mem_of_closure hall record (mem_predecessorsFirst record hrecord)
  have hstored := contains_of_closure hsound hall hhere fact hfact
  obtain ⟨record, hrecord, rfl⟩ :=
    (predecessorsFirst_closure hsound hall).1 fact hfact fact .refl
  have hmatches' : peer.Matches here := hhere ▸ hmatches.saveAll hsound hsent
  exact hmatches'.leads_of_isCarried hclosed hsound hclosed' hsound' hcarried hstart hthere
    (contains_iff.2 ⟨record, hsent record hrecord, rfl⟩) hstored h

end Store

namespace Ends

variable {ends : Ends} {side : Side} {world : World} {start : Reference} {query : Query}
  {listener : Listener}

/-- If asking a network ends well, the node at the other end has run the query, and the node that
asked has saved all that it sent. -/
theorem Stands.savesAll_ask (hstands : ends.Stands world)
    (h : (world.ask (ends.network side) start query).2 = .ok ()) :
    ∃ found all count,
      (ends.nodeAt side.other world).facts.evaluate start query = .ok found ∧
      (ends.nodeAt side.other world).facts.closure (terminals found) = .ok all ∧
      Node.SavesAll (predecessorsFirst all (terminals found)) (ends.nodeAt side world)
        (ends.nodeAt side (world.ask (ends.network side) start query).1) count := by
  have hinquired := hstands.passes_inquire side start query
  rcases hstands.inquire_cases side start query with ⟨error, hinquire⟩ |
    ⟨hattached, source, hinquire⟩
  · rw [World.ask, hinquire] at h
    cases h
  · have halive : (World.node (ends.asking side start query world) (ends.node side.other)).alive =
        true := hstands.alive side.other
    rw [World.reach_of_alive _ halive] at hinquire
    have hpeer : World.node (ends.asking side start query world) (ends.node side.other) =
        ends.nodeAt side.other world := rfl
    rw [hpeer] at hinquire
    cases hanswer : ((ends.nodeAt side.other world).closure start query).2 with
    | error error =>
      rw [hanswer] at hinquire
      rw [World.ask, hinquire] at h
      cases h
    | ok records =>
      rw [hanswer] at hinquire
      obtain ⟨found, all, hfound, hall, rfl⟩ :=
        Node.exists_closure_of_answer (hstands.faults side.other) hanswer
      have hasked : world.ask (ends.network side) start query =
          ((ends.asking side start query world).setNode (ends.node side.other)
            ((ends.nodeAt side.other world).closure start query).1).takeInAll (ends.node side)
              source (predecessorsFirst all (terminals found)) := by
        rw [World.ask, hinquire]
        rfl
      have hown : ends.nodeAt side ((ends.asking side start query world).setNode
          (ends.node side.other) ((ends.nodeAt side.other world).closure start query).1) =
            ends.nodeAt side world := nodeAt_setNode_other _
      rw [hasked] at h ⊢
      obtain ⟨count, hsaves⟩ := World.savesAll_takeInAll (by
        change (ends.nodeAt side _).alive = true
        rw [hown]
        exact hstands.alive side) h
      change Node.SavesAll _ (ends.nodeAt side _) (ends.nodeAt side _) count at hsaves
      rw [hown] at hsaves
      exact ⟨found, all, count, hfound, hall, hsaves⟩

/-- How often the network of the node has failed to bring in what a watch finds. -/
def failedRegistrations (ends : Ends) (side : Side) (world : World) : Nat :=
  (ends.nodeAt side world).warnings.count .registrationFailed

/-- A network that has not failed has been asked, and that has ended well. -/
theorem Stands.mirror_eq (hstands : ends.Stands world) (hattached : ends.IsAttached side world)
    (h : ends.failedRegistrations side (world.mirror (ends.node side) start query) =
      ends.failedRegistrations side world) :
    (world.ask (ends.network side) start query).2 = .ok () ∧
      world.mirror (ends.node side) start query =
        (world.ask (ends.network side) start query).1 := by
  have hnetwork : (world.node (ends.node side)).network? = some (ends.network side) :=
    hattached.network?
  have hgrown := ((hstands.passes_ask side start query).nodes side).warnings.sublist.count_le
    .registrationFailed
  rw [World.mirror, hnetwork] at h ⊢
  dsimp only at h ⊢
  cases hasked : (world.ask (ends.network side) start query).2 with
  | ok _ =>
    have hpair : world.ask (ends.network side) start query =
        ((world.ask (ends.network side) start query).1, .ok ()) := by rw [← hasked]
    rw [hpair]
    exact ⟨rfl, rfl⟩
  | error error =>
    have hpair : world.ask (ends.network side) start query =
        ((world.ask (ends.network side) start query).1, .error error) := by rw [← hasked]
    rw [hpair, failedRegistrations] at h
    dsimp only at h
    rw [World.modifyNode, nodeAt_setNode, Node.warn] at h
    rw [List.count_append, List.count_singleton_self] at h
    change _ ≤ List.count _ (World.node _ (ends.node side)).warnings at hgrown
    rw [failedRegistrations] at h
    omega

/-- A call for a watch that is passed on: if the network does not fail, the other node has run the
query, and the node has saved what it sent when the watch was live. -/
theorem Stands.savesAll_watch (hstands : ends.Stands world) (hattached : ends.IsAttached side world)
    (hmirrors : (ends.nodeAt side world).config.mirrorWatches = true)
    (hcalm : (world.seeded start query listener (ends.node side)).2 = false)
    (hregistered :
      ends.failedRegistrations side (world.watch (ends.node side) start query listener).1 =
        ends.failedRegistrations side world) :
    ∃ found all mirrored count,
      (world.watch (ends.node side) start query listener).2 =
        .handle ((ends.nodeAt side world).watches.length + 1) ∧
      (ends.nodeAt side.other world).facts.evaluate start query = .ok found ∧
      (ends.nodeAt side.other world).facts.closure (terminals found) = .ok all ∧
      Node.SavesAll (predecessorsFirst all (terminals found))
        (ends.nodeAt side (world.started start query listener (ends.node side))) mirrored count ∧
      ends.nodeAt side (world.watch (ends.node side) start query listener).1 =
        mirrored.modifyWatch ((ends.nodeAt side world).watches.length + 1) fun watch =>
          { watch with held := true } := by
  obtain ⟨started, hstarted⟩ : ∃ started, started =
      world.started start query listener (ends.node side) := ⟨_, rfl⟩
  have hkeeps := world.keeps_started start query listener (ends.node side)
  have hpasses : ends.Passes side [] world started := by
    rw [hstarted]
    exact passes_started ends side start query listener world
  have hpeer : ends.nodeAt side.other started = ends.nodeAt side.other world := by
    rw [hstarted]
    exact nodeAt_other_setNode _
  have hstands' := hpasses.stands hstands
  have hconfig : (started.node (ends.node side)).config.mirrorWatches = true := by
    rw [hstarted, hkeeps.config]
    exact hmirrors
  rw [World.watch_eq_seeded, hcalm, if_neg Bool.false_ne_true, ← hstarted, if_pos hconfig]
    at hregistered ⊢
  dsimp only at hregistered ⊢
  rw [World.modifyNode, nodeAt_setNode]
  have hbefore := (hpasses.nodes side).warnings.sublist.count_le Warning.registrationFailed
  have hafter := ((hstands'.passes_mirror side start query).nodes side).warnings.sublist.count_le
    Warning.registrationFailed
  have hheld : ends.failedRegistrations side (started.mirror (ends.node side) start query) =
      ends.failedRegistrations side world := by
    rw [World.modifyNode, failedRegistrations, nodeAt_setNode] at hregistered
    exact hregistered
  have hsame : ends.failedRegistrations side (started.mirror (ends.node side) start query) =
      ends.failedRegistrations side started := by
    unfold failedRegistrations at hheld ⊢
    omega
  obtain ⟨hasked, hmirror⟩ := hstands'.mirror_eq (hpasses.isAttached hattached) hsame
  obtain ⟨found, all, count, hfound, hall, hsaves⟩ := hstands'.savesAll_ask hasked
  rw [hpeer] at hfound hall
  rw [hmirror]
  exact ⟨found, all, _, count, rfl, hfound, hall, hsaves, rfl⟩

/-- A watch that is passed on to a node at the other end of a link brings in all that the query
finds there, and all that this rests on. Of a query that never asks for nothing to be found, the
watch has all that the query finds among the facts that there are then; and if the query moves to
predecessors first and to successors afterwards, and its conditions to predecessors only, all that it
finds at the other end. -/
theorem mirrored_watch_collects (hstands : ends.Stands world) (side : Side)
    (hattached : ∀ one, ends.IsAttached one world)
    (hcomplete : ∀ one, (ends.nodeAt one world).IsComplete)
    (hacyclic : (ends.nodeAt side.other world).facts.IsAcyclic)
    (hmirrors : (ends.nodeAt side world).config.mirrorWatches = true)
    (hpositive : query.isPositive = true) (hlistener : listener.NeverPanics)
    (hstart : ∀ one, (ends.nodeAt one world).facts.contains start = true) {next : World}
    (hnext : next = (world.watch (ends.node side) start query listener).1)
    (hregistered : ends.failedRegistrations side next = ends.failedRegistrations side world) :
    ∃ id watch found here,
      (world.watch (ends.node side) start query listener).2 = .handle id ∧
      (ends.nodeAt side next).watch? id = some watch ∧
      (ends.nodeAt side.other world).facts.evaluate start query = .ok found ∧
      (ends.nodeAt side next).facts.evaluate start query = .ok here ∧
      (∀ fact ∈ terminals found, ∀ rested,
        (ends.nodeAt side.other world).facts.links.RestsOn fact rested →
          (ends.nodeAt side next).facts.contains rested = true) ∧
      (∀ fact ∈ terminals here, fact ∈ watch.results) ∧
      (query.isCarried = true →
        (ends.nodeAt side.other world).facts.Matches (ends.nodeAt side world).facts →
          ∀ fact ∈ terminals found, fact ∈ watch.results) := by
  obtain ⟨hcalm, seeded, hseeded, hcollects⟩ :=
    World.exists_collects_started query (hcomplete side) hlistener (hstart side)
  subst hnext
  obtain ⟨found, all, mirrored, count, houtcome, hfound, hall, hsaves, hnode⟩ :=
    hstands.savesAll_watch (hattached side) hmirrors hcalm hregistered
  have hpeer := hcomplete side.other
  have hrecords := (Store.predecessorsFirst_closure hpeer.sound hall).2 hacyclic
  have hkeeps := world.keeps_started start query listener (ends.node side)
  have hfacts : (ends.nodeAt side (world.started start query listener (ends.node side))).facts =
      (ends.nodeAt side world).facts := hkeeps.facts
  have hstarted : (ends.nodeAt side
      (world.started start query listener (ends.node side))).IsComplete :=
    ⟨World.spares_started.isReady (hcomplete side).toIsReady.register,
      hfacts ▸ (hcomplete side).closed⟩
  -- the watch is live when the records come, so that each save keeps it collecting
  obtain ⟨hmirrored, watch, hwatch, hcollected⟩ := hsaves.preserves_of_isComplete hstarted
    (Record.areGrounded_mono hrecords fun _ => False.elim)
    (World.keptBySaves_collects hpositive hlistener) hseeded (hfacts ▸ hcollects)
  change mirrored.watch? ((ends.nodeAt side world).watches.length + 1) = some watch at hwatch
  obtain ⟨-, -, hsaved⟩ :=
    hsaves.isReady hstarted.toIsReady (Record.isKeyed_of_areGrounded hrecords)
  rw [hfacts] at hsaved
  obtain ⟨here, hhere, hleads⟩ :=
    Store.exists_evaluate hmirrored.sound hmirrored.closed hcollected.stored query
  rw [hnode]
  refine ⟨_, { watch with held := true }, found, here, houtcome, ?_, hfound, hhere,
    Store.contains_of_closure hpeer.sound hall hsaved,
    fun fact hfact => hcollected.collected fact ((hleads fact).1 hfact),
    fun hcarried hmatches fact hfact => hcollected.collected fact ?_⟩
  · have hid : ∀ watch : Watch, { watch with held := true }.id = watch.id := fun _ => rfl
    rw [Node.watch?_modifyWatch hid, hwatch, Option.map_some, if_pos (Node.id_of_watch? hwatch)]
  · exact hmatches.leads_of_closure hpeer.closed hpeer.sound hmirrored.closed hmirrored.sound
      hall hsaved hcarried (hstart side.other) hcollected.stored hfact
      ((Store.mem_terminals_evaluate hpeer.sound hfound).1 hfact)

namespace Desks

open World.Errands

def discreet : Side → Config
  | .first => {}
  | .second => { relayLocalFacts := false }

def unlinkedDiscreet : World :=
  World.pair "link" "left" "right" (⟨0⟩, ⟨1⟩)
    (World.setNode "b" { config := discreet .second } (World.setNode "a" {} {}))

theorem opens_discreet : desks.Opens discreet unlinkedDiscreet where
  node := by
    intro side
    cases side <;> rfl
  transport := by
    intro side
    cases side <;> rfl
  vacant := by
    intro side
    cases side <;> rfl

def linkedDiscreet : World := desks.run [(.first, .sync), (.second, .sync)] unlinkedDiscreet

def listThenCompletion : List (Side × Act) :=
  [(.first, .call (.fact listDocument)), (.second, .call (.fact completionDocument))]

def halfKnown : World := desks.run listThenCompletion linkedDiscreet

theorem stands_halfKnown : desks.Stands halfKnown :=
  (opens_discreet.stands.run _).run listThenCompletion

theorem isAttached_halfKnown (side : Side) : desks.IsAttached side halfKnown :=
  isAttached_run (opens_discreet.stands.run _)
    (opens_discreet.stands.isAttached_syncs .first side) listThenCompletion

theorem mirrors_halfKnown : (desks.nodeAt .first halfKnown).config.mirrorWatches = true := by
  have hlinked : desks.Stands linkedDiscreet := opens_discreet.stands.run _
  rw [halfKnown, config_run hlinked, linkedDiscreet, config_run opens_discreet.stands]
  rfl

theorem facts_first : (desks.nodeAt .first halfKnown).facts = Store.ofRecords [list] ∧
    (desks.nodeAt .first halfKnown).watches.map Watch.id = [] := by
  decide +kernel

theorem facts_second :
    (desks.nodeAt .second halfKnown).facts = Store.ofRecords [list, task, completion] ∧
      (desks.nodeAt .second halfKnown).watches.map Watch.id = [] := by
  decide +kernel

theorem isComplete_halfKnown (side : Side) : (desks.nodeAt side halfKnown).IsComplete := by
  have hids : ∀ {watches : List Watch}, watches.map Watch.id = [] →
      watches.map Watch.id = List.range' 1 watches.length := by
    intro watches hnone
    rw [List.map_eq_nil_iff.1 hnone]
    rfl
  have hfirst : (Store.ofRecords [list]).IsClosed := by decide
  have hsecond : (Store.ofRecords [list, task, completion]).IsClosed := by decide
  cases side with
  | first =>
    refine ⟨⟨stands_halfKnown.faults .first, ?_, hids facts_first.2⟩, ?_⟩
    · rw [facts_first.1]
      exact Store.isSound_ofRecords (by decide)
    · rwa [facts_first.1]
  | second =>
    refine ⟨⟨stands_halfKnown.faults .second, ?_, hids facts_second.2⟩, ?_⟩
    · rw [facts_second.1]
      exact Store.isSound_ofRecords (by decide)
    · rwa [facts_second.1]

theorem contains_halfKnown (side : Side) :
    (desks.nodeAt side halfKnown).facts.contains list.reference = true := by
  cases side with
  | first =>
    rw [facts_first.1]
    decide
  | second =>
    rw [facts_second.1]
    decide

theorem isAcyclic_second : (desks.nodeAt .second halfKnown).facts.IsAcyclic := by
  refine Store.isAcyclic_of_areGrounded (isComplete_halfKnown .second).sound ?_
  rw [facts_second.1]
  have hrecords :
      (Store.ofRecords [list, task, completion]).records = [list, task, completion] := by
    decide
  rw [hrecords]
  exact Document.areGrounded_dehydrateFact isKeyed_completionDocument dehydrate_completion

def tasksOfList : Query := [.successor "list"]

def watchedFor (query : Query) : World :=
  (halfKnown.watch (desks.node .first) list.reference query .quiet).1

/-- The task comes to the desk where it is watched for. -/
theorem tasksOfList_mirrored :
    ∃ id watch, (desks.nodeAt .first (watchedFor tasksOfList)).watch? id = some watch ∧
      task.reference ∈ watch.results ∧
      (desks.nodeAt .first (watchedFor tasksOfList)).facts.contains task.reference = true := by
  have hmatches : (desks.nodeAt .second halfKnown).facts.Matches
      (desks.nodeAt .first halfKnown).facts := by
    rw [facts_first.1, facts_second.1, Store.Matches]
    decide
  have hregistered : desks.failedRegistrations .first (watchedFor tasksOfList) =
      desks.failedRegistrations .first halfKnown := by
    decide +kernel
  have hpaths : (desks.nodeAt .second halfKnown).facts.evaluate list.reference tasksOfList =
      .ok [[list.reference, task.reference]] := by
    rw [facts_second.1]
    decide
  obtain ⟨id, watch, found, here, -, hwatch, hfound, -, hstored, -, hall⟩ :=
    mirrored_watch_collects stands_halfKnown .first isAttached_halfKnown isComplete_halfKnown
      isAcyclic_second mirrors_halfKnown (by decide) Listener.neverPanics_quiet contains_halfKnown
      (rfl : watchedFor tasksOfList = _) hregistered
  have hsame : found = [[list.reference, task.reference]] :=
    Except.ok.inj (hfound.symm.trans hpaths)
  subst hsame
  exact ⟨id, watch, hwatch, hall (by decide) hmatches task.reference (by decide),
    hstored task.reference (by decide) task.reference .refl⟩

def completedTasks : Query := [.successor "list", .existential .present [.successor "task"]]

/-- A completed task comes to the desk where it is watched for, but its completion, which it does
not rest on, does not, and so the watch does not find it. -/
theorem completedTasks_not_mirrored :
    completedTasks.isPositive = true ∧
      (∀ side, (desks.nodeAt side halfKnown).IsComplete) ∧
      (∀ side, desks.IsAttached side halfKnown) ∧
      (desks.nodeAt .first halfKnown).config.mirrorWatches = true ∧
      (∀ side, (desks.nodeAt side halfKnown).facts.contains list.reference = true) ∧
      (desks.nodeAt .first (watchedFor completedTasks)).warnings = [] ∧
      (desks.nodeAt .second halfKnown).facts.evaluate list.reference completedTasks =
        .ok [[list.reference, task.reference]] ∧
      ((desks.nodeAt .first (watchedFor completedTasks)).watch? 1).map Watch.results =
        some [] := by
  have hafter : ((desks.nodeAt .first (watchedFor completedTasks)).warnings,
      ((desks.nodeAt .first (watchedFor completedTasks)).watch? 1).map Watch.results) =
        ([], some []) := by
    decide +kernel
  rw [Prod.mk.injEq] at hafter
  refine ⟨by decide, isComplete_halfKnown, isAttached_halfKnown, mirrors_halfKnown,
    contains_halfKnown, hafter.1, ?_, hafter.2⟩
  rw [facts_second.1]
  decide

end Desks

end Ends

end LiveFacts
