import LiveFacts.Proofs.Network.Closedness

/-!
# Nodes that are attached one after the other

What is made at a node waits until the node is attached, and is sent then, whether or not a node is
attached at the other end. So what is made at the node that is attached last arrives at the other.
What was made at the one that is attached first is gone from its outbox by then, and of this only
that arrives which the watches of the last ask for.
-/

namespace LiveFacts

namespace World

theorem areWhole_postedBy (store : Store) {call : Call} (hkeyed : Ends.Act.IsKeyed (.call call)) :
    Record.AreWhole (postedBy store call) := by
  cases call with
  | fact document =>
    rw [postedBy]
    split
    · exact Record.areWhole_nil
    · next records root hrecords =>
      split
      · exact Document.areWhole_dehydrateFact hkeyed hrecords
      · exact Record.areWhole_nil
  | watch start query listener => exact Record.areWhole_nil
  | stop id => exact Record.areWhole_nil

theorem areWhole_posted (store : Store) {calls : List Call}
    (hkeyed : ∀ call ∈ calls, Ends.Act.IsKeyed (.call call)) :
    Record.AreWhole (posted store calls) := by
  induction calls generalizing store with
  | nil => exact Record.areWhole_nil
  | cons call rest ih =>
    rw [List.forall_mem_cons] at hkeyed
    exact (areWhole_postedBy store hkeyed.1).append (ih _ hkeyed.2)

end World

namespace Ends

variable {ends : Ends} {side : Side} {world opened before now : World}

def callsAt (side : Side) (acts : List (Side × Act)) : List World.Call :=
  acts.filterMap fun
    | (one, .call call) => if one = side then some call else none
    | (_, .sync) => none

@[simp] theorem callsAt_call_self (call : World.Call) (rest : List (Side × Act)) :
    callsAt side ((side, .call call) :: rest) = call :: callsAt side rest := by
  simp [callsAt]

theorem callsAt_of_ne {one : Side} (hne : one ≠ side) (act : Act) (rest : List (Side × Act)) :
    callsAt side ((one, act) :: rest) = callsAt side rest := by
  cases act <;> simp [callsAt, hne]

@[simp] theorem callsAt_sync (one : Side) (rest : List (Side × Act)) :
    callsAt side ((one, .sync) :: rest) = callsAt side rest := rfl

theorem mem_callsAt {acts : List (Side × Act)} {call : World.Call} :
    call ∈ callsAt side acts ↔ (side, .call call) ∈ acts := by
  induction acts with
  | nil => simp [callsAt]
  | cons act rest ih =>
    obtain ⟨one, act⟩ := act
    cases act with
    | sync => simp [ih]
    | call made =>
      rcases side.eq_or_eq_other one with rfl | rfl
      · simp [ih]
      · simp [callsAt_of_ne side.other_ne, ih, Ne.symm side.other_ne]

theorem postedBy_of_dehydrate {document : Json} {records : List Record} {root : Reference}
    (h : Document.dehydrateFact [] document = .ok (records, root)) :
    World.postedBy (ends.nodeAt side world).facts (.fact document) =
      if ends.lacks side records world then records else [] := by
  simp only [World.postedBy, h]
  rfl

theorem performs_call (ends : Ends) (side : Side) {call : World.Call}
    (hkeyed : Act.IsKeyed (.call call)) (world : World) :
    World.Performs (ends.node side) world call (ends.perform side (.call call) world) := by
  cases call with
  | fact document => exact World.Performs.fact hkeyed (World.makes_fact _ document world)
  | watch start query listener => exact World.Performs.watch world start query listener
  | stop id => exact World.Performs.stop world id

namespace Stands

variable (hstands : ends.Stands world)
include hstands

/-- Nothing that is done at the other end reaches a node that is not attached. -/
theorem nodeAt_perform_other (hdetached : ends.IsDetached side world) (act : Act) :
    ends.nodeAt side (ends.perform side.other act world) = ends.nodeAt side world := by
  have hunreached := (hstands.perform side.other act).2.unreached
  rw [Side.other_other] at hunreached
  exact hunreached hdetached

theorem isDetached_perform (hdetached : ends.IsDetached side world) {one : Side} {act : Act}
    (hsync : (side, Act.sync) ≠ (one, act)) :
    ends.IsDetached side (ends.perform one act world) := by
  rcases side.eq_or_eq_other one with rfl | rfl
  · cases act with
    | sync => exact absurd rfl hsync
    | call call => exact (hstands.passes_call one call).isDetached hdetached
  · refine ((hstands.perform side.other act).1.attachment side).resolve_right fun hattached => ?_
    have hsome := hattached.network?
    rw [hstands.nodeAt_perform_other hdetached act, hdetached.network?] at hsome
    cases hsome

theorem isDetached_run (hdetached : ends.IsDetached side world) {acts : List (Side × Act)}
    (hsync : (side, .sync) ∉ acts) : ends.IsDetached side (ends.run acts world) := by
  induction acts generalizing world with
  | nil => exact hdetached
  | cons act rest ih =>
    rw [List.mem_cons, not_or] at hsync
    exact ih (hstands.perform act.1 act.2).1 (hstands.isDetached_perform hdetached hsync.1) hsync.2

/-- A node that is not attached goes on posting what its calls make, whatever is done at the other
end. -/
theorem posts_run (hdetached : ends.IsDetached side world)
    (hsettled : (ends.nodeAt side world).IsSettled)
    (hrelays : (ends.nodeAt side world).config.relayLocalFacts = true)
    (hroom : (ends.nodeAt side world).outbox.length ≤
      (ends.nodeAt side world).config.outboxCapacity)
    {acts : List (Side × Act)} (hkeyed : ∀ act ∈ acts, act.2.IsKeyed)
    (hsync : (side, .sync) ∉ acts) :
    World.Posts (World.posted (ends.nodeAt side world).facts (callsAt side acts))
      (ends.nodeAt side world) (ends.nodeAt side (ends.run acts world)) := by
  induction acts generalizing world with
  | nil => exact World.Posts.nothing rfl rfl rfl hroom
  | cons act rest ih =>
    obtain ⟨one, act⟩ := act
    rw [List.forall_mem_cons] at hkeyed
    rw [List.mem_cons, not_or] at hsync
    have hnext := (hstands.perform one act).1
    have hdetached' := hstands.isDetached_perform hdetached hsync.1
    rcases side.eq_or_eq_other one with rfl | rfl
    · cases act with
      | sync => exact absurd rfl hsync.1
      | call call =>
        have hcall := performs_call ends one hkeyed.1 world
        have hposts : World.Posts _ (ends.nodeAt one world)
            (ends.nodeAt one (ends.perform one (.call call) world)) :=
          hcall.posts hsettled.isReady hdetached.network? hrelays hroom
        have hrest := ih hnext hdetached' (hcall.spec hsettled).1 (hposts.config ▸ hrelays)
          hposts.hasRoom hkeyed.2 hsync.2
        rw [hposts.facts] at hrest
        rw [callsAt_call_self]
        exact hposts.trans hrest
    · have hsame := hstands.nodeAt_perform_other hdetached act
      have hrest := @ih _ hnext hdetached'
      rw [hsame] at hrest
      rw [callsAt_of_ne side.other_ne]
      exact hrest hsettled hrelays hroom hkeyed.2 hsync.2

theorem nodeAt_other_call (hdetached : ends.IsDetached side world) (call : World.Call) :
    ends.nodeAt side.other (ends.perform side (.call call) world) =
      ends.nodeAt side.other world := by
  cases call with
  | fact document =>
    cases hrecords : Document.dehydrateFact [] document with
    | error fault => rw [Ends.perform, World.fact_of_error hrecords]
    | ok made =>
      obtain ⟨records, root⟩ := made
      have hsaved := (ends.nodeAt side world).continues_saveAll records
      rw [Ends.perform, hstands.fst_fact_eq side hrecords]
      split
      · rw [World.relay, World.node_setNode]
        split
        · rw [hsaved.network?, hdetached.network?]
          dsimp only
          rw [World.modifyNode, nodeAt_other_setNode, nodeAt_other_setNode]
        · rw [nodeAt_other_setNode]
      · rw [nodeAt_other_setNode]
  | watch start query listener =>
    have hstarted : ends.nodeAt side.other (world.started start query listener (ends.node side)) =
        ends.nodeAt side.other world := nodeAt_other_setNode _
    have hnetwork : ((world.started start query listener (ends.node side)).node
        (ends.node side)).network? = none :=
      (world.keeps_started start query listener _).network?.trans hdetached.network?
    rw [Ends.perform, World.watch_eq_seeded]
    split
    · rw [nodeAt_other_setNode]
    · dsimp only
      rw [World.modifyNode, nodeAt_other_setNode]
      split
      · rw [World.mirror, hnetwork]
        exact hstarted
      · exact hstarted
  | stop id => rw [Ends.perform, World.modifyNode, nodeAt_other_setNode]

theorem facts_own_fact (side : Side) (document : Json) :
    (ends.nodeAt side (world.fact (ends.node side) document).1).facts =
      (World.postedBy (ends.nodeAt side world).facts (.fact document)).foldl Store.save
        (ends.nodeAt side world).facts := by
  cases hrecords : Document.dehydrateFact [] document with
  | error fault =>
    simp only [World.fact_of_error hrecords, World.postedBy, hrecords, List.foldl_nil]
  | ok made =>
    obtain ⟨records, root⟩ := made
    obtain ⟨hsaved, -⟩ := Node.saveAll_spec (hstands.faults side) records
    have hset : ends.Passes side [] world (world.setNode (ends.node side)
        ((ends.nodeAt side world).saveAll records).1) :=
      passes_own (Node.continues_saveAll (ends.nodeAt side world) records)
    rw [hstands.fst_fact_eq side hrecords, postedBy_of_dehydrate hrecords]
    by_cases hlacks : ends.lacks side records world = true
    · obtain ⟨hown, -⟩ := (hset.stands hstands).facts_relay side
        (Document.isAuthentic_of_dehydrateFact hrecords)
      rw [if_pos hlacks, if_pos hlacks, hown, nodeAt_setNode, hsaved]
    · rw [if_neg hlacks, if_neg hlacks, nodeAt_setNode, hsaved, List.foldl_nil]
      refine Store.foldl_save_of_contains fun record hrecord => ?_
      by_contra hnew
      exact hlacks (lacks_iff.2 ⟨record, hrecord, by simpa using hnew⟩)

theorem sameFacts_watch_of_isDetached (hother : ends.IsDetached side.other world)
    (start : Reference) (query : Query) (listener : Listener) :
    ends.SameFacts world (world.watch (ends.node side) start query listener).1 := by
  have hstarted := sameFacts_started ends side start query listener world
  have hpasses := passes_started ends side start query listener world
  have hstands' := hpasses.stands hstands
  rcases sameFacts_watch_or_mirror ends side start query listener world with hwatched | hwatched
  · exact hwatched
  · refine (hstarted.trans (hstands'.sameFacts_mirror ?_)).trans hwatched
    rcases hstands'.inquire_cases side start query with ⟨error, hinquire⟩ | ⟨hattached, -⟩
    · rw [World.ask, hinquire]
      exact fun _ => rfl
    · exact absurd hattached (not_isAttached_of_isDetached (hpasses.isDetached hother))

theorem facts_call (hother : ends.IsDetached side.other world) (call : World.Call) :
    (ends.nodeAt side (ends.perform side (.call call) world)).facts =
      (World.postedBy (ends.nodeAt side world).facts call).foldl Store.save
        (ends.nodeAt side world).facts := by
  cases call with
  | fact document => exact hstands.facts_own_fact side document
  | watch start query listener =>
    exact hstands.sameFacts_watch_of_isDetached hother start query listener side
  | stop id =>
    have hstopped : ends.SameFacts world (ends.perform side (.call (.stop id)) world) :=
      sameFacts_modifyNode (fun node => node.keeps_stopWatch id) world
    exact hstopped side

/-- Where nobody is attached at the other end, nothing arrives and nothing comes back. -/
theorem sameFacts_sync_of_isDetached (hother : ends.IsDetached side.other world) :
    ends.SameFacts world (world.sync (ends.node side) (ends.network side)) := by
  have hjoined := hstands.stands_joined side
  have hpasses := hstands.passes_delivered side
  have hother' : ends.IsDetached side.other (ends.joined side world) :=
    ⟨by rw [nodeAt_other_joined, hother.network?],
      by rw [link_joined, Link.node?_attach_other, hother.node?]⟩
  have hsent : ends.SameFacts world (ends.delivered side world) :=
    (sameFacts_joined ends side world).trans (hjoined.sameFacts_sendAll hother' _)
  have hnetwork : ((ends.delivered side world).node (ends.node side)).network? =
      some (ends.network side) := (hpasses.isAttached (hstands.isAttached_joined side)).network?
  rw [hstands.sync_eq]
  split
  · obtain ⟨hsame, hanswers, -⟩ := (hpasses.stands hjoined).inquireAll_spec side
      ((ends.nodeAt side (ends.delivered side world)).activeWatches.map fun watch =>
        (watch.start, watch.query))
    have hnone := List.eq_nil_iff_forall_not_mem.2 fun shipment hshipment =>
      not_isAttached_of_isDetached (hpasses.isDetached hother') (hanswers shipment hshipment).1
    rw [World.mirrorAll, hnetwork]
    dsimp only
    rw [hnone]
    exact (hsent.trans hsame).trans (sameFacts_setNode rfl)
  · exact hsent

/-- While a node is not attached, the other stores what its calls make and nothing else, attached or
not. -/
theorem facts_run (hdetached : ends.IsDetached side world) {acts : List (Side × Act)}
    (hsync : (side, .sync) ∉ acts) :
    (ends.nodeAt side.other (ends.run acts world)).facts =
      (World.posted (ends.nodeAt side.other world).facts (callsAt side.other acts)).foldl
        Store.save (ends.nodeAt side.other world).facts := by
  induction acts generalizing world with
  | nil => rfl
  | cons act rest ih =>
    obtain ⟨one, act⟩ := act
    rw [List.mem_cons, not_or] at hsync
    have hrest := ih (hstands.perform one act).1
      (hstands.isDetached_perform hdetached hsync.1) hsync.2
    have hback : ends.IsDetached side.other.other world := by rwa [Side.other_other]
    change (ends.nodeAt side.other (ends.run rest (ends.perform one act world))).facts = _
    rcases side.eq_or_eq_other one with rfl | rfl
    · cases act with
      | sync => exact absurd rfl hsync.1
      | call call =>
        rw [callsAt_of_ne (Ne.symm one.other_ne), hrest, hstands.nodeAt_other_call hdetached call]
    · cases act with
      | sync =>
        have hsame : ends.SameFacts world (ends.perform side.other .sync world) :=
          hstands.sameFacts_sync_of_isDetached hback
        rw [callsAt_sync, hrest, hsame side.other]
      | call call =>
        rw [callsAt_call_self, hrest, hstands.facts_call hback call, World.posted,
          List.foldl_append]

theorem nodeAt_send (side : Side) (record : Record) :
    ends.nodeAt side (world.send (ends.network side) record).1 = ends.nodeAt side world := by
  rcases hstands.attachment side.other with hdetached | hattached
  · obtain ⟨error, hsend⟩ := hstands.send_of_isDetached hdetached record
    rw [hsend]
    rfl
  · obtain ⟨source, hsend⟩ := hstands.send_of_isAttached hattached record
    have halive : (World.node (ends.handing side record world) (ends.node side.other)).alive =
        true := hstands.alive side.other
    rw [hsend, World.reach_of_alive _ halive, nodeAt_setNode_other]
    rfl

theorem watches_sendAll (side : Side) (records : List Record) :
    (ends.nodeAt side (world.sendAll (ends.node side) (ends.network side) records)).watches =
      (ends.nodeAt side world).watches := by
  induction records generalizing world with
  | nil => rfl
  | cons record rest ih =>
    have hsent := hstands.passes_send side record
    have hown := hstands.nodeAt_send side record
    rw [World.sendAll]
    split
    · next next hnext =>
      rw [hnext] at hsent hown
      rw [ih (hsent.stands hstands), hown]
    · next next error hnext =>
      rw [hnext] at hsent hown
      have hwarned := hsent.then (passes_modifyNode side
        (fun node => (node.keeps_warn .relayFailed).toContinues) next)
      rw [ih (hwarned.stands hstands), World.modifyNode, nodeAt_setNode, ← hown]
      rfl

/-- What waited is sent before the watches are passed on, and changes none of them. -/
theorem activeWatches_delivered (side : Side) :
    (ends.nodeAt side (ends.delivered side world)).activeWatches =
      (ends.nodeAt side world).activeWatches := by
  have hwatches := (hstands.stands_joined side).watches_sendAll side (ends.nodeAt side world).outbox
  rw [nodeAt_joined] at hwatches
  exact congrArg (List.filter (!·.isStopped)) hwatches

theorem isAttached_run_of_mem {acts : List (Side × Act)} (hsync : (side, .sync) ∈ acts) :
    ends.IsAttached side (ends.run acts world) := by
  obtain ⟨earlier, later, rfl⟩ := List.append_of_mem hsync
  have hearlier := hstands.run earlier
  rw [run_append]
  exact isAttached_run (hearlier.perform side .sync).1
    ((hearlier.passes_sync side).isAttached (hearlier.isAttached_joined side)) later

end Stands

theorem exists_side_iff (side : Side) {motive : Side → Prop} :
    (∃ one, motive one) ↔ motive side ∨ motive side.other := by
  constructor
  · rintro ⟨one, hone⟩
    rcases side.eq_or_eq_other one with rfl | rfl
    · exact Or.inl hone
    · exact Or.inr hone
  · rintro (hown | hother)
    · exact ⟨side, hown⟩
    · exact ⟨side.other, hother⟩

def IsMadeAt (side : Side) (acts : List (Side × Act)) (fact : Reference) : Prop :=
  Record.Holds (World.posted {} (callsAt side acts)) fact

section Last

variable {config : Side → Config} {acts : List (Side × Act)} (hopens : ends.Opens config opened)
  (hkeyed : ∀ act ∈ acts, act.2.IsKeyed) (hlast : (side, .sync) ∉ acts)
include hopens hkeyed hlast

theorem Opens.posts_run (hrelays : (config side).relayLocalFacts = true) :
    World.Posts (World.posted {} (callsAt side acts)) { config := config side }
      (ends.nodeAt side (ends.run acts opened)) := by
  have hnode := hopens.nodeAt_eq side
  have hposts := hopens.stands.posts_run (hopens.isDetached side)
    (Node.isSettled_of_ofConfig? (hopens.node side)) (by rw [hnode]; exact hrelays)
    (by simp [hnode]) hkeyed hlast
  rwa [hnode] at hposts

/-- As long as a node is not attached each stores what is made at it, and no more. -/
theorem Opens.contains_run_iff (hrelays : (config side).relayLocalFacts = true) (one : Side)
    (fact : Reference) :
    (ends.nodeAt one (ends.run acts opened)).facts.contains fact = true ↔
      IsMadeAt one acts fact := by
  revert one
  refine forall_side side ?_ ?_
  · rw [(hopens.posts_run hkeyed hlast hrelays).facts]
    exact Store.contains_saveAll_empty_iff
  · rw [hopens.stands.facts_run (hopens.isDetached side) hlast, hopens.nodeAt_eq]
    exact Store.contains_saveAll_empty_iff

/-- Where there is room for all that is made at a node, all that is named by what waits there waits
too. -/
theorem Opens.sendsWhole_run (hrelays : (config side).relayLocalFacts = true)
    (hroom : (World.posted {} (callsAt side acts)).length ≤ (config side).outboxCapacity) :
    (∀ fact, (ends.nodeAt side (ends.run acts opened)).HasWaiting fact ↔
        IsMadeAt side acts fact) ∧
      ends.SendsWhole side (ends.run acts opened) := by
  have houtbox : (ends.nodeAt side (ends.run acts opened)).outbox =
      World.posted {} (callsAt side acts) := by
    rw [(hopens.posts_run hkeyed hlast hrelays).outbox, List.nil_append, rtake_of_length_le hroom]
  have hwhole : Record.AreWhole (World.posted {} (callsAt side acts)) :=
    World.areWhole_posted {} fun call hcall => hkeyed _ (mem_callsAt.1 hcall)
  unfold SendsWhole Node.HasWaiting
  rw [houtbox]
  refine ⟨fun fact => Iff.rfl, fun _ record hrecord _ fact hfact => Or.inr ?_⟩
  exact hwhole.named record (List.mem_of_find?_eq_some hrecord) fact hfact

/-- As long as only one node has been attached, nothing has been sent and both stores are closed. -/
theorem Opens.areClosed_run : ends.AreClosed (ends.run acts opened) := by
  refine areClosed_of_sendsWhole hopens hkeyed (fun past one hpast hattached => ?_)
    (List.prefix_refl acts)
  rcases side.eq_or_eq_other one with rfl | rfl
  · refine absurd (hpast.subset ?_) hlast
    exact List.mem_append_right _ (List.mem_singleton_self _)
  · have hpast' : (side, Act.sync) ∉ past := fun hmem =>
      hlast (hpast.subset (List.mem_append_left _ hmem))
    rw [Side.other_other] at hattached
    exact absurd hattached (not_isAttached_of_isDetached
      (hopens.stands.isDetached_run (hopens.isDetached side) hpast'))

/-- When the second of two nodes is attached and there was room for all that it made, its facts
arrive at the first. Of the facts that only the first has made it comes to have those that its
watches ask for, and no others. Nothing waits any longer. -/
theorem contains_iff_of_attached_last (hfirst : (side.other, .sync) ∈ acts)
    (hrelays : (config side).relayLocalFacts = true)
    (hroom : (World.posted {} (callsAt side acts)).length ≤ (config side).outboxCapacity)
    (hbefore : before = ends.run acts opened) (hnow : now = ends.perform side .sync before) :
    (∀ one, (ends.nodeAt one now).outbox = []) ∧
      (∀ fact, (ends.nodeAt side.other now).facts.contains fact = true ↔
        ∃ one, IsMadeAt one acts fact) ∧
      ∀ fact, (ends.nodeAt side now).facts.contains fact = true ↔
        IsMadeAt side acts fact ∨
          (config side).mirrorWatches = true ∧
          ∃ watch ∈ (ends.nodeAt side before).activeWatches,
            (ends.nodeAt side.other now).facts.contains watch.start = true ∧
            ∃ found, (ends.nodeAt side.other now).facts.links.Leads watch.query watch.start found ∧
              (ends.nodeAt side.other now).facts.links.RestsOn found fact := by
  subst hnow
  have hgenuine := hopens.isGenuine.run hkeyed
  have hattached := hopens.stands.isAttached_run_of_mem hfirst
  have hmade := hopens.contains_run_iff hkeyed hlast hrelays
  obtain ⟨hwaits, hsends⟩ := hopens.sendsWhole_run hkeyed hlast hrelays hroom
  have hclosed :=
    (hgenuine.areClosed_delivered_iff (hopens.areClosed_run hkeyed hlast) side).2 hsends
  have hconfig : (ends.nodeAt side (ends.run acts opened)).config = config side := by
    rw [config_run hopens.stands, hopens.nodeAt_eq]
  rw [← hbefore] at hgenuine hattached hmade hwaits hclosed hconfig
  have hpasses := hgenuine.passes_delivered side
  obtain ⟨hown, harrived, -⟩ := hgenuine.facts_delivered side
  obtain ⟨records, -, hdraws, hholds⟩ := hgenuine.draws_sync side
  have hpeer : (ends.nodeAt side.other (ends.perform side .sync before)).facts =
      (ends.nodeAt side.other (ends.delivered side before)).facts := hdraws.other
  refine ⟨fun one => ?_, fun fact => ?_, fun fact => ?_⟩
  · obtain ⟨hstands, hadvances⟩ := hgenuine.toStands.perform side .sync
    have hboth : ∀ one, ends.IsAttached one (ends.perform side .sync before) :=
      forall_side side ((hgenuine.passes_sync side).isAttached (hgenuine.isAttached_joined side))
        (hadvances.isAttached side.other hattached)
    exact hstands.outbox one (by rw [(hboth one).network?]; exact Option.some_ne_none _)
  · rw [hpeer, harrived hattached, Store.contains_saveAll_iff, hmade, exists_side_iff side, or_comm]
    exact or_congr_left (hwaits fact)
  · rw [hpeer]
    refine hdraws.own.contains_iff.trans ?_
    rw [hown, hmade, hholds, (hpasses.nodes side).config, nodeAt_joined, hconfig,
      hgenuine.activeWatches_delivered,
      and_iff_right (hpasses.isAttached (isAttached_other_joined.2 hattached))]
    refine or_congr_right (and_congr_right fun _ => exists_congr fun watch =>
      and_congr_right fun _ => ?_)
    exact Store.exists_answer_holds_iff ((hgenuine.delivered side).facts side.other).sound
      (hclosed side.other)

end Last

namespace Desks

open World.Errands

/-- The first desk is attached, a list is made at the second, and then that is attached too. -/
def listBeforeSync : List (Side × Act) :=
  [(.first, .sync), (.second, .call (.fact listDocument))]

/-- What the second desk made before it was attached arrives at the first, and waits no longer. -/
theorem list_arrives :
    (desks.nodeAt .first (desks.perform .second .sync
        (desks.run listBeforeSync unlinked))).facts.contains list.reference = true ∧
      (desks.nodeAt .second (desks.perform .second .sync
        (desks.run listBeforeSync unlinked))).outbox = [] := by
  have hposted : World.posted {} (callsAt .second listBeforeSync) = [list] := by
    decide +kernel
  have hkeyed : ∀ act ∈ listBeforeSync, act.2.IsKeyed := by
    simp [listBeforeSync, Act.IsKeyed, isKeyed_listDocument]
  have hlast : (Side.second, Act.sync) ∉ listBeforeSync := by simp [listBeforeSync]
  have hfirst : (Side.second.other, Act.sync) ∈ listBeforeSync := List.mem_cons_self
  obtain ⟨hnone, hall, -⟩ := contains_iff_of_attached_last opens_unlinked hkeyed hlast hfirst rfl
    (by rw [hposted]; decide) rfl rfl
  refine ⟨(hall list.reference).2 ⟨.second, ?_⟩, hnone .second⟩
  rw [IsMadeAt, hposted]
  exact ⟨list, List.mem_singleton_self list, rfl⟩

def listBeforeFirstSync : List (Side × Act) :=
  [(.first, .call (.fact listDocument)), (.first, .sync), (.second, .sync)]

/-- The list that the first desk made is at the second neither stored nor on its way: the first has
sent it while nobody was attached at the other end. -/
theorem list_lost :
    desks.Opens (fun _ => {}) unlinked ∧
      (desks.nodeAt .first (desks.run listBeforeFirstSync unlinked)).facts.contains
        list.reference = true ∧
      (desks.nodeAt .first (desks.run listBeforeFirstSync unlinked)).outbox = [] ∧
      (desks.nodeAt .first (desks.run listBeforeFirstSync unlinked)).warnings = [.relayFailed] ∧
      (desks.nodeAt .second (desks.run listBeforeFirstSync unlinked)).facts.contains
        list.reference = false := by
  refine ⟨opens_unlinked, ?_⟩
  decide +kernel

end Desks

end Ends

end LiveFacts
