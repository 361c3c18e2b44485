import LiveFacts.Proofs.Network.Agreement
import LiveFacts.Proofs.Node.Outbox
import LiveFacts.Proofs.Node.Transfers

/-!
# What goes over a link

Facts come to a node over a link when the other node hands them over, and when its own network is
asked for what its watches find. What is handed over is saved record by record; an answer comes with
all that its records name, and several answers are taken in side by side.
-/

namespace LiveFacts

namespace Ends

variable {ends : Ends} {side : Side} {world next final : World} {records : List Record}
  {start : Reference} {query : Query}

/-- Neither node holds a record that is not known by the hash of its content, and none waits for a
network. -/
structure IsGenuine (ends : Ends) (world : World) : Prop extends ends.Stands world where
  facts : ∀ one, (ends.nodeAt one world).facts.IsGenuine
  waiting : ∀ one, ∀ record ∈ (ends.nodeAt one world).outbox,
    record.IsAuthentic ∧ record.IsKeyed

/-- A node gathers records, and the node at the other end takes in none. -/
structure Draws (ends : Ends) (side : Side) (records : List Record) (world next : World) :
    Prop where
  own : Store.Gathers records (ends.nodeAt side world).facts (ends.nodeAt side next).facts
  other : (ends.nodeAt side.other next).facts = (ends.nodeAt side.other world).facts

theorem SameFacts.draws (h : ends.SameFacts world next) (side : Side) :
    ends.Draws side [] world next :=
  ⟨h side ▸ Store.Gathers.nothing _, h side.other⟩

theorem Draws.of_sameFacts (h : ends.Draws side records next final)
    (hsame : ends.SameFacts world next) : ends.Draws side records world final :=
  ⟨hsame side ▸ h.own, h.other.trans (hsame side.other)⟩

theorem Draws.then (h : ends.Draws side records world next) (hsame : ends.SameFacts next final) :
    ends.Draws side records world final :=
  ⟨(hsame side).symm ▸ h.own, (hsame side.other).trans h.other⟩

theorem draws_setNode {node : Node}
    (h : Store.Gathers records (ends.nodeAt side world).facts node.facts) :
    ends.Draws side records world (world.setNode (ends.node side) node) where
  own := by rwa [nodeAt_setNode]
  other := by rw [nodeAt_other_setNode]

theorem not_isAttached_of_isDetached (hdetached : ends.IsDetached side world) :
    ¬ ends.IsAttached side world := by
  intro hattached
  have hsome := hattached.network?
  rw [hdetached.network?] at hsome
  cases hsome

/-- While something happens at one side, nobody is attached. -/
theorem Passes.isAttached_of_next {handed : List Record} {one : Side}
    (h : ends.Passes side handed world next) (hstands : ends.Stands world)
    (hattached : ends.IsAttached one next) : ends.IsAttached one world :=
  (hstands.attachment one).resolve_left fun hdetached =>
    not_isAttached_of_isDetached (h.isDetached hdetached) hattached

namespace Stands

variable (hstands : ends.Stands world)
include hstands

theorem inquire_of_isAttached (hown : ends.IsAttached side world)
    (hother : ends.IsAttached side.other world) (start : Reference) (query : Query) :
    ∃ source, world.inquire (ends.network side) start query =
      ((World.reach (ends.node side.other) (fun node => node.closure start query)
          (ends.asking side start query world)).1,
        (World.reach (ends.node side.other) (fun node => node.closure start query)
          (ends.asking side start query world)).2.map fun records =>
            some ⟨ends.node side, source, records⟩) := by
  have htransport : (world.network (ends.network side)).transport = .loopback ends.link side :=
    hstands.transport side
  have hhere : (World.link (ends.asking side start query world) ends.link).node? side =
      some (ends.node side) := hown.node?
  have hthere : (World.link (ends.asking side start query world) ends.link).node? side.other =
      some (ends.node side.other) := hother.node?
  unfold World.inquire
  dsimp only
  split
  · next hsink =>
    rw [htransport] at hsink
    cases hsink
  · next hloopback =>
    rw [htransport, Transport.loopback.injEq] at hloopback
    obtain ⟨rfl, rfl⟩ := hloopback
    split
    · next hnone =>
      rw [← asking, hhere] at hnone
      cases hnone
    · next hnone _ =>
      rw [← asking, hthere] at hnone
      cases hnone
    · next own peer hown' hpeer =>
      rw [← asking, hhere, Option.some.injEq] at hown'
      rw [← asking, hthere, Option.some.injEq] at hpeer
      subst hown' hpeer
      exact ⟨_, rfl⟩

/-- A question is answered from the facts of the other node, if it is answered at all, and it is
answered if both nodes are attached and the other has an answer. -/
theorem inquire_spec (side : Side) (start : Reference) (query : Query) :
    ends.SameFacts world (world.inquire (ends.network side) start query).1 ∧
      (∀ shipment, (world.inquire (ends.network side) start query).2 = .ok (some shipment) →
        ends.IsAttached side.other world ∧
          (ends.nodeAt side.other world).facts.Answers start query shipment.records) ∧
      (ends.IsAttached side world → ends.IsAttached side.other world → ∀ records,
        (ends.nodeAt side.other world).facts.Answers start query records →
        ∃ shipment, (world.inquire (ends.network side) start query).2 = .ok (some shipment) ∧
          shipment.records = records) := by
  have halive : (World.node (ends.asking side start query world) (ends.node side.other)).alive =
      true := hstands.alive side.other
  have hpeer : World.node (ends.asking side start query world) (ends.node side.other) =
      ends.nodeAt side.other world := rfl
  have hanswers : ∀ records, ((ends.nodeAt side.other world).closure start query).2 = .ok records ↔
      (ends.nodeAt side.other world).facts.Answers start query records :=
    fun records => Node.closure_eq_ok (hstands.faults side.other)
  have hsame : ends.SameFacts world (World.setNode (ends.node side.other)
      ((ends.nodeAt side.other world).closure start query).1
      (ends.asking side start query world)) :=
    sameFacts_setNode (Node.keeps_closure _ start query).facts
  refine ⟨?_, ?_, ?_⟩
  · rcases hstands.inquire_cases side start query with ⟨error, hinquire⟩ | ⟨-, source, hinquire⟩
    · rw [hinquire]
      exact SameFacts.refl ends world
    · rw [hinquire, World.reach_of_alive _ halive, hpeer]
      exact hsame
  · intro shipment hshipment
    rcases hstands.inquire_cases side start query with ⟨error, hinquire⟩ |
      ⟨hattached, source, hinquire⟩
    · rw [hinquire] at hshipment
      cases hshipment
    · rw [hinquire, World.reach_of_alive _ halive, hpeer] at hshipment
      obtain ⟨records, hrecords, heq⟩ := map_eq_ok.1 hshipment
      rw [← Option.some.inj heq]
      exact ⟨hattached, (hanswers records).1 hrecords⟩
  · intro hown hother records hrecords
    obtain ⟨source, hinquire⟩ := hstands.inquire_of_isAttached hown hother start query
    rw [hinquire, World.reach_of_alive _ halive, hpeer, (hanswers records).2 hrecords]
    exact ⟨_, rfl, rfl⟩

/-- Of several questions those are answered to which the other node has an answer. -/
theorem inquireAll_spec (side : Side) (watched : List (Reference × Query)) :
    ends.SameFacts world (world.inquireAll (ends.network side) watched).1 ∧
      (∀ shipment ∈ (world.inquireAll (ends.network side) watched).2.1,
        ends.IsAttached side.other world ∧ ∃ asked ∈ watched,
          (ends.nodeAt side.other world).facts.Answers asked.1 asked.2 shipment.records) ∧
      (ends.IsAttached side world → ends.IsAttached side.other world → ∀ asked ∈ watched,
        ∀ records, (ends.nodeAt side.other world).facts.Answers asked.1 asked.2 records →
        ∃ shipment ∈ (world.inquireAll (ends.network side) watched).2.1,
          shipment.records = records) := by
  induction watched generalizing world with
  | nil => exact ⟨SameFacts.refl ends world, by simp [World.inquireAll], by simp⟩
  | cons first rest ih =>
    obtain ⟨start, query⟩ := first
    have hpasses := (hstands.passes_inquire side start query).1
    obtain ⟨hsame, hanswer, hreply⟩ := hstands.inquire_spec side start query
    obtain ⟨hsame', hanswers, hreplies⟩ := ih (hpasses.stands hstands)
    rw [hsame side.other] at hanswers hreplies
    have hmore : ∀ shipment ∈ (World.inquireAll (ends.network side) rest
        (world.inquire (ends.network side) start query).1).2.1,
        ends.IsAttached side.other world ∧ ∃ asked ∈ (start, query) :: rest,
          (ends.nodeAt side.other world).facts.Answers asked.1 asked.2 shipment.records := by
      intro shipment hshipment
      obtain ⟨hattached, asked, hasked, hrecords⟩ := hanswers shipment hshipment
      exact ⟨hpasses.isAttached_of_next hstands hattached, asked, List.mem_cons_of_mem _ hasked,
        hrecords⟩
    have hlater : ends.IsAttached side world → ends.IsAttached side.other world →
        ∀ asked ∈ rest, ∀ records,
        (ends.nodeAt side.other world).facts.Answers asked.1 asked.2 records →
        ∃ shipment ∈ (World.inquireAll (ends.network side) rest
          (world.inquire (ends.network side) start query).1).2.1, shipment.records = records :=
      fun hown hother => hreplies (hpasses.isAttached hown) (hpasses.isAttached hother)
    rw [World.inquireAll]
    dsimp only
    split
    · next error herror =>
      refine ⟨hsame.trans hsame', hmore, fun hown hother asked hasked records hrecords => ?_⟩
      rcases List.mem_cons.1 hasked with rfl | hrest
      · obtain ⟨shipment, hshipment, -⟩ := hreply hown hother records hrecords
        rw [herror] at hshipment
        cases hshipment
      · exact hlater hown hother asked hrest records hrecords
    · next shipment? hok =>
      refine ⟨hsame.trans hsame', fun shipment hshipment => ?_,
        fun hown hother asked hasked records hrecords => ?_⟩
      · rcases List.mem_append.1 hshipment with hfirst | hrest
        · rw [Option.mem_toList] at hfirst
          obtain ⟨hattached, hrecords⟩ := hanswer shipment (hok.trans (congrArg Except.ok hfirst))
          exact ⟨hattached, (start, query), List.mem_cons_self, hrecords⟩
        · exact hmore shipment hrest
      · rcases List.mem_cons.1 hasked with rfl | hrest
        · obtain ⟨shipment, hshipment, heq⟩ := hreply hown hother records hrecords
          rw [hok, Except.ok.injEq] at hshipment
          exact ⟨shipment, List.mem_append_left _ (Option.mem_toList.2 hshipment), heq⟩
        · obtain ⟨shipment, hshipment, heq⟩ := hlater hown hother asked hrest records hrecords
          exact ⟨shipment, List.mem_append_right _ hshipment, heq⟩

end Stands

theorem draws_takeInTogether {shipments : List World.Shipment}
    (hnode : ∀ shipment ∈ shipments, shipment.node = ends.node side)
    (halive : (ends.nodeAt side world).alive = true)
    (hfaults : (ends.nodeAt side world).faults = {})
    (hsound : (ends.nodeAt side world).facts.IsSound)
    (hwhole : Record.AreWhole (shipments.map World.Shipment.records).flatten) :
    ends.Draws side (shipments.map World.Shipment.records).flatten world
      (world.takeInTogether shipments).1 := by
  cases shipments with
  | nil => exact (SameFacts.refl ends world).draws side
  | cons first rest =>
    have halive' : (world.node (ends.node side)).alive = true := halive
    rw [World.takeInTogether, hnode first List.mem_cons_self]
    dsimp only
    rw [if_pos halive']
    exact draws_setNode (Node.gathers_takeInTogether hfaults hsound hwhole.authentic hwhole.keyed)

theorem facts_takeInAll (source : Source) (halive : (ends.nodeAt side world).alive = true)
    (hfaults : (ends.nodeAt side world).faults = {})
    (hauthentic : ∀ record ∈ records, record.IsAuthentic) :
    (ends.nodeAt side (world.takeInAll (ends.node side) source records).1).facts =
        records.foldl Store.save (ends.nodeAt side world).facts ∧
      (ends.nodeAt side.other (world.takeInAll (ends.node side) source records).1).facts =
        (ends.nodeAt side.other world).facts := by
  induction records generalizing world with
  | nil => exact ⟨rfl, rfl⟩
  | cons record rest ih =>
    rw [List.forall_mem_cons] at hauthentic
    have hcontinues := (ends.nodeAt side world).continues_takeIn record source
    obtain ⟨-, hsaved, new, hnew⟩ := (Node.takeIn_spec hfaults record source).resolve_right
      fun hforged => hforged.1 hauthentic.1
    have htaken : (world.node (ends.node side)).takeIn record source =
        (((ends.nodeAt side world).takeIn record source).1, .ok new) := by rw [← hnew]; rfl
    rw [World.takeInAll, World.reach_of_alive _ halive, htaken]
    dsimp only
    obtain ⟨hown, hother⟩ := @ih (world.setNode (ends.node side)
        ((ends.nodeAt side world).takeIn record source).1)
      (by rw [nodeAt_setNode, hcontinues.alive, halive])
      (by rw [nodeAt_setNode, hcontinues.faults, hfaults]) hauthentic.2
    rw [hown, hother, nodeAt_setNode, nodeAt_other_setNode, hsaved]
    exact ⟨rfl, rfl⟩

namespace IsGenuine

variable (hgenuine : ends.IsGenuine world)
include hgenuine

/-- When the network of a node is asked what several queries find, the node gathers all answers that
the other node has. -/
theorem draws_mirrorAll (side : Side) (watched : List (Reference × Query)) :
    ∃ records, Record.AreWhole records ∧
      ends.Draws side records world (world.mirrorAll (ends.node side) watched) ∧
      (ends.IsAttached side world → ∀ fact, Record.Holds records fact ↔
        ends.IsAttached side.other world ∧ ∃ asked ∈ watched, ∃ answer,
          (ends.nodeAt side.other world).facts.Answers asked.1 asked.2 answer ∧
            Record.Holds answer fact) := by
  rcases hgenuine.attachment side with hdetached | hattached
  · have hnetwork : (world.node (ends.node side)).network? = none := hdetached.network?
    refine ⟨[], Record.areWhole_nil, ?_, fun hattached => ?_⟩
    · rw [World.mirrorAll, hnetwork]
      exact (SameFacts.refl ends world).draws side
    · exact absurd hattached (not_isAttached_of_isDetached hdetached)
  · have hnetwork : (world.node (ends.node side)).network? = some (ends.network side) :=
      hattached.network?
    obtain ⟨hpasses, hnode⟩ := hgenuine.passes_inquireAll side watched
    obtain ⟨hsame, hanswers, hreplies⟩ := hgenuine.inquireAll_spec side watched
    have hstands := hpasses.stands hgenuine.toStands
    have hwhole : Record.AreWhole
        ((world.inquireAll (ends.network side) watched).2.1.map
          World.Shipment.records).flatten := by
      refine Record.AreWhole.flatten fun records hrecords => ?_
      obtain ⟨shipment, hshipment, rfl⟩ := List.mem_map.1 hrecords
      obtain ⟨-, asked, -, hanswer⟩ := hanswers shipment hshipment
      exact hanswer.areWhole (hgenuine.facts side.other)
    have hdraws := (draws_takeInTogether hnode (hstands.alive side) (hstands.faults side)
      (hsame side ▸ (hgenuine.facts side).sound) hwhole).of_sameFacts hsame
    refine ⟨_, hwhole, ?_, fun hown fact => ?_⟩
    · rw [World.mirrorAll, hnetwork]
      exact hdraws.then (sameFacts_setNode rfl)
    · constructor
      · rintro ⟨record, hrecord, rfl⟩
        obtain ⟨records, hrecords, hmem⟩ := List.mem_flatten.1 hrecord
        obtain ⟨shipment, hshipment, rfl⟩ := List.mem_map.1 hrecords
        obtain ⟨hother, asked, hasked, hanswer⟩ := hanswers shipment hshipment
        exact ⟨hother, asked, hasked, _, hanswer, record, hmem, rfl⟩
      · rintro ⟨hother, asked, hasked, answer, hanswer, record, hrecord, rfl⟩
        obtain ⟨shipment, hshipment, rfl⟩ := hreplies hown hother asked hasked answer hanswer
        exact ⟨record, List.mem_flatten_of_mem (List.mem_map_of_mem hshipment) hrecord, rfl⟩

theorem draws_ask (side : Side) (start : Reference) (query : Query) :
    ∃ records, Record.AreWhole records ∧
      ends.Draws side records world (world.ask (ends.network side) start query).1 := by
  obtain ⟨hpasses, hnode⟩ := hgenuine.passes_inquire side start query
  obtain ⟨hsame, hanswer, -⟩ := hgenuine.inquire_spec side start query
  have hstands := hpasses.stands hgenuine.toStands
  rw [World.ask]
  split
  · next asked error hinquire =>
    rw [hinquire] at hsame
    exact ⟨[], Record.areWhole_nil, hsame.draws side⟩
  · next asked hinquire =>
    rw [hinquire] at hsame
    exact ⟨[], Record.areWhole_nil, hsame.draws side⟩
  · next asked shipment hinquire =>
    rw [hinquire] at hsame hstands hnode hanswer
    have hwhole := (hanswer shipment rfl).2.areWhole (hgenuine.facts side.other)
    obtain ⟨hown, hother⟩ := facts_takeInAll shipment.source (hstands.alive side)
      (hstands.faults side) hwhole.authentic
    refine ⟨_, hwhole, Draws.of_sameFacts ⟨?_, ?_⟩ hsame⟩
    · rw [hnode shipment rfl, hown]
      exact Store.gathers_saveAll hwhole.keyed _
    · rw [hnode shipment rfl, hother]

theorem draws_mirror (side : Side) (start : Reference) (query : Query) :
    ∃ records, Record.AreWhole records ∧
      ends.Draws side records world (world.mirror (ends.node side) start query) := by
  rcases hgenuine.attachment side with hdetached | hattached
  · have hnetwork : (world.node (ends.node side)).network? = none := hdetached.network?
    rw [World.mirror, hnetwork]
    exact ⟨[], Record.areWhole_nil, (SameFacts.refl ends world).draws side⟩
  · have hnetwork : (world.node (ends.node side)).network? = some (ends.network side) :=
      hattached.network?
    obtain ⟨records, hwhole, hdraws⟩ := hgenuine.draws_ask side start query
    refine ⟨records, hwhole, ?_⟩
    rw [World.mirror, hnetwork]
    dsimp only
    split
    · next asked hasked =>
      rw [hasked] at hdraws
      exact hdraws
    · next asked error hasked =>
      rw [hasked] at hdraws
      exact hdraws.then
        (sameFacts_modifyNode (fun node => node.keeps_warn .registrationFailed) asked)

end IsGenuine

/-- A call at a node that is not attached leaves what waits there as it is, or posts the records of
a document. -/
theorem Stands.outbox_call (hstands : ends.Stands world) (hdetached : ends.IsDetached side world)
    (call : World.Call) :
    (ends.nodeAt side (ends.perform side (.call call) world)).outbox =
        (ends.nodeAt side world).outbox ∨
      ∃ (document : Json) (records : List Record) (root : Reference) (saved : Node),
        call = .fact document ∧ Document.dehydrateFact [] document = .ok (records, root) ∧
        saved.outbox = (ends.nodeAt side world).outbox ∧ saved.network? = none ∧
        ends.nodeAt side (ends.perform side (.call call) world) = saved.post records := by
  have hnetwork : (world.node (ends.node side)).network? = none := hdetached.network?
  cases call with
  | fact document =>
    cases hrecords : Document.dehydrateFact [] document with
    | error fault =>
      rw [Ends.perform, World.fact_of_error hrecords]
      exact Or.inl rfl
    | ok made =>
      obtain ⟨records, root⟩ := made
      have hsaved := (ends.nodeAt side world).continues_saveAll records
      have houtbox := (Node.savesAll_saveAll records (ends.nodeAt side world)).outbox_eq
      rw [Ends.perform, hstands.fst_fact_eq side hrecords]
      split
      · rw [World.relay, World.node_setNode]
        split
        · rw [hsaved.network?, hdetached.network?]
          refine Or.inr ⟨document, records, root, _, rfl, hrecords, houtbox,
            hsaved.network?.trans hdetached.network?, ?_⟩
          dsimp only
          rw [World.modifyNode, nodeAt_setNode, World.node_setNode]
        · refine Or.inl ?_
          rw [nodeAt_setNode, houtbox]
      · refine Or.inl ?_
        rw [nodeAt_setNode, houtbox]
  | watch start query listener =>
    exact Or.inl (World.outbox_watch hnetwork start query listener)
  | stop id =>
    refine Or.inl ?_
    rw [Ends.perform, World.modifyNode, nodeAt_setNode]
    rfl

/-- An act leaves nothing waiting at a node, or what waited, or posts the records of a document
there. -/
theorem Stands.outbox_perform (hstands : ends.Stands world) (side one : Side) (act : Act) :
    (ends.nodeAt one (ends.perform side act world)).outbox = [] ∨
      (ends.nodeAt one (ends.perform side act world)).outbox = (ends.nodeAt one world).outbox ∨
      ∃ (document : Json) (records : List Record) (root : Reference) (saved : Node),
        act = .call (.fact document) ∧ Document.dehydrateFact [] document = .ok (records, root) ∧
        saved.outbox = (ends.nodeAt one world).outbox ∧ saved.network? = none ∧
        ends.nodeAt one (ends.perform side act world) = saved.post records := by
  obtain ⟨hnext, hadvances⟩ := hstands.perform side act
  have hattached : ends.IsAttached one (ends.perform side act world) →
      (ends.nodeAt one (ends.perform side act world)).outbox = [] := fun hattached =>
    hnext.outbox one (by rw [hattached.network?]; exact Option.some_ne_none _)
  rcases hstands.attachment one with hdetached | hbefore
  · rcases side.eq_or_eq_other one with rfl | rfl
    · cases act with
      | sync =>
        exact Or.inl (hattached ((hstands.passes_sync one).isAttached
          (hstands.isAttached_joined one)))
      | call call =>
        refine Or.inr ((hstands.outbox_call hdetached call).imp_right ?_)
        rintro ⟨document, records, root, saved, rfl, hposted⟩
        exact ⟨document, records, root, saved, rfl, hposted⟩
    · exact Or.inr (Or.inl (by rw [hadvances.unreached hdetached]))
  · exact Or.inl (hattached (hadvances.isAttached one hbefore))

/-- What is sent to a node that is not attached does not arrive. -/
theorem Stands.sameFacts_sendAll (hstands : ends.Stands world)
    (hother : ends.IsDetached side.other world) (records : List Record) :
    ends.SameFacts world (world.sendAll (ends.node side) (ends.network side) records) := by
  induction records generalizing world with
  | nil => exact SameFacts.refl ends world
  | cons record rest ih =>
    have hsent := hstands.passes_send side record
    obtain ⟨error, hsend⟩ := hstands.send_of_isDetached hother record
    have hkeeps := fun node => Node.keeps_warn node .relayFailed
    have hwarned := hsent.then (passes_modifyNode side (fun node => (hkeeps node).toContinues) _)
    have hsame : ends.SameFacts world (World.modifyNode (ends.node side) (·.warn .relayFailed)
        (ends.handing side record world)) := sameFacts_modifyNode hkeeps _
    rw [hsend] at hwarned
    rw [World.sendAll, hsend]
    exact hsame.trans (ih (hwarned.stands hstands) (hwarned.isDetached hother))

/-- What is relayed is saved at the other end, if it gets there. -/
theorem Stands.facts_relay (hstands : ends.Stands world) (side : Side)
    (hauthentic : ∀ record ∈ records, record.IsAuthentic) :
    (ends.nodeAt side (world.relay (ends.node side) records)).facts =
        (ends.nodeAt side world).facts ∧
      ((ends.nodeAt side.other (world.relay (ends.node side) records)).facts =
          (ends.nodeAt side.other world).facts ∨
        (ends.nodeAt side.other (world.relay (ends.node side) records)).facts =
          records.foldl Store.save (ends.nodeAt side.other world).facts) := by
  rw [World.relay]
  split
  · rcases hstands.attachment side with hdetached | hattached
    · have hnetwork : (world.node (ends.node side)).network? = none := hdetached.network?
      have hsame : ends.SameFacts world (world.modifyNode (ends.node side) (·.post records)) :=
        sameFacts_setNode (Node.sameContent_post records _).facts
      rw [hnetwork]
      exact ⟨hsame side, Or.inl (hsame side.other)⟩
    · have hnetwork : (world.node (ends.node side)).network? = some (ends.network side) :=
        hattached.network?
      rw [hnetwork]
      rcases hstands.attachment side.other with hdetached | hattached'
      · have hsame := hstands.sameFacts_sendAll hdetached records
        exact ⟨hsame side, Or.inl (hsame side.other)⟩
      · obtain ⟨hown, hother⟩ := hstands.facts_sendAll hattached' hauthentic
        exact ⟨hown, Or.inr hother⟩
  · exact ⟨rfl, Or.inl rfl⟩

def GathersWhole (before after : Store) : Prop :=
  ∃ records, Record.AreWhole records ∧ Store.Gathers records before after

theorem gathersWhole_of_eq {before after : Store} (h : after = before) :
    GathersWhole before after :=
  ⟨[], Record.areWhole_nil, h ▸ Store.Gathers.nothing before⟩

namespace IsGenuine

variable (hgenuine : ends.IsGenuine world)
include hgenuine

theorem gathersWhole_fact (side : Side) {document : Json} (hkeyed : document.isKeyed = true) :
    ∀ one, GathersWhole (ends.nodeAt one world).facts
      (ends.nodeAt one (world.fact (ends.node side) document).1).facts := by
  cases hrecords : Document.dehydrateFact [] document with
  | error fault =>
    simp only [World.fact_of_error hrecords]
    exact fun one => gathersWhole_of_eq rfl
  | ok made =>
    obtain ⟨records, root⟩ := made
    have hwhole := Document.areWhole_dehydrateFact hkeyed hrecords
    obtain ⟨hsaved, -⟩ := Node.saveAll_spec (hgenuine.faults side) records
    have hset : ends.Passes side [] world (world.setNode (ends.node side)
        ((ends.nodeAt side world).saveAll records).1) :=
      passes_own (Node.continues_saveAll (ends.nodeAt side world) records)
    have hgathers : ∀ {before after : Store}, after = records.foldl Store.save before →
        GathersWhole before after := by
      rintro before after rfl
      exact ⟨records, hwhole, Store.gathers_saveAll hwhole.keyed before⟩
    rw [hgenuine.fst_fact_eq side hrecords]
    split
    · obtain ⟨hown, hother⟩ :=
        (hset.stands hgenuine.toStands).facts_relay side hwhole.authentic
      rw [nodeAt_setNode, hsaved] at hown
      rw [nodeAt_other_setNode] at hother
      refine forall_side side ?_ ?_
      · exact hgathers hown
      · exact hother.elim gathersWhole_of_eq hgathers
    · refine forall_side side ?_ ?_
      · exact hgathers (by rw [nodeAt_setNode, hsaved])
      · exact gathersWhole_of_eq (by rw [nodeAt_other_setNode])

theorem started (side : Side) (start : Reference) (query : Query) (listener : Listener) :
    ends.SameFacts world (world.started start query listener (ends.node side)) ∧
      ends.IsGenuine (world.started start query listener (ends.node side)) := by
  have hpasses := passes_started ends side start query listener world
  have hsame := sameFacts_started ends side start query listener world
  have houtbox : ∀ one, (ends.nodeAt one
      (world.started start query listener (ends.node side))).outbox =
        (ends.nodeAt one world).outbox := by
    refine forall_side side ?_ ?_
    · rw [World.started, nodeAt_setNode]
      exact Node.outbox_seed _ start query _
    · rw [World.started, nodeAt_other_setNode]
  refine ⟨hsame, hpasses.stands hgenuine.toStands, fun one => ?_, fun one => ?_⟩
  · rw [hsame one]
    exact hgenuine.facts one
  · rw [houtbox one]
    exact hgenuine.waiting one

theorem gathersWhole_watch (side : Side) (start : Reference) (query : Query)
    (listener : Listener) :
    ∀ one, GathersWhole (ends.nodeAt one world).facts
      (ends.nodeAt one (world.watch (ends.node side) start query listener).1).facts := by
  obtain ⟨hsame, hstarted⟩ := hgenuine.started side start query listener
  rcases sameFacts_watch_or_mirror ends side start query listener world with hwatched | hwatched
  · exact fun one => gathersWhole_of_eq (hwatched one)
  · obtain ⟨records, hwhole, hdraws⟩ := hstarted.draws_mirror side start query
    have hall := (hdraws.of_sameFacts hsame).then hwatched
    refine forall_side side ?_ ?_
    · exact ⟨records, hwhole, hall.own⟩
    · exact gathersWhole_of_eq hall.other

end IsGenuine

theorem sameFacts_joined (ends : Ends) (side : Side) (world : World) :
    ends.SameFacts world (ends.joined side world) := by
  refine forall_side side ?_ ?_
  · rw [nodeAt_joined]
    rfl
  · rw [nodeAt_other_joined]

theorem isAttached_other_joined :
    ends.IsAttached side.other (ends.joined side world) ↔ ends.IsAttached side.other world := by
  have hlink : ((ends.joined side world).link ends.link).node? side.other =
      (world.link ends.link).node? side.other := by rw [link_joined, Link.node?_attach_other]
  constructor
  · rintro ⟨hnetwork, hnode⟩
    exact ⟨by rwa [nodeAt_other_joined] at hnetwork, hlink ▸ hnode⟩
  · rintro ⟨hnetwork, hnode⟩
    exact ⟨by rwa [nodeAt_other_joined], hlink.trans hnode⟩

theorem Stands.passes_delivered (hstands : ends.Stands world) (side : Side) :
    ends.Passes side (ends.nodeAt side world).outbox (ends.joined side world)
      (ends.delivered side world) :=
  (hstands.stands_joined side).passes_sendAll side _

namespace IsGenuine

variable (hgenuine : ends.IsGenuine world)
include hgenuine

/-- When a node is attached, what waited is saved at the other end, if a node is attached there. -/
theorem facts_delivered (side : Side) :
    (ends.nodeAt side (ends.delivered side world)).facts = (ends.nodeAt side world).facts ∧
      (ends.IsAttached side.other world →
        (ends.nodeAt side.other (ends.delivered side world)).facts =
          (ends.nodeAt side world).outbox.foldl Store.save (ends.nodeAt side.other world).facts) ∧
      (¬ ends.IsAttached side.other world →
        (ends.nodeAt side.other (ends.delivered side world)).facts =
          (ends.nodeAt side.other world).facts) := by
  have hjoined := hgenuine.stands_joined side
  have hsame := sameFacts_joined ends side world
  rcases hjoined.attachment side.other with hdetached | hattached
  · have hsent := hsame.trans (hjoined.sameFacts_sendAll hdetached (ends.nodeAt side world).outbox)
    refine ⟨hsent side, fun hattached => ?_, fun _ => hsent side.other⟩
    exact absurd (isAttached_other_joined.2 hattached) (not_isAttached_of_isDetached hdetached)
  · obtain ⟨hown, hother⟩ := hjoined.facts_sendAll hattached
      fun record hrecord => (hgenuine.waiting side record hrecord).1
    refine ⟨hown.trans (hsame side), fun _ => ?_, fun hdetached => ?_⟩
    · rw [delivered, hother, hsame side.other]
    · exact absurd (isAttached_other_joined.1 hattached) hdetached

theorem gathers_delivered (side : Side) :
    ∀ one, ∃ records, (∀ record ∈ records, record ∈ (ends.nodeAt side world).outbox) ∧
      Store.Gathers records (ends.nodeAt one world).facts
        (ends.nodeAt one (ends.delivered side world)).facts := by
  obtain ⟨hown, hattached, hdetached⟩ := hgenuine.facts_delivered side
  refine forall_side side ?_ ?_
  · exact ⟨[], by simp, hown ▸ Store.Gathers.nothing _⟩
  · by_cases hother : ends.IsAttached side.other world
    · refine ⟨_, fun _ => id, ?_⟩
      rw [hattached hother]
      exact Store.gathers_saveAll (fun record hrecord =>
        (hgenuine.waiting side record hrecord).2) _
    · refine ⟨[], by simp, ?_⟩
      rw [hdetached hother]
      exact Store.Gathers.nothing _

theorem delivered (side : Side) : ends.IsGenuine (ends.delivered side world) := by
  have hpasses := hgenuine.passes_delivered side
  refine ⟨hpasses.stands (hgenuine.stands_joined side), fun one => ?_, fun one => ?_⟩
  · obtain ⟨records, hwaiting, hgathers⟩ := hgenuine.gathers_delivered side one
    exact hgathers.isGenuine (fun record hrecord =>
      (hgenuine.waiting side record (hwaiting record hrecord)).1) (hgenuine.facts one)
  · have hstands := hpasses.stands (hgenuine.stands_joined side)
    have hattached : ∀ {one}, ends.IsAttached one (ends.delivered side world) →
        (ends.nodeAt one (ends.delivered side world)).outbox = [] := fun hattached =>
      hstands.outbox _ (by rw [hattached.network?]; exact Option.some_ne_none _)
    revert one
    refine forall_side side ?_ ?_
    · rw [hattached (hpasses.isAttached (hgenuine.isAttached_joined side))]
      simp
    · rcases hstands.attachment side.other with hdetached | hother
      · rw [hpasses.unreached (hpasses.link ▸ hdetached.node?), nodeAt_other_joined]
        exact hgenuine.waiting side.other
      · rw [hattached hother]
        simp

/-- A node that is attached gathers, once what waited has been sent, what the other node answers
about its watches. -/
theorem draws_sync (side : Side) :
    ∃ records, Record.AreWhole records ∧
      ends.Draws side records (ends.delivered side world)
        (world.sync (ends.node side) (ends.network side)) ∧
      ∀ fact, Record.Holds records fact ↔
        (ends.nodeAt side (ends.delivered side world)).config.mirrorWatches = true ∧
        ends.IsAttached side.other (ends.delivered side world) ∧
        ∃ watch ∈ (ends.nodeAt side (ends.delivered side world)).activeWatches, ∃ answer,
          (ends.nodeAt side.other (ends.delivered side world)).facts.Answers watch.start
            watch.query answer ∧ Record.Holds answer fact := by
  have hpasses := hgenuine.passes_delivered side
  rw [hgenuine.sync_eq]
  split
  · next hmirrors =>
    obtain ⟨records, hwhole, hdraws, hholds⟩ := (hgenuine.delivered side).draws_mirrorAll side
      ((ends.nodeAt side (ends.delivered side world)).activeWatches.map fun watch =>
        (watch.start, watch.query))
    refine ⟨records, hwhole, hdraws, fun fact => ?_⟩
    rw [hholds (hpasses.isAttached (hgenuine.isAttached_joined side)) fact]
    simp only [hmirrors, true_and, List.mem_map, exists_exists_and_eq_and]
  · next hmirrors =>
    refine ⟨[], Record.areWhole_nil, (SameFacts.refl ends _).draws side, fun fact => ?_⟩
    simp [hmirrors, Record.Holds]

end IsGenuine

def Act.IsKeyed : Act → Prop
  | .call (.fact document) => document.isKeyed = true
  | .call (.watch ..) | .call (.stop _) | .sync => True

namespace IsGenuine

variable (hgenuine : ends.IsGenuine world)
include hgenuine

/-- By a call a node gathers nothing that does not come with all it names. -/
theorem gathersWhole_call (side : Side) {call : World.Call} (hkeyed : Act.IsKeyed (.call call)) :
    ∀ one, GathersWhole (ends.nodeAt one world).facts
      (ends.nodeAt one (ends.perform side (.call call) world)).facts := by
  cases call with
  | fact document => exact hgenuine.gathersWhole_fact side hkeyed
  | watch start query listener => exact hgenuine.gathersWhole_watch side start query listener
  | stop id =>
    have hsame : ends.SameFacts world (ends.perform side (.call (.stop id)) world) :=
      sameFacts_modifyNode (fun node => node.keeps_stopWatch id) world
    exact fun one => gathersWhole_of_eq (hsame one)

theorem perform (side : Side) {act : Act} (hkeyed : act.IsKeyed) :
    ends.IsGenuine (ends.perform side act world) := by
  refine ⟨(hgenuine.toStands.perform side act).1, ?_, fun one record hrecord => ?_⟩
  · cases act with
    | call call =>
      intro one
      obtain ⟨records, hwhole, hgathers⟩ := hgenuine.gathersWhole_call side hkeyed one
      exact hgathers.isGenuine hwhole.authentic (hgenuine.facts one)
    | sync =>
      obtain ⟨records, hwhole, hdraws, -⟩ := hgenuine.draws_sync side
      have hdelivered := (hgenuine.delivered side).facts
      refine forall_side side ?_ ?_
      · exact hdraws.own.isGenuine hwhole.authentic (hdelivered side)
      · exact hdraws.other ▸ hdelivered side.other
  · rcases hgenuine.outbox_perform side one act with hnone | hsame |
      ⟨document, records, root, saved, rfl, hrecords, houtbox, -, hposted⟩
    · rw [hnone] at hrecord
      cases hrecord
    · exact hgenuine.waiting one record (hsame ▸ hrecord)
    · rw [hposted] at hrecord
      rcases Node.mem_outbox_of_post records record hrecord with hold | hnew
      · exact hgenuine.waiting one record (houtbox ▸ hold)
      · have hwhole := Document.areWhole_dehydrateFact hkeyed hrecords
        exact ⟨hwhole.authentic record hnew, hwhole.keyed record hnew⟩

theorem run {acts : List (Side × Act)} (hkeyed : ∀ act ∈ acts, act.2.IsKeyed) :
    ends.IsGenuine (ends.run acts world) := by
  induction acts generalizing world with
  | nil => exact hgenuine
  | cons act rest ih =>
    rw [List.forall_mem_cons] at hkeyed
    exact ih (hgenuine.perform act.1 hkeyed.1) hkeyed.2

end IsGenuine

theorem Opens.isGenuine {config : Side → Config} (h : ends.Opens config world) :
    ends.IsGenuine world where
  toStands := h.stands
  facts := fun one => by
    rw [h.nodeAt_eq]
    exact ⟨Store.isSound_empty, by simp [Node.facts]⟩
  waiting := fun one => by
    rw [h.nodeAt_eq]
    simp

end Ends

end LiveFacts
