import LiveFacts.Proofs.Fact.Contents
import LiveFacts.Proofs.Network.Worlds
import LiveFacts.Proofs.Node.Stocks

/-!
# What nodes have, whatever is done in a world

Nodes make facts, are told of records, watch, stop watching and are attached to networks, and in all
of this hand records to one another: as they are made, from outboxes, and as answers to watches.
Each record that comes in by any of these ways is checked, so that every store holds records under
the references of their own contents. What is refused, and what is known already, changes nothing.
-/

namespace LiveFacts

namespace World

/-- Each node, each network and each link is the same in both, its store, index, outbox, watches,
journal and warnings included. -/
structure IsUnchanged (world next : World) : Prop where
  node : ∀ name, next.node name = world.node name
  network : ∀ name, next.network name = world.network name
  link : ∀ name, next.link name = world.link name

theorem IsUnchanged.refl (world : World) : IsUnchanged world world :=
  ⟨fun _ => rfl, fun _ => rfl, fun _ => rfl⟩

theorem isUnchanged_setNode (world : World) (name : String) :
    IsUnchanged world (world.setNode name (world.node name)) where
  node := by
    intro other
    by_cases hother : other = name
    · rw [hother, node_setNode]
    · rw [world.node_setNode_of_ne hother]
  network := fun _ => rfl
  link := fun _ => rfl

def IsStocked (P : Record → Prop) (world : World) : Prop :=
  ∀ name, (world.node name).IsStocked P

namespace IsStocked

variable {P : Record → Prop} {world : World} {name : String}

theorem setNode (h : world.IsStocked P) {node : Node} (hnode : node.IsStocked P) :
    (world.setNode name node).IsStocked P := by
  intro other
  by_cases hother : other = name
  · rw [hother, node_setNode]
    exact hnode
  · rw [world.node_setNode_of_ne hother]
    exact h other

theorem reach {α : Type} {operation : Node → Node × Except Error α} (h : world.IsStocked P)
    (hnode : (operation (world.node name)).1.IsStocked P) :
    (world.reach name operation).1.IsStocked P := by
  rw [world.reach_of_alive (h name).alive]
  exact h.setNode hnode

/-- A network answers with what the asked node has. -/
theorem inquire (h : world.IsStocked P) (network : String) (start : Reference) (query : Query) :
    (world.inquire network start query).1.IsStocked P ∧
      ∀ shipment, (world.inquire network start query).2 = .ok (some shipment) →
        ∀ record ∈ shipment.records, P record := by
  unfold World.inquire
  dsimp only
  split
  · constructor
    · exact h
    · intro shipment hshipment
      split at hshipment <;> cases hshipment
  · split
    · exact ⟨h, nofun⟩
    · exact ⟨h, nofun⟩
    · next own peer _ _ =>
      have hasked : (world.setNetwork network { world.network network with
          watches := (world.network network).watches ++ [(start, query)] }).IsStocked P := h
      rw [reach_of_alive _ (hasked peer).alive]
      obtain ⟨hnode, hrecords⟩ := (hasked peer).closure start query
      refine ⟨hasked.setNode hnode, fun shipment hshipment => ?_⟩
      obtain ⟨records, hfound, hsome⟩ := map_eq_ok.1 hshipment
      cases hsome
      exact hrecords records hfound

theorem inquireAll (h : world.IsStocked P) (network : String)
    (watched : List (Reference × Query)) :
    (world.inquireAll network watched).1.IsStocked P ∧
      ∀ shipment ∈ (world.inquireAll network watched).2.1, ∀ record ∈ shipment.records,
        P record := by
  induction watched generalizing world with
  | nil => exact ⟨h, nofun⟩
  | cons first rest ih =>
    obtain ⟨start, query⟩ := first
    obtain ⟨hasked, hshipment⟩ := h.inquire network start query
    obtain ⟨hall, hshipments⟩ := ih hasked
    rw [World.inquireAll]
    dsimp only
    split
    · exact ⟨hall, hshipments⟩
    · next shipment? hanswer =>
      refine ⟨hall, fun shipment hmem => ?_⟩
      rcases List.mem_append.1 hmem with hfirst | hrest
      · apply hshipment shipment
        rw [hanswer, Option.mem_toList.1 hfirst]
      · exact hshipments shipment hrest

section Records

variable (hkeyed : ∀ record, P record → record.IsKeyed)
include hkeyed

theorem send (h : world.IsStocked P) (network : String) {record : Record} (hrecord : P record) :
    (world.send network record).1.IsStocked P := by
  unfold World.send
  dsimp only
  split
  · exact h
  · split
    · exact h
    · next peer _ =>
      have hhanded : (world.setNetwork network { world.network network with
          facts := (world.network network).facts ++ [record.reference] }).IsStocked P := h
      exact hhanded.reach ((h peer).takeIn hkeyed (fun _ => hrecord) _)

theorem takeInAll (h : world.IsStocked P) (source : Source) {records : List Record}
    (hrecords : ∀ record ∈ records, P record) :
    (world.takeInAll name source records).1.IsStocked P := by
  induction records generalizing world with
  | nil => exact h
  | cons record rest ih =>
    rw [List.forall_mem_cons] at hrecords
    have hreached : (world.reach name fun node => node.takeIn record source).1.IsStocked P :=
      h.reach ((h name).takeIn hkeyed (fun _ => hrecords.1) source)
    rw [World.takeInAll]
    split
    · next next error hnext =>
      rw [hnext] at hreached
      exact hreached
    · next next _ hnext =>
      rw [hnext] at hreached
      exact ih hreached hrecords.2

theorem ask (h : world.IsStocked P) (network : String) (start : Reference) (query : Query) :
    (world.ask network start query).1.IsStocked P := by
  obtain ⟨hasked, hshipment⟩ := h.inquire network start query
  rw [World.ask]
  split
  · next next error hnext =>
    rw [hnext] at hasked
    exact hasked
  · next next hnext =>
    rw [hnext] at hasked
    exact hasked
  · next next shipment hnext =>
    rw [hnext] at hasked hshipment
    exact hasked.takeInAll hkeyed shipment.source (hshipment shipment rfl)

theorem sendAll (h : world.IsStocked P) (network : String) {records : List Record}
    (hrecords : ∀ record ∈ records, P record) :
    (world.sendAll name network records).IsStocked P := by
  induction records generalizing world with
  | nil => exact h
  | cons record rest ih =>
    rw [List.forall_mem_cons] at hrecords
    have hsent := h.send hkeyed network hrecords.1
    rw [World.sendAll]
    split
    · next next hnext =>
      rw [hnext] at hsent
      exact ih hsent hrecords.2
    · next next error hnext =>
      rw [hnext] at hsent
      exact ih (hsent.setNode ((hsent name).warn .relayFailed)) hrecords.2

theorem relay (h : world.IsStocked P) {records : List Record}
    (hrecords : ∀ record ∈ records, P record) : (world.relay name records).IsStocked P := by
  rw [World.relay]
  split
  · split
    · exact h.sendAll hkeyed _ hrecords
    · exact h.setNode ((h name).post hrecords)
  · exact h

theorem mirror (h : world.IsStocked P) (start : Reference) (query : Query) :
    (world.mirror name start query).IsStocked P := by
  rw [World.mirror]
  split
  · exact h
  · next network _ =>
    have hasked := h.ask hkeyed network start query
    split
    · next next hnext =>
      rw [hnext] at hasked
      exact hasked
    · next next error hnext =>
      rw [hnext] at hasked
      exact hasked.setNode ((hasked name).warn .registrationFailed)

theorem watch (h : world.IsStocked P) (start : Reference) (query : Query) (listener : Listener) :
    (world.watch name start query listener).1.IsStocked P := by
  have hseeded : (world.seeded start query listener name).1.IsStocked P :=
    (((h name).register start query listener).modifyWatch _ _).seed _ start query
  have hstarted : (world.started start query listener name).IsStocked P :=
    h.setNode (hseeded.modifyWatch _ _)
  rw [watch_eq_seeded]
  split
  · exact h.setNode hseeded
  · dsimp only
    split
    · have hmirrored : ((world.started start query listener name).mirror name start
          query).IsStocked P := hstarted.mirror hkeyed start query
      exact hmirrored.setNode ((hmirrored name).modifyWatch _ _)
    · exact hstarted.setNode ((hstarted name).modifyWatch _ _)

/-- What comes of a document is in stock where it was all of the kind. -/
theorem fact (h : world.IsStocked P) {document : Json}
    (hdocument : ∀ records root, Document.dehydrateFact [] document = .ok (records, root) →
      ∀ record ∈ records, P record) : (world.fact name document).1.IsStocked P := by
  rw [World.fact]
  split
  · exact h
  · next records hrecords =>
    obtain ⟨root, hresult⟩ := Document.dehydrate_eq_ok.1 hrecords
    have hall := hdocument records root hresult
    have hsaved : (world.setNode name ((world.node name).saveAll records).1).IsStocked P :=
      h.setNode ((h name).saveAll hkeyed hall)
    split
    · exact h
    · dsimp only
      split
      · exact hsaved
      · split
        · exact hsaved.relay hkeyed hall
        · exact hsaved

theorem receive (h : world.IsStocked P) {record : Record}
    (hrecord : record.IsAuthentic → P record) (source : Source) :
    (world.receive name record source).1.IsStocked P := by
  have hreached : (world.reach name fun node => node.takeIn record source).1.IsStocked P :=
    h.reach ((h name).takeIn hkeyed hrecord source)
  rw [World.receive]
  split
  · next next hnext =>
    rw [hnext] at hreached
    have hauthentic : record.IsAuthentic := by
      by_contra hforged
      rw [world.reach_of_alive (h name).alive, Node.takeIn_of_not_isAuthentic hforged,
        Prod.mk.injEq] at hnext
      cases hnext.2
    split
    · exact hreached.relay hkeyed (List.forall_mem_singleton.2 (hrecord hauthentic))
    · exact hreached
  · next next result _ hnext =>
    rw [hnext] at hreached
    exact hreached

variable (hauthentic : ∀ record, P record → record.IsAuthentic)
include hauthentic

theorem takeInTogether (h : world.IsStocked P) {shipments : List Shipment}
    (hshipments : ∀ shipment ∈ shipments, ∀ record ∈ shipment.records, P record) :
    (world.takeInTogether shipments).1.IsStocked P := by
  cases shipments with
  | nil => exact h
  | cons first rest =>
    rw [World.takeInTogether]
    dsimp only
    rw [if_pos (h first.node).alive]
    apply h.setNode
    apply (h first.node).takeInTogether hkeyed hauthentic
    intro record hrecord
    obtain ⟨records, hrecords, hmem⟩ := List.mem_flatten.1 hrecord
    obtain ⟨shipment, hshipment, rfl⟩ := List.mem_map.1 hrecords
    exact hshipments shipment hshipment record hmem

theorem mirrorAll (h : world.IsStocked P) (watched : List (Reference × Query)) :
    (world.mirrorAll name watched).IsStocked P := by
  rw [World.mirrorAll]
  split
  · exact h
  · next network _ =>
    obtain ⟨hasked, hshipments⟩ := h.inquireAll network watched
    have htaken := hasked.takeInTogether hkeyed hauthentic hshipments
    apply htaken.setNode
    exact ⟨(htaken name).alive, (htaken name).faults, (htaken name).sound, (htaken name).stored,
      (htaken name).waiting⟩

/-- A node that gets a network hands over what waits, and then asks for what its watches find. -/
theorem attach (h : world.IsStocked P) (network : String) :
    let joined := (world.modifyNode name fun node =>
      { node with network? := some network, outbox := [] }).sendAll name network
        (world.node name).outbox
    (if (joined.node name).config.mirrorWatches then
      joined.mirrorAll name
        ((joined.node name).activeWatches.map fun watch => (watch.start, watch.query))
    else joined).IsStocked P := by
  have hjoined : (world.modifyNode name fun node =>
      { node with network? := some network, outbox := [] }).IsStocked P :=
    h.setNode ⟨(h name).alive, (h name).faults, (h name).sound, (h name).stored, by simp⟩
  intro joined
  have hsent : joined.IsStocked P := hjoined.sendAll hkeyed network (h name).waiting
  split
  · exact hsent.mirrorAll hkeyed hauthentic _
  · exact hsent

theorem sync (h : world.IsStocked P) (network : String) :
    (world.sync name network).IsStocked P := by
  unfold World.sync
  split
  · exact h.attach hkeyed hauthentic network
  · next link side _ =>
    have hlinked : (world.setLink link ((world.link link).attach name side)).IsStocked P := h
    exact hlinked.attach hkeyed hauthentic network

end Records

end IsStocked

inductive Command where
  | call (node : String) (call : Call)
  | receive (node : String) (record : Record) (source : Source)
  | sync (node network : String)

namespace Command

/-- Of what a command brings, all that a node may take in is of one kind. -/
def Yields (P : Record → Prop) : Command → Prop
  | .call _ (.fact document) => ∀ records root,
      Document.dehydrateFact [] document = .ok (records, root) → ∀ record ∈ records, P record
  | .receive _ record _ => record.IsAuthentic → P record
  | .call _ (.watch ..) | .call _ (.stop _) | .sync .. => True

def IsKeyed : Command → Prop
  | .call _ (.fact document) => document.isKeyed = true
  | .receive _ record _ => record.IsKeyed
  | .call _ (.watch ..) | .call _ (.stop _) | .sync .. => True

theorem IsKeyed.yields {command : Command} (h : command.IsKeyed) :
    command.Yields fun record => record.IsAuthentic ∧ record.IsKeyed := by
  cases command with
  | call node call =>
    cases call with
    | fact document =>
      intro records root hrecords record hrecord
      have hwhole := Document.areWhole_dehydrateFact h hrecords
      exact ⟨hwhole.authentic record hrecord, hwhole.keyed record hrecord⟩
    | watch start query listener => trivial
    | stop id => trivial
  | receive node record source => exact fun hauthentic => ⟨hauthentic, h⟩
  | sync node network => trivial

end Command

def perform : Command → World → World
  | .call node (.fact document), world => (world.fact node document).1
  | .call node (.watch start query listener), world =>
    (world.watch node start query listener).1
  | .call node (.stop id), world => world.modifyNode node (·.stopWatch id)
  | .receive node record source, world => (world.receive node record source).1
  | .sync node network, world => world.sync node network

def performAll (commands : List Command) (world : World) : World :=
  commands.foldl (fun world command => world.perform command) world

namespace IsStocked

variable {P : Record → Prop} {world : World}

theorem of_new (hnew : ∀ name, ∃ config, Node.ofConfig? config = some (world.node name)) :
    world.IsStocked P := by
  intro name
  obtain ⟨config, hconfig⟩ := hnew name
  exact Node.IsStocked.of_ofConfig? hconfig

variable (hkeyed : ∀ record, P record → record.IsKeyed)
  (hauthentic : ∀ record, P record → record.IsAuthentic)
include hkeyed hauthentic

theorem perform (h : world.IsStocked P) {command : Command} (hcommand : command.Yields P) :
    (world.perform command).IsStocked P := by
  cases command with
  | call node call =>
    cases call with
    | fact document => exact h.fact hkeyed hcommand
    | watch start query listener => exact h.watch hkeyed start query listener
    | stop id => exact h.setNode ((h node).modifyWatch id Watch.stop)
  | receive node record source => exact h.receive hkeyed hcommand source
  | sync node network => exact h.sync hkeyed hauthentic network

theorem performAll (h : world.IsStocked P) {commands : List Command}
    (hcommands : ∀ command ∈ commands, command.Yields P) :
    (world.performAll commands).IsStocked P := by
  induction commands generalizing world with
  | nil => exact h
  | cons command rest ih =>
    rw [List.forall_mem_cons] at hcommands
    exact ih (h.perform hkeyed hauthentic hcommands.1) hcommands.2

end IsStocked

section Refusals

variable {P : Record → Prop} {world : World} (h : world.IsStocked P) (name : String)
include h

theorem fact_of_contains {document : Json} {records : List Record}
    (hrecords : Document.dehydrate document = .ok records)
    (hknown : ∀ record ∈ records, (world.node name).facts.contains record.reference = true) :
    ∃ root, Document.referenceOf document = .ok root ∧
      world.fact name document = (world.setNode name (world.node name), .ok root) := by
  obtain ⟨_, hresult⟩ := Document.dehydrate_eq_ok.1 hrecords
  obtain ⟨last, hlast⟩ := Document.exists_last_of_dehydrateFact hresult
  have hsave := Node.saveAll_of_contains (h name).faults hknown
  refine ⟨last.reference, ?_, ?_⟩
  · rw [Document.referenceOf, hrecords]
    simp only [bind, Except.bind, hlast]
    rfl
  · rw [fact_of_saved hresult hlast (congrArg Prod.snd hsave), hsave]
    rfl

omit h in
theorem fact_of_not_isAccepted {document : Json} (hinvalid : Document.isAccepted document = false) :
    ∃ fault, world.fact name document = (world, .error (.invalidFact (.document fault))) := by
  cases hresult : Document.dehydrateFact [] document with
  | error fault => exact ⟨fault, fact_of_error hresult⟩
  | ok result =>
    rw [Document.isAccepted_of_dehydrateFact document hresult] at hinvalid
    cases hinvalid

theorem receive_of_contains {record : Record} (hauthentic : record.IsAuthentic)
    (hknown : (world.node name).facts.contains record.reference = true) (source : Source) :
    world.receive name record source = (world.setNode name (world.node name), .ok false) := by
  unfold World.receive
  rw [world.reach_of_alive (h name).alive,
    Node.takeIn_of_contains (h name).faults hauthentic hknown]

theorem receive_of_not_isAuthentic {record : Record} (hforged : ¬ record.IsAuthentic)
    (source : Source) : world.receive name record source =
      (world.setNode name (world.node name),
        .error (.invalidFact (.hashMismatch record.reference source))) := by
  unfold World.receive
  rw [world.reach_of_alive (h name).alive, Node.takeIn_of_not_isAuthentic hforged]

end Refusals

/-- Whatever has been done in a world of new nodes, every record is stored under its own reference
and known by the hash of its own content. A fact or a record that is stored already, with all that
comes of it, changes nothing anywhere; neither does a document that is not a fact, at whatever
depth it fails to be one, nor a record whose hash is not that of its content. -/
theorem content_addressed_of_commands {world : World}
    (hnew : ∀ name, ∃ config, Node.ofConfig? config = some (world.node name))
    {commands : List Command} (hkeyed : ∀ command ∈ commands, command.IsKeyed) {last : World}
    (hlast : world.performAll commands = last) (name : String) :
    (∀ record ∈ (last.node name).facts.records,
        (last.node name).facts.find? record.reference = some record ∧ record.IsAuthentic) ∧
      (∀ document records, Document.dehydrate document = .ok records →
        (∀ record ∈ records, (last.node name).facts.contains record.reference = true) →
        last.IsUnchanged (last.fact name document).1 ∧
          ∃ root, Document.referenceOf document = .ok root ∧
            (last.fact name document).2 = .ok root) ∧
      (∀ record source, (last.node name).facts.contains record.reference = true →
        last.IsUnchanged (last.receive name record source).1 ∧
          (record.IsAuthentic → (last.receive name record source).2 = .ok false)) ∧
      (∀ document, Document.isAccepted document = false →
        last.IsUnchanged (last.fact name document).1 ∧
          ∃ fault, (last.fact name document).2 = .error (.invalidFact (.document fault))) ∧
      ∀ record source, ¬ record.IsAuthentic →
        last.IsUnchanged (last.receive name record source).1 ∧
          (last.receive name record source).2 =
            .error (.invalidFact (.hashMismatch record.reference source)) := by
  have hstocked : last.IsStocked fun record => record.IsAuthentic ∧ record.IsKeyed := by
    rw [← hlast]
    apply (IsStocked.of_new hnew).performAll (fun _ => And.right) fun _ => And.left
    exact fun command hcommand => (hkeyed command hcommand).yields
  have hsame := isUnchanged_setNode last name
  refine ⟨?_, ?_, ?_, ?_, ?_⟩
  · intro record hrecord
    exact ⟨(hstocked name).sound.find?_eq_some_iff.2 ⟨hrecord, rfl⟩,
      ((hstocked name).stored record hrecord).1⟩
  · intro document records hrecords hknown
    obtain ⟨root, hroot, hfact⟩ := fact_of_contains hstocked name hrecords hknown
    rw [hfact]
    exact ⟨hsame, root, hroot, rfl⟩
  · intro record source hknown
    by_cases hauthentic : record.IsAuthentic
    · rw [receive_of_contains hstocked name hauthentic hknown]
      exact ⟨hsame, fun _ => rfl⟩
    · rw [receive_of_not_isAuthentic hstocked name hauthentic]
      exact ⟨hsame, fun h => absurd h hauthentic⟩
  · intro document hinvalid
    obtain ⟨fault, hfact⟩ : ∃ fault, last.fact name document =
        (last, .error (.invalidFact (.document fault))) := fact_of_not_isAccepted name hinvalid
    rw [hfact]
    exact ⟨IsUnchanged.refl last, fault, rfl⟩
  · intro record source hforged
    rw [receive_of_not_isAuthentic hstocked name hforged]
    exact ⟨hsame, rfl⟩

namespace Errands

def handedAround : List Command :=
  [.call "a" (.fact taskDocument), .sync "a" "ether", .receive "b" list .here,
    .call "b" (.watch list.reference allTasks .quiet)]

def brokenDocument : Json :=
  .object
    [("list", .object [("items", .array [listDocument, .null]), ("type", .string "List")]),
      ("type", .string "Task")]

/-- To make the list anew changes nothing, whether or not its node has made it; neither does a
document that is broken inside, nor a list whose hash is that of a task. -/
theorem handedAround_unchanged :
    ∃ last, World.performAll handedAround {} = last ∧
      (∀ record ∈ (last.node "b").facts.records, record.IsAuthentic) ∧
      last.IsUnchanged (last.fact "b" listDocument).1 ∧
      last.IsUnchanged (last.fact "b" brokenDocument).1 ∧
      last.IsUnchanged (last.receive "b" { list with hash := task.hash } .here).1 := by
  have hkeyed : ∀ command ∈ handedAround, command.IsKeyed := by
    simp only [handedAround, List.forall_mem_cons, List.not_mem_nil, false_implies, implies_true,
      Command.IsKeyed, isKeyed_taskDocument, true_and, and_true]
    decide
  have hknown : ((World.performAll handedAround {}).node "b").facts.contains list.reference =
      true := by decide +kernel
  have hnew : ∀ name, ∃ config, Node.ofConfig? config = some (World.node {} name) :=
    fun _ => ⟨{}, rfl⟩
  obtain ⟨hstored, hmade, -, hinvalid, hforged⟩ :=
    content_addressed_of_commands hnew hkeyed rfl "b"
  refine ⟨_, rfl, fun record hrecord => (hstored record hrecord).2, ?_, ?_, ?_⟩
  · have hlist := Document.dehydrate_eq_ok.2 ⟨_, dehydrate_list⟩
    exact (hmade listDocument [list] hlist (by simpa using hknown)).1
  · exact (hinvalid brokenDocument (by decide)).1
  · exact (hforged _ .here (by decide +kernel)).1

end Errands

end World

end LiveFacts
