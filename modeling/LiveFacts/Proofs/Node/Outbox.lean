import Mathlib.Data.List.DropRight
import LiveFacts.Proofs.Node.Continuity
import LiveFacts.Proofs.Node.EarlyWatches

/-!
# Facts that wait for a network

A node that has no network yet keeps the facts that are made at it. What it keeps is a window on all
that its calls pass on: the last records, as many as there is room for. A call passes on all that
its document names, whether new or not, so what was passed on before takes up room again.
-/

namespace LiveFacts

open Record (Holds)

section Lists

variable {α : Type} {a : α} {list more : List α} {n : Nat}

theorem rtake_of_length_le (h : list.length ≤ n) : list.rtake n = list := by
  rw [List.rtake, Nat.sub_eq_zero_of_le h, List.drop_zero]

theorem length_rtake_le (list : List α) (n : Nat) : (list.rtake n).length ≤ n := by
  rw [List.rtake, List.length_drop]
  omega

/-- What has left the window does not come back. -/
theorem rtake_rtake_append : (list.rtake n ++ more).rtake n = (list ++ more).rtake n := by
  simp only [List.rtake_eq_reverse_take_reverse, List.reverse_append, List.reverse_reverse,
    List.take_append, List.take_take, Nat.min_eq_left (Nat.sub_le _ _)]

theorem mem_rtake_iff :
    a ∈ list.rtake n ↔ ∃ earlier later, list = earlier ++ a :: later ∧ later.length < n := by
  rw [List.rtake]
  constructor
  · intro hmem
    obtain ⟨between, later, hdrop⟩ := List.append_of_mem hmem
    refine ⟨list.take (list.length - n) ++ between, later, ?_, ?_⟩
    · rw [List.append_assoc, ← hdrop, List.take_append_drop]
    · have hlength := congrArg List.length hdrop
      simp only [List.length_drop, List.length_append, List.length_cons] at hlength
      omega
  · rintro ⟨earlier, later, rfl, hlater⟩
    have hless : (earlier ++ a :: later).length - n ≤ earlier.length := by
      simp only [List.length_append, List.length_cons]
      omega
    rw [List.drop_append_of_le_length hless]
    exact List.mem_append_right _ List.mem_cons_self

end Lists

namespace Round

theorem outbox_run (round : Round) (node : Node) (work : Work) :
    (round.run node work).1.outbox = node.outbox := by
  cases work with
  | check id inverse =>
    simp only [run]
    split
    · rfl
    · split
      · rfl
      · split
        · next hlookup =>
          rw [Node.lookup, Prod.mk.injEq] at hlookup
          rw [← hlookup.1]
          rfl
        · next hlookup =>
          rw [Node.lookup, Prod.mk.injEq] at hlookup
          rw [← hlookup.1]
          split <;> rfl
  | deliver id change query =>
    simp only [run]
    split
    · next hlookup =>
      rw [Node.lookup, Prod.mk.injEq] at hlookup
      rw [← hlookup.1]
      rfl
    · next hlookup =>
      rw [Node.lookup, Prod.mk.injEq] at hlookup
      rw [← hlookup.1]
      rfl

theorem Finishes.outbox_eq {round : Round} {node final : Node} {pool : List Work}
    (h : round.Finishes node pool final) : final.outbox = node.outbox := by
  induction h with
  | done node => rfl
  | unit _ ih => exact ih.trans (round.outbox_run _ _)

end Round

namespace Node

variable {node settled final : Node} {record : Record} {records : List Record}

theorem outbox_openConnection (node : Node) : node.openConnection.1.outbox = node.outbox := by
  rw [openConnection]
  split <;> rfl

theorem outbox_startRound (fact : Reference) (node : Node) :
    (node.startRound fact).1.outbox = node.outbox := by
  have hopened := node.outbox_openConnection
  rw [startRound]
  split
  · rfl
  · split
    · next opened hopen =>
      rw [hopen] at hopened
      exact hopened
    · next opened connection hopen =>
      rw [hopen] at hopened
      exact hopened

theorem Propagates.outbox_eq {fact : Reference} (h : Propagates fact node settled) :
    settled.outbox = node.outbox := by
  have hstarted := outbox_startRound fact node
  cases h with
  | calm hstart =>
    rw [hstart] at hstarted
    exact hstarted
  | round hstart hfinishes =>
    rw [hstart] at hstarted
    exact hfinishes.outbox_eq.trans hstarted

theorem outbox_saveRecord (record : Record) (node : Node) :
    (node.saveRecord record).1.outbox = node.outbox := by
  rw [saveRecord]
  split
  · rfl
  · split <;> rfl

theorem Saves.outbox_eq {new : Bool} (h : Saves record node settled new) :
    settled.outbox = node.outbox := by
  have hsaved := outbox_saveRecord record node
  cases h with
  | known hsave =>
    rw [hsave] at hsaved
    exact hsaved
  | new hsave hpropagates =>
    rw [hsave] at hsaved
    exact hpropagates.outbox_eq.trans hsaved

theorem SavesAll.outbox_eq {count : Except Error Nat} (h : SavesAll records node final count) :
    final.outbox = node.outbox := by
  induction h with
  | nil node => rfl
  | @refused record _ node _ _ hsave =>
    have hsaved := outbox_saveRecord record node
    rw [hsave] at hsaved
    exact hsaved
  | cons hsaves _ ih => exact ih.trans hsaves.outbox_eq

theorem outbox_seed (id : Nat) (start : Reference) (query : Query) (node : Node) :
    (node.seed id start query).1.outbox = node.outbox := by
  have hopened := node.outbox_openConnection
  rw [seed]
  split
  · next opened hopen =>
    rw [hopen] at hopened
    exact hopened
  · next opened connection hopen =>
    rw [hopen] at hopened
    split
    · next hlookup =>
      rw [lookup, Prod.mk.injEq] at hlookup
      rw [← hlookup.1]
      exact hopened
    · next hlookup =>
      rw [lookup, Prod.mk.injEq] at hlookup
      rw [← hlookup.1]
      dsimp only
      split <;> exact hopened

/-- A ready node stores all records, and counts one if it was not there before. -/
theorem SavesAll.exists_count {count : Except Error Nat} (h : SavesAll records node final count)
    (hready : node.IsReady) (hkeyed : ∀ record ∈ records, record.IsKeyed) :
    ∃ total, count = .ok total ∧
      (0 < total ↔ ∃ record ∈ records, node.facts.contains record.reference = false) := by
  induction h with
  | nil node => exact ⟨0, rfl, by simp⟩
  | refused hsave =>
    rw [hready.saveRecord_eq] at hsave
    split at hsave <;> simp at hsave
  | @cons record rest node next final new count hsaves _ ih =>
    rw [List.forall_mem_cons] at hkeyed
    obtain ⟨hnext, -, -⟩ := hsaves.isReady hready hkeyed.1
    obtain ⟨total, rfl, hrest⟩ := ih hnext hkeyed.2
    refine ⟨total + new.toNat, rfl, ?_⟩
    cases new with
    | false =>
      obtain ⟨rfl, hknown⟩ := hsaves.eq_of_known hready
      simp [hrest, hknown]
    | true =>
      obtain ⟨hnew, -⟩ := hsaves.hears hready hkeyed.1
      simp [hnew]

/-- What waits is the last of what has been posted. -/
theorem outbox_post (records : List Record) {node : Node}
    (hroom : node.outbox.length ≤ node.config.outboxCapacity) :
    (node.post records).outbox = (node.outbox ++ records).rtake node.config.outboxCapacity := by
  induction records generalizing node with
  | nil => rw [List.append_nil, rtake_of_length_le hroom, post]
  | cons record rest ih =>
    rw [post]
    split
    · next hzero =>
      rw [hzero, List.rtake_zero]
      exact List.length_eq_zero_iff.1 (Nat.le_zero.1 (hzero ▸ hroom))
    · next hsome =>
      -- the record that comes last stays, and of the others as many as there is room for
      have hkept : ∀ {kept : Node}, kept.config = node.config →
          kept.outbox = (node.outbox ++ [record]).rtake node.config.outboxCapacity →
          (kept.post rest).outbox =
            (node.outbox ++ record :: rest).rtake node.config.outboxCapacity := by
        intro kept hconfig houtbox
        rw [ih (by rw [houtbox, hconfig]; exact length_rtake_le _ _), houtbox, hconfig,
          rtake_rtake_append, List.append_assoc, List.singleton_append]
      dsimp only
      split
      · next hfull =>
        refine hkept rfl ?_
        have hlength : node.outbox.length = node.config.outboxCapacity :=
          Nat.le_antisymm hroom hfull
        have hone : node.outbox.length + 1 - node.config.outboxCapacity = 1 := by omega
        rw [List.rtake, List.length_append, List.length_singleton, hone,
          List.drop_append_of_le_length (by omega)]
        rfl
      · next hless =>
        refine hkept rfl (rtake_of_length_le ?_).symm
        rw [List.length_append, List.length_singleton]
        omega

theorem mem_outbox_of_post (records : List Record) {node : Node} :
    ∀ record ∈ (node.post records).outbox, record ∈ node.outbox ∨ record ∈ records := by
  induction records generalizing node with
  | nil => exact fun _ => Or.inl
  | cons first rest ih =>
    rw [post]
    split
    · exact fun _ => Or.inl
    · intro record hrecord
      refine (ih record hrecord).elim (fun hkept => ?_) fun hrest =>
        Or.inr (List.mem_cons_of_mem _ hrest)
      rcases List.mem_append.1 hkept with hold | hlast
      · refine Or.inl ?_
        split at hold
        · exact List.mem_of_mem_drop hold
        · exact hold
      · exact Or.inr (List.mem_singleton.1 hlast ▸ List.mem_cons_self)

/-- Where no warning is given that there is no room, all that is posted waits, or nothing does
where there is no outbox. -/
theorem outbox_post_of_no_warning (records : List Record) {node : Node}
    (hnetwork : node.network? = none)
    (h : Warning.outboxFull ∉ (node.post records).warnings) :
    (node.post records).outbox = node.outbox ∨
      (node.post records).outbox = node.outbox ++ records := by
  by_cases hzero : node.config.outboxCapacity = 0
  · cases records with
    | nil => exact Or.inl rfl
    | cons record rest =>
      rw [post, if_pos hzero]
      exact Or.inl rfl
  · refine Or.inr ?_
    induction records generalizing node with
    | nil => exact (List.append_nil _).symm
    | cons record rest ih =>
      rw [post, if_neg hzero] at h ⊢
      dsimp only at h ⊢
      split at h
      · have hwarned := Node.continues_post
          { Node.warn .outboxFull { node with outbox := node.outbox.drop 1 } with
            outbox := node.outbox.drop 1 ++ [record] } rest hnetwork
        refine absurd (hwarned.warnings.subset ?_) h
        exact List.mem_append_right _ (List.mem_singleton_self _)
      · next hless =>
        have hrest := @ih { node with outbox := node.outbox ++ [record] } hnetwork h hzero
        rw [if_neg hless, hrest, List.append_assoc, List.singleton_append]

def HasWaiting (node : Node) (fact : Reference) : Prop :=
  Holds node.outbox fact

end Node

namespace World

open Node

variable {name : String} {world next final : World}

/-- What a call passes on at a node that stores these facts: all that comes of the document, if one
record is new. -/
def postedBy (store : Store) : Call → List Record
  | .fact document =>
    match Document.dehydrateFact [] document with
    | .error _ => []
    | .ok (records, _) =>
      if records.any fun record => !store.contains record.reference then records else []
  | .watch .. | .stop _ => []

def posted : Store → List Call → List Record
  | _, [] => []
  | store, call :: rest =>
    postedBy store call ++ posted ((postedBy store call).foldl Store.save store) rest

/-- How a node that passes on its facts, but has no network, comes out of a call: it stores what is
posted, and of all that waits it keeps the last. -/
structure Posts (records : List Record) (before after : Node) : Prop where
  config : after.config = before.config
  facts : after.facts = records.foldl Store.save before.facts
  outbox : after.outbox = (before.outbox ++ records).rtake before.config.outboxCapacity

theorem Posts.nothing {before after : Node} (hconfig : after.config = before.config)
    (hfacts : after.facts = before.facts) (houtbox : after.outbox = before.outbox)
    (hroom : before.outbox.length ≤ before.config.outboxCapacity) : Posts [] before after :=
  ⟨hconfig, hfacts, by rw [houtbox, List.append_nil, rtake_of_length_le hroom]⟩

theorem Posts.hasRoom {records : List Record} {before after : Node}
    (h : Posts records before after) : after.outbox.length ≤ after.config.outboxCapacity := by
  rw [h.outbox, h.config]
  exact length_rtake_le _ _

theorem Posts.trans {records more : List Record} {a b c : Node} (h : Posts records a b)
    (h' : Posts more b c) : Posts (records ++ more) a c where
  config := h'.config.trans h.config
  facts := by rw [h'.facts, h.facts, List.foldl_append]
  outbox := by
    rw [h'.outbox, h.outbox, h.config, rtake_rtake_append, List.append_assoc]

/-- What waits at a node without a network stays as it is while a watch begins there. -/
theorem outbox_watch (hnetwork : (world.node name).network? = none) (start : Reference)
    (query : Query) (listener : Listener) :
    ((world.watch name start query listener).1.node name).outbox = (world.node name).outbox := by
  rw [(watch_eq hnetwork start query listener).1]
  split
  · exact outbox_seed _ start query _
  · exact outbox_seed _ start query _

theorem Makes.posts {document : Json} {made : World × Except Error Reference}
    (h : Makes name document world made) (hkeyed : document.isKeyed = true)
    (hready : (world.node name).IsReady) (hnetwork : (world.node name).network? = none)
    (hrelays : (world.node name).config.relayLocalFacts = true)
    (hroom : (world.node name).outbox.length ≤ (world.node name).config.outboxCapacity) :
    Posts (postedBy (world.node name).facts (.fact document)) (world.node name)
      (made.1.node name) := by
  have keyed : ∀ {records : List Record} {root : Reference},
      Document.dehydrateFact [] document = .ok (records, root) →
      ∀ record ∈ records, record.IsKeyed := fun hrecords =>
    Record.isKeyed_of_areGrounded (Document.areGrounded_dehydrateFact hkeyed hrecords)
  cases h with
  | invalid hfault =>
    rw [postedBy, hfault]
    exact Posts.nothing rfl rfl rfl hroom
  | refused hrecords hsaves =>
    obtain ⟨total, htotal, -⟩ := hsaves.exists_count hready (keyed hrecords)
    cases htotal
  | @made changed records root last count hrecords hlast hsaves =>
    obtain ⟨-, hsame, hfacts⟩ := hsaves.isReady hready (keyed hrecords)
    obtain ⟨total, htotal, hcounts⟩ := hsaves.exists_count hready (keyed hrecords)
    have hnew : 0 < count ↔
        (records.any fun record => !(world.node name).facts.contains record.reference) = true := by
      rw [Except.ok.inj htotal]
      exact hcounts.trans (by simp)
    simp only [postedBy, hrecords, gt_iff_lt]
    by_cases hsome : 0 < count
    · rw [if_pos hsome, if_pos (hnew.1 hsome), relay, node_setNode, hsame.config,
        if_pos hrelays, hsame.network?, hnetwork]
      dsimp only
      rw [node_modifyNode, node_setNode]
      have hposted := sameContent_post records changed
      refine ⟨hposted.config.trans hsame.config, hposted.facts.trans hfacts, ?_⟩
      rw [← hsaves.outbox_eq, ← hsame.config]
      exact outbox_post records (by rwa [hsaves.outbox_eq, hsame.config])
    · rw [if_neg hsome, if_neg (mt hnew.2 hsome), node_setNode]
      refine Posts.nothing hsame.config ?_ hsaves.outbox_eq hroom
      rw [hfacts]
      refine Store.foldl_save_of_contains fun record hrecord => ?_
      by_contra hlacks
      exact hsome (hnew.2 (List.any_eq_true.2 ⟨record, hrecord, by simpa using hlacks⟩))

theorem Performs.posts {call : Call} (h : Performs name world call next)
    (hready : (world.node name).IsReady) (hnetwork : (world.node name).network? = none)
    (hrelays : (world.node name).config.relayLocalFacts = true)
    (hroom : (world.node name).outbox.length ≤ (world.node name).config.outboxCapacity) :
    Posts (postedBy (world.node name).facts call) (world.node name) (next.node name) := by
  cases h with
  | fact hkeyed hmakes => exact hmakes.posts hkeyed hready hnetwork hrelays hroom
  | watch start query listener =>
    have hspares := spares_watch hnetwork start query listener
    exact Posts.nothing hspares.config hspares.facts (outbox_watch hnetwork start query listener)
      hroom
  | stop id =>
    rw [node_modifyNode]
    exact Posts.nothing rfl rfl rfl hroom

/-- Over a run without a network a node stores what its calls post, and of this keeps the last. -/
theorem Run.posts {calls : List Call} (h : Run name world calls final)
    (hsettled : (world.node name).IsSettled)
    (hrelays : (world.node name).config.relayLocalFacts = true)
    (hroom : (world.node name).outbox.length ≤ (world.node name).config.outboxCapacity) :
    Posts (posted (world.node name).facts calls) (world.node name) (final.node name) := by
  induction h with
  | nil world => exact Posts.nothing rfl rfl rfl hroom
  | @cons world next final call calls hcall _ ih =>
    have hposts := hcall.posts hsettled.isReady hsettled.network? hrelays hroom
    have hrest := ih (hcall.spec hsettled).1 (hposts.config ▸ hrelays) hposts.hasRoom
    rw [hposts.facts] at hrest
    exact hposts.trans hrest

theorem Posts.hasWaiting_iff {records : List Record} {before after : Node}
    (h : Posts records before after) (hempty : before.outbox = []) {fact : Reference} :
    after.HasWaiting fact ↔ ∃ earlier record later, records = earlier ++ record :: later ∧
      record.reference = fact ∧ later.length < before.config.outboxCapacity := by
  rw [HasWaiting, h.outbox, hempty, List.nil_append]
  constructor
  · rintro ⟨record, hrecord, hfact⟩
    obtain ⟨earlier, later, hrecords, hlater⟩ := mem_rtake_iff.1 hrecord
    exact ⟨earlier, record, later, hrecords, hfact, hlater⟩
  · rintro ⟨earlier, record, later, hrecords, hfact, hlater⟩
    exact ⟨record, mem_rtake_iff.2 ⟨earlier, later, hrecords, hlater⟩, hfact⟩

/-- Where no fact was posted twice there are as many facts as postings. -/
theorem Posts.length_eq {records : List Record} {before after : Node}
    (h : Posts records before after) (hempty : before.facts = {}) (hsound : after.facts.IsSound)
    (hnodup : (records.map Record.reference).Nodup) :
    after.facts.records.length = records.length := by
  have hsame : (after.facts.records.map Record.reference).Perm
      (records.map Record.reference) := by
    refine (List.perm_ext_iff_of_nodup hsound.nodup hnodup).2 fun fact => ?_
    have hstored : after.facts.contains fact = true ↔
        ∃ record ∈ records, record.reference = fact := by
      rw [h.facts, hempty, Store.contains_saveAll_empty_iff]
    rw [List.mem_map, List.mem_map, ← Store.contains_iff, hstored]
  simpa using hsame.length_eq

/-- At a new node without a network those facts wait that were posted among the last, as many as
there is room for. Of facts that are not posted twice all wait while there are no more than that. -/
theorem hasWaiting_iff_of_run {config : Config}
    (hnode : Node.ofConfig? config = some (world.node name))
    (hrelays : config.relayLocalFacts = true) {calls : List Call}
    (hrun : Run name world calls final) :
    (∀ fact, (final.node name).facts.contains fact = true ↔
        ∃ record ∈ posted {} calls, record.reference = fact) ∧
      (∀ fact, (final.node name).HasWaiting fact ↔
        ∃ earlier record later, posted {} calls = earlier ++ record :: later ∧
          record.reference = fact ∧ later.length < config.outboxCapacity) ∧
      (((posted {} calls).map Record.reference).Nodup →
        (final.node name).facts.records.length ≤ config.outboxCapacity →
        ∀ fact, (final.node name).facts.contains fact = true →
          (final.node name).HasWaiting fact) := by
  have hsettled := isSettled_of_ofConfig? hnode
  have heq := eq_of_ofConfig? hnode
  have hposts := hrun.posts hsettled (by rw [heq]; exact hrelays) (by simp [heq])
  have hfresh : (world.node name).facts = {} := by rw [heq]; rfl
  have hroom : (world.node name).config.outboxCapacity = config.outboxCapacity := by rw [heq]
  have hstored : ∀ fact, (final.node name).facts.contains fact = true ↔
      ∃ record ∈ posted {} calls, record.reference = fact := by
    intro fact
    rw [hposts.facts, hfresh, Store.contains_saveAll_empty_iff]
  rw [hfresh] at hposts
  refine ⟨hstored, fun fact => hroom ▸ hposts.hasWaiting_iff (by rw [heq]), ?_⟩
  intro hnodup hlength fact hfact
  rw [hposts.length_eq hfresh (hrun.isSettled hsettled).sound hnodup] at hlength
  obtain ⟨record, hrecord, hreference⟩ := (hstored fact).1 hfact
  refine ⟨record, ?_, hreference⟩
  rw [hposts.outbox, hroom, heq, List.nil_append, rtake_of_length_le hlength]
  exact hrecord

namespace Errands

def chores : Record :=
  ⟨"List", "f49cba9082b442992c87f2e9594f72c9fa9ad50c5acc740d379ec0f92e150ded",
    [("name", .string "Chores")], []⟩

def choresDocument : Json :=
  .object [("name", .string "Chores"), ("type", .string "List")]

theorem dehydrate_chores :
    Document.dehydrateFact [] choresDocument = .ok ([chores], chores.reference) := by
  decide +kernel

def roomy : Config := { outboxCapacity := 3 }

def roomForThree : World := World.setNode "a" { config := roomy } {}

theorem run_facts (documents : List Json) (hkeyed : ∀ document ∈ documents,
    document.isKeyed = true) (world : World) :
    Run "a" world (documents.map .fact)
      (documents.foldl (fun world document => (world.fact "a" document).1) world) := by
  induction documents generalizing world with
  | nil => exact Run.nil world
  | cons document rest ih =>
    rw [List.forall_mem_cons] at hkeyed
    exact Run.cons (Performs.fact hkeyed.1 (makes_fact "a" document world)) (ih hkeyed.2 _)

theorem ofConfig?_roomForThree : Node.ofConfig? roomy = some (roomForThree.node "a") := rfl

theorem posts_roomForThree {calls : List Call} {final : World}
    (hrun : Run "a" roomForThree calls final) :
    Posts (posted {} calls) (roomForThree.node "a") (final.node "a") :=
  hrun.posts (isSettled_of_ofConfig? ofConfig?_roomForThree) rfl (by decide)

def twoDocuments : List Json := [choresDocument, taskDocument]

def afterTwo : World :=
  twoDocuments.foldl (fun world document => (world.fact "a" document).1) roomForThree

theorem run_afterTwo : Run "a" roomForThree (twoDocuments.map .fact) afterTwo :=
  run_facts twoDocuments (by decide) roomForThree

theorem posted_twoDocuments : posted {} (twoDocuments.map .fact) = [chores, list, task] := by
  have hchores : ([chores].any fun record =>
      !Store.contains {} record.reference) = true := by decide
  have htask : ([list, task].any fun record =>
      !(Store.save {} chores).contains record.reference) = true := by decide
  simp only [twoDocuments, List.map_cons, List.map_nil, posted, postedBy, dehydrate_chores,
    dehydrate_task, hchores, htask, if_true, List.foldl_cons, List.foldl_nil, List.append_nil,
    List.cons_append, List.nil_append]

/-- Three facts that are posted once each all wait where there is room for three. -/
theorem three_wait :
    Run "a" roomForThree (twoDocuments.map .fact) afterTwo ∧
      (afterTwo.node "a").facts.records.length = 3 ∧
      (afterTwo.node "a").HasWaiting chores.reference ∧
      (afterTwo.node "a").HasWaiting list.reference ∧
      (afterTwo.node "a").HasWaiting task.reference := by
  obtain ⟨hstored, -, hall⟩ := hasWaiting_iff_of_run ofConfig?_roomForThree rfl run_afterTwo
  rw [posted_twoDocuments] at hstored hall
  have hlength : (afterTwo.node "a").facts.records.length = 3 := by
    rw [(posts_roomForThree run_afterTwo).facts, posted_twoDocuments]
    decide
  have hwait := hall (by decide) (Nat.le_of_eq hlength)
  exact ⟨run_afterTwo, hlength,
    hwait _ ((hstored _).2 ⟨chores, by decide, rfl⟩),
    hwait _ ((hstored _).2 ⟨list, by decide, rfl⟩),
    hwait _ ((hstored _).2 ⟨task, by decide, rfl⟩)⟩

def threeDocuments : List Json := [choresDocument, listDocument, taskDocument]

def afterThree : World :=
  threeDocuments.foldl (fun world document => (world.fact "a" document).1) roomForThree

theorem run_afterThree : Run "a" roomForThree (threeDocuments.map .fact) afterThree :=
  run_facts threeDocuments (by decide) roomForThree

theorem posted_threeDocuments :
    posted {} (threeDocuments.map .fact) = [chores, list, list, task] := by
  have hchores : ([chores].any fun record =>
      !Store.contains {} record.reference) = true := by decide
  have hlist : ([list].any fun record =>
      !(Store.save {} chores).contains record.reference) = true := by decide
  have htask : ([list, task].any fun record =>
      !((Store.save {} chores).save list).contains record.reference) = true := by decide
  simp only [threeDocuments, List.map_cons, List.map_nil, posted, postedBy, dehydrate_chores,
    dehydrate_list, dehydrate_task, hchores, hlist, htask, if_true, List.foldl_cons,
    List.foldl_nil, List.append_nil, List.cons_append, List.nil_append]

/-- There is room for the three facts that there are, but the list that is posted again with its
task takes the place of a fact that was never sent. -/
theorem chores_dropped :
    Node.ofConfig? roomy = some (roomForThree.node "a") ∧ roomy.relayLocalFacts = true ∧
      Run "a" roomForThree (threeDocuments.map .fact) afterThree ∧
      (afterThree.node "a").facts.records.length = roomy.outboxCapacity ∧
      (afterThree.node "a").facts.contains chores.reference = true ∧
      ¬ (afterThree.node "a").HasWaiting chores.reference := by
  obtain ⟨-, hfacts, houtbox⟩ := posts_roomForThree run_afterThree
  rw [posted_threeDocuments] at hfacts houtbox
  refine ⟨rfl, rfl, run_afterThree, by rw [hfacts]; decide, by rw [hfacts]; decide, ?_⟩
  rw [HasWaiting, Holds, houtbox]
  decide

end Errands

end World

end LiveFacts
