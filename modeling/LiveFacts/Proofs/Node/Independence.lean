import LiveFacts.Proofs.Node.Continuity
import LiveFacts.Proofs.Node.Runs
import LiveFacts.Proofs.Watch.Accounts

/-!
# Nodes with one watch and with many

Of two nodes with the same facts one has many watches, and the other one of them alone. Of the units
that a new fact calls for at the first node, the second runs those about its watch, in the same
order, and their lookups find the same. So both nodes go on to have this watch in common, whatever
the listeners of the other watches do and whichever lookups are made to fail.
-/

namespace LiveFacts

namespace Watch

def numbered (id : Nat) (watch : Watch) : Watch := { watch with id }

variable (id : Nat) (watch : Watch) (change : Change)

@[simp] theorem id_numbered : (watch.numbered id).id = id := rfl

@[simp] theorem query_numbered : (watch.numbered id).query = watch.query := rfl

@[simp] theorem isStopped_numbered : (watch.numbered id).isStopped = watch.isStopped := rfl

theorem tell_numbered (fact : Reference) :
    (watch.numbered id).tell change fact =
      ((watch.tell change fact).1.numbered id, (watch.tell change fact).2) := by
  have hreaction : (watch.numbered id).listener change ((watch.numbered id).count change + 1) =
      watch.listener change (watch.count change + 1) := rfl
  rw [tell_eq _ _ _ hreaction, tell_eq _ _ _ rfl]
  rfl

theorem deliver_numbered (fact : Reference) :
    (watch.numbered id).deliver change fact =
      ((watch.deliver change fact).1.numbered id, (watch.deliver change fact).2) := by
  by_cases hstopped : watch.isStopped = true
  · have hstopped' : (watch.numbered id).isStopped = true := hstopped
    rw [deliver_of_isStopped hstopped ⟨change, fact⟩, deliver_of_isStopped hstopped' ⟨change, fact⟩]
  by_cases halters : Event.Alters ⟨change, fact⟩ watch.results
  · have hactive : watch.isStopped = false := by simpa using hstopped
    have hactive' : (watch.numbered id).isStopped = false := hactive
    have halters' : Event.Alters ⟨change, fact⟩ (watch.numbered id).results := halters
    rw [deliver_of_alters hactive halters, deliver_of_alters hactive' halters']
    exact tell_numbered id { watch with results := Event.alter ⟨change, fact⟩ watch.results } change
      fact
  · have halters' : ¬ Event.Alters ⟨change, fact⟩ (watch.numbered id).results := halters
    rw [deliver_of_not_alters halters, deliver_of_not_alters halters']

theorem deliverAll_numbered (facts : List Reference) :
    (watch.numbered id).deliverAll change facts =
      ((watch.deliverAll change facts).1.numbered id, (watch.deliverAll change facts).2) := by
  induction facts generalizing watch with
  | nil => rfl
  | cons fact rest ih =>
    rw [deliverAll, deliverAll, deliver_numbered]
    cases watch.deliver change fact with
    | mk next failed =>
      cases failed with
      | true => rfl
      | false => exact ih next

end Watch

namespace Node

/-- The second node is set up like the first and has the same facts, but of the watches only the one
with a number, under the number one. Neither has a network. -/
structure Isolates (id : Nat) (full only : Node) : Prop where
  config : only.config = full.config
  faults : only.faults = full.faults
  facts : only.facts = full.facts
  alive : only.alive = full.alive
  network? : full.network? = none
  network?' : only.network? = none
  ids : full.watches.map Watch.id = List.range' 1 full.watches.length
  watches : only.watches = ((full.watch? id).map (Watch.numbered 1)).toList

namespace Isolates

variable {id other : Nat} {full only full' only' : Node}

theorem watch? (h : Isolates id full only) :
    only.watch? 1 = (full.watch? id).map (Watch.numbered 1) := by
  rw [Node.watch?, h.watches]
  cases full.watch? id <;> rfl

/-- What concerns another watch changes nothing that the nodes have in common. -/
theorem of_spares (h : Isolates id full only) (hspares : Spares other full' full)
    (hne : id ≠ other) : Isolates id full' only where
  config := h.config.trans hspares.config.symm
  faults := h.faults.trans hspares.faults.symm
  facts := h.facts.trans hspares.facts.symm
  alive := h.alive.trans hspares.alive.symm
  network? := hspares.network?.trans h.network?
  network?' := h.network?'
  ids := by
    have hlength : full'.watches.length = full.watches.length := by
      simpa using congrArg List.length hspares.ids
    rw [hspares.ids, hlength, h.ids]
  watches := by rw [h.watches, hspares.others id hne]

/-- Either node may change in what the nodes need not have in common. -/
theorem of_sameContent_full (h : Isolates id full only) (hsame : SameContent full' full) :
    Isolates id full' only := by
  have hspares : Spares (id + 1) full' full :=
    ⟨hsame.toSameSetup, hsame.facts, fun _ _ => by rw [Node.watch?, hsame.watches, ← Node.watch?]⟩
  exact h.of_spares hspares (by omega)

theorem of_sameContent_only (h : Isolates id full only) (hsame : SameContent only' only) :
    Isolates id full only' where
  config := hsame.config.trans h.config
  faults := hsame.faults.trans h.faults
  facts := hsame.facts.trans h.facts
  alive := hsame.alive.trans h.alive
  network? := h.network?
  network?' := hsame.network?.trans h.network?'
  ids := h.ids
  watches := hsame.watches.trans h.watches

theorem modifyWatch (h : Isolates id full only) (change : Watch → Watch)
    (hid : ∀ watch, (change watch).id = watch.id)
    (hnumbered : ∀ watch : Watch, change (watch.numbered 1) = (change watch).numbered 1) :
    Isolates id (full.modifyWatch id change) (only.modifyWatch 1 change) where
  config := h.config
  faults := h.faults
  facts := h.facts
  alive := h.alive
  network? := h.network?
  network?' := h.network?'
  ids := by
    rw [(alike_modifyWatch hid full id).ids, h.ids]
    simp [Node.modifyWatch]
  watches := by
    rw [watch?_modifyWatch hid, Node.modifyWatch, h.watches]
    cases hwatch : full.watch? id with
    | none => rfl
    | some watch => simp [id_of_watch? hwatch, hnumbered]

end Isolates

variable (node : Node)

omit node in
theorem SameContent.symm {a b : Node} (h : SameContent a b) : SameContent b a :=
  ⟨⟨h.config.symm, h.faults.symm, h.network?.symm, h.alive.symm, h.ids.symm⟩, h.facts.symm,
    h.watches.symm⟩

theorem sameContent_warn (warning : Warning) : SameContent (node.warn warning) node :=
  ⟨⟨rfl, rfl, rfl, rfl, rfl⟩, rfl, rfl⟩

theorem sameContent_openConnection : SameContent node.openConnection.1 node := by
  rw [openConnection]
  split
  · exact SameContent.refl node
  · exact ⟨⟨rfl, rfl, rfl, rfl, rfl⟩, rfl, rfl⟩

theorem sameContent_closeConnection (connection : Nat) :
    SameContent (node.closeConnection connection) node :=
  ⟨⟨rfl, rfl, rfl, rfl, rfl⟩, rfl, rfl⟩

theorem sameContent_lookup (connection : Nat) (start : Reference) (query : Query) :
    SameContent (node.lookup connection start query).1 node :=
  ⟨⟨rfl, rfl, rfl, rfl, rfl⟩, rfl, rfl⟩

/-- A connection is open when it has been opened. -/
theorem isOpen_openConnection {opened : Node} {connection : Nat}
    (h : node.openConnection = (opened, some connection)) :
    opened.storage.isOpen connection = true := by
  rw [openConnection] at h
  split at h
  · cases h
  · cases h
    simp [Storage.isOpen]

end Node

namespace Work

def watch : Work → Nat
  | check watch _ | deliver watch _ _ => watch

def numbered (id : Nat) : Work → Work
  | check _ inverse => check id inverse
  | deliver _ change query => deliver id change query

def isolate (id : Nat) (work : Work) : Option Work :=
  if work.watch = id then some (work.numbered 1) else none

theorem isolate_of_ne {id : Nat} {work : Work} (h : work.watch ≠ id) : work.isolate id = none :=
  if_neg h

theorem isolate_self {id : Nat} {work : Work} (h : work.watch = id) :
    work.isolate id = some (work.numbered 1) :=
  if_pos h

theorem watch_of_mem_deliveries {id : Nat} {inverse : Inverse} {work : Work}
    (h : work ∈ deliveries id inverse) : work.watch = id := by
  simp only [deliveries, List.mem_append, List.mem_map] at h
  rcases h with ⟨query, -, rfl⟩ | ⟨query, -, rfl⟩ <;> rfl

theorem filterMap_isolate_of_ne {id : Nat} {pool : List Work}
    (h : ∀ work ∈ pool, work.watch ≠ id) : pool.filterMap (isolate id) = [] :=
  List.filterMap_eq_nil_iff.2 fun work hwork => isolate_of_ne (h work hwork)

theorem filterMap_isolate_deliveries (id : Nat) (inverse : Inverse) :
    (deliveries id inverse).filterMap (isolate id) = deliveries 1 inverse := by
  have hdeliver : ∀ change query, isolate id (deliver id change query) = deliver 1 change query :=
    fun _ _ => isolate_self rfl
  simp [deliveries, hdeliver]

end Work

/-- A unit leaves units about the same watch. -/
theorem Round.watch_of_mem_run {round : Round} {node : Node} {work left : Work}
    (h : left ∈ (round.run node work).2) : left.watch = work.watch := by
  cases work with
  | check id inverse =>
    rw [run] at h
    split at h
    · cases h
    · split at h
      · cases h
      · split at h
        · cases h
        · split at h
          · exact Work.watch_of_mem_deliveries h
          · cases h
  | deliver id change query =>
    rw [run] at h
    split at h <;> cases h

/-- A unit concerns the watch that it is about. -/
theorem Round.spares_run (round : Round) (node : Node) (work : Work) :
    Node.Spares work.watch (round.run node work).1 node := by
  cases work with
  | check id inverse =>
    have hlooked := Node.spares_lookup id round.connection round.fact inverse.affected node
    rw [run]
    split
    · exact Node.Spares.refl _ node
    · split
      · exact Node.Spares.refl _ node
      · split
        · next looked _ hlookup =>
          rw [hlookup] at hlooked
          exact (Node.spares_warn id .affectedLookupFailed looked).trans hlooked
        · next looked paths hlookup =>
          rw [hlookup] at hlooked
          split <;> exact hlooked
  | deliver id change query =>
    have hlooked := Node.spares_lookup id round.connection round.fact query node
    rw [run]
    split
    · next looked _ hlookup =>
      rw [hlookup] at hlooked
      exact (Node.spares_warn id .resultLookupFailed looked).trans hlooked
    · next looked paths hlookup =>
      rw [hlookup] at hlooked
      exact (Node.spares_modifyWatch (Node.id_deliverAll change _) looked id).trans hlooked

namespace Node

structure IsolatesIn (id : Nat) (rounds : Round × Round) (full only : Node) : Prop
    extends Isolates id full only where
  fact : rounds.2.fact = rounds.1.fact
  isOpen : full.storage.isOpen rounds.1.connection = true
  isOpen' : only.storage.isOpen rounds.2.connection = true

namespace IsolatesIn

variable {id : Nat} {rounds : Round × Round} {full only : Node}

/-- The nodes go on to be in their rounds while they use the same storages. -/
theorem of_isolates (h : IsolatesIn id rounds full only) {full' only' : Node}
    (hisolates : Isolates id full' only') (hfull : full'.storage = full.storage)
    (honly : only'.storage = only.storage) : IsolatesIn id rounds full' only' :=
  ⟨hisolates, h.fact, by rw [hfull, h.isOpen], by rw [honly, h.isOpen']⟩

theorem warn (h : IsolatesIn id rounds full only) (warning : Warning) :
    IsolatesIn id rounds (full.warn warning) (only.warn warning) :=
  h.of_isolates ((h.of_sameContent_full (full.sameContent_warn warning)).of_sameContent_only
    (only.sameContent_warn warning)) rfl rfl

/-- Lookups of the rounds find the same, and leave the nodes in their rounds. -/
theorem lookup (h : IsolatesIn id rounds full only) (query : Query) :
    ∃ full' only' result,
      full.lookup rounds.1.connection rounds.1.fact query = (full', result) ∧
      only.lookup rounds.2.connection rounds.2.fact query = (only', result) ∧
      IsolatesIn id rounds full' only' := by
  have hfacts : only.storage.facts = full.storage.facts := h.facts
  have hresult : (only.lookup rounds.2.connection rounds.2.fact query).2 =
      (full.lookup rounds.1.connection rounds.1.fact query).2 := by
    simp only [Node.lookup, h.faults, Storage.execute, h.isOpen, h.isOpen', if_true,
      Storage.evaluate, hfacts, h.fact]
  refine ⟨_, _, _, rfl, Prod.ext rfl hresult, h.of_isolates ?_ rfl rfl⟩
  exact (h.of_sameContent_full (full.sameContent_lookup _ _ query)).of_sameContent_only
    (only.sameContent_lookup _ _ query)

/-- A unit about another watch leaves nothing to the second node. -/
theorem run_other (h : IsolatesIn id rounds full only) {work : Work} (hother : work.watch ≠ id) :
    IsolatesIn id rounds (rounds.1.run full work).1 only ∧
      (rounds.1.run full work).2.filterMap (Work.isolate id) = [] := by
  refine ⟨h.of_isolates (h.of_spares (rounds.1.spares_run full work) hother.symm)
    (rounds.1.alike_run full work).storage rfl, Work.filterMap_isolate_of_ne ?_⟩
  intro left hleft
  rwa [Round.watch_of_mem_run hleft]

theorem run_own (h : IsolatesIn id rounds full only) {work : Work} (hown : work.watch = id) :
    IsolatesIn id rounds (rounds.1.run full work).1 (rounds.2.run only (work.numbered 1)).1 ∧
      (rounds.2.run only (work.numbered 1)).2 =
        (rounds.1.run full work).2.filterMap (Work.isolate id) := by
  cases work with
  | check other inverse =>
    obtain rfl : other = id := hown
    obtain ⟨full', only', result, hfull, honly, hlooked⟩ := h.lookup inverse.affected
    have hwatch' := h.watch?
    rw [Work.numbered, Round.run, Round.run]
    cases hwatch : full.watch? other with
    | none =>
      rw [hwatch'.trans (congrArg _ hwatch)]
      exact ⟨h, rfl⟩
    | some watch =>
      rw [hwatch'.trans (congrArg _ hwatch)]
      cases hstopped : watch.isStopped with
      | true =>
        simp only [Option.map_some, Watch.isStopped_numbered, hstopped, if_true]
        exact ⟨h, rfl⟩
      | false =>
        simp only [Option.map_some, Watch.isStopped_numbered, hstopped, Bool.false_eq_true,
          if_false, hfull, honly]
        cases result with
        | error error => exact ⟨hlooked.warn .affectedLookupFailed, rfl⟩
        | ok paths =>
          dsimp only [Watch.numbered]
          by_cases haffected : (terminals paths).contains watch.start = true
          · simp only [haffected, if_true]
            exact ⟨hlooked, (Work.filterMap_isolate_deliveries other inverse).symm⟩
          · simp only [haffected]
            exact ⟨hlooked, rfl⟩
  | deliver other change query =>
    obtain rfl : other = id := hown
    obtain ⟨full', only', result, hfull, honly, hlooked⟩ := h.lookup query
    rw [Work.numbered, Round.run, Round.run, hfull, honly]
    cases result with
    | error error => exact ⟨hlooked.warn .resultLookupFailed, rfl⟩
    | ok paths =>
      have hdelivered := hlooked.modifyWatch _ (id_deliverAll change (terminals paths))
        fun watch => by rw [Watch.deliverAll_numbered]
      exact ⟨hlooked.of_isolates hdelivered rfl rfl, rfl⟩

theorem drain (h : IsolatesIn id rounds full only) (pool : List Work) :
    IsolatesIn id rounds (rounds.1.drain full pool)
      (rounds.2.drain only (pool.filterMap (Work.isolate id))) := by
  induction full, pool using Round.drain.induct rounds.1 generalizing only with
  | case1 full =>
    rw [Round.drain, List.filterMap_nil, Round.drain]
    exact h
  | case2 full work rest _ ih =>
    rw [Round.drain]
    by_cases hown : work.watch = id
    · obtain ⟨hnext, hleft⟩ := h.run_own hown
      have hall := ih hnext
      rw [List.filterMap_append, ← hleft] at hall
      rw [List.filterMap_cons, Work.isolate_self hown, Round.drain]
      exact hall
    · obtain ⟨hnext, hleft⟩ := h.run_other hown
      have hall := ih hnext
      rw [List.filterMap_append, hleft, List.append_nil] at hall
      rwa [List.filterMap_cons, Work.isolate_of_ne hown]

end IsolatesIn

def checks (fact : Reference) (watch : Watch) : List Work :=
  if watch.isStopped then []
  else (watch.inverses.filter (·.appliesTo fact.type)).map (.check watch.id)

theorem triggered_eq (node : Node) (fact : Reference) :
    node.triggered fact = node.watches.flatMap (checks fact) := by
  rw [triggered, activeWatches]
  induction node.watches with
  | nil => rfl
  | cons watch rest ih =>
    cases hstopped : watch.isStopped <;> simp [checks, hstopped, ih]

/-- A round is run if the fact calls for one and a connection can be opened. -/
theorem propagate_eq (node : Node) (fact : Reference) :
    node.propagate fact =
      if node.triggered fact = [] then node
      else
        match node.openConnection with
        | (same, none) => same.warn .noStorageToPropagate
        | (opened, some connection) =>
          (Round.drain ⟨fact, connection⟩ opened (node.triggered fact)).closeConnection
            connection := by
  rw [propagate, startRound]
  by_cases hcalm : node.triggered fact = []
  · rw [if_pos hcalm, if_pos (List.isEmpty_iff.2 hcalm)]
  · rw [if_neg hcalm, if_neg (mt List.isEmpty_iff.1 hcalm)]
    cases node.openConnection with
    | mk opened connection? => cases connection? <;> rfl

theorem watch_of_mem_checks {fact : Reference} {watch : Watch} {work : Work}
    (h : work ∈ checks fact watch) : work.watch = watch.id := by
  rw [checks] at h
  split at h
  · cases h
  · obtain ⟨inverse, -, rfl⟩ := List.mem_map.1 h
    rfl

theorem filterMap_isolate_checks (fact : Reference) (watch : Watch) :
    (checks fact watch).filterMap (Work.isolate watch.id) = checks fact (watch.numbered 1) := by
  have hcheck : ∀ inverse, Work.isolate watch.id (.check watch.id inverse) =
      some (.check 1 inverse) := fun _ => Work.isolate_self rfl
  cases hstopped : watch.isStopped <;> simp [checks, hstopped, hcheck, Watch.inverses]

theorem filterMap_isolate_flatMap_checks {watches : List Watch}
    (hnodup : (watches.map Watch.id).Nodup) (id : Nat) (fact : Reference) :
    (watches.flatMap (checks fact)).filterMap (Work.isolate id) =
      ((watches.find? (·.id = id)).map (Watch.numbered 1)).toList.flatMap (checks fact) := by
  induction watches with
  | nil => rfl
  | cons watch rest ih =>
    obtain ⟨hfresh, hrest⟩ := List.nodup_cons.1 hnodup
    rw [List.flatMap_cons, List.filterMap_append, List.find?_cons]
    by_cases hid : watch.id = id
    · subst hid
      have hothers : ∀ work ∈ rest.flatMap (checks fact), work.watch ≠ watch.id := by
        intro work hwork hsame
        obtain ⟨other, hother, hmem⟩ := List.mem_flatMap.1 hwork
        rw [watch_of_mem_checks hmem] at hsame
        exact hfresh (hsame ▸ List.mem_map_of_mem hother)
      rw [filterMap_isolate_checks, Work.filterMap_isolate_of_ne hothers]
      simp
    · have hother : ∀ work ∈ checks fact watch, work.watch ≠ id := by
        intro work hwork
        rwa [watch_of_mem_checks hwork]
      rw [Work.filterMap_isolate_of_ne hother, ih hrest]
      simp [hid]

namespace Isolates

variable {id : Nat} {full only : Node}

/-- Of the checks that a fact calls for at the first node, those about the watch are called for at
the second. -/
theorem triggered (h : Isolates id full only) (fact : Reference) :
    only.triggered fact = (full.triggered fact).filterMap (Work.isolate id) := by
  have hnodup : (full.watches.map Watch.id).Nodup := h.ids ▸ List.nodup_range'
  rw [triggered_eq, triggered_eq, h.watches, filterMap_isolate_flatMap_checks hnodup, Node.watch?]

/-- Where connections can be opened, the nodes are ready for the rounds of a fact. -/
theorem openConnection (h : Isolates id full only) (hopens : full.faults.opening = false)
    (fact : Reference) :
    ∃ opened opened' connection connection',
      full.openConnection = (opened, some connection) ∧
      only.openConnection = (opened', some connection') ∧
      SameContent opened' only ∧
      IsolatesIn id (⟨fact, connection⟩, ⟨fact, connection'⟩) opened opened' := by
  have hopens' : only.faults.opening = false := by rw [h.faults, hopens]
  have hfull : full.openConnection =
      (full.openConnection.1, some full.storage.connections.length) := by
    simp [Node.openConnection, hopens, Storage.openConnection]
  have honly : only.openConnection =
      (only.openConnection.1, some only.storage.connections.length) := by
    simp [Node.openConnection, hopens', Storage.openConnection]
  have hsame := only.sameContent_openConnection
  exact ⟨_, _, _, _, hfull, honly, hsame,
    ⟨(h.of_sameContent_full full.sameContent_openConnection).of_sameContent_only hsame, rfl,
      full.isOpen_openConnection hfull, only.isOpen_openConnection honly⟩⟩

theorem closeConnection (h : Isolates id full only) (connection connection' : Nat) :
    Isolates id (full.closeConnection connection) (only.closeConnection connection') :=
  (h.of_sameContent_full (full.sameContent_closeConnection connection)).of_sameContent_only
    (only.sameContent_closeConnection connection')

/-- The second node runs its part of the round of a fact, if there is one. -/
theorem propagate (h : Isolates id full only) (fact : Reference) :
    Isolates id (full.propagate fact) (only.propagate fact) := by
  have hpool := h.triggered fact
  rw [propagate_eq, propagate_eq, hpool]
  by_cases hcalm : full.triggered fact = []
  · rw [if_pos hcalm, if_pos (by rw [hcalm]; rfl)]
    exact h
  · rw [if_neg hcalm]
    cases hopens : full.faults.opening with
    | true =>
      have hfull : full.openConnection = (full, none) := by simp [Node.openConnection, hopens]
      have honly : only.openConnection = (only, none) := by
        simp [Node.openConnection, h.faults, hopens]
      rw [hfull, honly]
      dsimp only
      have hwarned := h.of_sameContent_full (full.sameContent_warn .noStorageToPropagate)
      split
      · exact hwarned
      · exact hwarned.of_sameContent_only (only.sameContent_warn .noStorageToPropagate)
    | false =>
      obtain ⟨opened, opened', connection, connection', hfull, honly, hsame, hopened⟩ :=
        h.openConnection hopens fact
      have hdrained := (hopened.drain (full.triggered fact)).toIsolates
      have hclosed := hdrained.closeConnection connection connection'
      rw [hfull, honly]
      dsimp only
      split
      · next hnone =>
        -- The second node has opened no connection, which makes no difference to its content.
        rw [hnone, Round.drain] at hclosed
        have hunused := (opened'.sameContent_closeConnection connection').trans hsame
        exact hclosed.of_sameContent_only hunused.symm
      · exact hclosed

theorem saveRecord (h : Isolates id full only) (record : Record) :
    Isolates id (full.saveRecord record).1 (only.saveRecord record).1 ∧
      (only.saveRecord record).2 = (full.saveRecord record).2 := by
  have hrefuses : only.faults.refusesSave record = full.faults.refusesSave record := by
    rw [h.faults]
  have hcontains : only.facts.contains record.reference = full.facts.contains record.reference := by
    rw [h.facts]
  rw [Node.saveRecord, Node.saveRecord, hrefuses, hcontains]
  split
  · exact ⟨h, rfl⟩
  · split
    · exact ⟨h, rfl⟩
    · have hfacts : only.facts.save record = full.facts.save record := by rw [h.facts]
      exact ⟨⟨h.config, h.faults, hfacts, h.alive, h.network?, h.network?', h.ids, h.watches⟩, rfl⟩

theorem saveAll (h : Isolates id full only) (records : List Record) :
    Isolates id (full.saveAll records).1 (only.saveAll records).1 ∧
      (only.saveAll records).2 = (full.saveAll records).2 := by
  induction records generalizing full only with
  | nil => exact ⟨h, rfl⟩
  | cons record rest ih =>
    obtain ⟨hsaved, hresult⟩ := h.saveRecord record
    have hsame : only.saveRecord record =
        ((only.saveRecord record).1, (full.saveRecord record).2) := by rw [← hresult]
    match hsave : full.saveRecord record with
    | (same, .error error) =>
      rw [Node.saveAll, Node.saveAll, hsame, hsave]
      rw [hsave] at hsaved
      exact ⟨hsaved, rfl⟩
    | (same, .ok false) =>
      rw [Node.saveAll, Node.saveAll, hsame, hsave]
      rw [hsave] at hsaved
      exact ih hsaved
    | (stored, .ok true) =>
      rw [Node.saveAll, Node.saveAll, hsame, hsave]
      rw [hsave] at hsaved
      obtain ⟨hrest, hcount⟩ := ih (hsaved.propagate record.reference)
      exact ⟨hrest, congrArg (Except.map (· + 1)) hcount⟩

theorem takeIn (h : Isolates id full only) (record : Record) (source : Source) :
    Isolates id (full.takeIn record source).1 (only.takeIn record source).1 ∧
      (only.takeIn record source).2 = (full.takeIn record source).2 := by
  obtain ⟨hsaved, hcount⟩ := h.saveAll [record]
  rw [Node.takeIn, Node.takeIn]
  split
  · exact ⟨hsaved, congrArg (Except.map fun count => decide (0 < count)) hcount⟩
  · exact ⟨h, rfl⟩

variable (start : Reference) (query : Query) (listener : Listener)

theorem advance (h : Isolates id full only) (phase : Phase) :
    Isolates id (full.modifyWatch id (·.advance phase)) (only.modifyWatch 1 (·.advance phase)) := by
  refine h.modifyWatch _ (id_advance phase) fun watch => ?_
  rw [Watch.advance, Watch.advance, Watch.isStopped_numbered]
  split <;> rfl

/-- The watch in common is given the results that there are, and its listener fails at both nodes or
at none. -/
theorem seed (h : Isolates id full only) :
    Isolates id (full.seed id start query).1 (only.seed 1 start query).1 ∧
      (only.seed 1 start query).2 = (full.seed id start query).2 := by
  rw [Node.seed, Node.seed]
  cases hopens : full.faults.opening with
  | true =>
    have hfull : full.openConnection = (full, none) := by simp [Node.openConnection, hopens]
    have honly : only.openConnection = (only, none) := by
      simp [Node.openConnection, h.faults, hopens]
    rw [hfull, honly]
    exact ⟨(h.of_sameContent_full (full.sameContent_warn .noStorageToSeed)).of_sameContent_only
      (only.sameContent_warn .noStorageToSeed), rfl⟩
  | false =>
    obtain ⟨opened, opened', connection, connection', hfull, honly, -, hopened⟩ :=
      h.openConnection hopens start
    obtain ⟨looked, looked', result, hlookup, hlookup', hlooked⟩ := hopened.lookup query
    dsimp only at hlookup hlookup'
    rw [hfull, honly]
    dsimp only
    rw [hlookup, hlookup']
    cases result with
    | error error =>
      exact ⟨(hlooked.warn .seedingFailed).closeConnection connection connection', rfl⟩
    | ok paths =>
      have hdelivered := hlooked.modifyWatch _ (id_deliverAll .added (terminals paths))
        fun watch => by rw [Watch.deliverAll_numbered]
      have hpanicked : ((looked'.watch? 1).any fun watch =>
          (watch.deliverAll .added (terminals paths)).2) =
            (looked.watch? id).any fun watch => (watch.deliverAll .added (terminals paths)).2 := by
        rw [hlooked.watch?, Option.any_map]
        simp only [Watch.deliverAll_numbered]
      dsimp only
      rw [hpanicked]
      split
      · exact ⟨hdelivered, rfl⟩
      · exact ⟨hdelivered.closeConnection connection connection', rfl⟩

end Isolates

end Node

end LiveFacts
