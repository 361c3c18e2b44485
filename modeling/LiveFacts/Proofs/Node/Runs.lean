import LiveFacts.Proofs.Node.Seeding

/-!
# Runs of calls at a node

Whoever uses a node makes facts, asks for watches and stops watches. Between the calls of such a
run a node without a network is settled, and each of its watches goes on from what it was.
-/

namespace LiveFacts

namespace Node

structure SameContent (a b : Node) : Prop extends SameSetup a b where
  facts : a.facts = b.facts
  watches : a.watches = b.watches

theorem SameContent.refl (node : Node) : SameContent node node :=
  ⟨SameSetup.refl node, rfl, rfl⟩

theorem SameContent.trans {a b c : Node} (hab : SameContent a b) (hbc : SameContent b c) :
    SameContent a c :=
  ⟨hab.toSameSetup.trans hbc.toSameSetup, hab.facts.trans hbc.facts,
    hab.watches.trans hbc.watches⟩

theorem sameContent_post (records : List Record) (node : Node) :
    SameContent (node.post records) node := by
  induction records generalizing node with
  | nil => exact SameContent.refl node
  | cons record rest ih =>
    have hkept : ∀ outbox warnings, SameContent { node with outbox, warnings } node :=
      fun _ _ => ⟨⟨rfl, rfl, rfl, rfl, rfl⟩, rfl, rfl⟩
    rw [post]
    split
    · exact SameContent.refl node
    · dsimp only
      split
      · exact (ih _).trans (hkept _ _)
      · exact (ih _).trans (hkept _ _)

end Node

namespace World

open Node

variable {name : String} {world next final : World}

/-- Without a network, passing facts on changes neither the storage nor the watches. -/
theorem sameContent_relay (hnetwork : (world.node name).network? = none)
    (records : List Record) :
    SameContent ((world.relay name records).node name) (world.node name) := by
  rw [relay]
  split
  · rw [hnetwork]
    simp only [node_modifyNode]
    exact sameContent_post records (world.node name)
  · exact SameContent.refl _

inductive Makes (name : String) (document : Json) : World → World × Except Error Reference → Prop
  | invalid {world : World} {fault : DocumentFault} :
      Document.dehydrateFact [] document = .error fault →
      Makes name document world (world, .error (.invalidFact (.document fault)))
  | refused {world : World} {changed : Node} {records : List Record} {root : Reference}
      {error : Error} :
      Document.dehydrateFact [] document = .ok (records, root) →
      SavesAll records (world.node name) changed (.error error) →
      Makes name document world (world.setNode name changed, .error error)
  | made {world : World} {changed : Node} {records : List Record} {root : Reference}
      {last : Record} {count : Nat} :
      Document.dehydrateFact [] document = .ok (records, root) → records.getLast? = some last →
      SavesAll records (world.node name) changed (.ok count) →
      Makes name document world
        (if count > 0 then (world.setNode name changed).relay name records
          else world.setNode name changed, .ok last.reference)

section Outcomes

variable {document : Json} {records : List Record} {root : Reference}

theorem fact_of_error {fault : DocumentFault}
    (hfault : Document.dehydrateFact [] document = .error fault) :
    world.fact name document = (world, .error (.invalidFact (.document fault))) := by
  rw [fact, Document.dehydrate_of_error hfault]

theorem fact_of_refused (hrecords : Document.dehydrateFact [] document = .ok (records, root))
    {error : Error} (hsave : ((world.node name).saveAll records).2 = .error error) :
    world.fact name document =
      (world.setNode name ((world.node name).saveAll records).1, .error error) := by
  obtain ⟨last, hlast⟩ := Document.exists_last_of_dehydrateFact hrecords
  simp only [fact, Document.dehydrate_eq_ok.2 ⟨root, hrecords⟩, hlast, hsave]

theorem fact_of_saved (hrecords : Document.dehydrateFact [] document = .ok (records, root))
    {last : Record} (hlast : records.getLast? = some last) {count : Nat}
    (hsave : ((world.node name).saveAll records).2 = .ok count) :
    world.fact name document =
      (if count > 0 then
        (world.setNode name ((world.node name).saveAll records).1).relay name records
      else world.setNode name ((world.node name).saveAll records).1, .ok last.reference) := by
  simp only [fact, Document.dehydrate_eq_ok.2 ⟨root, hrecords⟩, hlast, hsave]

/-- The world that a call for a fact leaves, where some of the records are new. -/
theorem fst_fact_of_new (hrecords : Document.dehydrateFact [] document = .ok (records, root))
    {count : Nat} (hcount : 0 < count)
    (hsave : ((world.node name).saveAll records).2 = .ok count) :
    (world.fact name document).1 =
      (world.setNode name ((world.node name).saveAll records).1).relay name records := by
  obtain ⟨last, hlast⟩ := Document.exists_last_of_dehydrateFact hrecords
  rw [fact_of_saved hrecords hlast hsave, if_pos hcount]

end Outcomes

theorem makes_fact (name : String) (document : Json) (world : World) :
    Makes name document world (world.fact name document) := by
  cases hresult : Document.dehydrateFact [] document with
  | error fault =>
    rw [fact_of_error hresult]
    exact Makes.invalid hresult
  | ok result =>
    obtain ⟨records, root⟩ := result
    obtain ⟨last, hlast⟩ := Document.exists_last_of_dehydrateFact hresult
    have hsaves := savesAll_saveAll records (world.node name)
    cases hsave : ((world.node name).saveAll records).2 with
    | error error =>
      rw [hsave] at hsaves
      rw [fact_of_refused hresult hsave]
      exact Makes.refused hresult hsaves
    | ok count =>
      rw [hsave] at hsaves
      rw [fact_of_saved hresult hlast hsave]
      exact Makes.made hresult hlast hsaves

inductive Call where
  | fact (document : Json)
  | watch (start : Reference) (query : Query) (listener : Listener)
  | stop (id : Nat)

inductive Performs (name : String) : World → Call → World → Prop
  | fact {world : World} {document : Json} {made : World × Except Error Reference} :
      document.isKeyed = true → Makes name document world made →
      Performs name world (.fact document) made.1
  | watch (world : World) (start : Reference) (query : Query) (listener : Listener) :
      Performs name world (.watch start query listener)
        (world.watch name start query listener).1
  | stop (world : World) (id : Nat) :
      Performs name world (.stop id) (world.modifyNode name (·.stopWatch id))

inductive Run (name : String) : World → List Call → World → Prop
  | nil (world : World) : Run name world [] world
  | cons {world next final : World} {call : Call} {calls : List Call} :
      Performs name world call next → Run name next calls final →
      Run name world (call :: calls) final

/-- Making a fact stores records that are grounded, and what else it does leaves the storage and the
watches alone. -/
theorem Makes.exists_savesAll {document : Json} {made : World × Except Error Reference}
    (h : Makes name document world made) (hkeyed : document.isKeyed = true)
    (hsettled : (world.node name).IsSettled) :
    ∃ records changed count, SavesAll records (world.node name) changed count ∧
      Record.AreGrounded (fun fact => (world.node name).facts.contains fact = true) records ∧
      changed.IsSettled ∧ (made.1.node name).IsSettled ∧
      (made.1.node name).facts = changed.facts ∧ (made.1.node name).watches = changed.watches ∧
      ∀ more root, Document.dehydrateFact [] document = .ok (more, root) → more = records := by
  have grounded : ∀ {records : List Record} {root : Reference},
      Document.dehydrateFact [] document = .ok (records, root) →
      Record.AreGrounded (fun fact => (world.node name).facts.contains fact = true) records :=
    fun hrecords => Record.areGrounded_mono
      (Document.areGrounded_dehydrateFact hkeyed hrecords) fun _ => False.elim
  have same : ∀ {records : List Record} {root : Reference},
      Document.dehydrateFact [] document = .ok (records, root) →
      ∀ more other, Document.dehydrateFact [] document = .ok (more, other) → more = records := by
    intro records root hrecords more other hmore
    rw [hrecords, Except.ok.injEq, Prod.mk.injEq] at hmore
    exact hmore.1.symm
  cases h with
  | invalid hfault =>
    refine ⟨[], world.node name, .ok 0, SavesAll.nil _, trivial, hsettled, hsettled, rfl, rfl, ?_⟩
    intro more other hmore
    rw [hfault] at hmore
    cases hmore
  | @refused changed records root error hrecords hsaves =>
    obtain ⟨hchanged, -⟩ := hsaves.spec hsettled (grounded hrecords)
    exact ⟨records, changed, .error error, hsaves, grounded hrecords, hchanged,
      by rwa [node_setNode], by rw [node_setNode], by rw [node_setNode], same hrecords⟩
  | @made changed records root last count hrecords hlast hsaves =>
    obtain ⟨hchanged, -⟩ := hsaves.spec hsettled (grounded hrecords)
    refine ⟨records, changed, .ok count, hsaves, grounded hrecords, hchanged, ?_⟩
    split
    · have hnone : ((world.setNode name changed).node name).network? = none := by
        rw [node_setNode]
        exact hchanged.network?
      have hsame := sameContent_relay hnone records
      rw [node_setNode] at hsame
      exact ⟨hchanged.of_sameSetup hsame.toSameSetup hsame.facts, hsame.facts, hsame.watches,
        same hrecords⟩
    · rw [node_setNode]
      exact ⟨hchanged, rfl, rfl, same hrecords⟩

theorem Makes.facts_eq {document : Json} {made : World × Except Error Reference}
    (h : Makes name document world made) (hkeyed : document.isKeyed = true)
    (hsettled : (world.node name).IsSettled) {records : List Record} {root : Reference}
    (hrecords : Document.dehydrateFact [] document = .ok (records, root)) :
    (made.1.node name).facts = records.foldl Store.save (world.node name).facts := by
  obtain ⟨all, changed, count, hsaves, hgrounded, -, -, hfacts, -, hsame⟩ :=
    h.exists_savesAll hkeyed hsettled
  rw [hfacts, (hsaves.spec hsettled hgrounded).2.1, hsame records root hrecords]

/-- A call for a watch adds one, and leaves the rest as it was. -/
theorem spares_watch (hnetwork : (world.node name).network? = none) (start : Reference)
    (query : Query) (listener : Listener) :
    Spares ((world.node name).watches.length + 1)
      ((world.watch name start query listener).1.node name)
      ((world.node name).register start query listener).1 := by
  have hseeded := (spares_seed ((world.node name).begun start query listener)
    ((world.node name).watches.length + 1) start query).trans spares_begun
  rw [(watch_eq hnetwork start query listener).1]
  split
  · exact hseeded
  · have hlive := (spares_modifyWatch (id_advance .live) _ _).trans hseeded
    have hid : ∀ watch : Watch, { watch with held := true }.id = watch.id := fun _ => rfl
    exact (spares_modifyWatch hid _ _).trans hlive

theorem watch_frame (hsettled : (world.node name).IsSettled) (start : Reference) (query : Query)
    (listener : Listener) :
    ((world.watch name start query listener).1.node name).IsSettled ∧
      ((world.watch name start query listener).1.node name).facts = (world.node name).facts ∧
      ∀ {id : Nat} {watch : Watch}, (world.node name).watch? id = some watch →
        ((world.watch name start query listener).1.node name).watch? id = some watch := by
  have hspares := spares_watch hsettled.network? start query listener
  have hready := hspares.isReady hsettled.isReady.register
  refine ⟨hready.isSettled (hspares.network?.trans hsettled.network?)
    (hspares.facts ▸ hsettled.closed), hspares.facts, ?_⟩
  intro id watch hwatch
  have hid : id ≠ (world.node name).watches.length + 1 := by
    have hle := hsettled.isReady.id_le hwatch
    omega
  rw [hspares.others id hid]
  exact watch?_register hwatch

def beginning (world : World) (name : String) (start : Reference) (query : Query)
    (listener : Listener) : Watch :=
  { id := (world.node name).watches.length + 1, start, query, listener, phase := .seeding }

/-- A call for a watch adds one under the next number, which has taken up some changes. Whoever
asked for it has it in hand unless its listener failed; if it does not, the watch has taken up what
the query finds. -/
structure Adds (world : World) (name : String) (start : Reference) (query : Query)
    (listener : Listener) (watch : Watch) (taken : List Event) : Prop where
  watch?_eq : ((world.watch name start query listener).1.node name).watch?
    ((world.node name).watches.length + 1) = some watch
  start_eq : watch.start = start
  query_eq : watch.query = query
  listener_eq : watch.listener = listener
  isStopped_eq :
    watch.isStopped = ((beginning world name start query listener).takeAll taken).isStopped
  results_eq :
    watch.results = ((beginning world name start query listener).takeAll taken).results
  events_eq : watch.events = ((beginning world name start query listener).takeAll taken).events
  seeded : listener.NeverPanics →
    (world.watch name start query listener).2 =
      .handle ((world.node name).watches.length + 1) ∧
    taken = ((world.node name).facts.found query start).map (Event.mk .added)

theorem exists_adds (hready : (world.node name).IsReady)
    (hnetwork : (world.node name).network? = none) (start : Reference) (query : Query)
    (listener : Listener) :
    ∃ watch taken, Adds world name start query listener watch taken := by
  have hbegun : ((world.node name).begun start query listener).watch?
      ((world.node name).watches.length + 1) = some (beginning world name start query listener) :=
    hready.watch?_begun
  have hfaults : ((world.node name).begun start query listener).faults = {} := hready.faults
  obtain ⟨taken, htaken, hall⟩ := exists_taken_of_seed hfaults hbegun start query
  obtain ⟨hnode, houtcome⟩ := watch_eq hnetwork start query listener
  have htask : Watch.SameTask ((beginning world name start query listener).takeAll taken)
      (beginning world name start query listener) := Watch.sameTask_takeAll taken
  have hid : ((beginning world name start query listener).takeAll taken).id =
      (world.node name).watches.length + 1 := htask.id
  cases hseed : (((world.node name).begun start query listener).seed
      ((world.node name).watches.length + 1) start query).2 with
  | true =>
    simp only [hseed, if_true] at hnode houtcome
    rw [← hnode] at htaken
    refine ⟨_, taken, htaken, htask.start, htask.query, htask.listener, rfl, rfl, rfl, ?_⟩
    intro hlistener
    rw [(hall hlistener).1] at hseed
    cases hseed
  | false =>
    simp only [hseed, Bool.false_eq_true, if_false] at hnode houtcome
    obtain ⟨hlive, hresults, hevents⟩ :=
      advance_frame .live ((beginning world name start query listener).takeAll taken)
    have htask' := hlive.trans htask
    have hid' := hlive.id.trans hid
    have hhold : ∀ watch : Watch, { watch with held := true }.id = watch.id := fun _ => rfl
    have hwatch : ((world.watch name start query listener).1.node name).watch?
        ((world.node name).watches.length + 1) = some
          { ((beginning world name start query listener).takeAll taken).advance .live with
            held := true } := by
      rw [hnode, watch?_modifyWatch hhold, watch?_modifyWatch (id_advance .live), htaken,
        Option.map_some, Option.map_some, if_pos hid, if_pos hid']
    refine ⟨_, taken, hwatch, htask'.start, htask'.query, htask'.listener,
      isStopped_advance_live _, hresults, hevents, ?_⟩
    intro hlistener
    exact ⟨houtcome, (hall hlistener).2⟩

theorem exists_watch_of_watch (hsettled : (world.node name).IsSettled) (start : Reference)
    (query : Query) (listener : Listener) :
    ∃ watch taken, Adds world name start query listener watch taken :=
  exists_adds hsettled.isReady hsettled.network? start query listener

/-- How a call leaves a settled node: settled, with no fact lost, and with every watch that there
was as it was, or stopped by the call, or further by what was reported about new facts. -/
theorem Performs.spec {call : Call} (h : Performs name world call next)
    (hsettled : (world.node name).IsSettled) :
    (next.node name).IsSettled ∧
      (world.node name).facts.records <+: (next.node name).facts.records ∧
      ∀ {motive : Store → Watch → Prop} {id : Nat} {watch : Watch}, KeptBySaves motive →
        (call = .stop id → ∀ store watch, motive store watch → motive store watch.stop) →
        (world.node name).watch? id = some watch → motive (world.node name).facts watch →
        ∃ watch', (next.node name).watch? id = some watch' ∧
          motive (next.node name).facts watch' := by
  cases h with
  | fact hkeyed hmakes =>
    obtain ⟨records, changed, count, hsaves, hgrounded, hchanged, hnext, hfacts, hwatches, -⟩ :=
      hmakes.exists_savesAll hkeyed hsettled
    refine ⟨hnext, ?_, ?_⟩
    · rw [hfacts, (hsaves.spec hsettled hgrounded).2.1]
      exact Store.records_grow_saveAll _ records
    · intro motive id watch hmotive _ hwatch hholds
      rw [Node.watch?, hwatches, hfacts]
      exact hsaves.preserves hsettled hgrounded hmotive hwatch hholds
  | watch start query listener =>
    obtain ⟨hnext, hfacts, hkept⟩ := watch_frame hsettled start query listener
    refine ⟨hnext, hfacts ▸ List.prefix_refl _, ?_⟩
    intro motive id watch _ _ hwatch hholds
    exact ⟨watch, hkept hwatch, by rwa [hfacts]⟩
  | stop id =>
    have hid : ∀ watch, (Watch.stop watch).id = watch.id := fun _ => rfl
    have hspares := spares_modifyWatch hid (world.node name) id
    rw [node_modifyNode]
    refine ⟨hspares.isSettled hsettled, List.prefix_refl _, ?_⟩
    intro motive other watch _ hstop hwatch hholds
    by_cases hother : other = id
    · subst hother
      refine ⟨watch.stop, ?_, hstop rfl _ _ hholds⟩
      rw [stopWatch, watch?_modifyWatch hid, hwatch, Option.map_some,
        if_pos (id_of_watch? hwatch)]
    · refine ⟨watch, ?_, hholds⟩
      rw [stopWatch, hspares.others other hother, hwatch]

theorem Run.isSettled {calls : List Call} (h : Run name world calls final)
    (hsettled : (world.node name).IsSettled) : (final.node name).IsSettled := by
  induction h with
  | nil world => exact hsettled
  | cons hcall _ ih => exact ih (hcall.spec hsettled).1

/-- What holds of a watch when a run begins, and is kept by saves and by stops of the watch that
occur in the run, holds when the run ends. -/
theorem Run.preserves {calls : List Call} (h : Run name world calls final)
    (hsettled : (world.node name).IsSettled) {motive : Store → Watch → Prop} {id : Nat}
    {watch : Watch} (hmotive : KeptBySaves motive)
    (hstop : Call.stop id ∈ calls → ∀ store watch, motive store watch → motive store watch.stop)
    (hwatch : (world.node name).watch? id = some watch)
    (hholds : motive (world.node name).facts watch) :
    ∃ watch', (final.node name).watch? id = some watch' ∧
      motive (final.node name).facts watch' := by
  induction h generalizing watch with
  | nil world => exact ⟨watch, hwatch, hholds⟩
  | @cons world next final call calls hcall _ ih =>
    obtain ⟨hnext, -, hkept⟩ := hcall.spec hsettled
    obtain ⟨watch', hwatch', hholds'⟩ :=
      hkept hmotive (fun heq => hstop (heq ▸ List.mem_cons_self)) hwatch hholds
    exact ih hnext (fun hmem => hstop (List.mem_cons_of_mem _ hmem)) hwatch' hholds'

/-- A call for a fact comes to the record of one of its facts: those that come before it in the
document have been saved. -/
def ComesTo (name : String) (world : World) (record : Record) (before : Node) : Prop :=
  ∃ (document : Json) (root : Reference) (saved rest : List Record) (count : Except Error Nat),
    document.isKeyed = true ∧
    Document.dehydrateFact [] document = .ok (saved ++ record :: rest, root) ∧
    SavesAll saved (world.node name) before count

/-- When a call comes to a record, the node is settled and holds what the record names, and what
saves keep holds. -/
theorem ComesTo.spec {record : Record} {before : Node} (h : ComesTo name world record before)
    (hsettled : (world.node name).IsSettled) :
    before.IsSettled ∧ record.IsKeyed ∧
      (∀ fact ∈ record.named, before.facts.contains fact = true) ∧
      ∀ {motive : Store → Watch → Prop} {id : Nat} {watch : Watch}, KeptBySaves motive →
        (world.node name).watch? id = some watch → motive (world.node name).facts watch →
        ∃ watch', before.watch? id = some watch' ∧ motive before.facts watch' := by
  obtain ⟨document, root, saved, rest, count, hkeyed, hrecords, hsaves⟩ := h
  have hall := Document.areGrounded_dehydrateFact hkeyed hrecords
  obtain ⟨hsaved, hrecord, hnamed, -⟩ := Record.areGrounded_append.1 hall
  have hgrounded :
      Record.AreGrounded (fun fact => (world.node name).facts.contains fact = true) saved :=
    Record.areGrounded_mono hsaved fun _ => False.elim
  obtain ⟨hbefore, hfacts, -⟩ := hsaves.spec hsettled hgrounded
  refine ⟨hbefore, hrecord, ?_, ?_⟩
  · intro fact hfact
    obtain ⟨other, hother, rfl⟩ := (hnamed fact hfact).resolve_left False.elim
    rw [hfacts]
    exact Store.contains_saveAll hother
  · intro motive id watch hmotive hwatch hholds
    exact hsaves.preserves hsettled hgrounded hmotive hwatch hholds

/-- A call for a fact comes to each record of its document. -/
theorem exists_comesTo (hsettled : (world.node name).IsSettled) {document : Json}
    (hkeyed : document.isKeyed = true) {saved rest : List Record} {record : Record}
    {root : Reference}
    (hrecords : Document.dehydrateFact [] document = .ok (saved ++ record :: rest, root)) :
    ∃ before, ComesTo name world record before ∧
      before.facts = saved.foldl Store.save (world.node name).facts := by
  have hall := Document.areGrounded_dehydrateFact hkeyed hrecords
  have hgrounded :
      Record.AreGrounded (fun fact => (world.node name).facts.contains fact = true) saved :=
    Record.areGrounded_mono (Record.areGrounded_append.1 hall).1 fun _ => False.elim
  have hsaves := savesAll_saveAll saved (world.node name)
  exact ⟨_, ⟨document, root, saved, rest, _, hkeyed, hrecords, hsaves⟩,
    (hsaves.spec hsettled hgrounded).2.1⟩

end World

end LiveFacts
