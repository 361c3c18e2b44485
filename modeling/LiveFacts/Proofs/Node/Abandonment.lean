import Mathlib.Data.Nat.Find
import LiveFacts.Proofs.Node.Independence
import LiveFacts.Proofs.Node.Watches

/-!
# Watches that are abandoned

A listener may fail when it is told of the first results of its watch. Seeding ends there and then:
the watch stays registered with what it has taken up, its connection stays open, and whoever asked
for the watch never has it in hand. What a round does with a watch depends on whether it is stopped,
and not on how far it has come otherwise; so from then on saves treat the watch as they would treat
a live one.
-/

namespace LiveFacts

/-- Where a property holds of some place in a list, it does so for a first time. -/
theorem exists_first_of_exists {α : Type} {list : List α} {p : Nat → Prop} [DecidablePred p]
    (h : ∃ number < list.length, p number) :
    ∃ earlier member later, list = earlier ++ member :: later ∧
      (∀ number < earlier.length, ¬ p number) ∧ p earlier.length := by
  have hfirst := Nat.find_spec h
  have hlength : (list.take (Nat.find h)).length = Nat.find h :=
    List.length_take_of_le (Nat.le_of_lt hfirst.1)
  refine ⟨list.take (Nat.find h), list.get ⟨Nat.find h, hfirst.1⟩, list.drop (Nat.find h + 1),
    ?_, ?_, ?_⟩
  · rw [List.get_eq_getElem, List.getElem_cons_drop, List.take_append_drop]
  · intro number hnumber hholds
    rw [hlength] at hnumber
    exact Nat.find_min h hnumber ⟨hnumber.trans hfirst.1, hholds⟩
  · rw [hlength]
    exact hfirst.2

theorem Store.nodup_found (store : Store) (query : Query) (start : Reference) :
    (store.found query start).Nodup := by
  rw [found]
  split
  · exact nodup_terminals _
  · exact List.nodup_nil

namespace Watch

variable {watch : Watch} {fact : Reference} {facts : List Reference}

def afterAdding (facts : List Reference) (watch : Watch) : Watch :=
  { watch with
    results := watch.results ++ facts
    events := watch.events ++ facts.map (Event.mk .added)
    addedCount := watch.addedCount + facts.length }

def afterFailing (fact : Reference) (watch : Watch) : Watch :=
  { watch with
    results := watch.results ++ [fact]
    events := watch.events ++ [⟨.added, fact⟩] }

def unseeded (id : Nat) (start : Reference) (query : Query) (listener : Listener) : Watch :=
  { id, start, query, listener, phase := .seeding }

/-- Nobody has the watch in hand, and it is not stopped. -/
structure IsLoose (watch : Watch) : Prop where
  held : watch.held = false
  active : watch.isStopped = false

theorem IsLoose.afterAdding (h : watch.IsLoose) (facts : List Reference) :
    (watch.afterAdding facts).IsLoose :=
  ⟨h.held, h.active⟩

theorem IsLoose.afterFailing (h : watch.IsLoose) (fact : Reference) :
    (watch.afterFailing fact).IsLoose :=
  ⟨h.held, h.active⟩

theorem count_afterAdding (facts : List Reference) (watch : Watch) :
    (watch.afterAdding facts).count .added = watch.count .added + facts.length := by
  have hall : (facts.map (Event.mk .added)).countP (·.change = .added) = facts.length := by
    rw [List.countP_map, ← List.countP_true]
    rfl
  rw [count, afterAdding, List.countP_append, hall, count]

theorem afterAdding_cons (fact : Reference) (rest : List Reference) (watch : Watch) :
    (watch.afterAdding [fact]).afterAdding rest = watch.afterAdding (fact :: rest) := by
  simp [afterAdding, Nat.add_assoc, Nat.add_comm 1]

theorem IsLoose.deliver_added (h : watch.IsLoose) (hnew : fact ∉ watch.results) :
    watch.deliver .added fact =
      if (watch.listener .added (watch.count .added + 1)).panics then
        (watch.afterFailing fact, true)
      else (watch.afterAdding [fact], false) := by
  have halters : Event.Alters ⟨.added, fact⟩ watch.results := hnew
  have hcall : ({ watch with results := watch.results ++ [fact] } : Watch).listener .added
      (watch.count .added + 1) = watch.listener .added (watch.count .added + 1) := rfl
  apply (deliver_of_alters h.active halters).trans
  change ({ watch with results := watch.results ++ [fact] } : Watch).tell .added fact = _
  rw [tell_eq _ _ _ hcall]
  cases hfails : (watch.listener .added (watch.count .added + 1)).panics with
  | false => simp [Watch.afterAdding, h.held]
  | true => simp [Watch.afterFailing, h.held]

theorem IsLoose.deliver_calm (h : watch.IsLoose) (hnew : fact ∉ watch.results)
    (hcalm : (watch.listener .added (watch.count .added + 1)).panics = false) :
    watch.deliver .added fact = (watch.afterAdding [fact], false) := by
  rw [h.deliver_added hnew, hcalm, if_neg Bool.false_ne_true]

theorem IsLoose.deliver_failing (h : watch.IsLoose) (hnew : fact ∉ watch.results)
    (hfails : (watch.listener .added (watch.count .added + 1)).panics = true) :
    watch.deliver .added fact = (watch.afterFailing fact, true) := by
  rw [h.deliver_added hnew, if_pos hfails]

/-- A listener that takes the additions of facts is told of them all. -/
theorem IsLoose.deliverAll_added (h : watch.IsLoose) (hnodup : facts.Nodup)
    (hnew : ∀ fact ∈ facts, fact ∉ watch.results)
    (hcalm : ∀ number < facts.length,
      (watch.listener .added (watch.count .added + (number + 1))).panics = false) :
    watch.deliverAll .added facts = (watch.afterAdding facts, false) := by
  induction facts generalizing watch with
  | nil => simp [deliverAll, Watch.afterAdding]
  | cons fact rest ih =>
    rw [List.nodup_cons] at hnodup
    rw [List.forall_mem_cons] at hnew
    rw [deliverAll, h.deliver_calm hnew.1 (hcalm 0 (Nat.zero_lt_succ _)),
      ← afterAdding_cons fact rest watch]
    apply ih (h.afterAdding [fact]) hnodup.2
    · intro other hother hmem
      rcases List.mem_append.1 hmem with hold | hlast
      · exact hnew.2 other hother hold
      · exact hnodup.1 (List.mem_singleton.1 hlast ▸ hother)
    · intro number hnumber
      have hnext := hcalm (number + 1) (Nat.succ_lt_succ hnumber)
      rwa [count_afterAdding, List.length_singleton, Nat.add_assoc, Nat.add_comm 1]

/-- A listener that fails is told of no more additions. -/
theorem IsLoose.deliverAll_failing (h : watch.IsLoose) {earlier later : List Reference}
    (hnodup : (earlier ++ fact :: later).Nodup)
    (hnew : ∀ other ∈ earlier ++ fact :: later, other ∉ watch.results)
    (hcalm : ∀ number < earlier.length,
      (watch.listener .added (watch.count .added + (number + 1))).panics = false)
    (hfails : (watch.listener .added (watch.count .added + (earlier.length + 1))).panics = true) :
    watch.deliverAll .added (earlier ++ fact :: later) =
      ((watch.afterAdding earlier).afterFailing fact, true) := by
  rw [List.nodup_append] at hnodup
  rw [List.forall_mem_append, List.forall_mem_cons] at hnew
  have hfact : fact ∉ (watch.afterAdding earlier).results := by
    intro hmem
    rcases List.mem_append.1 hmem with hold | hearlier
    · exact hnew.2.1 hold
    · exact hnodup.2.2 fact hearlier fact List.mem_cons_self rfl
  have hcall : ((watch.afterAdding earlier).listener .added
      ((watch.afterAdding earlier).count .added + 1)).panics = true := by
    rw [count_afterAdding, Nat.add_assoc]
    exact hfails
  rw [deliverAll_append, h.deliverAll_added hnodup.1 hnew.1 hcalm, if_neg Bool.false_ne_true,
    deliverAll, (h.afterAdding earlier).deliver_failing hfact hcall]

section Unseeded

variable {id : Nat} {start : Reference} {query : Query} {listener : Listener}

theorem isLoose_unseeded : (unseeded id start query listener).IsLoose := ⟨rfl, rfl⟩

theorem deliverAll_unseeded (hnodup : facts.Nodup)
    (hcalm : ∀ number < facts.length, (listener .added (number + 1)).panics = false) :
    (unseeded id start query listener).deliverAll .added facts =
      ((unseeded id start query listener).afterAdding facts, false) := by
  apply isLoose_unseeded.deliverAll_added hnodup (fun _ _ => List.not_mem_nil)
  intro number hnumber
  have hcount : (unseeded id start query listener).count .added = 0 := rfl
  rw [hcount, Nat.zero_add]
  exact hcalm number hnumber

theorem deliverAll_unseeded_of_failing {earlier later : List Reference}
    (hnodup : (earlier ++ fact :: later).Nodup)
    (hcalm : ∀ number < earlier.length, (listener .added (number + 1)).panics = false)
    (hfails : (listener .added (earlier.length + 1)).panics = true) :
    (unseeded id start query listener).deliverAll .added (earlier ++ fact :: later) =
      (((unseeded id start query listener).afterAdding earlier).afterFailing fact, true) := by
  have hcount : (unseeded id start query listener).count .added = 0 := rfl
  apply isLoose_unseeded.deliverAll_failing hnodup (fun _ _ => List.not_mem_nil)
  · intro number hnumber
    rw [hcount, Nat.zero_add]
    exact hcalm number hnumber
  · rw [hcount, Nat.zero_add]
    exact hfails

end Unseeded

/-- Of the change to watches a round takes no notice: it could as well come after the round. The
watches are of a kind that deliveries keep. -/
structure IsUnnoticed (kind : Watch → Prop) (change : Watch → Watch) : Prop where
  id : ∀ watch, (change watch).id = watch.id
  start : ∀ watch, (change watch).start = watch.start
  query : ∀ watch, (change watch).query = watch.query
  isStopped : ∀ watch, (change watch).isStopped = watch.isStopped
  deliverAll : ∀ watch, kind watch → ∀ sign facts, (change watch).deliverAll sign facts =
    (change (watch.deliverAll sign facts).1, (watch.deliverAll sign facts).2)
  kept : ∀ watch, kind watch → ∀ sign facts, kind (watch.deliverAll sign facts).1

theorem IsLoose.takeAll (h : watch.IsLoose) (events : List Event) :
    (watch.takeAll events).IsLoose :=
  ⟨(sameTask_takeAll events).held.trans h.held,
    (isStopped_takeAll (Or.inl h.held) events).trans h.active⟩

theorem IsLoose.deliverAll (h : watch.IsLoose) (sign : Change) (facts : List Reference) :
    (watch.deliverAll sign facts).1.IsLoose := by
  obtain ⟨taken, -, htaken, -⟩ := watch.exists_deliverAll_eq sign facts
  rw [htaken]
  exact h.takeAll taken

theorem IsLoose.advance_live (h : watch.IsLoose) :
    watch.advance .live = { watch with phase := .live } := by
  rw [advance, h.active, if_neg Bool.false_ne_true]

/-- The listener of a watch that nobody has in hand does the same whether the watch is live yet or
not. -/
theorem tell_live (hheld : watch.held = false) (sign : Change) (fact : Reference) :
    ({ watch with phase := .live } : Watch).tell sign fact =
      ({ (watch.tell sign fact).1 with phase := .live }, (watch.tell sign fact).2) := by
  have hcall : ({ watch with phase := .live } : Watch).listener sign
      (({ watch with phase := .live } : Watch).count sign + 1) =
        watch.listener sign (watch.count sign + 1) := rfl
  rw [tell_eq _ _ _ hcall, tell_eq _ _ _ rfl]
  simp [hheld]

theorem IsLoose.deliver_advance (h : watch.IsLoose) (sign : Change) (fact : Reference) :
    (watch.advance .live).deliver sign fact =
      ((watch.deliver sign fact).1.advance .live, (watch.deliver sign fact).2) := by
  have hnext : (watch.deliver sign fact).1.IsLoose := h.takeAll [⟨sign, fact⟩]
  rw [hnext.advance_live, h.advance_live]
  by_cases halters : Event.Alters ⟨sign, fact⟩ watch.results
  · have hlive : ({ watch with phase := .live } : Watch).isStopped = false := rfl
    have hleft := deliver_of_alters hlive halters
    have hright := deliver_of_alters h.active halters
    dsimp only at hleft hright
    rw [hleft, hright]
    have hheld : ({ watch with results := Event.alter ⟨sign, fact⟩ watch.results } : Watch).held =
        false := h.held
    exact tell_live hheld sign fact
  · have hleft := @deliver_of_not_alters { watch with phase := .live } ⟨sign, fact⟩ halters
    have hright := deliver_of_not_alters halters
    dsimp only at hleft hright
    rw [hleft, hright]

theorem IsLoose.deliverAll_advance (h : watch.IsLoose) (sign : Change) (facts : List Reference) :
    (watch.advance .live).deliverAll sign facts =
      ((watch.deliverAll sign facts).1.advance .live, (watch.deliverAll sign facts).2) := by
  induction facts generalizing watch with
  | nil => rfl
  | cons fact rest ih =>
    have hnext : (watch.deliver sign fact).1.IsLoose := h.takeAll [⟨sign, fact⟩]
    rw [Watch.deliverAll, Watch.deliverAll, h.deliver_advance]
    cases hdeliver : watch.deliver sign fact with
    | mk next failed =>
      rw [hdeliver] at hnext
      cases failed with
      | true => rfl
      | false => exact ih hnext

/-- Whether a loose watch is live yet makes no difference to rounds. -/
theorem isUnnoticed_advance (id : Nat) :
    IsUnnoticed (fun watch => watch.id = id → watch.IsLoose)
      fun watch => if watch.id = id then watch.advance .live else watch where
  id := fun watch => by
    split
    · exact Node.id_advance .live watch
    · rfl
  start := fun watch => by
    split
    · exact (Node.advance_frame .live watch).1.start
    · rfl
  query := fun watch => by
    split
    · exact (Node.advance_frame .live watch).1.query
    · rfl
  isStopped := fun watch => by
    split
    · exact Node.isStopped_advance_live watch
    · rfl
  deliverAll := fun watch hkind sign facts => by
    rw [Node.id_deliverAll]
    split
    · next hid => exact (hkind hid).deliverAll_advance sign facts
    · rfl
  kept := fun watch hkind sign facts hid => by
    rw [Node.id_deliverAll] at hid
    exact (hkind hid).deliverAll sign facts

end Watch

namespace Node

open Watch (IsUnnoticed)

variable {kind : Watch → Prop} {change : Watch → Watch} {node : Node}

def mapWatches (change : Watch → Watch) (node : Node) : Node :=
  { node with watches := node.watches.map change }

def Has (kind : Watch → Prop) (node : Node) : Prop :=
  ∀ watch ∈ node.watches, kind watch

theorem openConnection_mapWatches (change : Watch → Watch) (node : Node) :
    (node.mapWatches change).openConnection =
      (node.openConnection.1.mapWatches change, node.openConnection.2) := by
  cases hopens : node.faults.opening <;> simp [openConnection, mapWatches, hopens]

theorem saveRecord_mapWatches (change : Watch → Watch) (node : Node) (record : Record) :
    (node.mapWatches change).saveRecord record =
      ((node.saveRecord record).1.mapWatches change, (node.saveRecord record).2) := by
  cases hrefuses : node.faults.refusesSave record <;>
    cases hcontains : node.storage.facts.contains record.reference <;>
      simp [saveRecord, mapWatches, facts, hrefuses, hcontains]

section Unnoticed

variable (h : IsUnnoticed kind change)
include h

theorem watch?_mapWatches (node : Node) (id : Nat) :
    (node.mapWatches change).watch? id = (node.watch? id).map change := by
  simp only [watch?, mapWatches, List.find?_map]
  congr 2
  funext watch
  simp [h.id]

theorem modifyWatch_mapWatches (hkind : node.Has kind) (id : Nat) (sign : Change)
    (facts : List Reference) :
    (node.mapWatches change).modifyWatch id (fun watch => (watch.deliverAll sign facts).1) =
      (node.modifyWatch id fun watch => (watch.deliverAll sign facts).1).mapWatches change := by
  simp only [modifyWatch, mapWatches, List.map_map]
  congr 1
  apply List.map_congr_left
  intro watch hwatch
  simp only [Function.comp_apply, h.id]
  split
  · rw [h.deliverAll watch (hkind watch hwatch)]
  · rfl

theorem Has.modifyWatch (hkind : node.Has kind) (id : Nat) (sign : Change)
    (facts : List Reference) :
    (node.modifyWatch id fun watch => (watch.deliverAll sign facts).1).Has kind := by
  intro next hnext
  obtain ⟨watch, hwatch, rfl⟩ := List.mem_map.1 hnext
  dsimp only
  split
  · exact h.kept watch (hkind watch hwatch) sign facts
  · exact hkind watch hwatch

/-- A unit of a round does the same before and after the change. -/
theorem run_mapWatches (hkind : node.Has kind) (round : Round) (work : Work) :
    round.run (node.mapWatches change) work =
        ((round.run node work).1.mapWatches change, (round.run node work).2) ∧
      (round.run node work).1.Has kind := by
  have hlookup : ∀ query, (node.mapWatches change).lookup round.connection round.fact query =
      ((node.lookup round.connection round.fact query).1.mapWatches change,
        (node.lookup round.connection round.fact query).2) := fun _ => rfl
  have hlooked : ∀ query, (node.lookup round.connection round.fact query).1.Has kind :=
    fun _ => hkind
  cases work with
  | check id inverse =>
    simp only [Round.run, watch?_mapWatches h]
    cases hwatch : node.watch? id with
    | none => exact ⟨rfl, hkind⟩
    | some watch =>
      simp only [Option.map_some, h.isStopped, h.start, hlookup]
      split
      · exact ⟨rfl, hkind⟩
      · have hsame := hlooked inverse.affected
        cases hresult : node.lookup round.connection round.fact inverse.affected with
        | mk looked result =>
          rw [hresult] at hsame
          cases result with
          | error error => exact ⟨rfl, hsame⟩
          | ok paths =>
            dsimp only
            split
            · exact ⟨rfl, hsame⟩
            · exact ⟨rfl, hsame⟩
  | deliver id sign query =>
    simp only [Round.run, hlookup]
    have hsame := hlooked query
    cases hresult : node.lookup round.connection round.fact query with
    | mk looked result =>
      rw [hresult] at hsame
      cases result with
      | error error => exact ⟨rfl, hsame⟩
      | ok paths =>
        dsimp only
        exact ⟨by rw [modifyWatch_mapWatches h hsame], Has.modifyWatch h hsame id sign _⟩

theorem drain_mapWatches (hkind : node.Has kind) (round : Round) (pool : List Work) :
    round.drain (node.mapWatches change) pool = (round.drain node pool).mapWatches change ∧
      (round.drain node pool).Has kind := by
  induction node, pool using Round.drain.induct round with
  | case1 node =>
    rw [Round.drain, Round.drain]
    exact ⟨rfl, hkind⟩
  | case2 node work rest _ ih =>
    obtain ⟨hrun, hnext⟩ := run_mapWatches h hkind round work
    rw [Round.drain, Round.drain, hrun]
    exact ih hnext

theorem triggered_mapWatches (node : Node) (fact : Reference) :
    (node.mapWatches change).triggered fact = node.triggered fact := by
  have hchecks : ∀ watch, checks fact (change watch) = checks fact watch := by
    intro watch
    rw [checks, checks, h.isStopped, h.id, Watch.inverses, h.query, Watch.inverses]
  rw [triggered_eq, triggered_eq, mapWatches, List.flatMap_map]
  simp only [hchecks]

theorem propagate_mapWatches (hkind : node.Has kind) (fact : Reference) :
    (node.mapWatches change).propagate fact = (node.propagate fact).mapWatches change ∧
      (node.propagate fact).Has kind := by
  rw [propagate_eq, propagate_eq, triggered_mapWatches h]
  split
  · exact ⟨rfl, hkind⟩
  · have hopened : node.openConnection.1.Has kind := by
      rw [openConnection]
      split <;> exact hkind
    rw [openConnection_mapWatches]
    cases hresult : node.openConnection with
    | mk opened connection? =>
      rw [hresult] at hopened
      cases connection? with
      | none => exact ⟨rfl, hopened⟩
      | some connection =>
        obtain ⟨hdrained, hlast⟩ :=
          drain_mapWatches h hopened ⟨fact, connection⟩ (node.triggered fact)
        dsimp only
        rw [hdrained]
        exact ⟨rfl, hlast⟩

/-- Records may as well be saved before the change as after it. -/
theorem saveAll_mapWatches (hkind : node.Has kind) (records : List Record) :
    (node.mapWatches change).saveAll records =
        ((node.saveAll records).1.mapWatches change, (node.saveAll records).2) ∧
      (node.saveAll records).1.Has kind := by
  induction records generalizing node with
  | nil => exact ⟨rfl, hkind⟩
  | cons record rest ih =>
    have hsaved : (node.saveRecord record).1.Has kind := by
      rw [saveRecord]
      split
      · exact hkind
      · split <;> exact hkind
    rw [saveAll, saveAll, saveRecord_mapWatches]
    cases hresult : node.saveRecord record with
    | mk saved result =>
      rw [hresult] at hsaved
      cases result with
      | error error => exact ⟨rfl, hsaved⟩
      | ok new =>
        cases new with
        | false => exact ih hsaved
        | true =>
          obtain ⟨hpropagated, hnext⟩ := propagate_mapWatches h hsaved record.reference
          obtain ⟨hrest, hlast⟩ := ih hnext
          dsimp only
          rw [hpropagated, hrest]
          exact ⟨rfl, hlast⟩

end Unnoticed

/-- Saves treat a loose watch that is still being seeded as they treat a live one. -/
theorem saveAll_advance {id : Nat} (hloose : ∀ watch ∈ node.watches, watch.id = id → watch.IsLoose)
    (records : List Record) :
    (node.modifyWatch id (·.advance .live)).saveAll records =
      ((node.saveAll records).1.modifyWatch id (·.advance .live), (node.saveAll records).2) :=
  (saveAll_mapWatches (Watch.isUnnoticed_advance id) hloose records).1

def withWatch (watch : Watch) (node : Node) : Node :=
  { node with watches := node.watches ++ [watch] }

def IsFree (id : Nat) (node : Node) : Prop :=
  ∀ watch ∈ node.watches, watch.id ≠ id

theorem isFree_next (hids : node.watches.map Watch.id = List.range' 1 node.watches.length) :
    node.IsFree (node.watches.length + 1) := by
  intro watch hwatch hid
  have hmem : watch.id ∈ node.watches.map Watch.id := List.mem_map_of_mem hwatch
  rw [hids, List.mem_range'_1] at hmem
  omega

variable {watch : Watch}

theorem watch?_withWatch (hfree : node.IsFree watch.id) :
    (node.withWatch watch).watch? watch.id = some watch := by
  have hnone : node.watches.find? (·.id = watch.id) = none := by
    rw [List.find?_eq_none]
    exact fun other hother => by simpa using hfree other hother
  simp [watch?, withWatch, List.find?_append, hnone]

theorem modifyWatch_withWatch (watch : Watch) (hfree : node.IsFree watch.id)
    (change : Watch → Watch) :
    (node.withWatch watch).modifyWatch watch.id change = node.withWatch (change watch) := by
  have hothers : node.watches.map
      (fun other => if other.id = watch.id then change other else other) = node.watches := by
    rw [List.map_congr_left fun other hother => if_neg (hfree other hother), List.map_id']
  simp [modifyWatch, withWatch, hothers]

variable {start : Reference} {query : Query} {listener : Listener}

theorem begun_eq (hids : node.watches.map Watch.id = List.range' 1 node.watches.length) :
    node.begun start query listener =
      node.withWatch (.unseeded (node.watches.length + 1) start query listener) :=
  modifyWatch_withWatch { id := node.watches.length + 1, start, query, listener }
    (isFree_next hids) _

def lookedUp (start : Reference) (query : Query) (node : Node) : Node :=
  { node with
    storage := node.storage.openConnection.1
    journal := node.journal ++
      [.opened node.storage.connections.length,
        .lookup node.storage.connections.length start query false] }

structure Grants (query : Query) (node : Node) : Prop where
  opening : node.faults.opening = false
  lookup : node.faults.refusesLookup query = false

/-- What the seeding of a new watch comes to where the storage grants it. -/
theorem Grants.seed_eq (h : node.Grants query) (watch : Watch) (hfree : node.IsFree watch.id) :
    (node.withWatch watch).seed watch.id start query =
      match node.facts.evaluate start query with
      | .error _ =>
        ((((node.lookedUp start query).withWatch watch).warn .seedingFailed).closeConnection
          node.storage.connections.length, false)
      | .ok paths =>
        let (delivered, failed) := watch.deliverAll .added (terminals paths)
        let last := (node.lookedUp start query).withWatch delivered
        if failed then (last, true)
        else (last.closeConnection node.storage.connections.length, false) := by
  have hopen : (node.withWatch watch).openConnection =
      ((node.withWatch watch).openConnection.1, some node.storage.connections.length) := by
    simp [openConnection, withWatch, h.opening, Storage.openConnection]
  have hlookup : (node.withWatch watch).openConnection.1.lookup node.storage.connections.length
      start query = ((node.lookedUp start query).withWatch watch,
        (node.facts.evaluate start query).mapError .factNotFound) := by
    have hconnection : node.storage.openConnection.1.isOpen node.storage.connections.length =
        true := by
      simp [Storage.isOpen, Storage.openConnection]
    have hopened : (node.withWatch watch).openConnection.1 =
        { node.withWatch watch with
          storage := node.storage.openConnection.1
          journal := node.journal ++ [.opened node.storage.connections.length] } := by
      simp [openConnection, withWatch, h.opening, Storage.openConnection]
    rw [hopened, Node.lookup]
    simp only [withWatch, h.lookup, Bool.false_eq_true, if_false, Storage.execute]
    rw [if_pos hconnection]
    simp [lookedUp, Storage.evaluate, facts, Storage.openConnection]
  have hfree' : (node.lookedUp start query).IsFree watch.id := hfree
  rw [seed, hopen]
  dsimp only
  rw [hlookup]
  cases node.facts.evaluate start query with
  | error missing => rfl
  | ok paths =>
    simp only [Except.mapError]
    rw [watch?_withWatch hfree', modifyWatch_withWatch watch hfree']
    rfl

/-- Seeding delivers what the query finds. If the listener fails at that, all is left as it is. -/
theorem Grants.seed_of_deliverAll (h : node.Grants query) (watch : Watch)
    (hfree : node.IsFree watch.id) {delivered : Watch} {failed : Bool}
    (hdeliver : watch.deliverAll .added (node.facts.found query start) = (delivered, failed)) :
    ((node.withWatch watch).seed watch.id start query).2 = failed ∧
      (failed = true → ((node.withWatch watch).seed watch.id start query).1 =
        (node.lookedUp start query).withWatch delivered) := by
  rw [h.seed_eq watch hfree]
  rw [Store.found] at hdeliver
  cases hevaluate : node.facts.evaluate start query with
  | error missing =>
    rw [hevaluate] at hdeliver
    obtain ⟨-, rfl⟩ := Prod.mk.inj hdeliver
    exact ⟨rfl, fun hfailed => absurd hfailed Bool.false_ne_true⟩
  | ok paths =>
    rw [hevaluate] at hdeliver
    dsimp only at hdeliver ⊢
    rw [hdeliver]
    cases failed with
    | true => exact ⟨rfl, fun _ => rfl⟩
    | false => exact ⟨rfl, fun hfailed => absurd hfailed Bool.false_ne_true⟩

theorem snd_seed_of_not_grants (h : ¬ node.Grants query) (id : Nat) (start : Reference) :
    (node.seed id start query).2 = false := by
  rw [seed]
  cases hopens : node.faults.opening with
  | true =>
    have hopen : node.openConnection = (node, none) := by simp [openConnection, hopens]
    rw [hopen]
  | false =>
    have hrefuses : node.openConnection.1.faults.refusesLookup query = true := by
      rw [node.keeps_openConnection.faults]
      by_contra hgrants
      exact h ⟨hopens, by simpa using hgrants⟩
    have hopen : node.openConnection =
        (node.openConnection.1, some node.storage.connections.length) := by
      simp [openConnection, hopens, Storage.openConnection]
    rw [hopen]
    simp only [Node.lookup, hrefuses, if_true]

/-- The listener of a new watch fails at the addition of a fact: seeding ends, and the watch stays
with what it has taken up, and the connection open. -/
theorem Grants.seed_of_failing {id : Nat} (h : node.Grants query) (hfree : node.IsFree id)
    {earlier later : List Reference} {fact : Reference}
    (hfound : node.facts.found query start = earlier ++ fact :: later)
    (hcalm : ∀ number < earlier.length, (listener .added (number + 1)).panics = false)
    (hfails : (listener .added (earlier.length + 1)).panics = true) :
    (node.withWatch (.unseeded id start query listener)).seed id start query =
      ((node.lookedUp start query).withWatch
        (((Watch.unseeded id start query listener).afterAdding earlier).afterFailing fact),
        true) := by
  have hnodup := node.facts.nodup_found query start
  rw [hfound] at hnodup
  have hdeliver := @Watch.deliverAll_unseeded_of_failing fact id start query listener earlier later
    hnodup hcalm hfails
  rw [← hfound] at hdeliver
  obtain ⟨hfailed, hleft⟩ := h.seed_of_deliverAll _ hfree hdeliver
  exact Prod.ext (hleft rfl) hfailed

theorem Grants.snd_seed_of_calm {id : Nat} (h : node.Grants query) (hfree : node.IsFree id)
    (hcalm : ∀ number < (node.facts.found query start).length,
      (listener .added (number + 1)).panics = false) :
    ((node.withWatch (.unseeded id start query listener)).seed id start query).2 = false :=
  (h.seed_of_deliverAll (.unseeded id start query listener) hfree
    (Watch.deliverAll_unseeded (node.facts.nodup_found query start) hcalm)).1

theorem Grants.exists_seed_of_failing {id : Nat} (h : node.Grants query) (hfree : node.IsFree id)
    (hfails : ∃ number < (node.facts.found query start).length,
      (listener .added (number + 1)).panics = true) :
    ∃ earlier fact later, node.facts.found query start = earlier ++ fact :: later ∧
      (∀ number < earlier.length, (listener .added (number + 1)).panics = false) ∧
      (listener .added (earlier.length + 1)).panics = true ∧
      (node.withWatch (.unseeded id start query listener)).seed id start query =
        ((node.lookedUp start query).withWatch
          (((Watch.unseeded id start query listener).afterAdding earlier).afterFailing fact),
          true) := by
  obtain ⟨earlier, fact, later, hfound, hcalm, hfirst⟩ := exists_first_of_exists hfails
  have hcalm : ∀ number < earlier.length, (listener .added (number + 1)).panics = false := by
    simpa using hcalm
  exact ⟨earlier, fact, later, hfound, hcalm, hfirst,
    h.seed_of_failing hfree hfound hcalm hfirst⟩

/-- Seeding fails exactly if the storage grants it and the listener fails at a fact that is
found. -/
theorem snd_seed_unseeded_iff {id : Nat} (hfree : node.IsFree id) :
    ((node.withWatch (.unseeded id start query listener)).seed id start query).2 = true ↔
      node.Grants query ∧ ∃ number < (node.facts.found query start).length,
        (listener .added (number + 1)).panics = true := by
  constructor
  · intro hfailed
    by_cases hgrants : node.Grants query
    · refine ⟨hgrants, ?_⟩
      by_contra hcalm
      rw [hgrants.snd_seed_of_calm hfree (by simpa using hcalm)] at hfailed
      cases hfailed
    · have hsame : ¬ (node.withWatch (.unseeded id start query listener)).Grants query :=
        fun h => hgrants ⟨h.opening, h.lookup⟩
      rw [snd_seed_of_not_grants hsame] at hfailed
      cases hfailed
  · rintro ⟨hgrants, hfails⟩
    obtain ⟨_, _, _, _, _, _, hseed⟩ := hgrants.exists_seed_of_failing hfree hfails
    rw [hseed]

end Node

end LiveFacts
