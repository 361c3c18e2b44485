import LiveFacts.Node.Round
import LiveFacts.Proofs.Watch.Deliveries

/-!
# Rounds in any order

The units of a round may run in any order: what a watch takes up is what their lookups find about
the new fact, all of it unless its listener fails or it is stopped. A lookup that fails, because a
record that it needs is not stored, finds nothing.
-/

namespace LiveFacts

namespace Round

/-- The units of a pool are run to their end in some order. What a unit leaves joins the pool. -/
inductive Finishes (round : Round) : Node → List Work → Node → Prop
  | done (node : Node) : Finishes round node [] node
  | unit {node final : Node} {before after : List Work} {work : Work} :
      Finishes round (round.run node work).1 (before ++ after ++ (round.run node work).2) final →
      Finishes round node (before ++ work :: after) final

/-- First in, first out is one of these orders. -/
theorem finishes_drain (round : Round) (node : Node) (pool : List Work) :
    round.Finishes node pool (round.drain node pool) := by
  induction node, pool using drain.induct round with
  | case1 node =>
    rw [drain]
    exact Finishes.done node
  | case2 node work rest _ ih =>
    rw [drain]
    have hunit : round.Finishes node ([] ++ work :: rest) _ := Finishes.unit ih
    exact hunit

end Round

namespace Node

/-- The nodes are alike but for what their watches hold and what waits for a network, their journals
and their warnings. -/
structure Alike (a b : Node) : Prop where
  config : a.config = b.config
  faults : a.faults = b.faults
  storage : a.storage = b.storage
  network? : a.network? = b.network?
  alive : a.alive = b.alive
  ids : a.watches.map Watch.id = b.watches.map Watch.id

theorem Alike.refl (node : Node) : Alike node node := ⟨rfl, rfl, rfl, rfl, rfl, rfl⟩

theorem Alike.trans {a b c : Node} (hab : Alike a b) (hbc : Alike b c) : Alike a c where
  config := hab.config.trans hbc.config
  faults := hab.faults.trans hbc.faults
  storage := hab.storage.trans hbc.storage
  network? := hab.network?.trans hbc.network?
  alive := hab.alive.trans hbc.alive
  ids := hab.ids.trans hbc.ids

theorem Alike.facts {a b : Node} (h : Alike a b) : a.facts = b.facts :=
  congrArg Storage.facts h.storage

theorem watch?_modifyWatch {change : Watch → Watch} (hid : ∀ watch, (change watch).id = watch.id)
    (node : Node) (id other : Nat) :
    (node.modifyWatch id change).watch? other =
      (node.watch? other).map fun watch => if watch.id = id then change watch else watch := by
  have hsame : ∀ watch : Watch, (if watch.id = id then change watch else watch).id = watch.id := by
    intro watch
    split
    · exact hid watch
    · rfl
  simp only [watch?, modifyWatch, List.find?_map]
  congr 1
  apply congrArg (List.find? · node.watches)
  funext watch
  simp [hsame]

theorem alike_modifyWatch {change : Watch → Watch} (hid : ∀ watch, (change watch).id = watch.id)
    (node : Node) (id : Nat) : Alike (node.modifyWatch id change) node := by
  refine ⟨rfl, rfl, rfl, rfl, rfl, ?_⟩
  simp only [modifyWatch, List.map_map]
  apply List.map_congr_left
  intro watch _
  by_cases h : watch.id = id
  · simp [h, hid]
  · simp [h]

theorem id_of_watch? {node : Node} {id : Nat} {watch : Watch} (h : node.watch? id = some watch) :
    watch.id = id := by
  simpa using List.find?_some h

theorem id_deliverAll (change : Change) (facts : List Reference) (watch : Watch) :
    (watch.deliverAll change facts).1.id = watch.id := by
  obtain ⟨taken, -, heq, -⟩ := watch.exists_deliverAll_eq change facts
  rw [heq, (Watch.sameTask_takeAll taken).id]

/-- A lookup on an open connection is answered from the facts of the node. -/
theorem lookup_eq {node : Node} {connection : Nat} (hfaults : node.faults = {})
    (hopen : node.storage.isOpen connection = true) (start : Reference) (query : Query) :
    node.lookup connection start query =
      ({ node with journal := node.journal ++ [.lookup connection start query false] },
        (node.facts.evaluate start query).mapError .factNotFound) := by
  have hrefuses : node.faults.refusesLookup query = false := by
    simp [hfaults, Faults.refusesLookup]
  simp [lookup, hrefuses, Storage.execute, hopen, Storage.evaluate, facts]

end Node

namespace Round

theorem alike_run (round : Round) (node : Node) (work : Work) :
    Node.Alike (round.run node work).1 node := by
  cases work with
  | check id inverse =>
    simp only [run]
    split
    · exact Node.Alike.refl node
    · split
      · exact Node.Alike.refl node
      · split
        · next hlookup =>
          rw [Node.lookup, Prod.mk.injEq] at hlookup
          rw [← hlookup.1]
          exact ⟨rfl, rfl, rfl, rfl, rfl, rfl⟩
        · next hlookup =>
          rw [Node.lookup, Prod.mk.injEq] at hlookup
          rw [← hlookup.1]
          split <;> exact ⟨rfl, rfl, rfl, rfl, rfl, rfl⟩
  | deliver id change query =>
    simp only [run]
    split
    · next hlookup =>
      rw [Node.lookup, Prod.mk.injEq] at hlookup
      rw [← hlookup.1]
      exact ⟨rfl, rfl, rfl, rfl, rfl, rfl⟩
    · next hlookup =>
      rw [Node.lookup, Prod.mk.injEq] at hlookup
      rw [← hlookup.1]
      exact (Node.alike_modifyWatch (Node.id_deliverAll change _) _ id).trans
        ⟨rfl, rfl, rfl, rfl, rfl, rfl⟩

theorem Finishes.alike {round : Round} {node final : Node} {pool : List Work}
    (h : round.Finishes node pool final) : Node.Alike final node := by
  induction h with
  | done node => exact Node.Alike.refl node
  | unit _ ih => exact ih.trans (round.alike_run _ _)

structure IsOpen (round : Round) (node : Node) : Prop where
  faults : node.faults = {}
  isOpen : node.storage.isOpen round.connection = true

theorem IsOpen.of_alike {round : Round} {node other : Node} (hopen : round.IsOpen node)
    (halike : Node.Alike other node) : round.IsOpen other :=
  ⟨halike.faults.trans hopen.faults, halike.storage ▸ hopen.isOpen⟩

/-- A lookup of the round finds what the query finds from the new fact, or fails and finds
nothing. -/
theorem IsOpen.exists_lookup {round : Round} {node : Node} (hopen : round.IsOpen node)
    (query : Query) :
    ∃ journal result, node.lookup round.connection round.fact query =
        ({ node with journal }, result) ∧
      ((∃ paths, result = .ok paths ∧ terminals paths = node.facts.found query round.fact) ∨
        (∃ error, result = .error error) ∧ node.facts.found query round.fact = []) := by
  refine ⟨_, _, Node.lookup_eq hopen.faults hopen.isOpen round.fact query, ?_⟩
  cases hresult : node.facts.evaluate round.fact query with
  | error missing => exact Or.inr ⟨⟨_, rfl⟩, by simp [Store.found, hresult]⟩
  | ok paths => exact Or.inl ⟨paths, rfl, by simp [Store.found, hresult]⟩

end Round

def Work.Tells (store : Store) (fact : Reference) (id : Nat) (start : Reference) (work : Work)
    (event : Event) : Prop :=
  match work with
  | .check other inverse => other = id ∧ store.Finds inverse.affected fact start ∧
      ∃ effect, inverse.effect event.change = some effect ∧ store.Finds effect fact event.fact
  | .deliver other change query =>
    other = id ∧ change = event.change ∧ store.Finds query fact event.fact

theorem Work.tells_deliveries {store : Store} {fact start : Reference} {id other : Nat}
    {inverse : Inverse} {event : Event} :
    (∃ work ∈ Work.deliveries other inverse, work.Tells store fact id start event) ↔
      other = id ∧
        ∃ effect, inverse.effect event.change = some effect ∧
          store.Finds effect fact event.fact := by
  obtain ⟨change, result⟩ := event
  simp only [Work.deliveries, List.mem_append, List.mem_map, Option.mem_toList]
  constructor
  · rintro ⟨work, ⟨query, hquery, rfl⟩ | ⟨query, hquery, rfl⟩, hid, hchange, hfinds⟩
    · subst hchange
      exact ⟨hid, query, hquery, hfinds⟩
    · subst hchange
      exact ⟨hid, query, hquery, hfinds⟩
  · rintro ⟨hid, query, hquery, hfinds⟩
    cases change with
    | added => exact ⟨_, Or.inl ⟨query, hquery, rfl⟩, hid, rfl, hfinds⟩
    | removed => exact ⟨_, Or.inr ⟨query, hquery, rfl⟩, hid, rfl, hfinds⟩

namespace Round

variable {round : Round} {node final : Node} {id : Nat} {watch : Watch}

/-- A check leaves deliveries if the watch is active and its start is found from the new fact, and
otherwise nothing. -/
theorem IsOpen.run_check (hopen : round.IsOpen node) (id : Nat) (inverse : Inverse) :
    (round.run node (.check id inverse)).1.watches = node.watches ∧
      ((∃ watch, node.watch? id = some watch ∧ watch.isStopped = false ∧
          node.facts.Finds inverse.affected round.fact watch.start) ∧
          (round.run node (.check id inverse)).2 = Work.deliveries id inverse ∨
        (¬ ∃ watch, node.watch? id = some watch ∧ watch.isStopped = false ∧
          node.facts.Finds inverse.affected round.fact watch.start) ∧
          (round.run node (.check id inverse)).2 = []) := by
  obtain ⟨journal, result, hlookup, hresult⟩ := hopen.exists_lookup inverse.affected
  simp only [← Store.mem_found]
  cases hwatch : node.watch? id with
  | none => simp [run, hwatch]
  | some watch =>
    cases hstopped : watch.isStopped with
    | true => simp [run, hwatch, hstopped]
    | false =>
      rcases hresult with ⟨paths, rfl, hfound⟩ | ⟨⟨error, rfl⟩, hnone⟩
      · by_cases haffected : watch.start ∈ node.facts.found inverse.affected round.fact
        · simp [run, hwatch, hstopped, hlookup, hfound, haffected]
        · simp [run, hwatch, hstopped, hlookup, hfound, haffected]
      · simp [run, hwatch, hstopped, hlookup, hnone, Node.warn]

/-- A watch takes up what a unit delivers to it, all of it unless its listener fails. -/
theorem IsOpen.run_deliver (hopen : round.IsOpen node) (hwatch : node.watch? id = some watch)
    (other : Nat) (change : Change) (query : Query) :
    (round.run node (.deliver other change query)).2 = [] ∧
      ∃ taken, (round.run node (.deliver other change query)).1.watch? id =
          some (watch.takeAll taken) ∧
        (∀ event ∈ taken, (Work.deliver other change query).Tells node.facts round.fact id
          watch.start event) ∧
        (watch.listener.NeverPanics → ∀ event, (Work.deliver other change query).Tells
          node.facts round.fact id watch.start event → event ∈ taken) := by
  obtain ⟨journal, result, hlookup, hresult⟩ := hopen.exists_lookup query
  have hid := Node.id_of_watch? hwatch
  rcases hresult with ⟨paths, rfl, hfound⟩ | ⟨⟨error, rfl⟩, hnone⟩
  · have hwatch' : Node.watch? { node with journal } id = some watch := hwatch
    have hrun : round.run node (.deliver other change query) =
        (Node.modifyWatch other (fun watch => (watch.deliverAll change (terminals paths)).1)
          { node with journal }, []) := by
      simp [run, hlookup]
    rw [hrun]
    refine ⟨rfl, ?_⟩
    rw [Node.watch?_modifyWatch (Node.id_deliverAll change _), hwatch', Option.map_some, hid]
    by_cases hother : other = id
    · subst hother
      obtain ⟨taken, htaken, heq, hall⟩ := watch.exists_deliverAll_eq change (terminals paths)
      refine ⟨taken, by rw [if_pos rfl, heq], ?_, ?_⟩
      · intro event hevent
        obtain ⟨fact, hfact, rfl⟩ := List.mem_map.1 (htaken.subset hevent)
        exact ⟨rfl, rfl, Store.mem_found.1 (hfound ▸ hfact)⟩
      · rintro hlistener ⟨change', fact⟩ ⟨-, rfl, hfinds⟩
        rw [(hall hlistener).1, hfound]
        exact List.mem_map.2 ⟨fact, Store.mem_found.2 hfinds, rfl⟩
    · refine ⟨[], by rw [if_neg (Ne.symm hother)]; rfl, by simp, ?_⟩
      intro _ event htells
      exact absurd htells.1 hother
  · have hrun : round.run node (.deliver other change query) =
        (Node.warn .resultLookupFailed { node with journal }, []) := by
      simp [run, hlookup]
    rw [hrun]
    refine ⟨rfl, [], hwatch, by simp, ?_⟩
    rintro - event ⟨-, -, hfinds⟩
    have hmem := Store.mem_found.2 hfinds
    rw [hnone] at hmem
    cases hmem

/-- One unit: the watch takes up some changes, and what the unit tells is told by these and by what
it leaves. -/
theorem IsOpen.exists_taken_of_run (hopen : round.IsOpen node)
    (hwatch : node.watch? id = some watch) (work : Work) :
    ∃ taken, (round.run node work).1.watch? id = some (watch.takeAll taken) ∧
      (∀ event, event ∈ taken ∨ (∃ left ∈ (round.run node work).2,
          left.Tells node.facts round.fact id watch.start event) →
        work.Tells node.facts round.fact id watch.start event) ∧
      (watch.listener.NeverPanics → watch.isStopped = false →
        ∀ event, work.Tells node.facts round.fact id watch.start event →
          event ∈ taken ∨ ∃ left ∈ (round.run node work).2,
            left.Tells node.facts round.fact id watch.start event) := by
  cases work with
  | check other inverse =>
    obtain ⟨hwatches, hleft⟩ := hopen.run_check other inverse
    refine ⟨[], by rw [Node.watch?, hwatches]; exact hwatch, ?_⟩
    rcases hleft with ⟨⟨affected, haffected, hactive, hfinds⟩, hleft⟩ | ⟨hnot, hleft⟩
    · rw [hleft]
      refine ⟨?_, ?_⟩
      · rintro event (hevent | htold)
        · cases hevent
        · obtain ⟨rfl, heffect⟩ := Work.tells_deliveries.1 htold
          rw [hwatch, Option.some.injEq] at haffected
          subst haffected
          exact ⟨rfl, hfinds, heffect⟩
      · rintro - - event ⟨hid, -, heffect⟩
        exact Or.inr (Work.tells_deliveries.2 ⟨hid, heffect⟩)
    · rw [hleft]
      refine ⟨by simp, ?_⟩
      rintro - hactive event ⟨rfl, hfinds, -⟩
      exact absurd ⟨watch, hwatch, hactive, hfinds⟩ hnot
  | deliver other change query =>
    obtain ⟨hnone, taken, htaken, hsub, hall⟩ := hopen.run_deliver hwatch other change query
    refine ⟨taken, htaken, ?_, ?_⟩
    · rintro event (hevent | ⟨left, hmem, _⟩)
      · exact hsub event hevent
      · rw [hnone] at hmem
        cases hmem
    · intro hlistener _ event htells
      exact Or.inl (hall hlistener event htells)

/-- All units, in any order: the watch takes up what the pool tells, all of it unless its listener
fails or it is stopped. -/
theorem Finishes.exists_taken {pool : List Work} (h : round.Finishes node pool final)
    (hopen : round.IsOpen node) (hwatch : node.watch? id = some watch) :
    ∃ taken, final.watch? id = some (watch.takeAll taken) ∧
      (∀ event ∈ taken, ∃ work ∈ pool,
        work.Tells node.facts round.fact id watch.start event) ∧
      (watch.listener.NeverPanics → (watch.takeAll taken).isStopped = false →
        ∀ work ∈ pool, ∀ event, work.Tells node.facts round.fact id watch.start event →
          event ∈ taken) := by
  induction h generalizing watch with
  | done node => exact ⟨[], hwatch, by simp, by simp⟩
  | @unit node final before after work _ ih =>
    have halike := round.alike_run node work
    have hfacts : (round.run node work).1.facts = node.facts := halike.facts
    obtain ⟨first, hfirst, hsub, hall⟩ := hopen.exists_taken_of_run hwatch work
    have htask : Watch.SameTask (watch.takeAll first) watch := Watch.sameTask_takeAll first
    obtain ⟨later, hlater, hlaterSub, hlaterAll⟩ := ih (hopen.of_alike halike) hfirst
    rw [hfacts, htask.start] at hlaterSub
    rw [hfacts, htask.start, htask.listener] at hlaterAll
    refine ⟨first ++ later, by rw [hlater, Watch.takeAll_append], ?_, ?_⟩
    · intro event hevent
      rcases List.mem_append.1 hevent with hmem | hmem
      · exact ⟨work, by simp, hsub event (Or.inl hmem)⟩
      · obtain ⟨other, hother, htells⟩ := hlaterSub event hmem
        simp only [List.mem_append] at hother
        rcases hother with (hbefore | hafter) | hleft
        · exact ⟨other, by simp [hbefore], htells⟩
        · exact ⟨other, by simp [hafter], htells⟩
        · exact ⟨work, by simp, hsub event (Or.inr ⟨other, hleft, htells⟩)⟩
    · intro hlistener hactive other hother event htells
      rw [Watch.takeAll_append] at hactive
      have hactive' := Watch.isStopped_of_takeAll hactive
      have hrest : ∀ left ∈ before ++ after ++ (round.run node work).2,
          left.Tells node.facts round.fact id watch.start event → event ∈ later :=
        fun left hmem hleft => hlaterAll hlistener hactive left hmem event hleft
      rw [List.mem_append, List.mem_cons] at hother
      rcases hother with hbefore | rfl | hafter
      · exact List.mem_append_right _ (hrest other (by simp [hbefore]) htells)
      · rcases hall hlistener (Watch.isStopped_of_takeAll hactive') event htells with
          hmem | ⟨left, hleft, htold⟩
        · exact List.mem_append_left _ hmem
        · exact List.mem_append_right _ (hrest left (by simp [hleft]) htold)
      · exact List.mem_append_right _ (hrest other (by simp [hafter]) htells)

end Round

end LiveFacts
