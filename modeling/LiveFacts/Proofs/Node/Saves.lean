import LiveFacts.Proofs.Fact.Dehydration
import LiveFacts.Proofs.Node.Rounds
import LiveFacts.Proofs.Store.Saves

/-!
# Saving records

A node takes in records one by one, and each new one is followed by its round, whose units may run
in any order. A watch then takes up what is reported about each new fact in turn.
-/

namespace LiveFacts

namespace Node

inductive Propagates (fact : Reference) : Node → Node → Prop
  | calm {node settled : Node} : node.startRound fact = (settled, none) →
      Propagates fact node settled
  | round {node opened finished : Node} {round : Round} {pool : List Work} :
      node.startRound fact = (opened, some (round, pool)) →
      round.Finishes opened pool finished →
      Propagates fact node (finished.closeConnection round.connection)

/-- A record is stored and, if it is new, propagated. -/
inductive Saves (record : Record) : Node → Node → Bool → Prop
  | known {node same : Node} : node.saveRecord record = (same, .ok false) →
      Saves record node same false
  | new {node stored settled : Node} : node.saveRecord record = (stored, .ok true) →
      Propagates record.reference stored settled → Saves record node settled true

inductive SavesAll : List Record → Node → Node → Except Error Nat → Prop
  | nil (node : Node) : SavesAll [] node node (.ok 0)
  | refused {record : Record} {rest : List Record} {node same : Node} {error : Error} :
      node.saveRecord record = (same, .error error) →
      SavesAll (record :: rest) node same (.error error)
  | cons {record : Record} {rest : List Record} {node next final : Node} {new : Bool}
      {count : Except Error Nat} : Saves record node next new → SavesAll rest next final count →
      SavesAll (record :: rest) node final (count.map (· + new.toNat))

theorem propagates_propagate (fact : Reference) (node : Node) :
    Propagates fact node (node.propagate fact) := by
  rw [propagate]
  match hstart : node.startRound fact with
  | (settled, none) => exact Propagates.calm hstart
  | (opened, some (round, pool)) =>
    exact Propagates.round hstart (round.finishes_drain opened pool)

theorem saves_propagate {node : Node} {record : Record}
    (h : (node.saveRecord record).2 = .ok true) :
    Saves record node ((node.saveRecord record).1.propagate record.reference) true := by
  have hstored : node.saveRecord record = ((node.saveRecord record).1, .ok true) := by rw [← h]
  exact Saves.new hstored (propagates_propagate _ _)

theorem savesAll_saveAll (records : List Record) (node : Node) :
    SavesAll records node (node.saveAll records).1 (node.saveAll records).2 := by
  induction records generalizing node with
  | nil => exact SavesAll.nil node
  | cons record rest ih =>
    rw [saveAll]
    match hsave : node.saveRecord record with
    | (same, .error error) => exact SavesAll.refused hsave
    | (same, .ok false) =>
      have hrest := SavesAll.cons (Saves.known hsave) (ih same)
      have hcount : (same.saveAll rest).2.map (· + Bool.toNat false) = (same.saveAll rest).2 := by
        cases (same.saveAll rest).2 <;> rfl
      rwa [hcount] at hrest
    | (stored, .ok true) =>
      exact SavesAll.cons (Saves.new hsave (propagates_propagate record.reference stored)) (ih _)

/-- Between its operations the storage of a node does not fail and holds what was saved at the node,
and its watches go by their numbers. -/
structure IsReady (node : Node) : Prop where
  faults : node.faults = {}
  sound : node.facts.IsSound
  ids : node.watches.map Watch.id = List.range' 1 node.watches.length

/-- Between its operations a node without a network, whose storage does not fail, holds a closed
store, and its watches go by their numbers. -/
structure IsSettled (node : Node) : Prop where
  faults : node.faults = {}
  network? : node.network? = none
  sound : node.facts.IsSound
  closed : node.facts.IsClosed
  ids : node.watches.map Watch.id = List.range' 1 node.watches.length

structure IsComplete (node : Node) : Prop extends IsReady node where
  closed : node.facts.IsClosed

theorem IsSettled.isReady {node : Node} (hsettled : node.IsSettled) : node.IsReady :=
  ⟨hsettled.faults, hsettled.sound, hsettled.ids⟩

theorem IsSettled.isComplete {node : Node} (hsettled : node.IsSettled) : node.IsComplete :=
  ⟨hsettled.isReady, hsettled.closed⟩

theorem eq_of_ofConfig? {config : Config} {node : Node}
    (h : Node.ofConfig? config = some node) : node = { config } := by
  rw [ofConfig?] at h
  split at h
  · exact (Option.some.inj h).symm
  · cases h

theorem isSettled_of_ofConfig? {config : Config} {node : Node}
    (h : Node.ofConfig? config = some node) : node.IsSettled := by
  rw [eq_of_ofConfig? h]
  exact ⟨rfl, rfl, Store.isSound_empty, by simp [Store.IsClosed, facts], rfl⟩

structure SameSetup (a b : Node) : Prop where
  config : a.config = b.config
  faults : a.faults = b.faults
  network? : a.network? = b.network?
  alive : a.alive = b.alive
  ids : a.watches.map Watch.id = b.watches.map Watch.id

theorem SameSetup.refl (node : Node) : SameSetup node node := ⟨rfl, rfl, rfl, rfl, rfl⟩

theorem SameSetup.trans {a b c : Node} (hab : SameSetup a b) (hbc : SameSetup b c) :
    SameSetup a c :=
  ⟨hab.config.trans hbc.config, hab.faults.trans hbc.faults, hab.network?.trans hbc.network?,
    hab.alive.trans hbc.alive, hab.ids.trans hbc.ids⟩

theorem Alike.sameSetup {a b : Node} (h : Alike a b) : SameSetup a b :=
  ⟨h.config, h.faults, h.network?, h.alive, h.ids⟩

theorem IsReady.of_sameSetup {node other : Node} (hready : node.IsReady)
    (hsame : SameSetup other node) (hsound : other.facts.IsSound) : other.IsReady where
  faults := hsame.faults.trans hready.faults
  sound := hsound
  ids := by
    have hlength : other.watches.length = node.watches.length := by
      simpa using congrArg List.length hsame.ids
    rw [hsame.ids, hlength, hready.ids]

theorem IsReady.isSettled {node : Node} (hready : node.IsReady) (hnetwork : node.network? = none)
    (hclosed : node.facts.IsClosed) : node.IsSettled :=
  ⟨hready.faults, hnetwork, hready.sound, hclosed, hready.ids⟩

theorem IsSettled.of_sameSetup {node other : Node} (hsettled : node.IsSettled)
    (hsame : SameSetup other node) (hfacts : other.facts = node.facts) : other.IsSettled := by
  have hready := hsettled.isReady.of_sameSetup hsame (hfacts ▸ hsettled.sound)
  exact hready.isSettled (hsame.network?.trans hsettled.network?) (hfacts ▸ hsettled.closed)

variable {node : Node} {fact : Reference} {id : Nat} {watch : Watch}

theorem watch?_eq_some_iff (hids : node.watches.map Watch.id = List.range' 1 node.watches.length) :
    node.watch? id = some watch ↔ watch ∈ node.watches ∧ watch.id = id := by
  have hnodup : (node.watches.map Watch.id).Nodup := hids ▸ List.nodup_range'
  constructor
  · intro h
    exact ⟨List.mem_of_find?_eq_some h, id_of_watch? h⟩
  · rintro ⟨hmem, rfl⟩
    cases hfind : node.watch? watch.id with
    | none => simpa using List.find?_eq_none.1 hfind watch hmem
    | some other =>
      have hother := List.mem_of_find?_eq_some hfind
      rw [List.inj_on_of_nodup_map hnodup hother hmem (id_of_watch? hfind)]

theorem IsReady.watch?_eq_some_iff (hready : node.IsReady) :
    node.watch? id = some watch ↔ watch ∈ node.watches ∧ watch.id = id :=
  Node.watch?_eq_some_iff hready.ids

theorem mem_triggered {work : Work} :
    work ∈ node.triggered fact ↔
      ∃ watch ∈ node.watches, watch.isStopped = false ∧
        ∃ inverse ∈ watch.query.inverses, inverse.appliesTo fact.type = true ∧
          .check watch.id inverse = work := by
  simp only [triggered, activeWatches, Watch.inverses, List.mem_flatMap, List.mem_filter,
    List.mem_map, Bool.not_eq_true', and_assoc]

/-- What the units that a new fact calls for tell a watch is what the store tells about the fact, if
the watch is active. -/
theorem IsReady.tells_triggered (hready : node.IsReady) (hwatch : node.watch? id = some watch)
    {store : Store} {change : Change} {result : Reference} :
    (∃ work ∈ node.triggered fact, work.Tells store fact id watch.start ⟨change, result⟩) ↔
      watch.isStopped = false ∧ store.Tells watch.query watch.start fact change result := by
  simp only [mem_triggered]
  constructor
  · rintro ⟨work, ⟨other, hother, hactive, inverse, hinverse, htype, rfl⟩, hid, haffected,
      heffect⟩
    have hsame := hready.watch?_eq_some_iff.2 ⟨hother, hid⟩
    rw [hwatch, Option.some.injEq] at hsame
    subst hsame
    exact ⟨hactive, inverse, hinverse, htype, haffected, heffect⟩
  · rintro ⟨hactive, inverse, hinverse, htype, haffected, heffect⟩
    obtain ⟨hmem, hid⟩ := hready.watch?_eq_some_iff.1 hwatch
    exact ⟨_, ⟨watch, hmem, hactive, inverse, hinverse, htype, rfl⟩, hid, haffected, heffect⟩

end Node

/-- What the watch takes up is what the store tells about the new fact, all of it unless the
listener fails or the watch is stopped. -/
structure Watch.Hears (watch : Watch) (store : Store) (fact : Reference) (taken : List Event) :
    Prop where
  told : ∀ change result, ⟨change, result⟩ ∈ taken →
    store.Tells watch.query watch.start fact change result
  all : watch.listener.NeverPanics → (watch.takeAll taken).isStopped = false →
    ∀ change result, store.Tells watch.query watch.start fact change result →
      ⟨change, result⟩ ∈ taken

structure Watch.Takes (watch : Watch) (links : Links) (fact : Reference) (taken : List Event) :
    Prop where
  reported : ∀ change result, ⟨change, result⟩ ∈ taken →
    links.Reports watch.query watch.start fact change result
  all : watch.listener.NeverPanics → (watch.takeAll taken).isStopped = false →
    ∀ change result, links.Reports watch.query watch.start fact change result →
      ⟨change, result⟩ ∈ taken

/-- In a closed store all that is reported is told. -/
theorem Watch.Hears.takes {watch : Watch} {store : Store} {fact : Reference} {taken : List Event}
    (h : watch.Hears store fact taken) (hsound : store.IsSound) (hclosed : store.IsClosed)
    (hfact : store.contains fact = true) : watch.Takes store.links fact taken where
  reported := fun change result hmem => (h.told change result hmem).reports hsound
  all := fun hlistener hactive change result hreports =>
    h.all hlistener hactive change result
      ((Store.tells_iff_of_isClosed hsound hclosed hfact).2 hreports)

/-- Of a query without conditions a watch has, after a round, what it had and what was told. -/
theorem Watch.Hears.mem_results {watch : Watch} {store : Store} {fact : Reference}
    {taken : List Event} (h : watch.Hears store fact taken) (hsound : store.IsSound)
    (hplain : watch.query.isPlain = true) (hpanics : watch.listener.NeverPanics)
    (hactive : (watch.takeAll taken).isStopped = false) (hnodup : watch.results.Nodup)
    {result : Reference} :
    result ∈ (watch.takeAll taken).results ↔
      result ∈ watch.results ∨ store.Tells watch.query watch.start fact .added result := by
  have hremoved : ∀ fact', ¬ store.Tells watch.query watch.start fact .removed fact' :=
    fun _ htells => Links.not_reports_removed_of_isPlain hplain (htells.reports hsound)
  have hall : ∀ change fact', ⟨change, fact'⟩ ∈ taken ↔
      store.Tells watch.query watch.start fact change fact' :=
    fun change fact' => ⟨h.told change fact', h.all hpanics hactive change fact'⟩
  exact (takeAll_of_no_removal hremoved hall hactive hnodup).2 result

theorem Watch.Takes.mem_results {watch : Watch} {links : Links} {fact : Reference}
    {taken : List Event} (h : watch.Takes links fact taken)
    (hplain : watch.query.isPlain = true) (hpanics : watch.listener.NeverPanics)
    (hactive : (watch.takeAll taken).isStopped = false) (hnodup : watch.results.Nodup)
    {result : Reference} :
    result ∈ (watch.takeAll taken).results ↔
      result ∈ watch.results ∨ links.Reports watch.query watch.start fact .added result := by
  have hremoved : ∀ fact', ¬ links.Reports watch.query watch.start fact .removed fact' :=
    fun _ => Links.not_reports_removed_of_isPlain hplain
  have hall : ∀ change fact', ⟨change, fact'⟩ ∈ taken ↔
      links.Reports watch.query watch.start fact change fact' :=
    fun change fact' => ⟨h.reported change fact', h.all hpanics hactive change fact'⟩
  exact (takeAll_of_no_removal hremoved hall hactive hnodup).2 result

namespace Node

variable {node settled : Node} {fact : Reference} {id : Nat} {watch : Watch}

theorem sameSetup_closeConnection (connection : Nat) (node : Node) :
    SameSetup (node.closeConnection connection) node :=
  ⟨rfl, rfl, rfl, rfl, rfl⟩

theorem IsReady.startRound_eq (hready : node.IsReady) (fact : Reference) :
    node.startRound fact = (node, none) ∧ node.triggered fact = [] ∨
      ∃ (opened : Node) (round : Round),
        node.startRound fact = (opened, some (round, node.triggered fact)) ∧ round.fact = fact ∧
        round.IsOpen opened ∧ SameSetup opened node ∧ opened.facts = node.facts ∧
        opened.watches = node.watches := by
  by_cases hnone : node.triggered fact = []
  · exact Or.inl ⟨by simp [startRound, hnone], hnone⟩
  · have hopening : node.faults.opening = false := by rw [hready.faults]
    refine Or.inr ⟨{ node with
      storage := node.storage.openConnection.1
      journal := node.journal ++ [.opened node.storage.connections.length] },
      ⟨fact, node.storage.connections.length⟩, ?_, rfl, ?_, ⟨rfl, rfl, rfl, rfl, rfl⟩, rfl, rfl⟩
    · simp [startRound, hnone, openConnection, hopening, Storage.openConnection]
    · refine ⟨hready.faults, ?_⟩
      simp [Storage.isOpen, Storage.openConnection]

/-- A round leaves a node ready and its store as it was; a watch takes up what is told. -/
theorem Propagates.hears (h : Propagates fact node settled) (hready : node.IsReady) :
    SameSetup settled node ∧ settled.facts = node.facts ∧
      ∀ {id : Nat} {watch : Watch}, node.watch? id = some watch →
        ∃ taken, settled.watch? id = some (watch.takeAll taken) ∧
          watch.Hears node.facts fact taken := by
  cases h with
  | calm hstart =>
    rcases hready.startRound_eq fact with ⟨hcalm, hnone⟩ | ⟨_, _, hround, -⟩
    · rw [hcalm, Prod.mk.injEq] at hstart
      obtain ⟨rfl, -⟩ := hstart
      refine ⟨SameSetup.refl node, rfl, fun {id watch} hwatch => ⟨[], hwatch, by simp, ?_⟩⟩
      intro _ hactive change result htells
      obtain ⟨work, hwork, -⟩ := (hready.tells_triggered hwatch).2 ⟨hactive, htells⟩
      rw [hnone] at hwork
      cases hwork
    · rw [hround] at hstart
      simp at hstart
  | @round opened finished round pool hstart hfinishes =>
    rcases hready.startRound_eq fact with ⟨hcalm, _⟩ |
      ⟨opened', round', hround, rfl, hopen, hsame, hfacts, hwatches⟩
    · rw [hcalm] at hstart
      simp at hstart
    · rw [hround, Prod.mk.injEq, Option.some.injEq, Prod.mk.injEq] at hstart
      obtain ⟨rfl, rfl, rfl⟩ := hstart
      have halike := hfinishes.alike
      refine ⟨(sameSetup_closeConnection _ _).trans (halike.sameSetup.trans hsame),
        halike.facts.trans hfacts, ?_⟩
      intro id watch hwatch
      have hwatch' : opened'.watch? id = some watch := by rwa [watch?, hwatches]
      obtain ⟨taken, htaken, hsub, hall⟩ := hfinishes.exists_taken hopen hwatch'
      rw [hfacts] at hsub hall
      refine ⟨taken, htaken, ?_, ?_⟩
      · intro change result hmem
        exact ((hready.tells_triggered hwatch).1 (hsub _ hmem)).2
      · intro hlistener hactive change result htells
        obtain ⟨work, hwork, hworkTells⟩ := (hready.tells_triggered hwatch).2
          ⟨Watch.isStopped_of_takeAll hactive, htells⟩
        exact hall hlistener hactive work hwork _ hworkTells

end Node

namespace Node

variable {node settled final : Node} {record : Record} {records : List Record} {id : Nat}
  {watch : Watch}

theorem IsReady.saveRecord_eq (hready : node.IsReady) (record : Record) :
    node.saveRecord record =
      if node.facts.contains record.reference then (node, .ok false)
      else ({ node with storage := node.storage.save record }, .ok true) := by
  have hrefuses : node.faults.refusesSave record = false := by
    simp [hready.faults, Faults.refusesSave]
  simp [saveRecord, hrefuses]

theorem IsSettled.save (hsettled : node.IsSettled) (hkeyed : record.IsKeyed)
    (hnamed : ∀ fact ∈ record.named, node.facts.contains fact = true) :
    IsSettled { node with storage := node.storage.save record } :=
  ⟨hsettled.faults, hsettled.network?, hsettled.sound.save hkeyed, hsettled.closed.save hnamed,
    hsettled.ids⟩

theorem Saves.eq_of_known (h : Saves record node settled false) (hready : node.IsReady) :
    settled = node ∧ node.facts.contains record.reference = true := by
  cases h with
  | known hsave =>
    rw [hready.saveRecord_eq] at hsave
    split at hsave
    · next hknown =>
      rw [Prod.mk.injEq] at hsave
      exact ⟨hsave.1.symm, hknown⟩
    · simp at hsave

theorem Saves.of_known (h : Saves record node settled false) (hsettled : node.IsSettled) :
    settled = node ∧ node.facts.contains record.reference = true :=
  h.eq_of_known hsettled.isReady

/-- A new record is stored, whether or not the facts that it names are, and each watch takes up what
is told about it. -/
theorem Saves.hears (h : Saves record node settled true) (hready : node.IsReady)
    (hkeyed : record.IsKeyed) :
    node.facts.contains record.reference = false ∧ SameSetup settled node ∧
      settled.facts = node.facts.save record ∧
      ∀ {id : Nat} {watch : Watch}, node.watch? id = some watch →
        ∃ taken, settled.watch? id = some (watch.takeAll taken) ∧
          watch.Hears settled.facts record.reference taken := by
  cases h with
  | @new stored _ hsave hpropagates =>
    rw [hready.saveRecord_eq] at hsave
    split at hsave
    · simp at hsave
    · next hnew =>
      rw [Bool.not_eq_true] at hnew
      rw [Prod.mk.injEq] at hsave
      obtain ⟨rfl, -⟩ := hsave
      have hstored : IsReady { node with storage := node.storage.save record } :=
        ⟨hready.faults, hready.sound.save hkeyed, hready.ids⟩
      obtain ⟨hsame, hfacts, hhears⟩ := hpropagates.hears hstored
      refine ⟨hnew, hsame.trans ⟨rfl, rfl, rfl, rfl, rfl⟩, hfacts, ?_⟩
      intro id watch hwatch
      rw [hfacts]
      exact hhears hwatch

theorem Saves.isReady {new : Bool} (h : Saves record node settled new) (hready : node.IsReady)
    (hkeyed : record.IsKeyed) :
    settled.IsReady ∧ SameSetup settled node ∧ settled.facts = node.facts.save record := by
  cases new with
  | false =>
    obtain ⟨rfl, hknown⟩ := h.eq_of_known hready
    exact ⟨hready, SameSetup.refl settled, (Store.save_of_contains hknown).symm⟩
  | true =>
    obtain ⟨-, hsame, hfacts, -⟩ := h.hears hready hkeyed
    exact ⟨hready.of_sameSetup hsame (hfacts ▸ hready.sound.save hkeyed), hsame, hfacts⟩

theorem Saves.isComplete {new : Bool} (h : Saves record node settled new)
    (hcomplete : node.IsComplete) (hkeyed : record.IsKeyed)
    (hnamed : ∀ fact ∈ record.named, node.facts.contains fact = true) : settled.IsComplete := by
  obtain ⟨hready, -, hfacts⟩ := h.isReady hcomplete.toIsReady hkeyed
  exact ⟨hready, hfacts ▸ hcomplete.closed.save hnamed⟩

theorem Saves.spec {new : Bool} (h : Saves record node settled new) (hsettled : node.IsSettled)
    (hkeyed : record.IsKeyed) (hnamed : ∀ fact ∈ record.named, node.facts.contains fact = true) :
    settled.IsSettled ∧ settled.facts = node.facts.save record := by
  obtain ⟨hready, hsame, hfacts⟩ := h.isReady hsettled.isReady hkeyed
  have hcomplete := h.isComplete hsettled.isComplete hkeyed hnamed
  exact ⟨hready.isSettled (hsame.network?.trans hsettled.network?) hcomplete.closed, hfacts⟩

/-- A new record is stored, and each watch takes up what is reported about it. -/
theorem Saves.takes (h : Saves record node settled true) (hcomplete : node.IsComplete)
    (hkeyed : record.IsKeyed) (hnamed : ∀ fact ∈ record.named, node.facts.contains fact = true) :
    node.facts.Admits record ∧ settled.facts = node.facts.save record ∧
      ∀ {id : Nat} {watch : Watch}, node.watch? id = some watch →
        ∃ taken, settled.watch? id = some (watch.takeAll taken) ∧
          watch.Takes settled.facts.links record.reference taken := by
  have hdone := h.isComplete hcomplete hkeyed hnamed
  obtain ⟨hnew, -, hfacts, hhears⟩ := h.hears hcomplete.toIsReady hkeyed
  have hcontains : settled.facts.contains record.reference = true := by
    rw [hfacts]
    exact (Store.contains_save_iff hnew).2 (Or.inr rfl)
  refine ⟨⟨hcomplete.sound, hcomplete.closed, hkeyed, hnew, hnamed⟩, hfacts, ?_⟩
  intro id watch hwatch
  obtain ⟨taken, htaken, hhear⟩ := hhears hwatch
  exact ⟨taken, htaken, hhear.takes hdone.sound hdone.closed hcontains⟩

theorem Saves.of_new (h : Saves record node settled true) (hsettled : node.IsSettled)
    (hkeyed : record.IsKeyed) (hnamed : ∀ fact ∈ record.named, node.facts.contains fact = true) :
    node.facts.Admits record ∧ settled.IsSettled ∧ settled.facts = node.facts.save record ∧
      ∀ {id : Nat} {watch : Watch}, node.watch? id = some watch →
        ∃ taken, settled.watch? id = some (watch.takeAll taken) ∧
          watch.Takes settled.facts.links record.reference taken := by
  obtain ⟨hadmits, hfacts, htakes⟩ := h.takes hsettled.isComplete hkeyed hnamed
  exact ⟨hadmits, (h.spec hsettled hkeyed hnamed).1, hfacts, htakes⟩

theorem exists_saves_of_new (hsettled : node.IsSettled)
    (hnew : node.facts.contains record.reference = false) :
    ∃ settled, Saves record node settled true := by
  have hsave := hsettled.isReady.saveRecord_eq record
  rw [hnew] at hsave
  exact ⟨_, Saves.new hsave (propagates_propagate _ _)⟩

end Node

/-- What holds of a store and a watch goes on holding when a record is saved and the watch takes up
what is reported about it. -/
def KeptBySaves (motive : Store → Watch → Prop) : Prop :=
  ∀ ⦃store : Store⦄ ⦃record : Record⦄ ⦃watch : Watch⦄ ⦃taken : List Event⦄, store.Admits record →
    watch.Takes (store.save record).links record.reference taken → motive store watch →
    motive (store.save record) (watch.takeAll taken)

namespace Node

variable {node settled final : Node} {record : Record} {records : List Record} {id : Nat}
  {watch : Watch} {count : Except Error Nat} {motive : Store → Watch → Prop}

theorem Saves.preserves_of_isComplete {new : Bool} (h : Saves record node settled new)
    (hcomplete : node.IsComplete) (hkeyed : record.IsKeyed)
    (hnamed : ∀ fact ∈ record.named, node.facts.contains fact = true)
    (hmotive : KeptBySaves motive) (hwatch : node.watch? id = some watch)
    (hholds : motive node.facts watch) :
    ∃ watch', settled.watch? id = some watch' ∧ motive settled.facts watch' := by
  cases new with
  | false =>
    obtain ⟨rfl, -⟩ := h.eq_of_known hcomplete.toIsReady
    exact ⟨watch, hwatch, hholds⟩
  | true =>
    obtain ⟨hadmits, hfacts, htakes⟩ := h.takes hcomplete hkeyed hnamed
    obtain ⟨taken, htaken, htake⟩ := htakes hwatch
    rw [hfacts] at htake ⊢
    exact ⟨_, htaken, hmotive hadmits htake hholds⟩

theorem Saves.areGrounded {new : Bool} {rest : List Record} (h : Saves record node settled new)
    (hready : node.IsReady)
    (hgrounded : Record.AreGrounded (fun fact => node.facts.contains fact = true)
      (record :: rest)) :
    Record.AreGrounded (fun fact => settled.facts.contains fact = true) rest := by
  obtain ⟨hkeyed, hnamed, hrest⟩ := hgrounded
  obtain ⟨-, -, hfacts⟩ := h.isReady hready hkeyed
  refine Record.areGrounded_mono hrest fun fact hfact => ?_
  rw [hfacts]
  rcases hfact with hold | rfl
  · exact Store.contains_of_grown (Store.records_grow_save node.facts record) hold
  · exact Store.contains_save_self node.facts record

/-- A ready node stores records one after another, whether or not the facts that they name are
stored. -/
theorem SavesAll.isReady (h : SavesAll records node final count) (hready : node.IsReady)
    (hkeyed : ∀ record ∈ records, record.IsKeyed) :
    final.IsReady ∧ SameSetup final node ∧ final.facts = records.foldl Store.save node.facts := by
  induction h with
  | nil node => exact ⟨hready, SameSetup.refl node, rfl⟩
  | refused hsave =>
    rw [hready.saveRecord_eq] at hsave
    split at hsave <;> simp at hsave
  | @cons record rest node next final new count hsave _ ih =>
    obtain ⟨hnext, hsame, hfacts⟩ := hsave.isReady hready (hkeyed record List.mem_cons_self)
    obtain ⟨hfinal, hsame', hmore⟩ :=
      ih hnext fun other hother => hkeyed other (List.mem_cons_of_mem _ hother)
    exact ⟨hfinal, hsame'.trans hsame, by rw [hmore, hfacts, List.foldl_cons]⟩

/-- Records that are grounded in the store of a settled node are all stored. -/
theorem SavesAll.spec (h : SavesAll records node final count) (hsettled : node.IsSettled)
    (hgrounded : Record.AreGrounded (fun fact => node.facts.contains fact = true) records) :
    final.IsSettled ∧ final.facts = records.foldl Store.save node.facts ∧
      ∃ total, count = .ok total := by
  induction h with
  | nil node => exact ⟨hsettled, rfl, 0, rfl⟩
  | refused hsave =>
    rw [hsettled.isReady.saveRecord_eq] at hsave
    split at hsave <;> simp at hsave
  | @cons record rest node next final new count hsave _ ih =>
    obtain ⟨hnext, hfacts⟩ := hsave.spec hsettled hgrounded.1 hgrounded.2.1
    obtain ⟨hfinal, hmore, total, rfl⟩ := ih hnext (hsave.areGrounded hsettled.isReady hgrounded)
    exact ⟨hfinal, by rw [hmore, hfacts, List.foldl_cons], total + new.toNat, rfl⟩

/-- Records that are grounded in the store of a complete node leave it complete, and a watch of it
with all that saves keep. -/
theorem SavesAll.preserves_of_isComplete (h : SavesAll records node final count)
    (hcomplete : node.IsComplete)
    (hgrounded : Record.AreGrounded (fun fact => node.facts.contains fact = true) records)
    (hmotive : KeptBySaves motive) (hwatch : node.watch? id = some watch)
    (hholds : motive node.facts watch) :
    final.IsComplete ∧
      ∃ watch', final.watch? id = some watch' ∧ motive final.facts watch' := by
  induction h generalizing watch with
  | nil node => exact ⟨hcomplete, watch, hwatch, hholds⟩
  | refused hsave =>
    rw [hcomplete.saveRecord_eq] at hsave
    split at hsave <;> simp at hsave
  | @cons record rest node next final new count hsave _ ih =>
    have hnext := hsave.isComplete hcomplete hgrounded.1 hgrounded.2.1
    obtain ⟨watch', hwatch', hholds'⟩ :=
      hsave.preserves_of_isComplete hcomplete hgrounded.1 hgrounded.2.1 hmotive hwatch hholds
    exact ih hnext (hsave.areGrounded hcomplete.toIsReady hgrounded) hwatch' hholds'

theorem SavesAll.preserves (h : SavesAll records node final count) (hsettled : node.IsSettled)
    (hgrounded : Record.AreGrounded (fun fact => node.facts.contains fact = true) records)
    (hmotive : KeptBySaves motive) (hwatch : node.watch? id = some watch)
    (hholds : motive node.facts watch) :
    ∃ watch', final.watch? id = some watch' ∧ motive final.facts watch' :=
  (h.preserves_of_isComplete hsettled.isComplete hgrounded hmotive hwatch hholds).2

end Node

end LiveFacts
