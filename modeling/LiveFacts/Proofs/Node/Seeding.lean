import LiveFacts.Network
import LiveFacts.Proofs.Node.Saves

/-!
# How a watch begins

A watch is registered, given the results that there are, and goes live. Without a network all of
this concerns the new watch alone.
-/

namespace LiveFacts

theorem Keyed.find?_insert_self {α : Type} (key : String) (value : α) (entries : Keyed α) :
    (entries.insert key value).find? key = some value := by
  induction entries with
  | nil => simp [Keyed.insert, Keyed.find?]
  | cons entry rest ih =>
    obtain ⟨other, old⟩ := entry
    rw [Keyed.insert]
    split
    · simp [Keyed.find?]
    · split
      · simp [Keyed.find?]
      · next hne =>
        have hkey : (key == other) = false := beq_eq_false_iff_ne.2 hne
        rw [Keyed.find?, List.lookup_cons, hkey]
        exact ih

namespace Node

structure Spares (id : Nat) (a b : Node) : Prop extends SameSetup a b where
  facts : a.facts = b.facts
  others : ∀ other, other ≠ id → a.watch? other = b.watch? other

theorem Spares.refl (id : Nat) (node : Node) : Spares id node node :=
  ⟨SameSetup.refl node, rfl, fun _ _ => rfl⟩

theorem Spares.trans {id : Nat} {a b c : Node} (hab : Spares id a b) (hbc : Spares id b c) :
    Spares id a c where
  toSameSetup := hab.toSameSetup.trans hbc.toSameSetup
  facts := hab.facts.trans hbc.facts
  others := fun other hother => (hab.others other hother).trans (hbc.others other hother)

theorem Spares.isReady {id : Nat} {a b : Node} (h : Spares id a b) (hready : b.IsReady) :
    a.IsReady :=
  hready.of_sameSetup h.toSameSetup (h.facts ▸ hready.sound)

theorem Spares.isSettled {id : Nat} {a b : Node} (h : Spares id a b) (hsettled : b.IsSettled) :
    a.IsSettled :=
  hsettled.of_sameSetup h.toSameSetup h.facts

theorem spares_modifyWatch {change : Watch → Watch} (hid : ∀ watch, (change watch).id = watch.id)
    (node : Node) (id : Nat) : Spares id (node.modifyWatch id change) node := by
  refine ⟨(alike_modifyWatch hid node id).sameSetup, rfl, fun other hother => ?_⟩
  rw [watch?_modifyWatch hid]
  cases hwatch : node.watch? other with
  | none => rfl
  | some watch => simp [id_of_watch? hwatch, hother]

theorem id_advance (phase : Phase) (watch : Watch) : (watch.advance phase).id = watch.id := by
  rw [Watch.advance]
  split <;> rfl

theorem id_stop (watch : Watch) : watch.stop.id = watch.id := rfl

theorem spares_warn (id : Nat) (warning : Warning) (node : Node) :
    Spares id (node.warn warning) node :=
  ⟨⟨rfl, rfl, rfl, rfl, rfl⟩, rfl, fun _ _ => rfl⟩

theorem spares_openConnection (id : Nat) (node : Node) : Spares id node.openConnection.1 node := by
  rw [openConnection]
  split
  · exact Spares.refl id node
  · exact ⟨⟨rfl, rfl, rfl, rfl, rfl⟩, rfl, fun _ _ => rfl⟩

theorem spares_closeConnection (id connection : Nat) (node : Node) :
    Spares id (node.closeConnection connection) node :=
  ⟨⟨rfl, rfl, rfl, rfl, rfl⟩, rfl, fun _ _ => rfl⟩

theorem spares_lookup (id connection : Nat) (start : Reference) (query : Query) (node : Node) :
    Spares id (node.lookup connection start query).1 node :=
  ⟨⟨rfl, rfl, rfl, rfl, rfl⟩, rfl, fun _ _ => rfl⟩

theorem advance_frame (phase : Phase) (watch : Watch) :
    Watch.SameTask (watch.advance phase) watch ∧ (watch.advance phase).results = watch.results ∧
      (watch.advance phase).events = watch.events := by
  rw [Watch.advance]
  split
  · exact ⟨Watch.SameTask.refl watch, rfl, rfl⟩
  · exact ⟨⟨rfl, rfl, rfl, rfl, rfl⟩, rfl, rfl⟩

theorem isStopped_advance_live (watch : Watch) :
    (watch.advance .live).isStopped = watch.isStopped := by
  rw [Watch.advance]
  split
  · rfl
  · next h => simpa [Watch.isStopped] using h

theorem spares_seed (node : Node) (id : Nat) (start : Reference) (query : Query) :
    Spares id (node.seed id start query).1 node := by
  have hopened := spares_openConnection id node
  rw [seed]
  split
  · next opened hopen =>
    rw [hopen] at hopened
    exact (spares_warn id .noStorageToSeed opened).trans hopened
  · next opened connection hopen =>
    rw [hopen] at hopened
    have hlooked := (spares_lookup id connection start query opened).trans hopened
    split
    · next looked _ hlookup =>
      rw [hlookup] at hlooked
      have hwarned := (spares_warn id .seedingFailed looked).trans hlooked
      exact (spares_closeConnection id connection _).trans hwarned
    · next looked paths hlookup =>
      rw [hlookup] at hlooked
      have hdelivered :=
        (spares_modifyWatch (id_deliverAll .added (terminals paths)) looked id).trans hlooked
      dsimp only
      split
      · exact hdelivered
      · exact (spares_closeConnection id connection _).trans hdelivered

theorem watch?_seed {node : Node} {id : Nat} {watch : Watch}
    (hwatch : node.watch? id = some watch) (start : Reference) (query : Query) :
    ∃ taken, (node.seed id start query).1.watch? id = some (watch.takeAll taken) := by
  have hopened := (spares_openConnection (id + 1) node).others id (by omega)
  rw [seed]
  split
  · next opened hopen =>
    rw [hopen] at hopened
    exact ⟨[], hopened.trans hwatch⟩
  · next opened connection hopen =>
    rw [hopen] at hopened
    have hlooked := (spares_lookup (id + 1) connection start query opened).others id (by omega)
    split
    · next looked _ hlookup =>
      rw [hlookup] at hlooked
      exact ⟨[], (hlooked.trans hopened).trans hwatch⟩
    · next looked paths hlookup =>
      rw [hlookup] at hlooked
      obtain ⟨taken, -, htaken, -⟩ := watch.exists_deliverAll_eq .added (terminals paths)
      have hdelivered : (looked.modifyWatch id
          fun watch => (watch.deliverAll .added (terminals paths)).1).watch? id =
            some (watch.takeAll taken) := by
        rw [watch?_modifyWatch (id_deliverAll .added _), (hlooked.trans hopened).trans hwatch,
          Option.map_some, if_pos (id_of_watch? hwatch), htaken]
      dsimp only
      split
      · exact ⟨taken, hdelivered⟩
      · exact ⟨taken, hdelivered⟩

/-- A watch whose listener does not fail is given what its query finds, which is nothing if the
lookup fails. -/
theorem seed_eq {node : Node} {id : Nat} {watch : Watch} (hfaults : node.faults = {})
    (hwatch : node.watch? id = some watch) (hlistener : watch.listener.NeverPanics)
    (start : Reference) (query : Query) :
    (node.seed id start query).2 = false ∧
      (node.seed id start query).1.watch? id =
        some (watch.takeAll ((node.facts.found query start).map (Event.mk .added))) := by
  have hopening : node.faults.opening = false := by rw [hfaults]
  obtain ⟨opened, hopened⟩ : ∃ opened : Node, opened =
      { node with
        storage := node.storage.openConnection.1
        journal := node.journal ++ [.opened node.storage.connections.length] } := ⟨_, rfl⟩
  have hopen : node.openConnection = (opened, some node.storage.connections.length) := by
    simp [openConnection, hopening, hopened, Storage.openConnection]
  have hround : Round.IsOpen ⟨start, node.storage.connections.length⟩ opened :=
    ⟨by rw [hopened, hfaults], by simp [hopened, Storage.isOpen, Storage.openConnection]⟩
  have hfacts : opened.facts = node.facts := by rw [hopened]; rfl
  have hsame : ∀ journal, Node.watch? { opened with journal } id = some watch := by
    intro journal
    rw [hopened]
    exact hwatch
  obtain ⟨journal, result, hlookup, hresult⟩ := hround.exists_lookup query
  dsimp only at hlookup hresult
  rw [hfacts] at hresult
  rcases hresult with ⟨paths, rfl, hfound⟩ | ⟨⟨error, rfl⟩, hnone⟩
  · obtain ⟨taken, -, htaken, hall⟩ := watch.exists_deliverAll_eq .added (terminals paths)
    obtain ⟨rfl, hpanics⟩ := hall hlistener
    have hafter : (Node.modifyWatch id
        (fun watch => (watch.deliverAll .added (terminals paths)).1)
        { opened with journal }).watch? id =
          some (watch.takeAll ((terminals paths).map (Event.mk .added))) := by
      rw [watch?_modifyWatch (id_deliverAll .added _), hsame, Option.map_some,
        if_pos (id_of_watch? hwatch), htaken]
    simp only [seed, hopen, hlookup, hsame, Option.any_some, hpanics, ← hfound]
    exact ⟨rfl, hafter⟩
  · have hafter : Node.watch? { opened with journal } id = some watch := hsame journal
    simp only [seed, hopen, hlookup, hnone, List.map_nil, Watch.takeAll_nil]
    exact ⟨trivial, hafter⟩

/-- Whatever happens while a watch is seeded, it takes up some changes, and unless its listener
fails what the query finds. -/
theorem exists_taken_of_seed {node : Node} {id : Nat} {watch : Watch} (hfaults : node.faults = {})
    (hwatch : node.watch? id = some watch) (start : Reference) (query : Query) :
    ∃ taken, (node.seed id start query).1.watch? id = some (watch.takeAll taken) ∧
      (watch.listener.NeverPanics → (node.seed id start query).2 = false ∧
        taken = (node.facts.found query start).map (Event.mk .added)) := by
  by_cases hlistener : watch.listener.NeverPanics
  · obtain ⟨hpanicked, htaken⟩ := seed_eq hfaults hwatch hlistener start query
    exact ⟨_, htaken, fun _ => ⟨hpanicked, rfl⟩⟩
  · obtain ⟨taken, htaken⟩ := watch?_seed hwatch start query
    exact ⟨taken, htaken, fun h => absurd h hlistener⟩

def begun (start : Reference) (query : Query) (listener : Listener) (node : Node) : Node :=
  (node.register start query listener).1.modifyWatch (node.watches.length + 1) (·.advance .seeding)

variable {node : Node} {start : Reference} {query : Query} {listener : Listener}

theorem watch?_register {id : Nat} {watch : Watch} (h : node.watch? id = some watch) :
    (node.register start query listener).1.watch? id = some watch := by
  rw [watch?] at h
  simp [watch?, register, List.find?_append, h]

theorem IsReady.id_le (hready : node.IsReady) {id : Nat} {watch : Watch}
    (h : node.watch? id = some watch) : id ≤ node.watches.length := by
  obtain ⟨hmem, rfl⟩ := hready.watch?_eq_some_iff.1 h
  have hid : watch.id ∈ node.watches.map Watch.id := List.mem_map_of_mem hmem
  rw [hready.ids, List.mem_range'_1] at hid
  omega

/-- A new watch gets the next number. -/
theorem map_id_register (hids : node.watches.map Watch.id = List.range' 1 node.watches.length) :
    (node.register start query listener).1.watches.map Watch.id =
      List.range' 1 (node.register start query listener).1.watches.length := by
  simp only [Node.register, List.map_append, List.map_cons, List.map_nil, List.length_append,
    List.length_cons, List.length_nil, hids]
  rw [List.range'_1_concat, Nat.add_comm 1]

theorem IsReady.register (hready : node.IsReady) :
    (node.register start query listener).1.IsReady :=
  ⟨hready.faults, hready.sound, map_id_register hready.ids⟩

theorem spares_begun :
    Spares (node.watches.length + 1) (node.begun start query listener)
      (node.register start query listener).1 :=
  spares_modifyWatch (id_advance .seeding) _ _

theorem IsReady.watch?_begun (hready : node.IsReady) :
    (node.begun start query listener).watch? (node.watches.length + 1) =
      some { id := node.watches.length + 1, start, query, listener, phase := .seeding } := by
  have hregistered : (node.register start query listener).1.IsReady := hready.register
  have hfound : (node.register start query listener).1.watch? (node.watches.length + 1) =
      some { id := node.watches.length + 1, start, query, listener } :=
    hregistered.watch?_eq_some_iff.2 ⟨List.mem_append_right _ (List.mem_singleton_self _), rfl⟩
  rw [begun, watch?_modifyWatch (id_advance .seeding), hfound]
  simp [Watch.advance, Watch.isStopped]

end Node

namespace World

open Node

variable {name : String} {world next final : World}

@[simp] theorem node_setNode (name : String) (node : Node) (world : World) :
    (world.setNode name node).node name = node := by
  simp [World.node, setNode, Keyed.find?_insert_self]

@[simp] theorem node_modifyNode (name : String) (change : Node → Node) (world : World) :
    (world.modifyNode name change).node name = change (world.node name) := by
  rw [modifyNode, node_setNode]

/-- A call for a watch at a node without a network: the watch begins, is seeded, and goes live
unless its listener fails. -/
theorem watch_eq (hnetwork : (world.node name).network? = none) (start : Reference)
    (query : Query) (listener : Listener) :
    let id := (world.node name).watches.length + 1
    let seeded := ((world.node name).begun start query listener).seed id start query
    ((world.watch name start query listener).1.node name =
      if seeded.2 then seeded.1
      else (seeded.1.modifyWatch id (·.advance .live)).modifyWatch id
        fun watch => { watch with held := true }) ∧
    (world.watch name start query listener).2 =
      if seeded.2 then .panicked else .handle id := by
  intro id seeded
  have hnone : seeded.1.network? = none :=
    ((spares_seed _ _ start query).network?.trans spares_begun.network?).trans hnetwork
  rw [watch]
  dsimp only
  split
  · next changed hpanicked =>
    have hseeded : seeded = (changed, true) := hpanicked
    simp [hseeded]
  · next changed hcalm =>
    have hseeded : seeded = (changed, false) := hcalm
    rw [hseeded] at hnone
    have hmirror : (world.setNode name (changed.modifyWatch id (·.advance .live))).mirror name start
        query = world.setNode name (changed.modifyWatch id (·.advance .live)) := by
      rw [mirror, node_setNode]
      have hstill : (changed.modifyWatch id (·.advance .live)).network? = none := hnone
      rw [hstill]
    have hid : ((world.node name).register start query listener).2 = id := rfl
    simp only [hid, hseeded, hmirror, ite_self]
    simp

end World

end LiveFacts
