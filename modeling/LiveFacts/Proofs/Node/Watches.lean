import Mathlib.Logic.Relation
import LiveFacts.Proofs.Node.Continuity
import LiveFacts.Proofs.Node.Runs
import LiveFacts.Proofs.Watch.Accounts

/-!
# What becomes of the watches of a node

Whatever a node does, its watches know it only by a few acts: a watch is registered, is delivered
changes, goes on to a phase, is put into the hands of whoever asked for it, and is stopped. The
units of rounds, the starts and ends of rounds, saves and the seeding of watches come down to such
acts, in whatever order they come, so that what holds after all acts holds after all of these.
-/

namespace LiveFacts

namespace Watch

inductive Goes (watch : Watch) : Watch → Prop
  | same : Goes watch watch
  | deliver (change : Change) (facts : List Reference) :
      Goes watch (watch.deliverAll change facts).1
  | advance (phase : Phase) : Goes watch (watch.advance phase)
  | hold : Goes watch { watch with held := true }
  | stop : Goes watch watch.stop

variable {watch next : Watch}

theorem Goes.id_eq (h : watch.Goes next) : next.id = watch.id := by
  cases h with
  | same => rfl
  | deliver change facts => exact Node.id_deliverAll change facts watch
  | advance phase => exact Node.id_advance phase watch
  | hold => rfl
  | stop => rfl

theorem IsAccounted.goes (h : watch.IsAccounted) (hgoes : watch.Goes next) : next.IsAccounted := by
  cases hgoes with
  | same => exact h
  | deliver change facts => exact h.deliverAll change facts
  | advance phase => exact h.advance phase
  | hold => exact h.of_eq rfl rfl rfl rfl rfl
  | stop => exact h.stop

theorem stop_of_isStopped (h : watch.isStopped = true) : watch.stop = watch := by
  have hphase : watch.phase = .stopped := by simpa [isStopped] using h
  rw [stop, ← hphase]

theorem deliverAll_of_isStopped (h : watch.isStopped = true) (change : Change)
    (facts : List Reference) : (watch.deliverAll change facts).1 = watch := by
  obtain ⟨taken, -, htaken, -⟩ := watch.exists_deliverAll_eq change facts
  rw [htaken, takeAll_of_isStopped h]

theorem deliverAll_append (change : Change) (p q : List Reference) (watch : Watch) :
    watch.deliverAll change (p ++ q) =
      if (watch.deliverAll change p).2 then watch.deliverAll change p
      else (watch.deliverAll change p).1.deliverAll change q := by
  induction p generalizing watch with
  | nil => rfl
  | cons fact rest ih =>
    rw [List.cons_append, deliverAll, deliverAll]
    split
    · rfl
    · exact ih _

/-- A watch that is stopped while it is delivered changes takes up no more of them. -/
theorem deliverAll_of_stops {change : Change} {earlier later : List Reference} {fact : Reference}
    {reached : Watch} (hreached : watch.deliverAll change earlier = (reached, false))
    (hstopped : (reached.deliver change fact).1.isStopped = true) :
    (watch.deliverAll change (earlier ++ fact :: later)).1 = (reached.deliver change fact).1 := by
  rw [deliverAll_append, hreached, if_neg Bool.false_ne_true, deliverAll]
  split
  · next hfails => rw [hfails]
  · next hgoes =>
    rw [hgoes] at hstopped ⊢
    exact deliverAll_of_isStopped hstopped change later

/-- No act changes what a stopped watch holds; it may only come into someone's hands. -/
theorem Goes.eq_of_isStopped (h : watch.Goes next) (hstopped : watch.isStopped = true) :
    next = { watch with held := next.held } := by
  cases h with
  | same => rfl
  | deliver change facts => rw [deliverAll_of_isStopped hstopped]
  | advance phase =>
    rw [Watch.advance, if_pos hstopped]
  | hold => rfl
  | stop => rw [stop_of_isStopped hstopped]

theorem isStopped_of_goes (h : Relation.ReflTransGen Goes watch next)
    (hstopped : watch.isStopped = true) :
    next.isStopped = true ∧ next = { watch with held := next.held } := by
  induction h with
  | refl => exact ⟨hstopped, rfl⟩
  | tail _ hlast ih =>
    obtain ⟨hmiddle, heq⟩ := ih
    have hnext := hlast.eq_of_isStopped hmiddle
    rw [heq] at hnext
    rw [hnext]
    exact ⟨hstopped, rfl⟩

end Watch

namespace Node

inductive Act where
  | register (start : Reference) (query : Query) (listener : Listener)
  | deliver (id : Nat) (change : Change) (facts : List Reference)
  | advance (id : Nat) (phase : Phase)
  | hold (id : Nat)
  | stop (id : Nat)

def act : Act → Node → Node
  | .register start query listener, node => (node.register start query listener).1
  | .deliver id change facts, node =>
    node.modifyWatch id fun watch => (watch.deliverAll change facts).1
  | .advance id phase, node => node.modifyWatch id (·.advance phase)
  | .hold id, node => node.modifyWatch id fun watch => { watch with held := true }
  | .stop id, node => node.stopWatch id

variable {node next final : Node}

/-- An act brings a new watch, or concerns the watch with a number. -/
theorem act_cases (act : Act) (node : Node) :
    (∃ start query listener, node.act act = (node.register start query listener).1) ∨
      ∃ id change, (∀ watch : Watch, watch.Goes (change watch)) ∧
        node.act act = node.modifyWatch id change := by
  cases act with
  | register start query listener => exact Or.inl ⟨start, query, listener, rfl⟩
  | deliver id change facts =>
    exact Or.inr ⟨id, _, fun _ => Watch.Goes.deliver change facts, rfl⟩
  | advance id phase => exact Or.inr ⟨id, _, fun _ => Watch.Goes.advance phase, rfl⟩
  | hold id => exact Or.inr ⟨id, _, fun _ => Watch.Goes.hold, rfl⟩
  | stop id => exact Or.inr ⟨id, _, fun _ => Watch.Goes.stop, rfl⟩

theorem map_id_act (act : Act) (h : node.watches.map Watch.id = List.range' 1 node.watches.length) :
    (node.act act).watches.map Watch.id = List.range' 1 (node.act act).watches.length := by
  rcases act_cases act node with ⟨start, query, listener, heq⟩ | ⟨id, change, hgoes, heq⟩
  · rw [heq]
    exact map_id_register h
  · have halike := alike_modifyWatch (fun watch => (hgoes watch).id_eq) node id
    rw [heq, halike.ids, h]
    simp [modifyWatch]

theorem mem_watches_act {act : Act} {watch : Watch} (h : watch ∈ (node.act act).watches) :
    (∃ id start query listener, watch = { id, start, query, listener }) ∨
      ∃ before ∈ node.watches, before.Goes watch := by
  rcases act_cases act node with ⟨start, query, listener, heq⟩ | ⟨id, change, hgoes, heq⟩
  · rw [heq] at h
    rcases List.mem_append.1 h with hold | hnew
    · exact Or.inr ⟨watch, hold, Watch.Goes.same⟩
    · exact Or.inl ⟨_, start, query, listener, List.mem_singleton.1 hnew⟩
  · rw [heq] at h
    obtain ⟨before, hbefore, rfl⟩ := List.mem_map.1 h
    refine Or.inr ⟨before, hbefore, ?_⟩
    split
    · exact hgoes before
    · exact Watch.Goes.same

theorem watch?_act (act : Act) {id : Nat} {watch : Watch} (h : node.watch? id = some watch) :
    ∃ after, (node.act act).watch? id = some after ∧ watch.Goes after := by
  rcases act_cases act node with ⟨start, query, listener, heq⟩ | ⟨other, change, hgoes, heq⟩
  · rw [heq]
    exact ⟨watch, watch?_register h, Watch.Goes.same⟩
  · rw [heq, watch?_modifyWatch (fun watch => (hgoes watch).id_eq), h, Option.map_some]
    refine ⟨_, rfl, ?_⟩
    split
    · exact hgoes watch
    · exact Watch.Goes.same

/-- The watches of the second node are what acts, one after another, make of those of the first. -/
inductive Becomes (node : Node) : Node → Prop
  | same {next : Node} : next.watches = node.watches → Becomes node next
  | act {next final : Node} (act : Act) : Becomes node next →
      final.watches = (next.act act).watches → Becomes node final

namespace Becomes

theorem refl (node : Node) : Becomes node node := same rfl

theorem of_act (act : Act) (h : next.watches = (node.act act).watches) : Becomes node next :=
  Becomes.act act (refl node) h

theorem of_watches_eq (h : Becomes node next) (heq : final.watches = next.watches) :
    Becomes node final := by
  cases h with
  | same hsame => exact same (heq.trans hsame)
  | act act hbefore hact => exact Becomes.act act hbefore (heq.trans hact)

theorem trans (h : Becomes node next) (hnext : Becomes next final) : Becomes node final := by
  induction hnext with
  | same heq => exact h.of_watches_eq heq
  | act act _ hact ih => exact Becomes.act act ih hact

theorem map_id (h : Becomes node next)
    (hids : node.watches.map Watch.id = List.range' 1 node.watches.length) :
    next.watches.map Watch.id = List.range' 1 next.watches.length := by
  induction h with
  | same heq => rwa [heq]
  | act act _ hact ih =>
    rw [hact]
    exact map_id_act act ih

/-- What holds of every new watch, and is kept by acts, goes on to hold of every watch. -/
theorem forall_mem {P : Watch → Prop} (h : Becomes node next)
    (hnew : ∀ id start query listener, P { id, start, query, listener })
    (hgoes : ∀ {watch after : Watch}, P watch → watch.Goes after → P after)
    (hall : ∀ watch ∈ node.watches, P watch) : ∀ watch ∈ next.watches, P watch := by
  induction h with
  | same heq => rwa [heq]
  | act act _ hact ih =>
    intro watch hwatch
    rw [hact] at hwatch
    rcases mem_watches_act hwatch with ⟨id, start, query, listener, rfl⟩ | ⟨before, hbefore, hafter⟩
    · exact hnew id start query listener
    · exact hgoes (ih before hbefore) hafter

/-- A watch stays under its number, and acts make it what it becomes. -/
theorem watch? (h : Becomes node next) {id : Nat} {watch : Watch}
    (hwatch : node.watch? id = some watch) :
    ∃ after, next.watch? id = some after ∧ Relation.ReflTransGen Watch.Goes watch after := by
  induction h with
  | same heq => exact ⟨watch, by rwa [Node.watch?, heq], Relation.ReflTransGen.refl⟩
  | @act next final act _ hact ih =>
    obtain ⟨middle, hmiddle, hgoes⟩ := ih
    obtain ⟨after, hafter, hlast⟩ := watch?_act act hmiddle
    have hfinal : final.watch? id = (next.act act).watch? id := by rw [Node.watch?, hact]; rfl
    exact ⟨after, hfinal.trans hafter, hgoes.tail hlast⟩

end Becomes

theorem becomes_openConnection (node : Node) : Becomes node node.openConnection.1 := by
  apply Becomes.same
  rw [openConnection]
  split <;> rfl

theorem becomes_startRound (node : Node) (fact : Reference) :
    Becomes node (node.startRound fact).1 := by
  have hopened := node.becomes_openConnection
  rw [startRound]
  split
  · exact Becomes.refl node
  · split
    · next opened hopen =>
      rw [hopen] at hopened
      exact hopened.of_watches_eq rfl
    · next opened connection hopen =>
      rw [hopen] at hopened
      exact hopened

theorem becomes_saveRecord (node : Node) (record : Record) :
    Becomes node (node.saveRecord record).1 := by
  apply Becomes.same
  rw [saveRecord]
  split
  · rfl
  · split <;> rfl

theorem becomes_lookup (node : Node) (connection : Nat) (start : Reference) (query : Query) :
    Becomes node (node.lookup connection start query).1 :=
  Becomes.same rfl

theorem becomes_run (round : Round) (node : Node) (work : Work) :
    Becomes node (round.run node work).1 := by
  cases work with
  | check id inverse =>
    have hlooked := node.becomes_lookup round.connection round.fact inverse.affected
    rw [Round.run]
    split
    · exact Becomes.refl node
    · split
      · exact Becomes.refl node
      · split
        · next looked _ hlookup =>
          rw [hlookup] at hlooked
          exact hlooked.of_watches_eq rfl
        · next looked paths hlookup =>
          rw [hlookup] at hlooked
          split <;> exact hlooked
  | deliver id change query =>
    have hlooked := node.becomes_lookup round.connection round.fact query
    rw [Round.run]
    split
    · next looked _ hlookup =>
      rw [hlookup] at hlooked
      exact hlooked.of_watches_eq rfl
    · next looked paths hlookup =>
      rw [hlookup] at hlooked
      exact Becomes.act (.deliver id change (terminals paths)) hlooked rfl

theorem becomes_steps : KeptBySteps Becomes where
  refl := Becomes.refl
  trans := Becomes.trans
  run := becomes_run
  start := becomes_startRound
  close := fun _ _ => Becomes.same rfl
  save := becomes_saveRecord

theorem becomes_seed (node : Node) (id : Nat) (start : Reference) (query : Query) :
    Becomes node (node.seed id start query).1 := by
  have hopened := node.becomes_openConnection
  rw [seed]
  split
  · next opened hopen =>
    rw [hopen] at hopened
    exact hopened.of_watches_eq rfl
  · next opened connection hopen =>
    rw [hopen] at hopened
    have hlooked := hopened.trans (opened.becomes_lookup connection start query)
    split
    · next looked _ hlookup =>
      rw [hlookup] at hlooked
      exact hlooked.of_watches_eq rfl
    · next looked paths hlookup =>
      rw [hlookup] at hlooked
      have hdelivered := Becomes.act (.deliver id .added (terminals paths)) hlooked rfl
      dsimp only
      split
      · exact hdelivered
      · exact hdelivered.of_watches_eq rfl

theorem becomes_query (node : Node) (start : Reference) (query : Query) :
    Becomes node (node.query start query).1 := by
  have hopened := node.becomes_openConnection
  rw [Node.query]
  split
  · next opened hopen =>
    rw [hopen] at hopened
    exact hopened
  · next opened connection hopen =>
    rw [hopen] at hopened
    exact hopened.of_watches_eq rfl

/-- In whatever order the units of a round run, the relation leads to its end. -/
theorem KeptByRounds.finishes {R : Node → Node → Prop} (hkept : KeptByRounds R) {round : Round}
    {pool : List Work} (h : round.Finishes node pool final) : R node final := by
  induction h with
  | done node => exact hkept.refl node
  | unit _ ih => exact hkept.trans (hkept.run round _ _) ih

/-- In whatever order the units of each round run, the relation leads to the end of all saves. -/
theorem KeptBySteps.savesAll {R : Node → Node → Prop} (hkept : KeptBySteps R)
    {records : List Record} {count : Except Error Nat} (h : SavesAll records node final count) :
    R node final := by
  have hpropagates : ∀ {fact : Reference} {node settled : Node},
      Propagates fact node settled → R node settled := by
    intro fact node settled hpropagates
    have hstarted := hkept.start node fact
    cases hpropagates with
    | calm hstart =>
      rw [hstart] at hstarted
      exact hstarted
    | round hstart hfinishes =>
      rw [hstart] at hstarted
      exact hkept.trans (hkept.trans hstarted (hkept.finishes hfinishes)) (hkept.close _ _)
  induction h with
  | nil node => exact hkept.refl node
  | @refused record _ node _ _ hsave =>
    have hsaved := hkept.save node record
    rw [hsave] at hsaved
    exact hsaved
  | @cons record _ node next _ _ _ hsaves _ ih =>
    have hsaved := hkept.save node record
    cases hsaves with
    | known hsave =>
      rw [hsave] at hsaved
      exact hkept.trans hsaved ih
    | new hsave hround =>
      rw [hsave] at hsaved
      exact hkept.trans (hkept.trans hsaved (hpropagates hround)) ih

end Node

end LiveFacts
