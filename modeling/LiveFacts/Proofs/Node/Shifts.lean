import LiveFacts.Proofs.Latch.Interleavings
import LiveFacts.Proofs.Node.Watches

/-!
# Rounds whose units take turns

A node runs each unit of a round to its end. Here the units of a round take their steps in any
order: one may wait for its lookup while others run, enter further units between them, tell a watch
of one fact when another unit has stopped it since, fail while it tells, or be dropped. Whoever
started the round enters the first units, waits for all of them on their latch, and closes the
connection.

While a unit is under way the connection is open, and when it is closed, for which there is one time
only, no unit is left that could use it.
-/

namespace LiveFacts

def Round.IsUse (round : Round) (access : Access) : Prop :=
  ∃ query refused, access = .lookup round.connection round.fact query refused

inductive Duty where
  | whole (work : Work)
  /-- The watch was active, and whether it is affected is to be looked up. -/
  | check (watch : Nat) (inverse : Inverse)
  /-- The watch is affected, and further units are to be entered. -/
  | enter (units : List Work)
  /-- The watch is to be told of what was looked up, one fact at a time. -/
  | tell (watch : Nat) (change : Change) (facts : List Reference)
  | nothing
  deriving DecidableEq

namespace Duty

def step (round : Round) (node : Node) : Duty → Node × Duty
  | whole (.check id inverse) =>
    if (node.watch? id).any (!·.isStopped) then (node, check id inverse) else (node, nothing)
  | whole (.deliver id change query) =>
    match node.lookup round.connection round.fact query with
    | (node, .error _) => (node.warn .resultLookupFailed, nothing)
    | (node, .ok paths) => (node, tell id change (terminals paths))
  | check id inverse =>
    match node.lookup round.connection round.fact inverse.affected with
    | (node, .error _) => (node.warn .affectedLookupFailed, nothing)
    | (node, .ok paths) =>
      if (node.watch? id).any fun watch => (terminals paths).contains watch.start then
        (node, enter (Work.deliveries id inverse))
      else (node, nothing)
  | tell id change (fact :: rest) =>
    let panicked := (node.watch? id).any fun watch => (watch.deliver change fact).2
    (node.modifyWatch id fun watch => (watch.deliver change fact).1,
      if panicked then nothing else tell id change rest)
  | tell _ _ [] => (node, nothing)
  | enter units => (node, enter units)
  | nothing => (node, nothing)

variable (round : Round) (node : Node)

theorem step_lookup (query : Query) :
    (node.lookup round.connection round.fact query).1.storage = node.storage ∧
      ∃ uses, (∀ use ∈ uses, round.IsUse use) ∧
        (node.lookup round.connection round.fact query).1.journal = node.journal ++ uses := by
  let refused := node.faults.refusesLookup query
  refine ⟨rfl, [.lookup round.connection round.fact query refused], ?_, rfl⟩
  intro use huse
  rw [List.mem_singleton.1 huse]
  exact ⟨_, _, rfl⟩

/-- A step leaves the storage as it is, and uses the connection for lookups only. -/
theorem step_spec (duty : Duty) :
    (duty.step round node).1.storage = node.storage ∧
      ∃ uses, (∀ use ∈ uses, round.IsUse use) ∧
        (duty.step round node).1.journal = node.journal ++ uses := by
  have hnone : ∃ uses, (∀ use ∈ uses, round.IsUse use) ∧ node.journal = node.journal ++ uses :=
    ⟨[], nofun, (List.append_nil _).symm⟩
  cases duty with
  | whole work =>
    cases work with
    | check id inverse =>
      rw [step]
      split <;> exact ⟨rfl, hnone⟩
    | deliver id change query =>
      have hlooked := step_lookup round node query
      rw [step]
      split <;> next hlookup => rwa [hlookup] at hlooked
  | check id inverse =>
    have hlooked := step_lookup round node inverse.affected
    rw [step]
    split
    · next hlookup => rwa [hlookup] at hlooked
    · next hlookup =>
      rw [hlookup] at hlooked
      split <;> exact hlooked
  | tell id change facts =>
    cases facts with
    | nil => exact ⟨rfl, hnone⟩
    | cons fact rest => exact ⟨rfl, hnone⟩
  | enter units => exact ⟨rfl, hnone⟩
  | nothing => exact ⟨rfl, hnone⟩

end Duty

/-- A round has opened one connection since the node was as before, and used it for its lookups
only. It has closed it once, after all of these, or it is open. -/
structure Round.HasUsed (round : Round) (before node : Node) (isClosed : Bool) : Prop where
  connection : round.connection = before.storage.connections.length
  connections : node.storage.connections = before.storage.connections ++ [!isClosed]
  journal : ∃ uses, (∀ use ∈ uses, round.IsUse use) ∧
    node.journal = before.journal ++ .opened round.connection :: uses ++
      if isClosed then [.closed round.connection] else []

namespace Round.HasUsed

variable {round : Round} {before node next : Node}

theorem of_eq {isClosed : Bool} (h : round.HasUsed before node isClosed)
    (hconnections : next.storage.connections = node.storage.connections)
    (hjournal : next.journal = node.journal) : round.HasUsed before next isClosed :=
  ⟨h.connection, hconnections.trans h.connections, by rw [hjournal]; exact h.journal⟩

theorem step (h : round.HasUsed before node false) (duty : Duty) :
    round.HasUsed before (duty.step round node).1 false := by
  obtain ⟨hstorage, uses, huses, hjournal⟩ := duty.step_spec round node
  obtain ⟨earlier, hearlier, hbefore⟩ := h.journal
  refine ⟨h.connection, by rw [hstorage, h.connections], earlier ++ uses, ?_, ?_⟩
  · intro use huse
    exact (List.mem_append.1 huse).elim (hearlier use) (huses use)
  · rw [hjournal, hbefore]
    simp

theorem close (h : round.HasUsed before node false) :
    round.HasUsed before (node.closeConnection round.connection) true := by
  obtain ⟨uses, huses, hjournal⟩ := h.journal
  refine ⟨h.connection, ?_, uses, huses, ?_⟩
  · simp [Node.closeConnection, Storage.closeConnection, h.connections, h.connection]
  · rw [Node.closeConnection, hjournal]
    simp

theorem isOpen (h : round.HasUsed before node false) :
    node.storage.isOpen round.connection = true := by
  simp [Storage.isOpen, h.connections, h.connection]

theorem openCount (h : round.HasUsed before node true) :
    node.storage.openCount = before.storage.openCount := by
  simp [Storage.openCount, h.connections]

end Round.HasUsed

namespace Node

def IsUnconcerned (fact : Reference) (node : Node) : Prop :=
  ∀ watch ∈ node.activeWatches, ∀ inverse ∈ watch.inverses, inverse.appliesTo fact.type = false

instance (fact : Reference) (node : Node) : Decidable (node.IsUnconcerned fact) :=
  inferInstanceAs (Decidable (∀ watch ∈ node.activeWatches, ∀ inverse ∈ watch.inverses,
    inverse.appliesTo fact.type = false))

variable {node opened : Node} {fact : Reference}

theorem triggered_eq_nil_iff : node.triggered fact = [] ↔ node.IsUnconcerned fact := by
  simp [triggered, IsUnconcerned, List.flatMap_eq_nil_iff, List.filter_eq_nil_iff]

theorem startRound_of_isUnconcerned (h : node.IsUnconcerned fact) :
    node.startRound fact = (node, none) := by
  rw [startRound, triggered_eq_nil_iff.2 h]
  rfl

/-- No round is started only if the fact calls for none or no connection can be opened. -/
theorem of_startRound_none (h : node.startRound fact = (opened, none)) :
    (node.IsUnconcerned fact ∨ node.faults.opening = true) ∧
      opened.storage = node.storage ∧ opened.journal = node.journal := by
  rw [startRound] at h
  split at h
  · next hnone =>
    cases h
    exact ⟨Or.inl (triggered_eq_nil_iff.1 (List.isEmpty_iff.1 hnone)), rfl, rfl⟩
  · rw [openConnection] at h
    split at h
    · next hopen =>
      split at hopen
      · next hfails =>
        cases hopen
        cases h
        exact ⟨Or.inr hfails, rfl, rfl⟩
      · cases hopen
    · cases h

theorem of_startRound_some {round : Round} {pool : List Work}
    (h : node.startRound fact = (opened, some (round, pool))) :
    round.HasUsed node opened false ∧ opened.watches = node.watches := by
  rw [startRound] at h
  split at h
  · cases h
  · rw [openConnection] at h
    split at h
    · cases h
    · next hopen =>
      split at hopen
      · cases hopen
      · cases hopen
        cases h
        exact ⟨⟨rfl, rfl, [], by simp, by simp⟩, rfl⟩

end Node

inductive Caller where
  /-- Has units still to enter. -/
  | entering (pool : List Work)
  | waiting
  /-- Has closed the connection. -/
  | gone
  deriving DecidableEq

namespace Caller

def isGone : Caller → Bool
  | gone => true
  | entering _ | waiting => false

/-- What the crew has come to when the caller has come so far: nobody waits, or the caller does or
has been let go since all units were left, and then all were. -/
def Suits (crew : Crew) : Caller → Prop
  | entering _ => crew.arrivals = 0
  | waiting => crew.arrivals = 1 ∧ (0 ∈ crew.latch.armed ∨ crew.IsDone)
  | gone => crew.IsDone

end Caller

def Crew.Act.isTurn : Crew.Act → Bool
  | .start _ | .leave _ _ | .check _ | .call _ false => true
  | .push _ | .await | .call _ true => false

/-- A round under way: those who share its latch, each with what it has still to do, and the caller.
Whoever only checks the latch has nothing else to do. -/
structure Shift where
  node : Node
  crew : Crew := {}
  duties : List Duty := []
  caller : Caller

namespace Shift

def begin (node : Node) (pool : List Work) : Shift :=
  { node, caller := .entering pool }

/-- One step of anyone. A unit may be left at any time: when it has done its duty, when a listener
has failed, or when it is dropped. In the meantime anything may happen to the node that does not use
connections: watches are registered and stopped, facts are saved, and lookups are made to fail. -/
inductive Moves (round : Round) : Shift → Shift → Prop
  | enter {shift : Shift} {work : Work} {pool : List Work} {crew : Crew}
      (hcaller : shift.caller = .entering (work :: pool))
      (hcrew : Crew.Moves shift.crew (.push none) crew) :
      Moves round shift
        { shift with crew, duties := shift.duties ++ [.whole work], caller := .entering pool }
  | await {shift : Shift} {crew : Crew} (hcaller : shift.caller = .entering [])
      (hcrew : Crew.Moves shift.crew .await crew) :
      Moves round shift
        { shift with crew, duties := shift.duties ++ [.nothing], caller := .waiting }
  | step {shift : Shift} {member : Nat} {duty : Duty}
      (hrunning : shift.crew.members[member]? = some .running)
      (hduty : shift.duties[member]? = some duty) :
      Moves round shift
        { shift with
          node := (duty.step round shift.node).1
          duties := shift.duties.set member (duty.step round shift.node).2 }
  | branch {shift : Shift} {member : Nat} {work : Work} {rest : List Work} {crew : Crew}
      (hduty : shift.duties[member]? = some (.enter (work :: rest)))
      (hcrew : Crew.Moves shift.crew (.push (some member)) crew) :
      Moves round shift
        { shift with
          crew
          duties := shift.duties.set member (.enter rest) ++ [.whole work] }
  | turn {shift : Shift} {act : Crew.Act} {crew : Crew} (hturn : act.isTurn = true)
      (hcrew : Crew.Moves shift.crew act crew) :
      Moves round shift { shift with crew }
  | close {shift : Shift} (hcaller : shift.caller = .waiting) (hcalled : 0 ∈ shift.crew.called) :
      Moves round shift
        { shift with node := shift.node.closeConnection round.connection, caller := .gone }
  | meanwhile {shift : Shift} {node : Node}
      (hconnections : node.storage.connections = shift.node.storage.connections)
      (hjournal : node.journal = shift.node.journal) :
      Moves round shift { shift with node }

abbrev Reaches (round : Round) : Shift → Shift → Prop :=
  Relation.ReflTransGen (Moves round)

end Shift

section Crews

variable {crew next : Crew} {act : Crew.Act}

theorem Crew.Moves.missed_eq_nil (hmove : Crew.Moves crew act next) (hmissed : crew.missed = [])
    (hcalm : ∀ member, act ≠ .call member true) : next.missed = [] := by
  cases hmove with
  | @panic member => exact absurd rfl (hcalm member)
  | push | start | leave | await | check | call => exact hmissed

theorem Crew.Moves.arrivals_eq (hmove : Crew.Moves crew act next) (hact : act ≠ .await) :
    next.arrivals = crew.arrivals := by
  cases hmove with
  | await => exact absurd rfl hact
  | push | start | leave | check | call | panic => rfl

/-- The crew goes on to suit the caller, whatever its members do. -/
theorem Caller.Suits.move {caller : Caller} (h : caller.Suits crew) (hsound : crew.IsSound)
    (hmove : Crew.Moves crew act next) (hawait : act ≠ .await) (hpush : act ≠ .push none) :
    caller.Suits next := by
  have harrivals := hmove.arrivals_eq hawait
  cases caller with
  | entering pool => exact harrivals.trans h
  | waiting =>
    refine ⟨harrivals.trans h.1, ?_⟩
    rcases h.2 with harmed | hdone
    · by_cases hfree : 0 ∈ next.latch.armed
      · exact Or.inl hfree
      -- Only a check lets the caller go, and it finds that no unit is under way.
      · have hdone := (hmove.isDone_of_free hsound harmed hfree).2
        exact Or.inr (hmove.isDone hdone hpush)
    · exact Or.inr (hmove.isDone hdone hpush)
  | gone => exact hmove.isDone h hpush

end Crews

namespace Shift

structure IsSound (round : Round) (before : Node) (shift : Shift) : Prop where
  sound : shift.crew.IsSound
  missed : shift.crew.missed = []
  suits : shift.caller.Suits shift.crew
  used : round.HasUsed before shift.node shift.caller.isGone

namespace IsSound

variable {round : Round} {before : Node} {shift next : Shift}

/-- A unit is under way only before the connection is closed. -/
theorem isGone_eq_false (h : shift.IsSound round before) {stage : Stage}
    (hstage : stage ∈ shift.crew.members) (hunder : stage.isUnderWay = true) :
    shift.caller.isGone = false := by
  cases hcaller : shift.caller with
  | entering pool => rfl
  | waiting => rfl
  | gone =>
    have hdone := h.suits
    rw [hcaller] at hdone
    rw [hdone stage hstage] at hunder
    cases hunder

theorem begin {node : Node} (h : round.HasUsed before node false) (pool : List Work) :
    (Shift.begin node pool).IsSound round before :=
  ⟨Crew.IsSound.empty, rfl, rfl, h⟩

theorem isDone (h : shift.IsSound round before) (hcaller : shift.caller = .waiting)
    (hcalled : 0 ∈ shift.crew.called) : shift.crew.IsDone := by
  have hsuits := h.suits
  rw [hcaller] at hsuits
  exact hsuits.2.resolve_left (h.sound.of_mem_called hcalled).2

theorem move (h : shift.IsSound round before) (hmove : Moves round shift next) :
    next.IsSound round before := by
  cases hmove with
  | @enter work pool crew hcaller hcrew =>
    have hsuits := h.suits
    have hused := h.used
    rw [hcaller] at hsuits hused
    exact ⟨h.sound.move hcrew, hcrew.missed_eq_nil h.missed (by simp),
      (hcrew.arrivals_eq (by simp)).trans hsuits, hused⟩
  | @await crew hcaller hcrew =>
    have hsuits := h.suits
    have hused := h.used
    rw [hcaller] at hsuits hused
    refine ⟨h.sound.move hcrew, hcrew.missed_eq_nil h.missed (by simp), ?_, hused⟩
    have hnobody : shift.crew.arrivals = 0 := hsuits
    cases hcrew with
    | await => exact ⟨by rw [hnobody], Or.inl (by simp [Latch.await, hnobody])⟩
  | @step member duty hrunning hduty =>
    -- The unit is under way, so the connection that it may use has not been closed.
    have hgone := h.isGone_eq_false (List.mem_of_getElem? hrunning) rfl
    have hused := h.used
    rw [hgone] at hused
    refine ⟨h.sound, h.missed, h.suits, ?_⟩
    dsimp only
    rw [hgone]
    exact hused.step duty
  | branch hduty hcrew =>
    exact ⟨h.sound.move hcrew, hcrew.missed_eq_nil h.missed (by simp),
      h.suits.move h.sound hcrew (by simp) (by simp), h.used⟩
  | @turn act crew hturn hcrew =>
    have hcalm : ∀ member, act ≠ .call member true := by
      rintro member rfl
      cases hturn
    have hawait : act ≠ .await := by
      rintro rfl
      cases hturn
    have hpush : act ≠ .push none := by
      rintro rfl
      cases hturn
    exact ⟨h.sound.move hcrew, hcrew.missed_eq_nil h.missed hcalm,
      h.suits.move h.sound hcrew hawait hpush, h.used⟩
  | close hcaller hcalled =>
    have hused := h.used
    rw [hcaller] at hused
    exact ⟨h.sound, h.missed, h.isDone hcaller hcalled, hused.close⟩
  | meanwhile hconnections hjournal =>
    exact ⟨h.sound, h.missed, h.suits, h.used.of_eq hconnections hjournal⟩

theorem reaches (h : shift.IsSound round before) (hreaches : Reaches round shift next) :
    next.IsSound round before := by
  induction hreaches with
  | refl => exact h
  | tail _ hmove ih => exact ih.move hmove

end IsSound

/-- What a round makes of its connection: while a unit is under way it is open; once the caller has
closed it, none is, and as many connections are open as before. The caller is let go once everything
else has been done. -/
structure IsDisciplined (round : Round) (before : Node) (shift : Shift) : Prop where
  used : round.HasUsed before shift.node shift.caller.isGone
  isOpen : ∀ stage ∈ shift.crew.members, stage.isUnderWay = true →
    shift.node.storage.isOpen round.connection = true
  ended : shift.caller = .gone →
    shift.crew.IsDone ∧ shift.node.storage.openCount = before.storage.openCount
  letGo : shift.caller = .waiting → (∀ stage ∈ shift.crew.members, stage = .past) →
    0 ∈ shift.crew.called

theorem IsSound.isDisciplined {round : Round} {before : Node} {shift : Shift}
    (h : shift.IsSound round before) : shift.IsDisciplined round before where
  used := h.used
  isOpen := by
    intro stage hstage hunder
    have hused := h.used
    rw [h.isGone_eq_false hstage hunder] at hused
    exact hused.isOpen
  ended := by
    intro hcaller
    have hsuits := h.suits
    have hused := h.used
    rw [hcaller] at hsuits hused
    exact ⟨hsuits, hused.openCount⟩
  letGo := by
    intro hcaller hover
    have hsuits := h.suits
    rw [hcaller] at hsuits
    apply (h.sound.called_perm hover h.missed).mem_iff.2
    rw [hsuits.1]
    exact List.mem_singleton_self 0

end Shift

end LiveFacts
