import LiveFacts.Proofs.Node.Shifts

/-!
# Rounds whose units run one by one

A node that runs the units of a round first in, first out takes, unit by unit, steps that the round
allows for. So what it makes of a round is the end of one of the ways that the round can go.
-/

namespace LiveFacts

/-- A check goes by whether the watch is active, and after its lookup by the start of the watch. -/
theorem Round.run_check (round : Round) (node : Node) (id : Nat) (inverse : Inverse) :
    round.run node (.check id inverse) =
      if (node.watch? id).any (!·.isStopped) then
        match node.lookup round.connection round.fact inverse.affected with
        | (looked, .error _) => (looked.warn .affectedLookupFailed, [])
        | (looked, .ok paths) =>
          if (looked.watch? id).any fun watch => (terminals paths).contains watch.start then
            (looked, Work.deliveries id inverse)
          else (looked, [])
      else (node, []) := by
  have hlooked : (node.lookup round.connection round.fact inverse.affected).1.watch? id =
      node.watch? id := rfl
  rw [run]
  cases hwatch : node.watch? id with
  | none => rfl
  | some watch =>
    rw [hwatch] at hlooked
    cases hstopped : watch.isStopped with
    | true => simp [hstopped]
    | false =>
      simp only [Option.any_some, hstopped, Bool.not_false, Bool.false_eq_true, if_false, if_true]
      rcases hlookup : node.lookup round.connection round.fact inverse.affected with
        ⟨looked, error | paths⟩
      · rfl
      · rw [hlookup] at hlooked
        simp only [hlooked, Option.any_some]

namespace Node

variable {node : Node}

theorem modifyWatch_congr
    (hids : node.watches.map Watch.id = List.range' 1 node.watches.length) {id : Nat}
    {change other : Watch → Watch}
    (h : ∀ watch, node.watch? id = some watch → change watch = other watch) :
    node.modifyWatch id change = node.modifyWatch id other := by
  rw [modifyWatch, modifyWatch]
  congr 1
  apply List.map_congr_left
  intro watch hwatch
  split
  · next hid => exact h watch ((watch?_eq_some_iff hids).2 ⟨hwatch, hid⟩)
  · rfl

theorem modifyWatch_modifyWatch {change : Watch → Watch}
    (hid : ∀ watch, (change watch).id = watch.id) (next : Watch → Watch) (id : Nat) :
    (node.modifyWatch id change).modifyWatch id next =
      node.modifyWatch id fun watch => next (change watch) := by
  simp only [modifyWatch, List.map_map]
  congr 1
  apply List.map_congr_left
  intro watch _
  by_cases h : watch.id = id <;> simp [h, hid]

theorem id_deliver (change : Change) (fact : Reference) (watch : Watch) :
    (watch.deliver change fact).1.id = watch.id := by
  have hsame := id_deliverAll change [fact] watch
  rw [Watch.deliverAll] at hsame
  split at hsame
  · next hdeliver => rwa [hdeliver]
  · next hdeliver => rwa [hdeliver]

/-- A watch is told of several facts as it is told of the first and, unless its listener fails, of
the rest. -/
theorem modifyWatch_cons
    (hids : node.watches.map Watch.id = List.range' 1 node.watches.length) (id : Nat)
    (change : Change) (fact : Reference) (rest : List Reference) :
    node.modifyWatch id (fun watch => (watch.deliverAll change (fact :: rest)).1) =
      if (node.watch? id).any fun watch => (watch.deliver change fact).2 then
        node.modifyWatch id fun watch => (watch.deliver change fact).1
      else
        (node.modifyWatch id fun watch => (watch.deliver change fact).1).modifyWatch id
          fun watch => (watch.deliverAll change rest).1 := by
  rw [modifyWatch_modifyWatch (id_deliver change fact)]
  -- Watches have numbers of their own, so the one that is looked at is the one that is changed.
  split
  · next hpanicked =>
    apply modifyWatch_congr hids
    intro watch hwatch
    rw [hwatch, Option.any_some] at hpanicked
    rw [Watch.deliverAll]
    split
    · next hdeliver => rw [hdeliver]
    · next hdeliver =>
      rw [hdeliver] at hpanicked
      cases hpanicked
  · next hcalm =>
    apply modifyWatch_congr hids
    intro watch hwatch
    rw [hwatch, Option.any_some] at hcalm
    rw [Watch.deliverAll]
    split
    · next hdeliver =>
      rw [hdeliver] at hcalm
      exact absurd rfl hcalm
    · next hdeliver => rw [hdeliver]

end Node

namespace Shift

/-- All first units have been entered, and of the units some have been left and the others wait for
their first turn. -/
def queued (node : Node) (stages : List Stage) (duties : List Duty) (pool : List Work) : Shift where
  node := node
  crew :=
    { latch := { pending := pool.length }
      members := stages ++ List.replicate pool.length .spawned }
  duties := duties ++ pool.map .whole
  caller := .entering []

def busy (node : Node) (stages : List Stage) (duties : List Duty) (duty : Duty)
    (pool : List Work) : Shift where
  node := node
  crew :=
    { latch := { pending := pool.length + 1 }
      members := stages ++ .running :: List.replicate pool.length .spawned }
  duties := duties ++ duty :: pool.map .whole
  caller := .entering []

theorem moves_enter (round : Round) (node : Node) (entered : List Work) (work : Work)
    (later : List Work) :
    Moves round { queued node [] [] entered with caller := .entering (work :: later) }
      { queued node [] [] (entered ++ [work]) with caller := .entering later } := by
  have hentered : queued node [] [] (entered ++ [work]) =
      { queued node [] [] entered with
        crew :=
          { (queued node [] [] entered).crew with
            latch := (queued node [] [] entered).crew.latch.enter
            members := (queued node [] [] entered).crew.members ++ [.spawned] }
        duties := (queued node [] [] entered).duties ++ [.whole work] } := by
    simp [queued, Latch.enter, List.replicate_succ']
  rw [hentered]
  exact Moves.enter rfl (Crew.Moves.push (by simp))

theorem reaches_queued (round : Round) (node : Node) (pool : List Work) :
    Reaches round (begin node pool) (queued node [] [] pool) := by
  have henter : ∀ entered later,
      Reaches round { queued node [] [] entered with caller := .entering later }
        (queued node [] [] (entered ++ later)) := by
    intro entered later
    induction later generalizing entered with
    | nil =>
      rw [List.append_nil]
      exact Relation.ReflTransGen.refl
    | cons work rest ih =>
      have hrest := ih (entered ++ [work])
      rw [List.append_assoc] at hrest
      exact Relation.ReflTransGen.head (moves_enter round node entered work rest) hrest
  exact henter [] pool

section Units

variable {round : Round} {node : Node} {stages : List Stage} {duties : List Duty}
  {pool : List Work}

theorem moves_start (work : Work) :
    Moves round (queued node stages duties (work :: pool))
      (busy node stages duties (.whole work) pool) := by
  have hstage : (stages ++ List.replicate (pool.length + 1) Stage.spawned)[stages.length]? =
      some .spawned := by
    simp
  have hset : (stages ++ List.replicate (pool.length + 1) Stage.spawned).set stages.length
      .running = stages ++ .running :: List.replicate pool.length .spawned := by
    simp [List.replicate_succ]
  have hcrew : Crew.Moves (queued node stages duties (work :: pool)).crew (.start stages.length)
      (busy node stages duties (.whole work) pool).crew := by
    simp only [busy, ← hset]
    exact Crew.Moves.start hstage
  exact Moves.turn rfl hcrew

theorem moves_leave (duty : Duty) :
    ∃ stage, Moves round (busy node stages duties duty pool)
      (queued node (stages ++ [stage]) (duties ++ [duty]) pool) := by
  let crew := (busy node stages duties duty pool).crew
  let stage : Stage := if crew.latch.leave.2 then .checking else .past
  have hstage : crew.members[stages.length]? = some .running := by simp [crew, busy]
  have hmove : Crew.Moves crew _ _ := @Crew.Moves.leave _ _ _ .finished hstage rfl
  have hleft : queued node (stages ++ [stage]) (duties ++ [duty]) pool =
      { busy node stages duties duty pool with
        crew :=
          { crew with
            latch := crew.latch.leave.1
            members := crew.members.set stages.length stage } } := by
    simp [queued, busy, crew, Latch.leave]
  refine ⟨stage, ?_⟩
  rw [hleft]
  exact Moves.turn rfl hmove

section Duties

variable (hlength : stages.length = duties.length)
include hlength

theorem moves_step (duty : Duty) :
    Moves round (busy node stages duties duty pool)
      (busy (duty.step round node).1 stages duties (duty.step round node).2 pool) := by
  let shift := busy node stages duties duty pool
  have hrunning : shift.crew.members[stages.length]? = some .running := by simp [shift, busy]
  have hduty : shift.duties[stages.length]? = some duty := by simp [shift, busy, hlength]
  have hstepped : busy (duty.step round node).1 stages duties (duty.step round node).2 pool =
      { shift with
        node := (duty.step round shift.node).1
        duties := shift.duties.set stages.length (duty.step round shift.node).2 } := by
    simp [busy, shift, hlength]
  rw [hstepped]
  exact Moves.step hrunning hduty

theorem moves_branch (work : Work) (rest : List Work) :
    Moves round (busy node stages duties (.enter (work :: rest)) pool)
      (busy node stages duties (.enter rest) (pool ++ [work])) := by
  let shift := busy node stages duties (.enter (work :: rest)) pool
  have hrunning : shift.crew.members[stages.length]? = some .running := by simp [shift, busy]
  have hduty : shift.duties[stages.length]? = some (.enter (work :: rest)) := by
    simp [shift, busy, hlength]
  have hmove : Crew.Moves shift.crew (.push (some stages.length)) _ :=
    Crew.Moves.push (by simpa using hrunning)
  have hbranched : busy node stages duties (.enter rest) (pool ++ [work]) =
      { shift with
        crew :=
          { shift.crew with
            latch := shift.crew.latch.enter
            members := shift.crew.members ++ [.spawned] }
        duties := shift.duties.set stages.length (.enter rest) ++ [.whole work] } := by
    simp [busy, shift, hlength, Latch.enter, List.replicate_succ']
  rw [hbranched]
  exact Moves.branch hduty hmove

theorem reaches_entered (units : List Work) :
    Reaches round (busy node stages duties (.enter units) pool)
      (busy node stages duties (.enter []) (pool ++ units)) := by
  induction units generalizing pool with
  | nil => rw [List.append_nil]
  | cons work rest ih =>
    have hrest := @ih (pool ++ [work])
    rw [List.append_assoc] at hrest
    exact Relation.ReflTransGen.head (moves_branch hlength work rest) hrest

theorem reaches_check (id : Nat) (inverse : Inverse) :
    ∃ duty, Reaches round (busy node stages duties (.whole (.check id inverse)) pool)
      (busy (round.run node (.check id inverse)).1 stages duties duty
        (pool ++ (round.run node (.check id inverse)).2)) := by
  have hfirst := @moves_step round node stages duties pool hlength (.whole (.check id inverse))
  have hsecond := @moves_step round node stages duties pool hlength (.check id inverse)
  simp only [Duty.step] at hfirst hsecond
  rw [Round.run_check]
  split
  · next hactive =>
    rw [if_pos hactive] at hfirst
    have hchecked := Relation.ReflTransGen.single hfirst
    split
    · next hlookup =>
      rw [hlookup] at hsecond
      rw [List.append_nil]
      exact ⟨_, hchecked.tail hsecond⟩
    · next hlookup =>
      rw [hlookup] at hsecond
      dsimp only at hsecond
      split
      · next haffected =>
        rw [if_pos haffected] at hsecond
        exact ⟨_, (hchecked.tail hsecond).trans (reaches_entered hlength _)⟩
      · next hspared =>
        rw [if_neg hspared] at hsecond
        rw [List.append_nil]
        exact ⟨_, hchecked.tail hsecond⟩
  · next hstopped =>
    rw [if_neg hstopped] at hfirst
    rw [List.append_nil]
    exact ⟨_, Relation.ReflTransGen.single hfirst⟩

variable (hids : node.watches.map Watch.id = List.range' 1 node.watches.length)
include hids

/-- A watch that is told of facts one by one takes them up until its listener fails. -/
theorem reaches_told (id : Nat) (change : Change) (facts : List Reference) :
    ∃ duty, Reaches round (busy node stages duties (.tell id change facts) pool)
      (busy (node.modifyWatch id fun watch => (watch.deliverAll change facts).1) stages duties duty
        pool) := by
  induction facts generalizing node with
  | nil =>
    have hsame : node.modifyWatch id (fun watch => (watch.deliverAll change []).1) = node := by
      simp [Node.modifyWatch, Watch.deliverAll]
    rw [hsame]
    exact ⟨_, Relation.ReflTransGen.refl⟩
  | cons fact rest ih =>
    have hmove := @moves_step round node stages duties pool hlength (.tell id change (fact :: rest))
    rw [node.modifyWatch_cons hids]
    simp only [Duty.step] at hmove
    split
    · next hpanicked =>
      rw [if_pos hpanicked] at hmove
      exact ⟨_, Relation.ReflTransGen.single hmove⟩
    · next hcalm =>
      rw [if_neg hcalm] at hmove
      have halike := Node.alike_modifyWatch (Node.id_deliver change fact) node id
      have hids' := halike.ids.trans hids
      obtain ⟨duty, hrest⟩ := ih (hids'.trans (by simp [Node.modifyWatch]))
      exact ⟨duty, Relation.ReflTransGen.head hmove hrest⟩

theorem reaches_deliver (id : Nat) (change : Change) (query : Query) :
    ∃ duty, Reaches round (busy node stages duties (.whole (.deliver id change query)) pool)
      (busy (round.run node (.deliver id change query)).1 stages duties duty
        (pool ++ (round.run node (.deliver id change query)).2)) := by
  have hfirst := @moves_step round node stages duties pool hlength
    (.whole (.deliver id change query))
  have hids' := (Node.becomes_lookup node round.connection round.fact query).map_id hids
  rw [Duty.step] at hfirst
  rw [Round.run]
  split
  · next hlookup =>
    rw [hlookup] at hfirst
    rw [List.append_nil]
    exact ⟨_, Relation.ReflTransGen.single hfirst⟩
  · next looked paths hlookup =>
    rw [hlookup] at hfirst hids'
    rw [List.append_nil]
    obtain ⟨duty, htold⟩ := reaches_told hlength hids' id change (terminals paths)
    exact ⟨duty, Relation.ReflTransGen.head hfirst htold⟩

/-- A unit that takes its steps without a break runs to its end. -/
theorem reaches_run (work : Work) :
    ∃ duty, Reaches round (busy node stages duties (.whole work) pool)
      (busy (round.run node work).1 stages duties duty (pool ++ (round.run node work).2)) := by
  cases work with
  | check id inverse => exact reaches_check hlength id inverse
  | deliver id change query => exact reaches_deliver hlength hids id change query

end Duties

/-- Units that run one by one, first in, first out, are all run to their ends. -/
theorem reaches_drain (hids : node.watches.map Watch.id = List.range' 1 node.watches.length)
    (hlength : stages.length = duties.length) :
    ∃ stages' duties', Reaches round (queued node stages duties pool)
      (queued (round.drain node pool) stages' duties' []) := by
  induction node, pool using Round.drain.induct round generalizing stages duties with
  | case1 node =>
    rw [Round.drain]
    exact ⟨_, _, Relation.ReflTransGen.refl⟩
  | case2 node work rest _ ih =>
    obtain ⟨duty, hrun⟩ := @reaches_run round node stages duties rest hlength hids work
    obtain ⟨stage, hleave⟩ := @moves_leave round (round.run node work).1 stages duties
      (rest ++ (round.run node work).2) duty
    have hids' := (Node.becomes_run round node work).map_id hids
    obtain ⟨stages', duties', hrest⟩ :=
      @ih (stages ++ [stage]) (duties ++ [duty]) hids' (by simp [hlength])
    rw [Round.drain]
    exact ⟨stages', duties', (Relation.ReflTransGen.head (moves_start work) hrun).trans
      (Relation.ReflTransGen.head hleave hrest)⟩

end Units

/-- The caller waits, is let go by its own check, and closes the connection. -/
theorem reaches_closed (round : Round) (node : Node) (stages : List Stage) (duties : List Duty) :
    ∃ last, Reaches round (queued node stages duties []) last ∧ last.caller = .gone ∧
      last.node = node.closeConnection round.connection := by
  let waits : Shift :=
    { node
      crew :=
        { latch := { pending := 0, armed := [0] }, members := stages ++ [.checking], arrivals := 1 }
      duties := duties ++ [.nothing]
      caller := .waiting }
  let free : Shift :=
    { waits with
      crew := { latch := { pending := 0 }, members := stages ++ [.calling [0]], arrivals := 1 } }
  let called : Shift :=
    { waits with
      crew :=
        { latch := { pending := 0 }, members := stages ++ [.past], arrivals := 1, called := [0] } }
  have hwaits : Moves round (queued node stages duties []) waits := by
    have hmove := @Moves.await round (queued node stages duties []) _ rfl .await
    simpa [queued, Latch.await, waits] using hmove
  have hfree : Moves round waits free := by
    have hstage : waits.crew.members[stages.length]? = some .checking := by simp [waits]
    have hmove := @Moves.turn round waits _ _ rfl (.check hstage)
    simpa [waits, free, Latch.release, Latch.isIdle] using hmove
  have hcalled : Moves round free called := by
    have hstage : free.crew.members[stages.length]? = some (.calling [0]) := by simp [free]
    have hmove := @Moves.turn round free _ _ rfl (.call hstage)
    simpa [free, waits, called, Stage.past] using hmove
  have hclosed : Moves round called _ := Moves.close rfl (List.mem_singleton_self 0)
  have hlast := (((Relation.ReflTransGen.single hwaits).tail hfree).tail hcalled).tail hclosed
  exact ⟨_, hlast, rfl, rfl⟩

end Shift

/-- The round of a fact at a node. Where no inverse of an active watch is about facts of its type,
none is started. Where none is started, that is the reason or no connection can be opened, and there
is nothing to do. A round that is started makes proper use of its connection, in whatever order the
first units are entered and whatever turns the units take, and what the node makes of it is the end
of some such turns. -/
structure Node.IsTidy (node : Node) (fact : Reference) : Prop where
  calm : node.IsUnconcerned fact → node.startRound fact = (node, none)
  unopened : ∀ {same : Node}, node.startRound fact = (same, none) →
    (node.IsUnconcerned fact ∨ node.faults.opening = true) ∧
      node.propagate fact = same ∧ same.storage = node.storage ∧ same.journal = node.journal
  disciplined : ∀ {opened : Node} {round : Round} {pool units : List Work} {shift : Shift},
    node.startRound fact = (opened, some (round, pool)) → units.Perm pool →
    Shift.Reaches round (Shift.begin opened units) shift → shift.IsDisciplined round node
  finished : ∀ {opened : Node} {round : Round} {pool : List Work},
    node.startRound fact = (opened, some (round, pool)) →
    ∃ last, Shift.Reaches round (Shift.begin opened pool) last ∧ last.caller = .gone ∧
      last.node = node.propagate fact

namespace Node

variable {node : Node}

theorem isTidy (hids : node.watches.map Watch.id = List.range' 1 node.watches.length)
    (fact : Reference) : node.IsTidy fact where
  calm := startRound_of_isUnconcerned
  unopened := by
    intro same hstart
    obtain ⟨hreason, hsame⟩ := of_startRound_none hstart
    rw [propagate, hstart]
    exact ⟨hreason, rfl, hsame⟩
  disciplined := by
    intro opened round pool units shift hstart _ hreaches
    obtain ⟨hused, -⟩ := of_startRound_some hstart
    exact ((Shift.IsSound.begin hused units).reaches hreaches).isDisciplined
  finished := by
    intro opened round pool hstart
    obtain ⟨-, hwatches⟩ := of_startRound_some hstart
    obtain ⟨stages, duties, hdrained⟩ :=
      @Shift.reaches_drain round opened [] [] pool (by rwa [hwatches]) rfl
    obtain ⟨last, hclosed, hgone, hlast⟩ :=
      Shift.reaches_closed round (round.drain opened pool) stages duties
    rw [propagate, hstart]
    exact ⟨last, ((Shift.reaches_queued round opened pool).trans hdrained).trans hclosed, hgone,
      hlast⟩

/-- After a round as many connections are open as before. -/
theorem IsTidy.openCount_propagate {fact : Reference} (h : node.IsTidy fact) :
    (node.propagate fact).storage.openCount = node.storage.openCount := by
  match hstart : node.startRound fact with
  | (same, none) =>
    obtain ⟨-, hpropagate, hstorage, -⟩ := h.unopened hstart
    rw [hpropagate, hstorage]
  | (opened, some (round, pool)) =>
    obtain ⟨last, hreaches, hgone, hlast⟩ := h.finished hstart
    rw [← hlast]
    exact ((h.disciplined hstart (List.Perm.refl pool) hreaches).ended hgone).2

theorem openCount_saveRecord (record : Record) (node : Node) :
    (node.saveRecord record).1.storage.openCount = node.storage.openCount := by
  rw [saveRecord]
  split
  · rfl
  · split <;> rfl

theorem openCount_saveAll (hids : node.watches.map Watch.id = List.range' 1 node.watches.length)
    (records : List Record) :
    (node.saveAll records).1.storage.openCount = node.storage.openCount := by
  induction records generalizing node with
  | nil => rfl
  | cons record rest ih =>
    have hcount := node.openCount_saveRecord record
    have hids' := (node.becomes_saveRecord record).map_id hids
    match hsave : node.saveRecord record with
    | (same, .error _) =>
      rw [saveAll, hsave]
      rw [hsave] at hcount
      exact hcount
    | (same, .ok false) =>
      rw [saveAll, hsave]
      rw [hsave] at hcount hids'
      exact (ih hids').trans hcount
    | (stored, .ok true) =>
      rw [saveAll, hsave]
      rw [hsave] at hcount hids'
      have hround := (isTidy hids' record.reference).openCount_propagate
      have hpropagated := (becomes_steps.propagate stored record.reference).map_id hids'
      exact (ih hpropagated).trans (hround.trans hcount)

end Node

end LiveFacts
