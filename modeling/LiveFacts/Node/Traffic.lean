import LiveFacts.Node.Round

/-!
# Traffic

Records that are handed over to a node come in transfers. A transfer takes in its records in
order, and when one of them starts a round, waits until that round is over.

Several transfers may be under way at once. The units of their rounds stand in one line and run
first in, first out. The transfers that wait are looked after, each in its turn, when no unit is
left in the line, or when a fixed number of units have run since the last time.
-/

namespace LiveFacts

abbrev Line := List (Round × Work)

namespace Line

def weight (line : Line) : Nat :=
  Work.totalWeight (line.map Prod.snd)

theorem weight_append (p q : Line) : weight (p ++ q) = weight p + weight q := by
  simp [weight, Work.totalWeight_append]

def isOver (round : Round) (line : Line) : Bool :=
  !line.any (·.1 = round)

/-- Runs units, but no more than a number of them. -/
def run : Nat → Line → Node → Node × Line
  | 0, line, node => (node, line)
  | _ + 1, [], node => (node, [])
  | count + 1, (round, work) :: line, node =>
    let (node, left) := round.run node work
    run count (line ++ left.map (round, ·)) node

theorem isOver_nil (round : Round) : isOver round [] = true := rfl

theorem weight_units (round : Round) (pool : List Work) :
    weight (pool.map (round, ·)) = Work.totalWeight pool := by
  simp [weight, Function.comp_def]

theorem weight_next_lt (round : Round) (work : Work) (line : Line) (node : Node) :
    weight (line ++ (round.run node work).2.map (round, ·)) < weight ((round, work) :: line) := by
  have := round.totalWeight_run_lt node work
  rw [weight_append, weight_units]
  simp only [weight, Work.totalWeight, List.map_cons] at *
  omega

theorem weight_run_le (count : Nat) (line : Line) (node : Node) :
    weight (run count line node).2 ≤ weight line := by
  induction count generalizing line node with
  | zero => exact Nat.le_refl _
  | succ count ih =>
    match line with
    | [] => exact Nat.le_refl _
    | (round, work) :: line =>
      exact Nat.le_trans (ih _ _) (Nat.le_of_lt (weight_next_lt round work line node))

theorem weight_run_lt (count : Nat) {line : Line} (h : line ≠ []) (node : Node) :
    weight (run (count + 1) line node).2 < weight line := by
  match line with
  | [] => exact absurd rfl h
  | (round, work) :: line =>
    exact Nat.lt_of_le_of_lt (weight_run_le count _ _) (weight_next_lt round work line node)

end Line

/-- A transfer that waits: the records that are still to be taken in, and the round that has to be
over before. -/
structure Transfer where
  records : List Record
  round : Round
  deriving DecidableEq

inductive Passage where
  | complete
  /-- A record was refused, and those after it are not taken in. -/
  | refused
  | waiting (transfer : Transfer) (pool : List Work)

def Node.takeInUntilRound : List Record → Node → Node × Passage
  | [], node => (node, .complete)
  | record :: rest, node =>
    if record.IsAuthentic then
      match node.saveRecord record with
      | (node, .error _) => (node, .refused)
      | (node, .ok false) => takeInUntilRound rest node
      | (node, .ok true) =>
        match node.startRound record.reference with
        | (node, none) => takeInUntilRound rest node
        | (node, some (round, pool)) => (node, .waiting ⟨rest, round⟩ pool)
    else (node, .refused)

theorem Node.length_of_waiting {records : List Record} {node : Node} {transfer : Transfer}
    {pool : List Work} (h : (node.takeInUntilRound records).2 = .waiting transfer pool) :
    transfer.records.length < records.length := by
  induction records generalizing node with
  | nil => simp [takeInUntilRound] at h
  | cons record rest ih =>
    simp only [takeInUntilRound] at h
    split at h
    · split at h
      · simp at h
      · exact Nat.lt_succ_of_lt (ih h)
      · split at h
        · exact Nat.lt_succ_of_lt (ih h)
        · simp only [Passage.waiting.injEq] at h
          rw [← h.1]
          exact Nat.lt_succ_self _
    · simp at h

structure Traffic where
  node : Node
  line : Line := []
  /-- The transfers that wait, in the order of their turns. -/
  waiting : List Transfer := []
  /-- How many transfers have come to an end by a record that was refused. -/
  refusals : Nat := 0

namespace Traffic

/-- How many units run before transfers are looked after again. -/
def unitsPerTurn : Nat := 61

def advance (records : List Record) (traffic : Traffic) : Traffic :=
  match traffic.node.takeInUntilRound records with
  | (node, .complete) => { traffic with node }
  | (node, .refused) => { traffic with node, refusals := traffic.refusals + 1 }
  | (node, .waiting transfer pool) =>
    { traffic with
      node
      line := traffic.line ++ pool.map (transfer.round, ·)
      waiting := traffic.waiting ++ [transfer] }

def lookAfter (transfer : Transfer) (traffic : Traffic) : Traffic :=
  if Line.isOver transfer.round traffic.line then
    { traffic with node := traffic.node.closeConnection transfer.round.connection }.advance
      transfer.records
  else { traffic with waiting := traffic.waiting ++ [transfer] }

def lookAfterAll : List Transfer → Traffic → Traffic
  | [], traffic => traffic
  | transfer :: rest, traffic => lookAfterAll rest (traffic.lookAfter transfer)

def turn (traffic : Traffic) : Traffic :=
  let (node, line) := Line.run unitsPerTurn traffic.line traffic.node
  { traffic with node, line, waiting := [] }.lookAfterAll traffic.waiting

/-- The records that are still to be taken in, and one more for each round to be waited for. -/
def toll : List Transfer → Nat
  | [] => 0
  | transfer :: rest => transfer.records.length + 1 + toll rest

theorem toll_append (p q : List Transfer) : toll (p ++ q) = toll p + toll q := by
  induction p with
  | nil => simp [toll]
  | cons transfer rest ih =>
    rw [List.cons_append, toll, toll, ih]
    omega

theorem toll_advance_le (records : List Record) (traffic : Traffic) :
    toll (traffic.advance records).waiting ≤ toll traffic.waiting + records.length := by
  unfold advance
  split
  · exact Nat.le_add_right _ _
  · exact Nat.le_add_right _ _
  · next h =>
    have := Node.length_of_waiting (congrArg Prod.snd h)
    simp only [toll_append]
    simp only [toll]
    omega

/-- Either something is taken in or a transfer comes to its end, or all rounds go on and nothing
changes. -/
theorem toll_lookAfterAll (transfers : List Transfer) (traffic : Traffic) :
    toll (traffic.lookAfterAll transfers).waiting < toll traffic.waiting + toll transfers ∨
      toll (traffic.lookAfterAll transfers).waiting = toll traffic.waiting + toll transfers ∧
      (traffic.lookAfterAll transfers).line = traffic.line ∧
      ∀ transfer ∈ transfers, Line.isOver transfer.round traffic.line = false := by
  induction transfers generalizing traffic with
  | nil => simp [lookAfterAll, toll]
  | cons transfer rest ih =>
    rw [lookAfterAll, toll]
    by_cases h : Line.isOver transfer.round traffic.line = true
    · left
      have hnext : toll (traffic.lookAfter transfer).waiting ≤
          toll traffic.waiting + transfer.records.length := by
        rw [lookAfter, if_pos h]
        exact toll_advance_le _ _
      rcases ih (traffic.lookAfter transfer) with hlt | ⟨heq, _⟩ <;> omega
    · have hnext : toll (traffic.lookAfter transfer).waiting =
          toll traffic.waiting + (transfer.records.length + 1) := by
        rw [lookAfter, if_neg h, toll_append]
        simp [toll]
      have hline : (traffic.lookAfter transfer).line = traffic.line := by
        rw [lookAfter, if_neg h]
      rcases ih (traffic.lookAfter transfer) with hlt | ⟨heq, hsame, hgo⟩
      · left
        omega
      · refine .inr ⟨by omega, hsame.trans hline, ?_⟩
        intro other hother
        rcases List.mem_cons.1 hother with rfl | hrest
        · exact Bool.eq_false_iff.2 h
        · exact hline ▸ hgo other hrest

theorem turn_nearer (traffic : Traffic) (h : traffic.waiting ≠ []) :
    toll traffic.turn.waiting < toll traffic.waiting ∨
      toll traffic.turn.waiting = toll traffic.waiting ∧
      traffic.turn.line.weight < traffic.line.weight := by
  rcases toll_lookAfterAll traffic.waiting
    { traffic with
      node := (Line.run unitsPerTurn traffic.line traffic.node).1
      line := (Line.run unitsPerTurn traffic.line traffic.node).2
      waiting := [] } with hlt | ⟨heq, hsame, hgo⟩
  · left
    simpa [turn, toll] using hlt
  · right
    refine ⟨by simpa [turn, toll] using heq, ?_⟩
    have hline : traffic.line ≠ [] := by
      intro hnil
      obtain ⟨transfer, hmem⟩ := List.exists_mem_of_ne_nil _ h
      have := hgo transfer hmem
      simp [hnil, Line.run, unitsPerTurn, Line.isOver_nil] at this
    show Line.weight (lookAfterAll _ _).line < _
    rw [hsame]
    exact Line.weight_run_lt 60 hline traffic.node

def run (traffic : Traffic) : Traffic :=
  if h : traffic.waiting = [] then traffic
  else
    have := turn_nearer traffic h
    traffic.turn.run
termination_by (toll traffic.waiting, traffic.line.weight)
decreasing_by
  rcases this with hlt | ⟨heq, hlt⟩
  · exact .left _ _ hlt
  · rw [heq]
    exact .right _ hlt

end Traffic

/-- Takes in the records of several transfers side by side, and counts the transfers that end by a
record that is refused. -/
def Node.takeInTogether (transfers : List (List Record)) (node : Node) : Node × Nat :=
  let traffic := (transfers.foldl (fun traffic records => traffic.advance records)
    ({ node } : Traffic)).run
  (traffic.node, traffic.refusals)

end LiveFacts
