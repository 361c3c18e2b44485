import LiveFacts.Latch
import Mathlib.Data.List.Count
import Mathlib.Data.List.Nodup
import Mathlib.Data.List.Range
import Mathlib.Data.List.Perm.Basic

/-!
# A latch under every interleaving

Units and waiters that share a latch take their steps in any order: between the step that counts a
unit as ended and the idle check that is due then, or between the arming of a waiter and its check,
any others may come. Units enter further units while they run, and some are entered from outside.

The latch counts the units under way, and whoever waits while there is none has a check still to
come. So nobody is forgotten, and nobody is let go too early or twice.
-/

namespace LiveFacts

inductive Stage where
  /-- A unit that has been entered and has not had its first turn. -/
  | spawned
  | running
  /-- An idle check is due: the last unit was left, or a waiter has been armed. -/
  | checking
  /-- The check is done, and these are the waiters it let go that have not been called yet. -/
  | calling (waiters : List Nat)
  deriving DecidableEq

namespace Stage

def past : Stage :=
  calling []

def isUnderWay : Stage → Bool
  | spawned | running => true
  | checking | calling _ => false

def waiters : Stage → List Nat
  | calling waiters => waiters
  | spawned | running | checking => []

@[simp] theorem isUnderWay_spawned : spawned.isUnderWay = true := rfl

@[simp] theorem isUnderWay_checking : checking.isUnderWay = false := rfl

@[simp] theorem isUnderWay_calling (waiters : List Nat) :
    (calling waiters).isUnderWay = false := rfl

@[simp] theorem waiters_checking : checking.waiters = [] := rfl

@[simp] theorem waiters_calling (waiters : List Nat) : (calling waiters).waiters = waiters := rfl

end Stage

inductive Ending where
  | finished
  | panicked
  | dropped
  deriving DecidableEq

/-- A unit that has not had its first turn can only be dropped. -/
def Ending.ends : Ending → Stage → Bool
  | dropped, .spawned => true
  | _, .running => true
  | _, _ => false

/-- A latch and all who share it, each under the number of their arrival. Waiters are numbered by
themselves. -/
structure Crew where
  latch : Latch Nat := {}
  members : List Stage := []
  /-- How many waiters have been armed. -/
  arrivals : Nat := 0
  /-- Whose callbacks have been called. -/
  called : List Nat := []
  /-- Who has been let go, but is never called since another callback panicked. -/
  missed : List Nat := []
  deriving DecidableEq

namespace Crew

inductive Act where
  /-- A unit is entered, by a unit that runs or from outside. -/
  | push (parent : Option Nat)
  | start (member : Nat)
  | leave (member : Nat) (ending : Ending)
  | await
  | check (member : Nat)
  | call (member : Nat) (panics : Bool)
  deriving DecidableEq

/-- One atomic step of one member, or the arrival of another. -/
inductive Moves : Crew → Act → Crew → Prop
  | push {crew : Crew} {parent : Option Nat}
      (h : ∀ member ∈ parent, crew.members[member]? = some .running) :
      Moves crew (.push parent)
        { crew with latch := crew.latch.enter, members := crew.members ++ [.spawned] }
  | start {crew : Crew} {member : Nat} (h : crew.members[member]? = some .spawned) :
      Moves crew (.start member) { crew with members := crew.members.set member .running }
  | leave {crew : Crew} {member : Nat} {stage : Stage} {ending : Ending}
      (h : crew.members[member]? = some stage) (hends : ending.ends stage = true) :
      Moves crew (.leave member ending)
        { crew with
          latch := crew.latch.leave.1
          members := crew.members.set member (if crew.latch.leave.2 then .checking else .past) }
  | await {crew : Crew} :
      Moves crew .await
        { crew with
          latch := crew.latch.await crew.arrivals
          members := crew.members ++ [.checking]
          arrivals := crew.arrivals + 1 }
  | check {crew : Crew} {member : Nat} (h : crew.members[member]? = some .checking) :
      Moves crew (.check member)
        { crew with
          latch := crew.latch.release.1
          members := crew.members.set member (.calling crew.latch.release.2) }
  | call {crew : Crew} {member waiter : Nat} {rest : List Nat}
      (h : crew.members[member]? = some (.calling (waiter :: rest))) :
      Moves crew (.call member false)
        { crew with
          members := crew.members.set member (.calling rest)
          called := crew.called ++ [waiter] }
  | panic {crew : Crew} {member waiter : Nat} {rest : List Nat}
      (h : crew.members[member]? = some (.calling (waiter :: rest))) :
      Moves crew (.call member true)
        { crew with
          members := crew.members.set member .past
          called := crew.called ++ [waiter]
          missed := crew.missed ++ rest }

inductive Runs (first : Crew) : List Act → Crew → Prop
  | nil : Runs first [] first
  | snoc {acts : List Act} {act : Act} {crew next : Crew} (h : Runs first acts crew)
      (hmove : Moves crew act next) : Runs first (acts ++ [act]) next

def IsDone (crew : Crew) : Prop :=
  ∀ stage ∈ crew.members, stage.isUnderWay = false

section Moving

variable {members : List Stage} {member : Nat} {old : Stage}
  (h : members[member]? = some old) (new : Stage)
include h

theorem perm_set : (old :: members.set member new).Perm (new :: members) := by
  obtain ⟨hlength, rfl⟩ := List.getElem?_eq_some_iff.1 h
  have hset : (members.set member new).Perm (new :: members.eraseIdx member) :=
    List.set_perm_cons_eraseIdx hlength new
  have hback : (members[member] :: members.eraseIdx member).Perm members :=
    List.getElem_cons_eraseIdx_perm hlength
  exact (hset.cons _).trans ((List.Perm.swap _ _ _).trans (hback.cons _))

theorem countP_set :
    (members.set member new).countP Stage.isUnderWay + old.isUnderWay.toNat =
      members.countP Stage.isUnderWay + new.isUnderWay.toNat := by
  have hcount := (perm_set h new).countP_eq Stage.isUnderWay
  rw [List.countP_cons, List.countP_cons] at hcount
  cases hold : old.isUnderWay <;> cases hnew : new.isUnderWay <;> simpa [hold, hnew] using hcount

theorem checking_mem_set (hchecking : new = .checking ∨ old ≠ .checking ∧ .checking ∈ members) :
    .checking ∈ members.set member new := by
  rcases hchecking with rfl | ⟨hold, hmem⟩
  · exact List.mem_set (List.getElem?_eq_some_iff.1 h).1 _
  · have hcons : Stage.checking ∈ old :: members.set member new :=
      (perm_set h new).mem_iff.2 (List.mem_cons_of_mem _ hmem)
    exact (List.mem_cons.1 hcons).resolve_left hold.symm

theorem count_waiters_set (waiter : Nat) :
    old.waiters.count waiter + ((members.set member new).flatMap Stage.waiters).count waiter =
      new.waiters.count waiter + (members.flatMap Stage.waiters).count waiter := by
  have hcount := ((perm_set h new).flatMap_right Stage.waiters).count_eq waiter
  rwa [List.flatMap_cons, List.flatMap_cons, List.count_append, List.count_append] at hcount

end Moving

def tally (crew : Crew) (waiter : Nat) : Nat :=
  crew.latch.armed.count waiter + crew.called.count waiter + crew.missed.count waiter

structure IsSound (crew : Crew) : Prop where
  /-- The latch counts the units under way. -/
  pending_eq : crew.latch.pending = crew.members.countP Stage.isUnderWay
  /-- If someone waits and no unit is under way, a check is due. -/
  awake : crew.latch.armed ≠ [] → crew.latch.pending = 0 → .checking ∈ crew.members
  /-- Every waiter is in one place: armed, let go and to be called, called, or missed. -/
  accounted : ∀ waiter, crew.tally waiter + (crew.members.flatMap Stage.waiters).count waiter =
    (List.range crew.arrivals).count waiter

namespace IsSound

variable {crew next : Crew}

theorem empty : IsSound {} where
  pending_eq := rfl
  awake := fun harmed => absurd rfl harmed
  accounted := fun _ => rfl

theorem isDone_iff (h : crew.IsSound) : crew.IsDone ↔ crew.latch.pending = 0 := by
  rw [h.pending_eq, List.countP_eq_zero]
  simp only [IsDone, Bool.not_eq_true]

/-- A step that takes a member from one stage to another leaves the crew sound if the latch, the
calls and the stages balance. -/
theorem advance (h : crew.IsSound) {member : Nat} {old new : Stage} {latch : Latch Nat}
    {called missed : List Nat} (hstage : crew.members[member]? = some old)
    (hpending : latch.pending + old.isUnderWay.toNat =
      crew.latch.pending + new.isUnderWay.toNat)
    (hawake : latch.armed ≠ [] → latch.pending = 0 →
      new = .checking ∨ old ≠ .checking ∧ crew.latch.armed ≠ [] ∧ crew.latch.pending = 0)
    (htally : ∀ waiter, latch.armed.count waiter + called.count waiter + missed.count waiter +
      new.waiters.count waiter = crew.tally waiter + old.waiters.count waiter) :
    IsSound { crew with latch, members := crew.members.set member new, called, missed } where
  pending_eq := by
    have hcount := countP_set hstage new
    have hbefore := h.pending_eq
    dsimp only
    omega
  awake := by
    intro harmed hidle
    apply checking_mem_set hstage
    exact (hawake harmed hidle).imp_right fun hbefore =>
      ⟨hbefore.1, h.awake hbefore.2.1 hbefore.2.2⟩
  accounted := by
    intro waiter
    have hcount := count_waiters_set hstage new waiter
    have hbefore := h.accounted waiter
    have := htally waiter
    simp only [tally] at *
    omega

theorem push (h : crew.IsSound) :
    IsSound { crew with latch := crew.latch.enter, members := crew.members ++ [.spawned] } where
  pending_eq := by
    have hbefore := h.pending_eq
    simp only [Latch.enter, List.countP_append, List.countP_singleton, Stage.isUnderWay, if_true]
    omega
  awake := by
    intro _ hidle
    cases hidle
  accounted := by
    intro waiter
    have hbefore := h.accounted waiter
    simpa [tally, Latch.enter, Stage.waiters] using hbefore

/-- Whoever is armed brings along a check. -/
theorem await (h : crew.IsSound) :
    IsSound
      { crew with
        latch := crew.latch.await crew.arrivals
        members := crew.members ++ [.checking]
        arrivals := crew.arrivals + 1 } where
  pending_eq := by simpa [Latch.await, Stage.isUnderWay] using h.pending_eq
  awake := fun _ _ => List.mem_append_right _ (List.mem_singleton_self _)
  accounted := by
    intro waiter
    have hbefore := h.accounted waiter
    simp only [tally] at hbefore
    simp only [tally, Latch.await, List.count_append, List.range_succ, List.flatMap_append,
      List.flatMap_singleton, Stage.waiters, List.count_nil]
    omega

/-- The last unit brings along a check, the others leave a unit behind. -/
theorem leave (h : crew.IsSound) {member : Nat} {stage : Stage}
    (hstage : crew.members[member]? = some stage) (hunder : stage.isUnderWay = true) :
    IsSound
      { crew with
        latch := crew.latch.leave.1
        members := crew.members.set member
          (if crew.latch.leave.2 then .checking else .past) } := by
  have hpositive : 0 < crew.latch.pending := by
    rw [h.pending_eq]
    exact List.countP_pos_iff.2 ⟨stage, List.mem_of_getElem? hstage, hunder⟩
  have hwaiters : stage.waiters = [] := by
    cases stage with
    | calling waiters => cases hunder
    | spawned | running | checking => rfl
  by_cases hlast : crew.latch.pending = 1
  · apply h.advance hstage
    · simp [Latch.leave, hlast, hunder]
    · intro _ _
      simp [Latch.leave, hlast]
    · intro waiter
      simp [tally, Latch.leave, hlast, hwaiters]
  · apply h.advance hstage
    · simp only [Latch.leave, hlast, hunder, decide_false, Bool.false_eq_true, if_false, Stage.past,
        Stage.isUnderWay_calling, Bool.toNat_true, Bool.toNat_false]
      omega
    · intro _ hidle
      simp only [Latch.leave] at hidle
      omega
    · intro waiter
      simp [tally, Latch.leave, hlast, hwaiters, Stage.past]

/-- A check that finds a unit under way lets nobody go. -/
theorem check (h : crew.IsSound) {member : Nat} (hstage : crew.members[member]? = some .checking) :
    IsSound
      { crew with
        latch := crew.latch.release.1
        members := crew.members.set member (.calling crew.latch.release.2) } := by
  by_cases hidle : crew.latch.pending = 0
  · apply h.advance hstage
    · simp [Latch.release, Latch.isIdle, hidle]
    · intro harmed
      simp [Latch.release, Latch.isIdle, hidle] at harmed
    · intro waiter
      simp only [tally, Latch.release, Latch.isIdle, hidle, decide_true, if_true,
        Stage.waiters_calling, Stage.waiters_checking, List.count_nil]
      omega
  · apply h.advance hstage
    · simp [Latch.release, Latch.isIdle, hidle]
    · intro _ hzero
      simp [Latch.release, Latch.isIdle, hidle] at hzero
    · intro waiter
      simp [tally, Latch.release, Latch.isIdle, hidle]

theorem move {act : Act} (h : crew.IsSound) (hmove : Moves crew act next) : next.IsSound := by
  cases hmove with
  | push hparent => exact h.push
  | start hstage =>
    apply h.advance hstage
    · rfl
    · intro harmed hidle
      exact Or.inr ⟨Stage.noConfusion, harmed, hidle⟩
    · intro waiter
      rfl
  | @leave _ stage ending hstage hends =>
    apply h.leave hstage
    cases stage with
    | spawned | running => rfl
    | checking | calling waiters => cases ending <;> cases hends
  | await => exact h.await
  | check hstage => exact h.check hstage
  | @call member waiter rest hstage =>
    apply h.advance hstage
    · rfl
    · intro harmed hidle
      exact Or.inr ⟨Stage.noConfusion, harmed, hidle⟩
    · intro other
      simp only [tally, Stage.waiters, List.count_append, List.count_cons, List.count_nil]
      omega
  | @panic member waiter rest hstage =>
    apply h.advance hstage
    · rfl
    · intro harmed hidle
      exact Or.inr ⟨Stage.noConfusion, harmed, hidle⟩
    · intro other
      simp only [tally, Stage.past, Stage.waiters, List.count_append, List.count_cons,
        List.count_nil]
      omega

theorem nodup_called (h : crew.IsSound) : crew.called.Nodup := by
  apply List.nodup_iff_count_le_one.2
  intro waiter
  have hplace := h.accounted waiter
  have honce := List.nodup_iff_count_le_one.1 (List.nodup_range (n := crew.arrivals)) waiter
  unfold tally at hplace
  omega

/-- Whoever is called had come to wait, and waits no longer. -/
theorem of_mem_called (h : crew.IsSound) {waiter : Nat} (hcalled : waiter ∈ crew.called) :
    waiter < crew.arrivals ∧ waiter ∉ crew.latch.armed := by
  have hplace := h.accounted waiter
  have honce := List.nodup_iff_count_le_one.1 (List.nodup_range (n := crew.arrivals)) waiter
  have hpositive := List.count_pos_iff.2 hcalled
  unfold tally at hplace
  constructor
  · apply List.mem_range.1
    apply List.count_pos_iff.1
    omega
  · apply List.count_eq_zero.1
    omega

/-- Nobody is left waiting when no unit is under way and no check is due. -/
theorem armed_eq_nil (h : crew.IsSound) (hdone : crew.IsDone)
    (hchecked : .checking ∉ crew.members) : crew.latch.armed = [] := by
  by_cases harmed : crew.latch.armed = []
  · exact harmed
  · exact absurd (h.awake harmed (h.isDone_iff.1 hdone)) hchecked

/-- When all is over and nobody was missed, everybody has been called. -/
theorem called_perm (h : crew.IsSound) (hover : ∀ stage ∈ crew.members, stage = .past)
    (hmissed : crew.missed = []) : crew.called.Perm (List.range crew.arrivals) := by
  have harmed : crew.latch.armed = [] := by
    apply h.armed_eq_nil
    · intro stage hstage
      rw [hover stage hstage]
      rfl
    · intro hchecking
      cases hover _ hchecking
  have hwaiters : crew.members.flatMap Stage.waiters = [] := by
    apply List.flatMap_eq_nil_iff.2
    intro stage hstage
    rw [hover stage hstage]
    rfl
  apply List.perm_iff_count.2
  intro waiter
  have hplace := h.accounted waiter
  simpa [tally, harmed, hwaiters, hmissed] using hplace

end IsSound

section Steps

variable {crew next : Crew} {act : Act} {waiter : Nat}

/-- Waiters are let go by idle checks only, and only when every unit has been left. -/
theorem Moves.isDone_of_free (hmove : Moves crew act next) (h : crew.IsSound)
    (harmed : waiter ∈ crew.latch.armed) (hfree : waiter ∉ next.latch.armed) :
    (∃ member, act = .check member) ∧ crew.IsDone := by
  cases hmove with
  | push => exact absurd harmed hfree
  | start => exact absurd harmed hfree
  | leave => exact absurd harmed hfree
  | await => exact absurd (List.mem_append_left _ harmed) hfree
  | @check member hstage =>
    refine ⟨⟨member, rfl⟩, h.isDone_iff.2 ?_⟩
    by_contra hbusy
    simp only [Latch.release, Latch.isIdle, hbusy, decide_false, Bool.false_eq_true, if_false]
      at hfree
    exact hfree harmed
  | call => exact absurd harmed hfree
  | panic => exact absurd harmed hfree

/-- Whoever comes to wait is armed. -/
theorem Moves.arrives (hmove : Moves crew act next) (hnext : waiter < next.arrivals) :
    waiter < crew.arrivals ∨ waiter ∈ next.latch.armed := by
  cases hmove with
  | await =>
    rcases Nat.lt_succ_iff_lt_or_eq.1 hnext with hold | rfl
    · exact Or.inl hold
    · exact Or.inr (List.mem_append_right _ (List.mem_singleton_self _))
  | push | start | leave | check | call | panic => exact Or.inl hnext

/-- Only units that run enter others, so where none runs none comes up by itself. -/
theorem Moves.isDone (hmove : Moves crew act next) (h : crew.IsDone) (hpush : act ≠ .push none) :
    next.IsDone := by
  have hset : ∀ (member : Nat) (new : Stage), new.isUnderWay = false →
      ∀ stage ∈ crew.members.set member new, stage.isUnderWay = false := by
    intro member new hnew stage hstage
    rcases List.mem_or_eq_of_mem_set hstage with hold | rfl
    · exact h stage hold
    · exact hnew
  have hidle : ∀ {member : Nat} {stage : Stage}, crew.members[member]? = some stage →
      stage.isUnderWay = false := fun hstage => h _ (List.mem_of_getElem? hstage)
  cases hmove with
  | @push parent hparent =>
    cases parent with
    | none => exact absurd rfl hpush
    | some member => cases hidle (hparent member rfl)
  | start hstage => cases hidle hstage
  | @leave member stage ending hstage hends =>
    apply hset
    split <;> rfl
  | await =>
    intro stage hstage
    rcases List.mem_append.1 hstage with hold | hlast
    · exact h stage hold
    · rw [List.mem_singleton.1 hlast]
      rfl
  | check => exact hset _ _ rfl
  | call => exact hset _ _ rfl
  | panic => exact hset _ _ rfl

end Steps

namespace Runs

variable {first crew : Crew} {acts : List Act} {waiter : Nat}

theorem isSound (h : Runs first acts crew) (hfirst : first.IsSound) : crew.IsSound := by
  induction h with
  | nil => exact hfirst
  | snoc _ hmove ih => exact ih.move hmove

theorem missed_eq_nil (h : Runs first acts crew) (hfirst : first.missed = [])
    (hcalm : ∀ member, .call member true ∉ acts) : crew.missed = [] := by
  induction h with
  | nil => exact hfirst
  | snoc _ hmove ih =>
    have hbefore := ih fun member hmem => hcalm member (List.mem_append_left _ hmem)
    cases hmove with
    | panic => exact absurd (List.mem_append_right _ (List.mem_singleton_self _)) (hcalm _)
    | push | start | leave | await | check | call => exact hbefore

end Runs

/-- An idle check of the run let the waiter go, and every unit entered by then had been left. -/
def LetsGo (first : Crew) (acts : List Act) (last : Crew) (waiter : Nat) : Prop :=
  ∃ before member after crew next, acts = before ++ .check member :: after ∧
    Runs first before crew ∧ Moves crew (.check member) next ∧ Runs next after last ∧
    waiter ∈ crew.latch.armed ∧ waiter ∉ next.latch.armed ∧ crew.IsDone

theorem LetsGo.snoc {first crew next : Crew} {acts : List Act} {act : Act} {waiter : Nat}
    (h : LetsGo first acts crew waiter) (hmove : Moves crew act next) :
    LetsGo first (acts ++ [act]) next waiter := by
  obtain ⟨before, member, after, halfway, freed, rfl, hbefore, hcheck, hafter, hrest⟩ := h
  refine ⟨before, member, after ++ [act], halfway, freed, ?_, hbefore, hcheck, hafter.snoc hmove,
    hrest⟩
  rw [List.append_assoc, List.cons_append]

theorem Runs.letsGo {first crew : Crew} {acts : List Act} {waiter : Nat}
    (h : Runs first acts crew) (hfirst : first.IsSound)
    (harrived : first.arrivals ≤ waiter ∧ waiter < crew.arrivals)
    (hfree : waiter ∉ crew.latch.armed) : LetsGo first acts crew waiter := by
  induction h with
  | nil => omega
  | @snoc acts act crew next hruns hmove ih =>
    rcases hmove.arrives harrived.2 with hold | hnew
    · by_cases harmed : waiter ∈ crew.latch.armed
      · obtain ⟨⟨member, rfl⟩, hdone⟩ := hmove.isDone_of_free (hruns.isSound hfirst) harmed hfree
        exact ⟨acts, member, [], crew, next, rfl, hruns, hmove, .nil, harmed, hfree, hdone⟩
      · exact (ih ⟨harrived.1, hold⟩ harmed).snoc hmove
    · exact absurd hnew hfree

/-- Whatever the interleaving of those who share a latch: nobody is called twice; who has been
called, or waits no longer, was let go by an idle check at which every unit entered so far had
been left; nobody waits when no unit is under way and no check is due; and when all is over,
everybody has been called once, unless a callback panicked. -/
theorem completes_once_when_done {acts : List Act} {crew : Crew} (h : Runs {} acts crew) :
    crew.called.Nodup ∧
      (∀ waiter ∈ crew.called, waiter < crew.arrivals ∧ waiter ∉ crew.latch.armed) ∧
      (∀ waiter < crew.arrivals, waiter ∉ crew.latch.armed → LetsGo {} acts crew waiter) ∧
      (crew.IsDone → .checking ∉ crew.members → crew.latch.armed = []) ∧
      ((∀ stage ∈ crew.members, stage = .past) → (∀ member, .call member true ∉ acts) →
        crew.called.Perm (List.range crew.arrivals)) := by
  have hsound := h.isSound IsSound.empty
  refine ⟨hsound.nodup_called, fun waiter => hsound.of_mem_called, ?_, hsound.armed_eq_nil, ?_⟩
  · intro waiter harrived hfree
    exact h.letsGo IsSound.empty ⟨Nat.zero_le _, harrived⟩ hfree
  · intro hover hcalm
    exact hsound.called_perm hover (h.missed_eq_nil rfl hcalm)

def slippedIn : List Act :=
  [.push none, .await, .leave 0 .dropped, .push none, .check 0, .leave 2 .dropped, .check 2,
    .call 2 false, .check 1]

theorem runs_slippedIn :
    Runs {} slippedIn { members := [.past, .past, .past], arrivals := 1, called := [0] } := by
  have hpushed : Runs {} _ _ := .snoc .nil (@Moves.push _ none (by simp))
  have hwaits := hpushed.snoc .await
  have hdropped := hwaits.snoc (@Moves.leave _ 0 .spawned .dropped rfl rfl)
  have hslipped := hdropped.snoc (@Moves.push _ none (by simp))
  have hbusy := hslipped.snoc (@Moves.check _ 0 rfl)
  have hlast := hbusy.snoc (@Moves.leave _ 2 .spawned .dropped rfl rfl)
  have hidle := hlast.snoc (@Moves.check _ 2 rfl)
  have hcalled := hidle.snoc (@Moves.call _ 2 0 [] rfl)
  exact hcalled.snoc (@Moves.check _ 1 rfl)

/-- The first idle check finds the unit that slipped in, and the second lets the waiter go. -/
theorem completes_slippedIn :
    Runs {} slippedIn { members := [.past, .past, .past], arrivals := 1, called := [0] } ∧
      LetsGo {} slippedIn { members := [.past, .past, .past], arrivals := 1, called := [0] } 0 ∧
      [0].Perm (List.range 1) := by
  obtain ⟨_, hcalled, hletsGo, _, hall⟩ := completes_once_when_done runs_slippedIn
  have harrived := hcalled 0 (by decide)
  exact ⟨runs_slippedIn, hletsGo 0 harrived.1 harrived.2, hall (by decide) (by simp [slippedIn])⟩

end Crew

end LiveFacts
