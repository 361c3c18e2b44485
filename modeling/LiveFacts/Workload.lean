import LiveFacts.Latch

/-!
# Workloads

Units of work take turns on one thread, the one that has waited longest first. A unit may pass its
turn a number of times; then it brings along further units and is done, or fails. A latch tells
when no unit is left, and whoever waits for that is noted with the number of units done by then.
-/

namespace LiveFacts

structure WorkUnit where
  name : String
  /-- How many turns are passed. -/
  passes : Nat := 0
  children : List WorkUnit := []
  panics : Bool := false

namespace WorkUnit

mutual

def turns : WorkUnit → Nat
  | ⟨_, passes, children, _⟩ => passes + 1 + turnsOfAll children

def turnsOfAll : List WorkUnit → Nat
  | [] => 0
  | unit :: rest => unit.turns + turnsOfAll rest

end

theorem turns_eq (unit : WorkUnit) :
    unit.turns = unit.passes + 1 + turnsOfAll unit.children := by
  cases unit
  rfl

theorem turnsOfAll_append (p q : List WorkUnit) :
    turnsOfAll (p ++ q) = turnsOfAll p + turnsOfAll q := by
  induction p with
  | nil => simp [turnsOfAll]
  | cons unit p ih => simp [turnsOfAll, ih, Nat.add_assoc]

end WorkUnit

structure Workload where
  /-- Those who wait go by a name, or by none. -/
  latch : Latch (Option String) := {}
  waiting : List WorkUnit := []
  done : List String := []
  /-- Who has been let go, and how many units were done. -/
  fired : List (String × Nat) := []

namespace Workload

def turns (load : Workload) : Nat :=
  WorkUnit.turnsOfAll load.waiting

def push (unit : WorkUnit) (load : Workload) : Workload :=
  { load with latch := load.latch.enter, waiting := load.waiting ++ [unit] }

def release (load : Workload) : Workload :=
  let (latch, freed) := load.latch.release
  { load with latch, fired := load.fired ++ (freed.filterMap id).map (·, load.done.length) }

def await (name? : Option String) (load : Workload) : Workload :=
  { load with latch := load.latch.await name? }.release

def leave (load : Workload) : Workload :=
  match load.latch.leave with
  | (latch, true) => { load with latch }.release
  | (latch, false) => { load with latch }

def turn (unit : WorkUnit) (load : Workload) : Workload :=
  match unit.passes with
  | passes + 1 => { load with waiting := load.waiting ++ [{ unit with passes }] }
  | 0 =>
    let load := unit.children.foldl (fun load child => load.push child) load
    (if unit.panics then load else { load with done := load.done ++ [unit.name] }).leave

theorem waiting_release (load : Workload) : load.release.waiting = load.waiting := rfl

theorem waiting_leave (load : Workload) : load.leave.waiting = load.waiting := by
  simp only [leave]
  split
  · exact waiting_release _
  · rfl

theorem waiting_foldl_push (units : List WorkUnit) (load : Workload) :
    (units.foldl (fun load child => load.push child) load).waiting = load.waiting ++ units := by
  induction units generalizing load with
  | nil => simp
  | cons unit units ih =>
    rw [List.foldl_cons, ih]
    simp [push]

theorem turns_turn_lt (unit : WorkUnit) (load : Workload) :
    (load.turn unit).turns < unit.turns + load.turns := by
  rw [unit.turns_eq]
  simp only [turn, turns]
  split
  · simp [WorkUnit.turnsOfAll_append, WorkUnit.turnsOfAll, WorkUnit.turns_eq, *]
    omega
  · rw [waiting_leave]
    split <;> simp [waiting_foldl_push, WorkUnit.turnsOfAll_append] <;> omega

def run (load : Workload) : Workload :=
  match h : load.waiting with
  | [] => load
  | unit :: rest =>
    have : ({ load with waiting := rest }.turn unit).turns < load.turns := by
      have := turns_turn_lt unit { load with waiting := rest }
      simpa [turns, h, WorkUnit.turnsOfAll] using this
    ({ load with waiting := rest }.turn unit).run
termination_by load.turns

def settle (load : Workload) : Workload :=
  (load.await none).run

end Workload

end LiveFacts
