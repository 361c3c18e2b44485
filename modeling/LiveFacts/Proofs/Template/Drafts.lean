import LiveFacts.Template.Compile

/-!
# Conditions attached one at a time

A template comes about by running its function. Every function is handed a number that none was
handed before, and its placeholder carries the number along, wherever it is used. A condition is
compiled when it is attached, before the shape that it is attached to: its step is kept until then,
or its fault, if none was kept before.

A finished template is compiled at once, and its placeholders tell how many functions outwards they
were handed out. Both ways lead to the same query, and to the same fault.
-/

namespace LiveFacts

/-- The numbers handed to the functions around a place, from the innermost outwards. -/
abbrev Numbering := Nat → Nat

namespace Numbering

def enter (number : Nat) (outer : Numbering) : Numbering
  | 0 => number
  | level + 1 => outer level

def IsBefore (numbering : Numbering) (next : Nat) : Prop :=
  ∀ level, numbering level < next

/-- The innermost function shares its number with none of those around it. -/
def IsFresh (numbering : Numbering) : Prop :=
  ∀ level, numbering level = numbering 0 ↔ level = 0

variable {numbering : Numbering} {next later : Nat}

theorem IsBefore.mono (hbefore : numbering.IsBefore next) (hle : next ≤ later) :
    numbering.IsBefore later :=
  fun level => Nat.lt_of_lt_of_le (hbefore level) hle

theorem IsBefore.enter (hbefore : numbering.IsBefore next) :
    (numbering.enter next).IsBefore (next + 1) := by
  rintro (_ | level)
  · exact Nat.lt_succ_self next
  · exact Nat.lt_succ_of_lt (hbefore level)

theorem IsBefore.isFresh (hbefore : numbering.IsBefore next) : (numbering.enter next).IsFresh := by
  rintro (_ | level)
  · simp
  · simpa [Numbering.enter] using Nat.ne_of_lt (hbefore level)

end Numbering

def Placeholder.compileAt (numbering : Numbering) (placeholder : Placeholder) :
    Except ShapeFault Query :=
  if numbering placeholder.level ≠ numbering 0 then .error .foreignPlaceholder
  else if placeholder.hops.any (·.role.isEmpty) then .error .emptyPredecessorRole
  else .ok placeholder.steps

def Shape.compileAt (numbering : Numbering) : Shape → Except ShapeFault Query
  | placeholder p => p.compileAt numbering
  | template type roles =>
    if type.isEmpty then .error .emptyType
    else
      match roles with
      | [] => .error (.unanchored type)
      | [(role, shape)] =>
        if role.isEmpty then .error .emptySuccessorRole
        else do
          let steps ← shape.compileAt numbering
          return steps ++ [.successor role, .field type]
      | roles => .error (.severalRoles type (roles.map Prod.fst))
  | list [item] => item.compileAt numbering
  | list items => .error (.itemCount items.length)

theorem Placeholder.compileAt_eq {numbering : Numbering} (hfresh : numbering.IsFresh)
    (placeholder : Placeholder) : placeholder.compileAt numbering = placeholder.compile := by
  simp only [compileAt, compile, ne_eq, hfresh placeholder.level]

theorem Shape.compileAt_eq {numbering : Numbering} (hfresh : numbering.IsFresh) (shape : Shape) :
    shape.compileAt numbering = shape.compile := by
  induction shape using compile.induct with
  | case1 p => rw [compileAt, compile, Placeholder.compileAt_eq hfresh]
  | case2 type roles htype => simp [compileAt.eq_def, compile.eq_def, htype]
  | case3 type htype => simp [compileAt, compile, htype]
  | case4 type htype role inner hrole => simp [compileAt, compile, htype, hrole]
  | case5 type htype role inner hrole ih => simp [compileAt, compile, htype, hrole, ih]
  | case6 type htype roles hnone hone => simp [compileAt, compile, htype]
  | case7 item ih => rw [compileAt, compile, ih]
  | case8 items hone => simp [compileAt, compile]

structure Draft where
  steps : List Step := []
  /-- Of the faults of the conditions the first. -/
  fault? : Option ShapeFault := none

namespace Draft

def attach (draft : Draft) : Except ShapeFault Step → Draft
  | .ok step => { draft with steps := draft.steps ++ [step] }
  | .error fault => { draft with fault? := draft.fault?.or (some fault) }

def compile (draft : Draft) (shape : Except ShapeFault Query) : Except ShapeFault Query :=
  match draft.fault? with
  | some fault => .error fault
  | none => do
    let steps ← shape
    return steps ++ draft.steps

def result (draft : Draft) : Except ShapeFault (List Step) :=
  match draft.fault? with
  | some fault => .error fault
  | none => .ok draft.steps

theorem compile_eq (draft : Draft) (shape : Except ShapeFault Query) :
    draft.compile shape = do
      let filters ← draft.result
      let steps ← shape
      return steps ++ filters := by
  rw [compile, result]
  cases draft.fault? <;> rfl

@[simp] theorem result_empty : ({} : Draft).result = pure [] := rfl

theorem result_attach (draft : Draft) (condition : Except ShapeFault Step) :
    (draft.attach condition).result = do
      let filters ← draft.result
      let step ← condition
      return filters ++ [step] := by
  obtain ⟨steps, _ | fault⟩ := draft <;> cases condition <;> rfl

end Draft

namespace Condition

mutual

/-- The function of a condition is handed the next number. The number after the last one that was
handed out is returned along with the step. -/
def attachAt (outer : Numbering) (next : Nat) : Condition → Except ShapeFault Step × Nat
  | mk quantifier shape conditions =>
    let numbering := outer.enter next
    let (draft, after) := attachAllAt numbering (next + 1) {} conditions
    let step := do
      let steps ← draft.compile (shape.compileAt numbering)
      return .existential quantifier steps
    (step, after)

def attachAllAt (numbering : Numbering) (next : Nat) (draft : Draft) : List Condition → Draft × Nat
  | [] => (draft, next)
  | condition :: rest =>
    let (step, after) := attachAt numbering next condition
    attachAllAt numbering after (draft.attach step) rest

end

mutual

theorem attachAt_spec {outer : Numbering} {next : Nat} (hbefore : outer.IsBefore next)
    (condition : Condition) :
    (condition.attachAt outer next).1 = condition.compile ∧
      next ≤ (condition.attachAt outer next).2 := by
  match condition with
  | mk quantifier shape conditions =>
    obtain ⟨hdraft, hafter⟩ := attachAllAt_spec hbefore.enter {} conditions
    refine ⟨?_, Nat.le_of_succ_le hafter⟩
    simp only [attachAt, compile, Draft.compile_eq, hdraft, Shape.compileAt_eq hbefore.isFresh,
      Draft.result_empty, bind_assoc, pure_bind, List.nil_append]

/-- A draft grows by the steps of the conditions, in the order in which they were attached. -/
theorem attachAllAt_spec {numbering : Numbering} {next : Nat} (hbefore : numbering.IsBefore next)
    (draft : Draft) (conditions : List Condition) :
    (attachAllAt numbering next draft conditions).1.result = (do
        let filters ← draft.result
        let more ← compileAll conditions
        return filters ++ more) ∧
      next ≤ (attachAllAt numbering next draft conditions).2 := by
  match conditions with
  | [] =>
    refine ⟨?_, Nat.le_refl next⟩
    rw [attachAllAt, compileAll]
    cases draft.result with
    | error fault => rfl
    | ok filters => exact congrArg Except.ok (List.append_nil filters).symm
  | condition :: rest =>
    obtain ⟨hstep, hafter⟩ := attachAt_spec hbefore condition
    obtain ⟨hrest, hlast⟩ := attachAllAt_spec (hbefore.mono hafter)
      (draft.attach (condition.attachAt numbering next).1) rest
    refine ⟨hrest.trans ?_, Nat.le_trans hafter hlast⟩
    simp only [Draft.result_attach, hstep, compileAll, bind_assoc, pure_bind, List.append_assoc,
      List.singleton_append]

end

end Condition

/-- The function of a template is handed the next number, whatever was handed out before. -/
def Specification.compileAt (outer : Numbering) (next : Nat) (specification : Specification) :
    Except ShapeFault Query :=
  let numbering := outer.enter next
  let (draft, _) := Condition.attachAllAt numbering (next + 1) {} specification.conditions
  draft.compile (specification.shape.compileAt numbering)

/-- Compiling each condition when it is attached, and telling functions apart by their numbers,
gives the query or the fault of the finished template. -/
theorem Specification.compileAt_eq {outer : Numbering} {next : Nat} (hbefore : outer.IsBefore next)
    (specification : Specification) :
    specification.compileAt outer next = specification.compile := by
  have hdraft := (Condition.attachAllAt_spec hbefore.enter {} specification.conditions).1
  simp only [compileAt, compile, Draft.compile_eq, hdraft, Shape.compileAt_eq hbefore.isFresh,
    Draft.result_empty, bind_assoc, pure_bind, List.nil_append]

end LiveFacts
