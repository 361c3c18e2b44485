import LiveFacts.Query.Reader
import Mathlib.Data.List.TakeWhile

/-!
# Queries and their texts

The text of a query reads back as the query exactly if all of its roles are names that can be told
from what stands around them. Types may hold any characters. Every query that was read has such
roles, so its text reads back, and writing what was read settles a text after one round.
-/

namespace LiveFacts.Query

open Text

def Delimits (c : Char) : Prop :=
  isBlank c = true ∨ c = '(' ∨ c = ')' ∨ c = '"'

instance (c : Char) : Decidable (Delimits c) :=
  inferInstanceAs (Decidable (_ ∨ _))

/-- A name that a role can have in a text. -/
def IsRoleName (role : String) : Prop :=
  role ≠ "" ∧ ∀ c ∈ role.toList, ¬ Delimits c

mutual

def stepRoles : Step → List String
  | .field _ => []
  | .successor role | .predecessor role => [role]
  | .existential _ steps => roles steps

def roles : List Step → List String
  | [] => []
  | step :: rest => stepRoles step ++ roles rest

end

theorem roles_append (p q : Query) : roles (p ++ q) = roles p ++ roles q := by
  induction p with
  | nil => rfl
  | cons step rest ih => rw [List.cons_append, roles, roles, ih, List.append_assoc]

theorem mem_roles_reverse {query : Query} {role : String} :
    role ∈ roles query.reverse ↔ role ∈ roles query := by
  induction query with
  | nil => rfl
  | cons step rest ih =>
    rw [List.reverse_cons, roles_append, roles, List.mem_append, List.mem_append, ih, or_comm]
    simp [roles]

theorem isRoleChar_iff {c : Char} : isRoleChar c = true ↔ ¬ Delimits c := by
  simp [isRoleChar, Delimits, not_or, and_assoc]

theorem isRoleName_ofList {role : List Char} (hsome : role ≠ [])
    (hchars : ∀ c ∈ role, isRoleChar c = true) : IsRoleName (String.ofList role) := by
  refine ⟨fun hnone => hsome ?_, fun c hc => ?_⟩
  · rwa [String.ofList_eq_empty_iff] at hnone
  · rw [String.toList_ofList] at hc
    exact isRoleChar_iff.1 (hchars c hc)

def Stops (rest : List Char) : Prop :=
  ∀ c ∈ rest.head?, Delimits c

theorem stops_nil : Stops [] := by simp [Stops]

theorem stops_cons {c : Char} {rest : List Char} : Stops (c :: rest) ↔ Delimits c := by
  simp [Stops]

/-- A role is read as far as it goes. -/
theorem span_role {role : String} (hrole : IsRoleName role) {rest : List Char}
    (hstops : Stops rest) :
    (role.toList ++ rest).takeWhile isRoleChar = role.toList ∧
      (role.toList ++ rest).dropWhile isRoleChar = rest := by
  have hall : ∀ c ∈ role.toList, isRoleChar c = true := fun c hc =>
    isRoleChar_iff.2 (hrole.2 c hc)
  have hnone : rest.takeWhile isRoleChar = [] ∧ rest.dropWhile isRoleChar = rest := by
    cases rest with
    | nil => exact ⟨rfl, rfl⟩
    | cons c rest =>
      have hc : isRoleChar c = false := by
        rw [← Bool.not_eq_true, isRoleChar_iff]
        exact not_not_intro (stops_cons.1 hstops)
      simp [hc]
  rw [List.takeWhile_append_of_pos hall, List.dropWhile_append_of_pos hall, hnone.1, hnone.2]
  exact ⟨List.append_nil _, rfl⟩

theorem unescape_escape (type rest : List Char) :
    unescape (escape type ++ '"' :: rest) = some (type, rest) := by
  induction type with
  | nil => rfl
  | cons c type ih =>
    by_cases hquoted : c = '"' ∨ c = '\\'
    · simp [escape, hquoted, unescape, ih]
    · rw [not_or] at hquoted
      rw [escape, if_neg (by simp [hquoted]), List.cons_append, unescape, ih]
      · rfl
      all_goals simp [hquoted]

namespace Token

theorem readRole_of_isRoleName {role : String} (hrole : IsRoleName role)
    {make : String → Step} {text rest : List Char} (hstops : Stops rest) :
    readRole make text (role.toList ++ rest) = .ok (.step (make role), rest) := by
  obtain ⟨htake, hdrop⟩ := span_role hrole hstops
  rw [readRole, htake, hdrop]
  split
  · next hnone => exact absurd (String.toList_eq_nil_iff.1 hnone) hrole.1
  · rw [String.ofList_toList]

theorem read_field (type : String) (rest : List Char) :
    read (stepChars (.field type) ++ rest) = .ok (.step (.field type), rest) := by
  have hread : readType (typeOpening ++ (escape type.toList ++ '"' :: rest)) =
      .ok (.step (.field type), rest) := by
    rw [readType, if_pos (by simp), List.drop_left, unescape_escape]
    simp only [String.ofList_toList]
  simpa [stepChars, read] using hread

/-- A role that is read is as long as it can be. -/
theorem exists_role_of_readRole {make : String → Step} {text rest left : List Char}
    {token : Token} (h : readRole make text rest = .ok (token, left)) :
    ∃ role, IsRoleName role ∧ Stops left ∧ rest = role.toList ++ left ∧
      token = .step (make role) := by
  rw [readRole] at h
  split at h
  · cases h
  · next hsome =>
    rw [Except.ok.injEq, Prod.mk.injEq] at h
    obtain ⟨rfl, rfl⟩ := h
    refine ⟨_, isRoleName_ofList hsome fun c hc => List.mem_takeWhile_imp hc, ?_, ?_, rfl⟩
    · intro c hc
      have hends := List.head?_dropWhile_not isRoleChar rest
      rw [Option.mem_def.1 hc] at hends
      exact not_not.1 fun hdelimits => by simp [isRoleChar_iff.2 hdelimits] at hends
    · rw [String.toList_ofList, List.takeWhile_append_dropWhile]

/-- A step that is read goes by role names. -/
theorem isRoleName_of_read {text rest : List Char} {step : Step}
    (h : read text = .ok (.step step, rest)) : ∀ role ∈ stepRoles step, IsRoleName role := by
  rw [read.eq_def] at h
  split at h
  · obtain ⟨role, hrole, -, -, hstep⟩ := exists_role_of_readRole h
    rw [Token.step.injEq] at hstep
    simpa [hstep, stepRoles] using hrole
  · obtain ⟨role, hrole, -, -, hstep⟩ := exists_role_of_readRole h
    rw [Token.step.injEq] at hstep
    simpa [hstep, stepRoles] using hrole
  · rw [readType] at h
    split at h
    · split at h
      · cases h
      · rw [Except.ok.injEq, Prod.mk.injEq, Token.step.injEq] at h
        simp [← h.1, stepRoles]
    · cases h
  all_goals cases h

/-- There is no blank in front of a token. -/
theorem skipBlanks_of_read {text rest : List Char} {token : Token}
    (h : read text = .ok (token, rest)) : skipBlanks text = text ∧ text ≠ [] := by
  rw [read.eq_def] at h
  split at h
  case h_7 => cases h
  all_goals exact ⟨List.dropWhile_cons_of_neg (by decide), List.cons_ne_nil _ _⟩

end Token

/-- How reading goes on from the token that comes after the blanks. -/
theorem readSteps_eq (frames : List Frame) (done : List Step) (text : List Char) :
    readSteps frames done text =
      if skipBlanks text = [] then
        if frames.isEmpty then .ok done.reverse else .error ⟨.unclosedCondition, []⟩
      else
        match Token.read (skipBlanks text) with
        | .error stop => .error stop
        | .ok (.step step, rest) => readSteps frames (step :: done) rest
        | .ok (.opening quantifier, rest) => readSteps (⟨quantifier, done⟩ :: frames) [] rest
        | .ok (.closing, rest) =>
          match frames with
          | [] => .error ⟨.unmatchedClosing, skipBlanks text⟩
          | frame :: frames =>
            readSteps frames (.existential frame.quantifier done.reverse :: frame.before) rest := by
  rw [readSteps]
  simp only [List.isEmpty_iff]
  split
  · rfl
  · split
    · next hread => rw [hread]
    · next token rest hread =>
      cases token with
      | step step => simp only [hread]
      | opening quantifier => simp only [hread]
      | closing => cases frames <;> simp only [hread]

variable {frames : List Frame} {done : List Step} {text rest : List Char}

theorem readSteps_nil (done : List Step) : readSteps [] done [] = .ok done.reverse := by
  rw [readSteps_eq]
  rfl

theorem readSteps_blank {c : Char} (hblank : isBlank c = true) (text : List Char) :
    readSteps frames done (c :: text) = readSteps frames done text := by
  have hskip : skipBlanks (c :: text) = skipBlanks text := List.dropWhile_cons_of_pos hblank
  rw [readSteps_eq, readSteps_eq frames done text, hskip]

theorem readSteps_step {step : Step} (h : Token.read text = .ok (.step step, rest)) :
    readSteps frames done text = readSteps frames (step :: done) rest := by
  obtain ⟨hskip, hsome⟩ := Token.skipBlanks_of_read h
  rw [readSteps_eq, hskip, if_neg hsome, h]

theorem readSteps_opening (quantifier : Quantifier) (text : List Char) :
    readSteps frames done (quantifier.letter :: '(' :: text) =
      readSteps (⟨quantifier, done⟩ :: frames) [] text := by
  have h : Token.read (quantifier.letter :: '(' :: text) = .ok (.opening quantifier, text) := by
    cases quantifier <;> rfl
  obtain ⟨hskip, hsome⟩ := Token.skipBlanks_of_read h
  rw [readSteps_eq, hskip, if_neg hsome, h]

theorem readSteps_closing (frame : Frame) (text : List Char) :
    readSteps (frame :: frames) done (')' :: text) =
      readSteps frames (.existential frame.quantifier done.reverse :: frame.before) text := by
  have h : Token.read (')' :: text) = .ok (.closing, text) := rfl
  obtain ⟨hskip, hsome⟩ := Token.skipBlanks_of_read h
  rw [readSteps_eq, hskip, if_neg hsome, h]

theorem stops_spacedChars {steps : List Step} (hstops : Stops rest) :
    Stops (spacedChars steps ++ rest) := by
  cases steps with
  | nil => exact hstops
  | cons step steps =>
    rw [spacedChars, List.cons_append]
    exact stops_cons.2 (Or.inl (by decide))

mutual

/-- What is written of a step is read as the step, and reading goes on behind it. -/
theorem readSteps_stepChars (step : Step) {frames : List Frame} {done : List Step}
    {rest : List Char} (hroles : ∀ role ∈ stepRoles step, IsRoleName role)
    (hstops : Stops rest) :
    readSteps frames done (stepChars step ++ rest) = readSteps frames (step :: done) rest := by
  match step with
  | .field type => exact readSteps_step (Token.read_field type rest)
  | .successor role =>
    exact readSteps_step (Token.readRole_of_isRoleName (hroles role (by simp [stepRoles])) hstops)
  | .predecessor role =>
    exact readSteps_step (Token.readRole_of_isRoleName (hroles role (by simp [stepRoles])) hstops)
  | .existential quantifier steps =>
    have hclosing : Stops (')' :: rest) := stops_cons.2 (by simp [Delimits])
    have hchars : stepChars (.existential quantifier steps) ++ rest =
        quantifier.letter :: '(' :: (chars steps ++ ')' :: rest) := by simp [stepChars]
    rw [hchars, readSteps_opening,
      readSteps_chars steps (by simpa [stepRoles] using hroles) hclosing, readSteps_closing,
      List.append_nil, List.reverse_reverse]

theorem readSteps_chars (steps : List Step) {frames : List Frame} {done : List Step}
    {rest : List Char} (hroles : ∀ role ∈ roles steps, IsRoleName role) (hstops : Stops rest) :
    readSteps frames done (chars steps ++ rest) =
      readSteps frames (steps.reverse ++ done) rest := by
  match steps with
  | [] => rfl
  | step :: steps =>
    rw [roles, List.forall_mem_append] at hroles
    rw [chars, List.append_assoc, readSteps_stepChars step hroles.1 (stops_spacedChars hstops),
      readSteps_spacedChars steps hroles.2 hstops]
    simp

theorem readSteps_spacedChars (steps : List Step) {frames : List Frame} {done : List Step}
    {rest : List Char} (hroles : ∀ role ∈ roles steps, IsRoleName role) (hstops : Stops rest) :
    readSteps frames done (spacedChars steps ++ rest) =
      readSteps frames (steps.reverse ++ done) rest := by
  match steps with
  | [] => rfl
  | step :: steps =>
    rw [roles, List.forall_mem_append] at hroles
    rw [spacedChars, List.cons_append, List.cons_append, readSteps_blank (by decide),
      List.append_assoc, readSteps_stepChars step hroles.1 (stops_spacedChars hstops),
      readSteps_spacedChars steps hroles.2 hstops]
    simp

end

/-- Whatever is read goes by role names, if what was read before does. -/
theorem isRoleName_of_readSteps {query : Query} (h : readSteps frames done text = .ok query)
    (hdone : ∀ role ∈ roles done, IsRoleName role)
    (hframes : ∀ frame ∈ frames, ∀ role ∈ roles frame.before, IsRoleName role) :
    ∀ role ∈ roles query, IsRoleName role := by
  fun_induction readSteps frames done text with
  | case1 frames done =>
    rw [Except.ok.injEq] at h
    subst h
    exact fun role hrole => hdone role (mem_roles_reverse.1 hrole)
  | case4 frames done text start hsome rest step hread _ _ ih =>
    refine ih h ?_ hframes
    rw [roles, List.forall_mem_append]
    exact ⟨Token.isRoleName_of_read hread, hdone⟩
  | case5 frames done text start hsome rest quantifier hread _ _ ih =>
    exact ih h (by simp [roles]) (List.forall_mem_cons.2 ⟨hdone, hframes⟩)
  | case7 done text start hsome rest hread frame frames _ _ ih =>
    rw [List.forall_mem_cons] at hframes
    refine ih h ?_ hframes.2
    rw [roles, List.forall_mem_append, stepRoles]
    exact ⟨fun role hrole => hdone role (mem_roles_reverse.1 hrole), hframes.1⟩
  -- the other ways end in a fault
  | case2 => cases h
  | case3 => cases h
  | case6 => cases h

theorem read_eq_ok {text : String} {query : Query} :
    read text = .ok query ↔ readSteps [] [] text.toList = .ok query := by
  rw [read]
  cases readSteps [] [] text.toList <;> simp [Except.mapError]

theorem isRoleName_of_read_ok {text : String} {query : Query} (h : read text = .ok query) :
    ∀ role ∈ roles query, IsRoleName role :=
  isRoleName_of_readSteps (read_eq_ok.1 h) (by simp [roles]) (by simp)

/-- The text of a query reads back exactly if the query goes by role names. -/
theorem read_text {query : Query} :
    read query.text = .ok query ↔ ∀ role ∈ roles query, IsRoleName role := by
  refine ⟨isRoleName_of_read_ok, fun hroles => ?_⟩
  have hread := @readSteps_chars query [] [] [] hroles stops_nil
  rw [List.append_nil, List.append_nil, readSteps_nil, List.reverse_reverse] at hread
  rw [read_eq_ok, text, String.toList_ofList]
  exact hread

/-- A query reads back from its text exactly if its roles, at every depth, are not empty and hold
no blanks, parentheses and quotes; and what was read from any text is written in a way that reads
back and is written so again. -/
theorem read_text_iff_and_settles :
    (∀ query : Query, read query.text = .ok query ↔
      ∀ role ∈ roles query, role ≠ "" ∧
        ∀ c ∈ role.toList, isBlank c = false ∧ c ≠ '(' ∧ c ≠ ')' ∧ c ≠ '"') ∧
      ∀ (text : String) (query : Query), read text = .ok query →
        ∃ again, read query.text = .ok again ∧ again = query ∧ Query.text again = query.text := by
  refine ⟨fun query => ?_, fun text query h => ?_⟩
  · simp only [read_text, IsRoleName, Delimits, not_or, Bool.not_eq_true]
  · exact ⟨query, read_text.2 (isRoleName_of_read_ok h), rfl, rfl⟩

def quotedQuery : Query :=
  [.existential .present [.existential .absent [], .field "a\"("], .predecessor "list"]

/-- A text with blanks and an escape that are not needed is written without them. -/
theorem spare_escape_settles :
    read "\u3000E( N()F.type=\"\\a\\\"(\")P.list" = .ok quotedQuery ∧
      Query.text quotedQuery = "E(N() F.type=\"a\\\"(\") P.list" ∧
      ∃ again, read "E(N() F.type=\"a\\\"(\") P.list" = .ok again ∧ again = quotedQuery ∧
        Query.text again = "E(N() F.type=\"a\\\"(\") P.list" := by
  have hread : read "\u3000E( N()F.type=\"\\a\\\"(\")P.list" = .ok quotedQuery := by
    decide +kernel
  have htext : Query.text quotedQuery = "E(N() F.type=\"a\\\"(\") P.list" := by decide +kernel
  have hagain := read_text_iff_and_settles.2 _ _ hread
  rw [htext] at hagain
  exact ⟨hread, htext, hagain⟩

end LiveFacts.Query
