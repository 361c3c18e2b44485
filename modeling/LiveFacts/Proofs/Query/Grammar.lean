import LiveFacts.Proofs.Query.Texts

/-!
# The grammar of query texts

Which texts describe which queries, said by a grammar that knows no tokens and no conditions that
are still open. Reading succeeds on just the texts that describe a query, and gives that query.

A run that succeeds is traced back by what its stack of open conditions still asks of the text
(`Completes`); that the described text is read is an induction over the description.
-/

namespace LiveFacts.Query

open Text

inductive Quotes : List Char → List Char → Prop where
  | nil : Quotes [] []
  | plain {c : Char} {body type : List Char} (hquote : c ≠ '"') (hslash : c ≠ '\\')
      (h : Quotes body type) : Quotes (c :: body) (c :: type)
  | escaped (c : Char) {body type : List Char} (h : Quotes body type) :
      Quotes ('\\' :: c :: body) (c :: type)

/-- A text describes a query: the steps stand one after another, with blanks before, between and
after them, and each role is as long as it can be. -/
inductive Describes : List Char → Query → Prop where
  | nil : Describes [] []
  | blank {c : Char} {text : List Char} {query : Query} (hblank : isBlank c = true)
      (h : Describes text query) : Describes (c :: text) query
  | successor {role : String} {rest : List Char} {query : Query} (hrole : IsRoleName role)
      (hstops : Stops rest) (h : Describes rest query) :
      Describes ('S' :: '.' :: (role.toList ++ rest)) (.successor role :: query)
  | predecessor {role : String} {rest : List Char} {query : Query} (hrole : IsRoleName role)
      (hstops : Stops rest) (h : Describes rest query) :
      Describes ('P' :: '.' :: (role.toList ++ rest)) (.predecessor role :: query)
  | field {body type rest : List Char} {query : Query} (hquotes : Quotes body type)
      (h : Describes rest query) :
      Describes ('F' :: '.' :: (typeOpening ++ (body ++ '"' :: rest)))
        (.field (String.ofList type) :: query)
  | condition (quantifier : Quantifier) {body rest : List Char} {inner query : Query}
      (hinner : Describes body inner) (h : Describes rest query) :
      Describes (quantifier.letter :: '(' :: (body ++ ')' :: rest))
        (.existential quantifier inner :: query)

theorem unescape_of_quotes {body type : List Char} (h : Quotes body type) (rest : List Char) :
    unescape (body ++ '"' :: rest) = some (type, rest) := by
  induction h with
  | nil => rfl
  | plain hquote hslash _ ih =>
    rw [List.cons_append, unescape, ih]
    · rfl
    all_goals simp [hquote, hslash]
  | escaped c _ ih =>
    rw [List.cons_append, List.cons_append, unescape, ih]
    rfl

theorem Token.read_of_quotes {body type : List Char} (h : Quotes body type) (rest : List Char) :
    Token.read ('F' :: '.' :: (typeOpening ++ (body ++ '"' :: rest))) =
      .ok (.step (.field (String.ofList type)), rest) := by
  have hread : readType (typeOpening ++ (body ++ '"' :: rest)) =
      .ok (.step (.field (String.ofList type)), rest) := by
    rw [readType, if_pos (by simp), List.drop_left, unescape_of_quotes h]
  rwa [Token.read]

theorem stops_append {text rest : List Char} (h : Stops text) (hrest : Stops rest) :
    Stops (text ++ rest) := by
  cases text with
  | nil => exact hrest
  | cons c text => exact stops_cons.2 (stops_cons.1 h)

theorem Stops.of_append {text rest : List Char} (h : Stops (text ++ rest)) : Stops text := by
  cases text with
  | nil => exact stops_nil
  | cons c text => exact stops_cons.2 (stops_cons.1 h)

/-- Reading goes on behind a text that describes steps, with these steps done. -/
theorem readSteps_of_describes {body : List Char} {query : Query} (h : Describes body query)
    {frames : List Frame} {done : List Step} {rest : List Char} (hstops : Stops rest) :
    readSteps frames done (body ++ rest) = readSteps frames (query.reverse ++ done) rest := by
  induction h generalizing frames done rest with
  | nil => rfl
  | blank hblank _ ih => rw [List.cons_append, readSteps_blank hblank, ih hstops]
  | @successor role left query hrole hleft _ ih =>
    have hread : Token.read ('S' :: '.' :: (role.toList ++ (left ++ rest))) =
        .ok (.step (.successor role), left ++ rest) :=
      Token.readRole_of_isRoleName hrole (stops_append hleft hstops)
    simp only [List.cons_append, List.append_assoc, List.reverse_cons, List.nil_append]
    rw [readSteps_step hread, ih hstops]
  | @predecessor role left query hrole hleft _ ih =>
    have hread : Token.read ('P' :: '.' :: (role.toList ++ (left ++ rest))) =
        .ok (.step (.predecessor role), left ++ rest) :=
      Token.readRole_of_isRoleName hrole (stops_append hleft hstops)
    simp only [List.cons_append, List.append_assoc, List.reverse_cons, List.nil_append]
    rw [readSteps_step hread, ih hstops]
  | @field body type left query hquotes _ ih =>
    simp only [List.cons_append, List.append_assoc, List.reverse_cons, List.nil_append]
    rw [readSteps_step (Token.read_of_quotes hquotes (left ++ rest)), ih hstops]
  | @condition quantifier body left inner query _ _ ihinner ih =>
    have hclosing : Stops (')' :: (left ++ rest)) := stops_cons.2 (by simp [Delimits])
    simp only [List.cons_append, List.append_assoc, List.reverse_cons, List.nil_append]
    rw [readSteps_opening, ihinner hclosing, readSteps_closing, ih hstops, List.append_nil,
      List.reverse_reverse]

theorem exists_quotes_of_unescape {text type rest : List Char}
    (h : unescape text = some (type, rest)) :
    ∃ body, Quotes body type ∧ text = body ++ '"' :: rest := by
  fun_induction unescape text generalizing type rest with
  | case1 | case2 => cases h
  | case3 text =>
    cases h
    exact ⟨[], .nil, rfl⟩
  | case4 c text ih =>
    obtain ⟨⟨value, left⟩, hvalue, hsame⟩ := Option.map_eq_some_iff.1 h
    cases hsame
    obtain ⟨body, hbody, rfl⟩ := ih hvalue
    exact ⟨_, .escaped c hbody, rfl⟩
  | case5 c text hend hquote hslash ih =>
    obtain ⟨⟨value, left⟩, hvalue, hsame⟩ := Option.map_eq_some_iff.1 h
    cases hsame
    obtain ⟨body, hbody, rfl⟩ := ih hvalue
    refine ⟨_, .plain hquote (fun heq => ?_) hbody, rfl⟩
    cases body <;> exact hslash _ _ heq rfl

def Token.IsBefore (rest text : List Char) : Token → Prop
  | .step next => ∃ piece, text = piece ++ rest ∧ ∀ body query, (Stops rest → Stops body) →
      Describes body query → Describes (piece ++ body) (next :: query)
  | .opening quantifier => text = quantifier.letter :: '(' :: rest
  | .closing => text = ')' :: rest

theorem Token.isBefore_of_read {text rest : List Char} {token : Token}
    (h : Token.read text = .ok (token, rest)) : token.IsBefore rest text := by
  rw [Token.read.eq_def] at h
  split at h
  case h_1 =>
    obtain ⟨role, hrole, hstops, rfl, rfl⟩ := exists_role_of_readRole h
    exact ⟨'S' :: '.' :: role.toList, rfl, fun body query hbody hdescribes =>
      .successor hrole (hbody hstops) hdescribes⟩
  case h_2 =>
    obtain ⟨role, hrole, hstops, rfl, rfl⟩ := exists_role_of_readRole h
    exact ⟨'P' :: '.' :: role.toList, rfl, fun body query hbody hdescribes =>
      .predecessor hrole (hbody hstops) hdescribes⟩
  case h_3 =>
    rw [readType] at h
    split_ifs at h with hopening
    obtain ⟨inside, rfl⟩ := List.isPrefixOf_iff_prefix.1 hopening
    rw [List.drop_left] at h
    split at h
    · cases h
    · next type left htype =>
      cases h
      obtain ⟨quoted, hquotes, rfl⟩ := exists_quotes_of_unescape htype
      refine ⟨'F' :: '.' :: (typeOpening ++ (quoted ++ ['"'])), by simp, ?_⟩
      intro body query _ hdescribes
      simpa using Describes.field hquotes hdescribes
  all_goals cases h
  all_goals rfl

/-- What is left of a text completes the open conditions and the steps done to a query: each
condition, the innermost first, is described up to a closing parenthesis. -/
def Completes (query : Query) : List Frame → List Step → List Char → Prop
  | [], done, text => ∃ steps, Describes text steps ∧ done.reverse ++ steps = query
  | frame :: frames, done, text => ∃ body steps rest, text = body ++ ')' :: rest ∧
      Describes body steps ∧ Completes query frames
        (.existential frame.quantifier (done.reverse ++ steps) :: frame.before) rest

namespace Completes

variable {query : Query} {frames : List Frame} {done : List Step} {text : List Char}

theorem blank {c : Char} (hblank : isBlank c = true) (h : Completes query frames done text) :
    Completes query frames done (c :: text) := by
  cases frames with
  | nil =>
    obtain ⟨steps, hsteps, hquery⟩ := h
    exact ⟨steps, .blank hblank hsteps, hquery⟩
  | cons frame frames =>
    obtain ⟨body, steps, rest, rfl, hsteps, hrest⟩ := h
    exact ⟨c :: body, steps, rest, rfl, .blank hblank hsteps, hrest⟩

theorem of_skipBlanks (h : Completes query frames done (skipBlanks text)) :
    Completes query frames done text := by
  induction text with
  | nil => exact h
  | cons c text ih =>
    by_cases hblank : isBlank c = true
    · rw [skipBlanks, List.dropWhile_cons_of_pos hblank] at h
      exact (ih h).blank hblank
    · rwa [skipBlanks, List.dropWhile_cons_of_neg hblank] at h

/-- A step in front of the text was still to be done. -/
theorem step {step : Step} {rest : List Char} (piece : List Char)
    (h : Completes query frames (step :: done) rest)
    (hpiece : ∀ body query, (Stops rest → Stops body) → Describes body query →
      Describes (piece ++ body) (step :: query)) :
    Completes query frames done (piece ++ rest) := by
  cases frames with
  | nil =>
    obtain ⟨steps, hsteps, hquery⟩ := h
    exact ⟨step :: steps, hpiece _ _ id hsteps, by simpa using hquery⟩
  | cons frame frames =>
    obtain ⟨body, steps, left, rfl, hsteps, hleft⟩ := h
    refine ⟨piece ++ body, step :: steps, left, by simp, hpiece _ _ Stops.of_append hsteps, ?_⟩
    simpa using hleft

end Completes

/-- A text that is read completes what was open when reading it began. -/
theorem completes_of_readSteps {frames : List Frame} {done : List Step} {text : List Char}
    {query : Query} (h : readSteps frames done text = .ok query) :
    Completes query frames done text := by
  fun_induction readSteps frames done text with
  | case1 frames done text start hend hframes =>
    cases h
    have hnone : skipBlanks text = [] := List.isEmpty_iff.1 hend
    rw [List.isEmpty_iff.1 hframes]
    exact Completes.of_skipBlanks ⟨[], hnone ▸ .nil, List.append_nil _⟩
  | case4 frames done text start hsome rest step hread _ _ ih =>
    obtain ⟨piece, hstart, hpiece⟩ : Token.IsBefore rest (skipBlanks text) (.step step) :=
      Token.isBefore_of_read hread
    exact Completes.of_skipBlanks (hstart ▸ (ih h).step piece hpiece)
  | case5 frames done text start hsome rest quantifier hread _ _ ih =>
    -- the condition is described up to where it was closed, and then is a step like others
    obtain ⟨body, steps, left, rfl, hsteps, hleft⟩ := ih h
    have hstart : skipBlanks text = quantifier.letter :: '(' :: (body ++ ')' :: left) :=
      Token.isBefore_of_read hread
    have hcompletes := hleft.step (quantifier.letter :: '(' :: (body ++ [')']))
      fun after query _ hafter => by simpa using Describes.condition quantifier hsteps hafter
    exact Completes.of_skipBlanks (hstart ▸ by simpa using hcompletes)
  | case7 done text start hsome rest hread frame frames _ _ ih =>
    have hstart : skipBlanks text = ')' :: rest := Token.isBefore_of_read hread
    exact Completes.of_skipBlanks (hstart ▸ ⟨[], [], rest, rfl, .nil, by simpa using ih h⟩)
  -- the other ways end in a fault
  | case2 => cases h
  | case3 => cases h
  | case6 => cases h

/-- Reading succeeds on just the texts that describe a query, and gives that query. -/
theorem read_eq_ok_iff_describes {text : String} {query : Query} :
    read text = .ok query ↔ Describes text.toList query := by
  rw [read_eq_ok]
  refine ⟨fun h => ?_, fun h => ?_⟩
  · obtain ⟨steps, hsteps, rfl⟩ := completes_of_readSteps h
    exact hsteps
  · have hread := @readSteps_of_describes text.toList query h [] [] [] stops_nil
    rwa [List.append_nil, List.append_nil, readSteps_nil, List.reverse_reverse] at hread

end LiveFacts.Query
