import LiveFacts.Proofs.Query.Grammar
import LiveFacts.Query.Cursor

/-!
# Positions while a query is read

Reading by positions never cuts a text off the start of a character, comes to an end, and gives
what reading without positions gives: a position is always the number of bytes in front of what is
left of the text, and every round but the last makes that less. So reading accepts just the grammar
of query texts, and a fault is found at the start of a character or at the end.
-/

namespace LiveFacts.Query

open Text

theorem byteCount_append (s t : List Char) : byteCount (s ++ t) = byteCount s + byteCount t := by
  induction s with
  | nil => rw [List.nil_append, byteCount, Nat.zero_add]
  | cons c s ih => rw [List.cons_append, byteCount, byteCount, ih, Nat.add_assoc]

/-- The position of what is left of a text. -/
theorem byteCount_sub {text moved left : List Char} (h : text = moved ++ left) :
    byteCount text - byteCount left = byteCount moved := by
  rw [h, byteCount_append, Nat.add_sub_cancel]

theorem utf8ByteSize_ofList (text : List Char) :
    (String.ofList text).utf8ByteSize = byteCount text := by
  induction text with
  | nil => rfl
  | cons c text ih =>
    rw [String.ofList_cons, String.utf8ByteSize_append, String.utf8ByteSize_singleton, ih,
      byteCount]

namespace Cursor

theorem dropBytes?_append (before rest : List Char) :
    dropBytes? (byteCount before) (before ++ rest) = some rest := by
  induction before with
  | nil => cases rest <;> rfl
  | cons c before ih =>
    have hsize := c.utf8Size_pos
    obtain ⟨count, hcount⟩ : ∃ count, byteCount (c :: before) = count + 1 :=
      ⟨c.utf8Size - 1 + byteCount before, by rw [byteCount]; omega⟩
    rw [byteCount] at hcount
    rw [byteCount, hcount, List.cons_append, dropBytes?, if_pos (by omega), ← hcount,
      Nat.add_sub_cancel_left, ih]

theorem restAt_eq {text before rest : List Char} {position : Nat} (htext : text = before ++ rest)
    (hposition : position = byteCount before) : restAt text position = return rest := by
  rw [restAt, htext, hposition, dropBytes?_append]

/-- The blanks of a text, and what stands behind them. -/
theorem exists_blanks (text : List Char) :
    ∃ blanks start, text = blanks ++ start ∧ (∀ c ∈ blanks, isBlank c = true) ∧
      ∀ c ∈ start.head?, isBlank c = false := by
  refine ⟨text.takeWhile isBlank, text.dropWhile isBlank,
    List.takeWhile_append_dropWhile.symm, fun c hc => List.mem_takeWhile_imp hc, fun c hc => ?_⟩
  have hends := List.head?_dropWhile_not isBlank text
  rw [Option.mem_def.1 hc] at hends
  simpa using hends

variable {blanks start : List Char}

theorem skipBlanks_append (hblanks : ∀ c ∈ blanks, isBlank c = true)
    (hstart : ∀ c ∈ start.head?, isBlank c = false) : skipBlanks (blanks ++ start) = start := by
  rw [skipBlanks, List.dropWhile_append_of_pos hblanks]
  cases start with
  | nil => rfl
  | cons c rest => exact List.dropWhile_cons_of_neg (by simp [hstart c rfl])

theorem skip_append (before : List Char) (hblanks : ∀ c ∈ blanks, isBlank c = true)
    (hstart : ∀ c ∈ start.head?, isBlank c = false) :
    skip (before ++ (blanks ++ start)) (byteCount before) =
      return byteCount (before ++ blanks) := by
  rw [skip, restAt_eq rfl rfl, pure_bind, skipBlanks_append hblanks hstart, byteCount_append,
    byteCount_append, Nat.add_sub_cancel]

/-- Where no blank stands, none is left out. -/
theorem skip_start (before : List Char) (hstart : ∀ c ∈ start.head?, isBlank c = false) :
    skip (before ++ start) (byteCount before) = return byteCount before := by
  have hblanks : ∀ c ∈ ([] : List Char), isBlank c = true := by simp
  have hskip := skip_append before hblanks hstart
  rwa [List.append_nil, List.nil_append] at hskip

/-- A reading by positions that begins behind `before`, where `rest` is left of the text, agrees
with an outcome of reading without positions: either it gives a value, and the outcome is what
`resume` makes of the value and of what is left then, or both find the same fault at the same
place. An `advancing` reading that gives a value has moved on. -/
inductive Agrees {α β : Type} (advancing : Bool) (before : List Char)
    (resume : α → List Char → Except Stop β) :
    List Char → Reading (α × Nat) → Except Stop β → Prop where
  | gives (value : α) {moved left : List Char} (hmoved : advancing = true → moved ≠ []) :
      Agrees advancing before resume (moved ++ left)
        (return (value, byteCount (before ++ moved))) (resume value left)
  | faults (fault : SyntaxFault) (moved left : List Char) :
      Agrees advancing before resume (moved ++ left)
        (fail (byteCount (before ++ moved)) fault) (.error ⟨fault, left⟩)

namespace Agrees

variable {α β γ : Type} {advancing : Bool} {before moved rest : List Char}
  {resume : α → List Char → Except Stop γ} {reading : Reading (α × Nat)} {outcome : Except Stop γ}

theorem of_eq (moved : List Char) {value : α} {position : Nat} {left : List Char}
    (hrest : rest = moved ++ left) (hposition : position = byteCount (before ++ moved))
    (hmoved : advancing = true → moved ≠ []) (houtcome : outcome = resume value left) :
    Agrees advancing before resume rest (return (value, position)) outcome := by
  subst hrest hposition houtcome
  exact .gives value hmoved

theorem of_fault (moved : List Char) {fault : SyntaxFault} {position : Nat} {left : List Char}
    (hrest : rest = moved ++ left) (hposition : position = byteCount (before ++ moved))
    (houtcome : outcome = .error ⟨fault, left⟩) :
    Agrees advancing before resume rest (fail position fault) outcome := by
  subst hrest hposition houtcome
  exact .faults fault moved left

theorem gives_or_faults (h : Agrees advancing before resume rest reading outcome) :
    (∃ value moved left, rest = moved ++ left ∧
      reading = pure (value, byteCount (before ++ moved)) ∧ outcome = resume value left) ∨
      ∃ fault moved left, rest = moved ++ left ∧
        reading = fail (byteCount (before ++ moved)) fault ∧ outcome = .error ⟨fault, left⟩ := by
  cases h with
  | @gives value moved left _ => exact Or.inl ⟨value, moved, left, rfl, rfl, rfl⟩
  | faults fault moved left => exact Or.inr ⟨fault, moved, left, rfl, rfl, rfl⟩

theorem weaken (h : Agrees advancing before resume rest reading outcome) :
    Agrees false before resume rest reading outcome := by
  cases h with
  | gives value _ => exact .gives value (by simp)
  | faults fault moved left => exact .faults fault moved left

/-- A reading that begins further on. -/
theorem shift {further : Bool} (h : Agrees further (before ++ moved) resume rest reading outcome)
    (hmoved : advancing = true → moved = [] → further = true) :
    Agrees advancing before resume (moved ++ rest) reading outcome := by
  cases h with
  | gives value hfurther =>
    rw [← List.append_assoc, List.append_assoc before]
    refine .gives value fun hadvancing hnone => ?_
    rw [List.append_eq_nil_iff] at hnone
    exact hfurther (hmoved hadvancing hnone.1) hnone.2
  | faults fault _ left =>
    rw [← List.append_assoc, List.append_assoc before]
    exact .faults fault _ left

/-- One reading after another. The second need only agree where less is left. -/
theorem bind (h : Agrees true before resume rest reading outcome)
    {resume' : β → List Char → Except Stop γ} {next : α × Nat → Reading (β × Nat)}
    (hnext : ∀ value moved left, rest = moved ++ left → left.length < rest.length →
      Agrees false (before ++ moved) resume' left (next (value, byteCount (before ++ moved)))
        (resume value left)) :
    Agrees advancing before resume' rest (reading >>= next) outcome := by
  cases h with
  | @gives value moved left hmoved =>
    rw [pure_bind]
    refine shift (hnext value moved left rfl ?_) fun _ hnone => absurd hnone (hmoved rfl)
    have hlength := List.length_pos_iff.2 (hmoved rfl)
    rw [List.length_append]
    omega
  | faults fault moved left => exact .faults fault moved left

end Agrees

variable {before rest : List Char} {frames : List Frame} {done : List Step}

theorem readSteps_error {c : Char} {rest : List Char} {stop : Stop} (hblank : isBlank c = false)
    (h : Token.read (c :: rest) = .error stop) :
    readSteps frames done (c :: rest) = .error stop := by
  have hskip : skipBlanks (c :: rest) = c :: rest := List.dropWhile_cons_of_neg (by simp [hblank])
  rw [readSteps_eq, hskip, if_neg (List.cons_ne_nil c rest), h]

theorem agrees_move (make : String → Step) {letter : Char} (hsize : letter.utf8Size = 1)
    (hblank : isBlank letter = false) {body : List Char}
    (hread : Token.read (letter :: '.' :: body) =
      Token.readRole make (letter :: '.' :: body) body) :
    Agrees true before (fun step left => readSteps frames (step :: done) left)
      (letter :: '.' :: body) (move make (byteCount before) body)
      (readSteps frames done (letter :: '.' :: body)) := by
  rw [Token.readRole] at hread
  rw [move]
  cases hrole : body.takeWhile isRoleChar with
  | nil =>
    rw [hrole] at hread
    exact .of_fault [] rfl (by rw [List.append_nil]) (readSteps_error hblank hread)
  | cons c role =>
    rw [hrole] at hread
    refine .of_eq (letter :: '.' :: c :: role) ?_ ?_ (by simp) (readSteps_step hread)
    · rw [List.cons_append, List.cons_append, ← hrole, List.takeWhile_append_dropWhile]
    · have hpoint : '.'.utf8Size = 1 := rfl
      simp only [byteCount_append, byteCount, hsize, hpoint]
      omega

theorem typeUpTo_spec (type : List Char) (offset : Nat) (text : List Char) :
    (unescape text = none ∧ typeUpTo type offset text = none) ∨
      ∃ value body left, text = body ++ '"' :: left ∧ unescape text = some (value, left) ∧
        typeUpTo type offset text = some (type.reverse ++ value, offset + byteCount body) := by
  fun_induction typeUpTo type offset text with
  | case1 => exact Or.inl ⟨rfl, rfl⟩
  | case2 => exact Or.inl ⟨rfl, rfl⟩
  | case3 type offset left => exact Or.inr ⟨[], [], left, rfl, rfl, by simp [byteCount]⟩
  | case4 type offset c text ih =>
    rw [unescape]
    obtain ⟨hnone, htype⟩ | ⟨value, body, left, rfl, hvalue, htype⟩ := ih
    · exact Or.inl ⟨by rw [hnone]; rfl, htype⟩
    · refine Or.inr ⟨c :: value, '\\' :: c :: body, left, rfl, by rw [hvalue]; rfl, ?_⟩
      rw [htype]
      simp [byteCount, Nat.add_assoc]
  | case5 type offset c text hend hquote hslash ih =>
    rw [unescape]
    · obtain ⟨hnone, htype⟩ | ⟨value, body, left, rfl, hvalue, htype⟩ := ih
      · exact Or.inl ⟨by rw [hnone]; rfl, htype⟩
      · refine Or.inr ⟨c :: value, c :: body, left, rfl, by rw [hvalue]; rfl, ?_⟩
        rw [htype]
        simp [byteCount, Nat.add_assoc]
    all_goals assumption

theorem agrees_field {body : List Char} :
    Agrees true before (fun step left => readSteps frames (step :: done) left)
      ('F' :: '.' :: body) (field (before ++ 'F' :: '.' :: body) (byteCount before))
      (readSteps frames done ('F' :: '.' :: body)) := by
  have hposition : byteCount before + 2 = byteCount (before ++ ['F', '.']) :=
    (byteCount_append before ['F', '.']).symm
  have hread : Token.read ('F' :: '.' :: body) = Token.readType body := rfl
  rw [Token.readType] at hread
  have htext : before ++ 'F' :: '.' :: body = before ++ ['F', '.'] ++ body := by simp
  rw [field, restAt_eq htext hposition, pure_bind]
  split_ifs at hread ⊢ with hopening
  · obtain ⟨inside, rfl⟩ := List.isPrefixOf_iff_prefix.1 hopening
    rw [List.drop_left] at hread ⊢
    obtain ⟨hnone, htype⟩ | ⟨value, quoted, left, rfl, hvalue, htype⟩ := typeUpTo_spec [] 0 inside
    · rw [hnone] at hread
      rw [htype]
      exact .of_fault ['F', '.'] rfl hposition (readSteps_error (by decide) hread)
    · rw [hvalue] at hread
      rw [htype]
      refine .of_eq (['F', '.'] ++ (typeOpening ++ (quoted ++ ['"']))) (by simp) ?_ (by simp)
        (readSteps_step hread)
      have hquote : byteCount ['"'] = 1 := rfl
      rw [hposition]
      simp only [byteCount_append, hquote]
      omega
  · exact .of_fault ['F', '.'] rfl hposition (readSteps_error (by decide) hread)

def resume : List Frame → List Step → List Char → Except Stop Query
  | [], steps, _ => .ok steps
  | frame :: frames, steps, left =>
    readSteps frames (.existential frame.quantifier steps :: frame.before) left

def AgreesIn (rounds : Nat) : Prop :=
  ∀ (before rest : List Char) (frames : List Frame) (done : List Step), rest.length < rounds →
    Agrees (!frames.isEmpty) before (resume frames) rest
      (steps (before ++ rest) rounds (!frames.isEmpty) done.reverse (byteCount before))
      (readSteps frames done rest)

theorem AgreesIn.condition {rounds : Nat} (h : AgreesIn rounds) (quantifier : Quantifier)
    {body : List Char} (hlength : body.length < rounds) :
    Agrees true before (fun step left => readSteps frames (step :: done) left)
      (quantifier.letter :: '(' :: body)
      (condition quantifier
        (steps (before ++ quantifier.letter :: '(' :: body) rounds true [] (byteCount before + 2)))
      (readSteps frames done (quantifier.letter :: '(' :: body)) := by
  have hposition : byteCount before + 2 = byteCount (before ++ [quantifier.letter, '(']) := by
    rw [byteCount_append]
    cases quantifier <;> rfl
  have htext : before ++ quantifier.letter :: '(' :: body =
      before ++ [quantifier.letter, '('] ++ body := by simp
  have hinner := h (before ++ [quantifier.letter, '(']) body (⟨quantifier, done⟩ :: frames) []
    hlength
  rw [Cursor.condition, htext, hposition, readSteps_opening]
  refine Agrees.shift (hinner.bind fun inner moved left _ _ => ?_) fun h _ => h
  exact .of_eq [] rfl (by rw [List.append_nil]) (by simp) rfl

theorem AgreesIn.step {rounds : Nat} (h : AgreesIn rounds) {c : Char} {rest : List Char}
    (hlength : rest.length < rounds) (hblank : isBlank c = false) (hclosing : c ≠ ')') :
    Agrees true before (fun step left => readSteps frames (step :: done) left) (c :: rest)
      (step (steps (before ++ c :: rest) rounds true []) (before ++ c :: rest) (byteCount before))
      (readSteps frames done (c :: rest)) := by
  rw [Cursor.step, restAt_eq rfl rfl, pure_bind]
  split
  · next hstart =>
    cases hstart
    exact agrees_move .successor rfl rfl rfl
  · next hstart =>
    cases hstart
    exact agrees_move .predecessor rfl rfl rfl
  · next hstart =>
    cases hstart
    exact agrees_field
  · next hstart =>
    cases hstart
    exact h.condition .present (Nat.lt_of_succ_lt hlength)
  · next hstart =>
    cases hstart
    exact h.condition .absent (Nat.lt_of_succ_lt hlength)
  · next hsuccessor hpredecessor hfield hpresent habsent =>
    refine .of_fault [] rfl (by rw [List.append_nil]) (readSteps_error hblank ?_)
    rw [Token.read.eq_def]
    split
    all_goals simp_all

/-- Reading on from a place with no blanks in front, in one more round. -/
theorem AgreesIn.unspaced {rounds : Nat} (h : AgreesIn rounds)
    (hstart : ∀ c ∈ start.head?, isBlank c = false) (hlength : start.length < rounds + 1) :
    Agrees (!frames.isEmpty) before (resume frames) start
      (steps (before ++ start) (rounds + 1) (!frames.isEmpty) done.reverse (byteCount before))
      (readSteps frames done start) := by
  rw [steps, skip_start before hstart, pure_bind, restAt_eq rfl rfl, pure_bind]
  cases start with
  | nil =>
    rw [readSteps_eq]
    cases frames with
    | nil => exact .of_eq [] rfl (by rw [List.append_nil]) (by simp) rfl
    | cons frame frames => exact .of_fault [] rfl (by rw [List.append_nil]) rfl
  | cons c rest =>
    by_cases hclosing : c = ')'
    · subst hclosing
      cases frames with
      | nil => exact .of_fault [] rfl (by rw [List.append_nil]) (by rw [readSteps_eq]; rfl)
      | cons frame frames =>
        exact .of_eq [')'] rfl (byteCount_append before [')']).symm (by simp)
          (readSteps_closing frame rest)
    · split
      · next hnone => cases hnone
      · next hend => exact absurd (List.cons.inj hend).1 hclosing
      · refine (h.step (Nat.lt_of_succ_lt_succ hlength) (hstart c rfl) hclosing).bind ?_
        intro next moved left hleft hless
        have hrest := h (before ++ moved) left frames (next :: done)
          (Nat.lt_of_lt_of_le hless (Nat.le_of_lt_succ hlength))
        rw [List.reverse_cons, List.append_assoc before, ← hleft] at hrest
        exact hrest.weaken

theorem readSteps_append (hblanks : ∀ c ∈ blanks, isBlank c = true) (text : List Char) :
    readSteps frames done (blanks ++ text) = readSteps frames done text := by
  induction blanks with
  | nil => rfl
  | cons c blanks ih =>
    rw [List.forall_mem_cons] at hblanks
    rw [List.cons_append, readSteps_blank hblanks.1, ih hblanks.2]

theorem steps_append (before : List Char) (rounds : Nat) (nested : Bool) (done : List Step)
    (hblanks : ∀ c ∈ blanks, isBlank c = true) (hstart : ∀ c ∈ start.head?, isBlank c = false) :
    steps (before ++ (blanks ++ start)) (rounds + 1) nested done (byteCount before) =
      steps (before ++ blanks ++ start) (rounds + 1) nested done
        (byteCount (before ++ blanks)) := by
  rw [steps, steps, skip_append before hblanks hstart, skip_start (before ++ blanks) hstart,
    pure_bind, pure_bind, List.append_assoc]

/-- Positions and what is left of the text go together through all of reading. Each round that is
not the last one moves on by a character at least. -/
theorem agreesIn (rounds : Nat) : AgreesIn rounds := by
  induction rounds with
  | zero => exact fun before rest frames done hlength => absurd hlength (Nat.not_lt_zero _)
  | succ rounds ih =>
    intro before rest frames done hlength
    obtain ⟨blanks, start, rfl, hblanks, hstart⟩ := exists_blanks rest
    rw [List.length_append] at hlength
    rw [steps_append before _ _ _ hblanks hstart, readSteps_append hblanks]
    exact (ih.unspaced hstart (by omega)).shift fun h _ => h

theorem agrees_steps {text : List Char} {rounds : Nat} (h : text.length < rounds) :
    Agrees false [] (resume []) text (steps text rounds false [] 0) (readSteps [] [] text) :=
  agreesIn rounds [] text [] [] h

/-- Reading by positions comes to an end in one round more than the text has characters, never cuts
the text inside a character, and gives what reading without positions gives. -/
theorem read_eq {text : String} {rounds : Nat} (h : text.toList.length < rounds) :
    read rounds text = (Query.read text).mapError .fault := by
  rw [read, Query.read]
  obtain ⟨query, moved, left, htext, hsteps, hquery⟩ | ⟨fault, moved, left, htext, hsteps, hfault⟩ :=
    (agrees_steps h).gives_or_faults
  · rw [hsteps, hquery]
    rfl
  · rw [hsteps, hfault, Except.mapError, Except.mapError, byteCount_sub htext]
    rfl

end Cursor

/-- A fault is found at the start of a character or at the end of the text. -/
theorem isValid_of_read_error {text : String} {error : SyntaxError} (h : read text = .error error) :
    String.Pos.Raw.IsValid text ⟨error.position⟩ := by
  rw [read] at h
  obtain ⟨query, moved, left, htext, -, hquery⟩ | ⟨fault, moved, left, htext, -, hfault⟩ :=
    (Cursor.agrees_steps (Nat.lt_succ_self text.toList.length)).gives_or_faults
  · rw [hquery] at h
    cases h
  · rw [hfault, Except.mapError, byteCount_sub htext] at h
    cases h
    rw [String.Pos.Raw.isValid_iff_exists_append]
    refine ⟨String.ofList moved, String.ofList left, ?_, ?_⟩
    · rw [← String.ofList_append, ← htext, String.ofList_toList]
    · rw [String.Pos.Raw.ext_iff, String.byteIdx_rawEndPos, utf8ByteSize_ofList]

/-- Reading by positions ends on every text, in as many rounds as the text has characters and one
more, without cutting it inside a character; a query is read from just the texts that describe it;
and where nothing is described, the fault that is told stands at the start of a character or at the
end. -/
theorem read_exactly_described (text : String) :
    (∀ rounds > text.toList.length,
        Cursor.read rounds text = (read text).mapError Cursor.Halt.fault) ∧
      (∀ query, read text = .ok query ↔ Describes text.toList query) ∧
      ∀ error, read text = .error error → String.Pos.Raw.IsValid text ⟨error.position⟩ :=
  ⟨fun _ => Cursor.read_eq, fun _ => read_eq_ok_iff_describes, fun _ => isValid_of_read_error⟩

/-- Characters of several bytes stand as a blank, behind a backslash, in a type and in a role; and
a letter that begins no step is told of by the bytes in front of it. -/
theorem stray_letter_position :
    Describes "\u3000F.type=\"\\é漢\"E(S.größe )".toList
        [.field "é漢", .existential .present [.successor "größe"]] ∧
      read "\u3000F.type=\"\\é漢\"E(S.größe ß)" = .error ⟨30, .unknownStep⟩ ∧
      Cursor.read 26 "\u3000F.type=\"\\é漢\"E(S.größe ß)" =
        .error (.fault ⟨30, .unknownStep⟩) ∧
      String.Pos.Raw.IsValid "\u3000F.type=\"\\é漢\"E(S.größe ß)" ⟨30⟩ := by
  have hread : read "\u3000F.type=\"\\é漢\"E(S.größe ß)" = .error ⟨30, .unknownStep⟩ := by
    decide +kernel
  have hexactly := read_exactly_described "\u3000F.type=\"\\é漢\"E(S.größe ß)"
  refine ⟨((read_exactly_described _).2.1 _).1 (by decide +kernel), hread, ?_,
    hexactly.2.2 _ hread⟩
  rw [hexactly.1 26 (by decide), hread]
  rfl

end LiveFacts.Query
