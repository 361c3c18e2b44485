import LiveFacts.Proofs.Query.Inversion
import LiveFacts.Proofs.Store.Arrivals

/-!
# Queries that saves leave alone

What a fact names is fixed, while facts that name it may still come. A query that nowhere moves to
successors, not even in a condition of a condition, therefore finds the same paths whatever is saved
later. These are the queries without inverses: of the moves to successors among some steps, the last
one always has an arrival.
-/

namespace LiveFacts

inductive Step.Occurs (step : Step) : Query → Prop
  | listed {query : Query} : step ∈ query → Occurs step query
  | nested {query : Query} {quantifier : Quantifier} {steps : List Step} :
      .existential quantifier steps ∈ query → Occurs step steps → Occurs step query

namespace Query

/-- No step, at any depth, moves to successors. -/
def IsSteady (query : Query) : Prop :=
  ∀ role, ¬ (Step.successor role).Occurs query

theorem isSteady_nil : IsSteady [] := by
  intro role h
  cases h with
  | listed hmem => cases hmem
  | nested hmem _ => cases hmem

theorem isSteady_cons {step : Step} {rest : Query} :
    IsSteady (step :: rest) ↔ (∀ role, step ≠ .successor role) ∧
      (∀ quantifier steps, step = .existential quantifier steps → IsSteady steps) ∧
      IsSteady rest := by
  constructor
  · intro h
    refine ⟨?_, ?_, ?_⟩
    · rintro role rfl
      exact h role (.listed List.mem_cons_self)
    · rintro quantifier steps rfl role hinner
      exact h role (.nested List.mem_cons_self hinner)
    · intro role hrest
      cases hrest with
      | listed hmem => exact h role (.listed (List.mem_cons_of_mem _ hmem))
      | nested hmem hinner => exact h role (.nested (List.mem_cons_of_mem _ hmem) hinner)
  · rintro ⟨hstep, hcondition, hrest⟩ role h
    cases h with
    | listed hmem =>
      rcases List.mem_cons.1 hmem with heq | hlater
      · exact hstep role heq.symm
      · exact hrest role (.listed hlater)
    | nested hmem hinner =>
      rcases List.mem_cons.1 hmem with heq | hlater
      · exact hcondition _ _ heq.symm role hinner
      · exact hrest role (.nested hlater hinner)

theorem IsSteady.nextJoinIsSuccessor_eq_false {rest : Query} (h : rest.IsSteady) :
    rest.nextJoinIsSuccessor = false := by
  induction rest with
  | nil => rfl
  | cons step rest ih =>
    obtain ⟨hstep, -, hrest⟩ := isSteady_cons.1 h
    cases step with
    | field type => exact ih hrest
    | successor role => exact absurd rfl (hstep role)
    | predecessor role => rfl
    | existential quantifier steps => exact ih hrest

end Query

/-- A condition has no arrivals exactly if nothing in it moves to successors. -/
theorem Arrival.ofSteps_eq_nil_iff {back : Query} {positive : Bool} {steps : Query} :
    ofSteps back positive steps = [] ↔ steps.IsSteady := by
  induction steps using Query.nested_induction generalizing back positive with
  | conditions steps ih =>
    induction steps generalizing back with
    | nil => exact iff_of_true rfl Query.isSteady_nil
    | cons step rest ihrest =>
      have hrest {back : Query} : ofSteps back positive rest = [] ↔ Query.IsSteady rest :=
        ihrest fun q inner hmem => ih q inner (List.mem_cons_of_mem _ hmem)
      rw [ofSteps, List.append_eq_nil_iff, hrest, Query.isSteady_cons, ← and_assoc]
      -- A move to successors is passed over only for one that comes later.
      refine and_congr_left fun hsteady => ?_
      cases step with
      | field type => simp [ofStep]
      | successor role => simp [ofStep, hsteady.nextJoinIsSuccessor_eq_false]
      | predecessor role => simp [ofStep]
      | existential quantifier inner =>
        rw [ofStep, ih quantifier inner List.mem_cons_self]
        simp

namespace Query

theorem inversesAfter_eq_nil_iff {before query : Query} :
    inversesAfter before query = [] ↔ query.IsSteady := by
  induction query generalizing before with
  | nil => exact iff_of_true rfl isSteady_nil
  | cons step rest ih =>
    rw [inversesAfter, List.append_eq_nil_iff, ih, isSteady_cons, ← and_assoc]
    refine and_congr_left fun hsteady => ?_
    cases step with
    | field type => simp [stepInverses]
    | successor role => simp [stepInverses, hsteady.nextJoinIsSuccessor_eq_false]
    | predecessor role => simp [stepInverses]
    | existential quantifier steps =>
      rw [stepInverses, List.map_eq_nil_iff, Arrival.ofSteps_eq_nil_iff]
      simp

end Query

theorem Record.mem_named_of_mem_predecessorsIn {record : Record} {role : String}
    {fact : Reference} (h : fact ∈ record.predecessorsIn role) : fact ∈ record.named := by
  rw [predecessorsIn] at h
  cases hnamed : record.predecessors.find? role with
  | none => simp [hnamed] at h
  | some named =>
    simp only [hnamed, Option.map_some, Option.getD_some] at h
    obtain ⟨before, after, heq, -⟩ := List.lookup_eq_some_iff.1 hnamed
    have hmem : (role, named) ∈ record.predecessors := by simp [heq]
    exact List.mem_flatMap.2 ⟨(role, named), hmem, h⟩

namespace Store

variable {store more : Store}

theorem find?_of_grown (hmore : store.records <+: more.records) {fact : Reference}
    (h : store.contains fact = true) : more.find? fact = store.find? fact := by
  obtain ⟨record, hrecord⟩ := Option.isSome_iff_exists.1 h
  obtain ⟨later, hlater⟩ := hmore
  rw [hrecord, find?, ← hlater, List.find?_append, ← find?, hrecord, Option.some_or]

def FindsAlike (store : Store) (run run' : Except Reference (List Path)) : Prop :=
  ∃ found, run = .ok found ∧ run' = .ok found ∧ ∀ fact ∈ ends found, store.contains fact = true

theorem FindsAlike.mapM {f g : Path → Except Reference (List Path)} {paths : List Path}
    (h : ∀ path ∈ paths, store.FindsAlike (f path) (g path)) :
    ∃ extended, paths.mapM f = .ok extended ∧ paths.mapM g = .ok extended ∧
      ∀ fact ∈ ends extended.flatten, store.contains fact = true := by
  induction paths with
  | nil => exact ⟨[], rfl, rfl, by simp [ends]⟩
  | cons path rest ih =>
    rw [List.forall_mem_cons] at h
    obtain ⟨found, hf, hg, hfound⟩ := h.1
    obtain ⟨extended, hf', hg', hextended⟩ := ih h.2
    refine ⟨found :: extended, mapM_cons_eq_ok.2 ⟨_, _, hf, hf', rfl⟩,
      mapM_cons_eq_ok.2 ⟨_, _, hg, hg', rfl⟩, fun fact hfact => ?_⟩
    rw [ends, List.flatten_cons, List.filterMap_append, List.mem_append] at hfact
    exact hfact.elim (hfound fact) (hextended fact)

/-- A step that does not move to successors takes a path that ends in a stored fact to the same
paths in the store and in one that has grown from it, provided that its condition does. -/
theorem extend_of_grown (hclosed : store.IsClosed) (hmore : store.records <+: more.records)
    {step : Step} (hstep : ∀ role, step ≠ .successor role) {path : Path} {fact : Reference}
    (hlast : path.getLast? = some fact) (hfact : store.contains fact = true)
    (hcondition : ∀ quantifier steps, step = .existential quantifier steps →
      store.FindsAlike (store.walk steps [[fact]]) (more.walk steps [[fact]])) :
    store.FindsAlike (store.extend step path) (more.extend step path) := by
  have hkept {p : Prop} [Decidable p] : ∀ last ∈ ends (if p then [path] else []),
      store.contains last = true := by
    intro last hmem
    split at hmem
    · obtain rfl : last = fact := by simpa [ends, hlast] using hmem
      exact hfact
    · simp [ends] at hmem
  cases step with
  | field type => exact ⟨_, rfl, rfl, hkept⟩
  | successor role => exact absurd rfl (hstep role)
  | predecessor role =>
    obtain ⟨record, hrecord⟩ := Option.isSome_iff_exists.1 hfact
    have hrecord' := (find?_of_grown hmore hfact).trans hrecord
    refine ⟨_, (extend_predecessor_eq_ok hlast).2 ⟨record, hrecord, rfl⟩,
      (extend_predecessor_eq_ok hlast).2 ⟨record, hrecord', rfl⟩, fun last hmem => ?_⟩
    obtain ⟨_, hnext, hend⟩ := mem_ends.1 hmem
    obtain ⟨next, hnamed, rfl⟩ := List.mem_map.1 hnext
    obtain rfl : next = last := by simpa using hend
    exact hclosed record (List.mem_of_find?_eq_some hrecord) next
      (Record.mem_named_of_mem_predecessorsIn hnamed)
  | existential quantifier steps =>
    obtain ⟨inner, hinner, hinner', -⟩ := hcondition quantifier steps rfl
    exact ⟨_, (extend_existential_eq_ok hlast).2 ⟨inner, hinner, rfl⟩,
      (extend_existential_eq_ok hlast).2 ⟨inner, hinner', rfl⟩, hkept⟩

/-- A query that does not move to successors finds the same in a closed store and in one that has
grown from it. -/
theorem walk_of_grown (hclosed : store.IsClosed) (hmore : store.records <+: more.records)
    {query : Query} (hsteady : query.IsSteady) {paths : List Path}
    (hpaths : ∀ fact ∈ ends paths, store.contains fact = true) :
    store.FindsAlike (store.walk query paths) (more.walk query paths) := by
  induction query using Query.nested_induction generalizing paths with
  | conditions query ih =>
    induction query generalizing paths with
    | nil => exact ⟨paths, by rw [walk], by rw [walk], hpaths⟩
    | cons step rest ihrest =>
      obtain ⟨hstep, hcondition, hrest⟩ := Query.isSteady_cons.1 hsteady
      have hextend : ∀ path ∈ paths,
          store.FindsAlike (store.extend step path) (more.extend step path) := by
        intro path hpath
        cases hlast : path.getLast? with
        | none =>
          rw [List.getLast?_eq_none_iff.1 hlast, extend_nil, extend_nil]
          exact ⟨[], rfl, rfl, by simp [ends]⟩
        | some fact =>
          have hfact := hpaths fact (mem_ends.2 ⟨path, hpath, hlast⟩)
          refine extend_of_grown hclosed hmore hstep hlast hfact fun quantifier steps heq => ?_
          subst heq
          exact ih quantifier steps List.mem_cons_self (hcondition quantifier steps rfl)
            (by simpa [ends] using hfact)
      obtain ⟨extended, hextended, hextended', hstored⟩ := FindsAlike.mapM hextend
      obtain ⟨found, hfound, hfound', hends⟩ :=
        ihrest (fun q steps hmem => ih q steps (List.mem_cons_of_mem _ hmem)) hrest hstored
      exact ⟨found, walk_cons_eq_ok.2 ⟨extended, hextended, hfound⟩,
        walk_cons_eq_ok.2 ⟨extended, hextended', hfound'⟩, hends⟩

end Store

/-- A query has no inverses exactly if none of its steps, at any depth, moves to successors. From a
stored fact of a closed store it then finds paths, and whatever is saved later, it finds the same
paths. -/
theorem Query.constant_of_inverses_eq_nil (query : Query) :
    (query.inverses = [] ↔ ∀ role, ¬ (Step.successor role).Occurs query) ∧
      (query.inverses = [] → ∀ (store : Store) (start : Reference), store.IsClosed →
        store.contains start = true →
          ∃ paths, ∀ records : List Record,
            (records.foldl Store.save store).evaluate start query = .ok paths) := by
  have hsteady : query.inverses = [] ↔ query.IsSteady := inversesAfter_eq_nil_iff
  refine ⟨hsteady, fun hnone store start hclosed hstart => ?_⟩
  have hends : ∀ fact ∈ ends [[start]], store.contains fact = true := by
    simpa [ends] using hstart
  have hrun (records : List Record) :=
    Store.walk_of_grown hclosed (Store.records_grow_saveAll store records) (hsteady.1 hnone) hends
  obtain ⟨paths, hpaths, -⟩ := hrun []
  refine ⟨paths, fun records => ?_⟩
  obtain ⟨found, hfound, hfound', -⟩ := hrun records
  rw [hpaths, Except.ok.injEq] at hfound
  rw [hfound]
  exact hfound'

namespace Store

def Lending.lentBook : Query :=
  [.field "Loan", .predecessor "book",
    .existential .absent [.predecessor "author", .existential .present [.predecessor "club"]]]

open Lending in
/-- Whatever else is lent later, a loan stays one of the same book. -/
theorem lentBook_constant :
    lentBook.inverses = [] ∧ (ofRecords [book, loan]).IsClosed ∧
      (ofRecords [book, loan]).contains loan.reference = true ∧
      ∀ records : List Record, (records.foldl save (ofRecords [book, loan])).evaluate
        loan.reference lentBook = .ok [[loan.reference, book.reference]] := by
  have hnone : lentBook.inverses = [] := by decide
  have hclosed : (ofRecords [book, loan]).IsClosed := by decide
  have hstart : (ofRecords [book, loan]).contains loan.reference = true := by decide
  have hfound : (ofRecords [book, loan]).evaluate loan.reference lentBook =
      .ok [[loan.reference, book.reference]] := by decide
  obtain ⟨paths, hpaths⟩ := (Query.constant_of_inverses_eq_nil lentBook).2 hnone _ _ hclosed hstart
  have heq := Except.ok.inj ((hpaths []).symm.trans hfound)
  exact ⟨hnone, hclosed, hstart, heq ▸ hpaths⟩

end Store

end LiveFacts
