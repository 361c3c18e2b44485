import LiveFacts.Proofs.Store.Closures

/-!
# The loops behind a closure

A closure is loaded round after round until no fact is left to be loaded, and put in order with a
stack of tasks until none is left. The store bounds both loops beforehand. Said without a bound, as
what the loops come to if they end, they do end, in whatever circles the facts name one another, and
come to what the store computes. On the stack no fact is put in order twice, and loading fails only
on a fact that is not stored and that one of the facts at the start rests on.
-/

namespace LiveFacts

open Record (Holds)

namespace Store

variable {store : Store} {starts facts : List Reference} {known : List Record}
  {ended : Except Reference (List Record)}

/-- What loading comes to from the records known so far and the facts that are to be loaded next. -/
inductive Loads (store : Store) :
    List Record → List Reference → Except Reference (List Record) → Prop
  | done (known : List Record) : Loads store known [] (.ok known)
  | missing {known : List Record} {facts : List Reference} {fact : Reference} :
      facts ≠ [] → store.load facts = .error fact → Loads store known facts (.error fact)
  | round {known loaded : List Record} {facts : List Reference}
      {ended : Except Reference (List Record)} :
      facts ≠ [] → store.load facts = .ok loaded →
      Loads store (addRecords known loaded)
        ((distinct (loaded.flatMap Record.named)).filter fun fact =>
          !(addRecords known loaded).any (·.reference = fact)) ended →
      Loads store known facts ended

theorem Loads.unique {other : Except Reference (List Record)} (h : store.Loads known facts ended)
    (h' : store.Loads known facts other) : other = ended := by
  induction h with
  | done known =>
    cases h' with
    | done => rfl
    | missing hsome _ => exact absurd rfl hsome
    | round hsome _ _ => exact absurd rfl hsome
  | missing hsome hfails =>
    cases h' with
    | done => exact absurd rfl hsome
    | missing _ hfails' =>
      rw [hfails] at hfails'
      rw [Except.error.inj hfails']
    | round _ hloaded _ =>
      rw [hfails] at hloaded
      cases hloaded
  | round hsome hloaded _ ih =>
    cases h' with
    | done => exact absurd rfl hsome
    | missing _ hfails =>
      rw [hloaded] at hfails
      cases hfails
    | round _ hloaded' hrest =>
      rw [hloaded] at hloaded'
      obtain rfl := Except.ok.inj hloaded'
      exact ih hrest

/-- Enough rounds are all rounds. -/
theorem IsLoading.loads_loadFrom (h : store.IsLoading starts known facts) (hsound : store.IsSound)
    {rounds : Nat} (hrounds : store.records.length + 2 ≤ rounds + known.length) :
    store.Loads known facts (store.loadFrom rounds known facts) := by
  induction rounds generalizing known facts with
  | zero =>
    have hle := h.length_le
    omega
  | succ rounds ih =>
    rw [loadFrom]
    by_cases hempty : facts = []
    · subst hempty
      exact Loads.done known
    · rw [if_neg (by simpa using hempty)]
      cases hloaded : store.load facts with
      | error fact => exact Loads.missing hempty hloaded
      | ok loaded =>
        have hlonger := h.length_lt hempty hloaded
        exact Loads.round hempty hloaded (ih (h.next hsound hloaded) (by omega))

/-- Loading ends, and comes to the closure of the facts. -/
theorem loads_closure (hsound : store.IsSound) (facts : List Reference) :
    store.Loads [] facts (store.closure facts) :=
  (store.isLoading_starts facts).loads_loadFrom hsound (Nat.le_refl _)

theorem missing_of_load {fact : Reference} (h : store.load facts = .error fact) :
    fact ∈ facts ∧ store.contains fact = false := by
  obtain ⟨other, hother, hfails⟩ := mapM_eq_error h
  rw [get] at hfails
  cases hfind : store.find? other with
  | none =>
    rw [hfind] at hfails
    obtain rfl := Except.error.inj hfails
    exact ⟨hother, by rw [contains, hfind, Option.isSome_none]⟩
  | some record =>
    rw [hfind] at hfails
    cases hfails

/-- Loading fails on a fact that is not stored and that one of the facts at the start rests on. -/
theorem IsLoading.restsOn_missing {fact : Reference} (h : store.IsLoading starts known facts)
    (hsound : store.IsSound) (hends : store.Loads known facts (.error fact)) :
    store.contains fact = false ∧ ∃ start ∈ starts, store.links.RestsOn start fact := by
  generalize hended : (Except.error fact : Except Reference (List Record)) = ended at hends
  induction hends with
  | done known => cases hended
  | missing _ hfails =>
    obtain rfl := Except.error.inj hended
    obtain ⟨hmem, hlacks⟩ := missing_of_load hfails
    exact ⟨hlacks, h.reaching _ hmem⟩
  | round _ hloaded _ ih => exact ih (h.next hsound hloaded) hended

theorem missing_of_closure (hsound : store.IsSound) {fact : Reference}
    (h : store.closure facts = .error fact) :
    store.contains fact = false ∧ ∃ start ∈ facts, store.links.RestsOn start fact := by
  have hloads := store.loads_closure hsound facts
  rw [h] at hloads
  exact (store.isLoading_starts facts).restsOn_missing hsound hloads

/-- The closure of facts fails exactly if one of them rests on a fact that is not stored. -/
theorem closure_isError_iff (hsound : store.IsSound) :
    (∃ missing, store.closure facts = .error missing) ↔
      ∃ fact ∈ facts, ∃ rested, store.links.RestsOn fact rested ∧
        store.contains rested = false := by
  constructor
  · rintro ⟨missing, hmissing⟩
    obtain ⟨hlacks, fact, hfact, hrests⟩ := missing_of_closure hsound hmissing
    exact ⟨fact, hfact, missing, hrests, hlacks⟩
  · rintro ⟨fact, hfact, rested, hrests, hlacks⟩
    cases hclosure : store.closure facts with
    | error missing => exact ⟨missing, rfl⟩
    | ok records =>
      have hall := isClosureOf_of_closure hsound hclosure
      obtain ⟨record, hrecord, rfl⟩ :=
        holds_of_restsOn hsound hall.stored hall.closed (hall.holds fact hfact) hrests
      rw [contains_iff.2 ⟨record, hall.stored record hrecord, rfl⟩] at hlacks
      cases hlacks

end Store

namespace Arrangement

variable {links : Links} {records : List Record} {depth : Nat} {done last : Arrangement}
  {stack : List (Reference × Bool)} {fact : Reference} {facts : List Reference}

/-- What is left once the tasks on a stack have been carried out. A fact that comes up for the first
time is marked and put back, to be put in order when it comes up again; on top of it come the facts
that it names and that are not marked. -/
inductive Clears (records : List Record) :
    List (Reference × Bool) → Arrangement → Arrangement → Prop
  | done (last : Arrangement) : Clears records [] last last
  | unknown {fact : Reference} {expanded : Bool} {stack : List (Reference × Bool)}
      {done last : Arrangement} :
      records.find? (·.reference = fact) = none → Clears records stack done last →
      Clears records ((fact, expanded) :: stack) done last
  | close {fact : Reference} {record : Record} {stack : List (Reference × Bool)}
      {done last : Arrangement} :
      records.find? (·.reference = fact) = some record →
      Clears records stack { done with ordered := done.ordered ++ [record] } last →
      Clears records ((fact, true) :: stack) done last
  | met {fact : Reference} {record : Record} {stack : List (Reference × Bool)}
      {done last : Arrangement} :
      records.find? (·.reference = fact) = some record → fact ∈ done.met →
      Clears records stack done last → Clears records ((fact, false) :: stack) done last
  | enter {fact : Reference} {record : Record} {stack : List (Reference × Bool)}
      {done last : Arrangement} :
      records.find? (·.reference = fact) = some record → fact ∉ done.met →
      Clears records
        ((record.named.reverse.filter (· ∉ fact :: done.met)).map (·, false) ++
          (fact, true) :: stack)
        { done with met := fact :: done.met } last →
      Clears records ((fact, false) :: stack) done last

inductive Arranges (records : List Record) : List Reference → Arrangement → Arrangement → Prop
  | nil (last : Arrangement) : Arranges records [] last last
  | cons {fact : Reference} {facts : List Reference} {done next last : Arrangement} :
      Clears records [(fact, false)] done next → Arranges records facts next last →
      Arranges records (fact :: facts) done last

theorem Clears.unique {other : Arrangement} (h : Clears records stack done last)
    (h' : Clears records stack done other) : other = last := by
  induction h with
  | done last =>
    cases h'
    rfl
  | unknown hnone _ ih =>
    cases h' with
    | unknown _ hrest => exact ih hrest
    | close hsome _ | met hsome _ _ | enter hsome _ _ =>
      rw [hnone] at hsome
      cases hsome
  | close hsome _ ih =>
    cases h' with
    | unknown hnone _ =>
      rw [hnone] at hsome
      cases hsome
    | close hsome' hrest =>
      rw [hsome] at hsome'
      obtain rfl := Option.some.inj hsome'
      exact ih hrest
  | met hsome hmet _ ih =>
    cases h' with
    | unknown hnone _ =>
      rw [hnone] at hsome
      cases hsome
    | met _ _ hrest => exact ih hrest
    | enter _ hnew _ => exact absurd hmet hnew
  | enter hsome hnew _ ih =>
    cases h' with
    | unknown hnone _ =>
      rw [hnone] at hsome
      cases hsome
    | met _ hmet _ => exact absurd hmet hnew
    | enter hsome' _ hrest =>
      rw [hsome] at hsome'
      obtain rfl := Option.some.inj hsome'
      exact ih hrest

theorem Arranges.unique {other : Arrangement} (h : Arranges records facts done last)
    (h' : Arranges records facts done other) : other = last := by
  induction h with
  | nil last =>
    cases h'
    rfl
  | cons hfirst _ ih =>
    cases h' with
    | cons hfirst' hrest =>
      obtain rfl := hfirst.unique hfirst'
      exact ih hrest

def expanded (stack : List (Reference × Bool)) : List Reference :=
  (stack.filter Prod.snd).map Prod.fst

theorem expanded_append (stack stack' : List (Reference × Bool)) :
    expanded (stack ++ stack') = expanded stack ++ expanded stack' := by
  simp [expanded]

@[simp] theorem expanded_map_false (facts : List Reference) :
    expanded (facts.map (·, false)) = [] := by
  simp [expanded]

structure IsOrderly (stack : List (Reference × Bool)) (done : Arrangement) : Prop where
  nodup : (done.ordered.map Record.reference ++ expanded stack).Nodup
  met : ∀ fact ∈ done.ordered.map Record.reference ++ expanded stack, fact ∈ done.met

theorem IsOrderly.tail {task : Reference × Bool} (h : IsOrderly (task :: stack) done) :
    IsOrderly stack done := by
  have hsub : (expanded stack).Sublist (expanded (task :: stack)) :=
    ((List.sublist_cons_self task stack).filter _).map _
  have hall := (List.Sublist.refl (done.ordered.map Record.reference)).append hsub
  exact ⟨h.nodup.sublist hall, fun fact hfact => h.met fact (hall.subset hfact)⟩

theorem IsOrderly.close {record : Record} (h : IsOrderly ((record.reference, true) :: stack) done) :
    IsOrderly stack { done with ordered := done.ordered ++ [record] } := by
  have hsame : (done.ordered ++ [record]).map Record.reference ++ expanded stack =
      done.ordered.map Record.reference ++ expanded ((record.reference, true) :: stack) := by
    simp [expanded]
  constructor
  · rw [hsame]
    exact h.nodup
  · rw [hsame]
    exact h.met

theorem IsOrderly.enter (h : IsOrderly ((fact, false) :: stack) done) (hnew : fact ∉ done.met)
    (named : List Reference) :
    IsOrderly (named.map (·, false) ++ (fact, true) :: stack)
      { done with met := fact :: done.met } := by
  have hrest := h.tail
  have hperm : (done.ordered.map Record.reference ++
      expanded (named.map (·, false) ++ (fact, true) :: stack)).Perm
        (fact :: (done.ordered.map Record.reference ++ expanded stack)) := by
    rw [expanded_append, expanded_map_false, List.nil_append]
    exact List.perm_middle
  constructor
  · rw [hperm.nodup_iff, List.nodup_cons]
    exact ⟨fun hmem => hnew (hrest.met fact hmem), hrest.nodup⟩
  · intro other hother
    rcases List.mem_cons.1 (hperm.mem_iff.1 hother) with rfl | hearlier
    · exact List.mem_cons_self
    · exact List.mem_cons_of_mem _ (hrest.met other hearlier)

/-- While tasks are carried out no fact comes in order twice. -/
theorem Clears.isOrderly (h : Clears records stack done last) (horderly : IsOrderly stack done) :
    IsOrderly [] last := by
  induction h with
  | done last => exact horderly
  | unknown _ _ ih => exact ih horderly.tail
  | @close fact record _ _ _ hsome _ ih =>
    obtain rfl : record.reference = fact := by simpa using List.find?_some hsome
    exact ih horderly.close
  | met _ _ _ ih => exact ih horderly.tail
  | enter _ hnew _ ih => exact ih (horderly.enter hnew _)

theorem Arranges.isOrderly (h : Arranges records facts done last) (horderly : IsOrderly [] done) :
    IsOrderly [] last := by
  induction h with
  | nil last => exact horderly
  | @cons fact _ _ _ _ hfirst _ ih =>
    have hstart : IsOrderly [(fact, false)] _ := ⟨horderly.nodup, horderly.met⟩
    exact ih (hfirst.isOrderly hstart)

/-- What putting a fact in order by recursion comes to is what a stack with the fact on top comes to
first. -/
def Follows (links : Links) (records : List Record) (depth : Nat) : Prop :=
  ∀ done fact stack last, IsPartial links records done → Holds records fact →
    records.length ≤ depth + done.met.length → LeadsTo links done fact →
    Clears records stack (place records depth done fact) last →
    Clears records ((fact, false) :: stack) done last

theorem place_of_met (hmet : fact ∈ done.met) : place records depth done fact = done := by
  cases depth with
  | zero => rfl
  | succ depth =>
    rw [place]
    split
    · rfl
    · rw [if_pos (by simpa using hmet)]

/-- Facts that are marked already may as well be left off the stack. -/
theorem Follows.foldl (hfollows : Follows links records depth) (hwhole : IsWhole links records)
    (hpartial : IsPartial links records done) (hfacts : ∀ fact ∈ facts, Holds records fact)
    (hdepth : records.length ≤ depth + done.met.length)
    (hleads : ∀ fact ∈ facts, LeadsTo links done fact) {met : List Reference}
    (hmet : met ⊆ done.met)
    (h : Clears records stack (facts.foldl (place records depth) done) last) :
    Clears records ((facts.filter (· ∉ met)).map (·, false) ++ stack) done last := by
  induction facts generalizing done with
  | nil => exact h
  | cons first rest ih =>
    rw [List.forall_mem_cons] at hfacts hleads
    rw [List.foldl_cons] at h
    by_cases hmarked : first ∈ met
    · rw [place_of_met (hmet hmarked)] at h
      rw [List.filter_cons_of_neg (by simpa using hmarked)]
      exact ih hpartial hfacts.2 hdepth hleads.2 hmet h
    · rw [List.filter_cons_of_pos (by simpa using hmarked), List.map_cons, List.cons_append]
      obtain ⟨hpartial', hextends, _⟩ :=
        places hwhole depth done first hpartial hfacts.1 hdepth hleads.1
      have hlonger := hextends.met.length_le
      apply hfollows done first _ last hpartial hfacts.1 hdepth hleads.1
      exact ih hpartial' hfacts.2 (by omega)
        (fun fact hfact => (hleads.2 fact hfact).of_extends hextends)
        (List.Subset.trans hmet hextends.met.subset) h

theorem exists_find?_of_holds (h : Holds records fact) :
    ∃ record ∈ records, record.reference = fact ∧
      records.find? (·.reference = fact) = some record := by
  obtain ⟨other, hother, hreference⟩ := h
  cases hfind : records.find? (·.reference = fact) with
  | none => exact absurd hreference (by simpa using List.find?_eq_none.1 hfind other hother)
  | some record =>
    exact ⟨record, List.mem_of_find?_eq_some hfind, by simpa using List.find?_some hfind, rfl⟩

theorem follows (hwhole : IsWhole links records) (depth : Nat) : Follows links records depth := by
  induction depth with
  | zero =>
    intro done fact stack last hpartial hfact hdepth hleads h
    obtain ⟨_, _, hmet⟩ := places hwhole 0 done fact hpartial hfact hdepth hleads
    obtain ⟨record, _, _, hfind⟩ := exists_find?_of_holds hfact
    exact Clears.met hfind hmet h
  | succ depth ih =>
    intro done fact stack last hpartial hfact hdepth hleads h
    obtain ⟨record, hrecord, rfl, hfind⟩ := exists_find?_of_holds hfact
    by_cases hmet : record.reference ∈ done.met
    · rw [place_of_met hmet] at h
      exact Clears.met hfind hmet h
    · have hentered : ∀ named ∈ record.named.reverse, LeadsTo links
          { done with met := record.reference :: done.met } named := fun named hnamed =>
        hleads.enter (hwhole.names record hrecord named (List.mem_reverse.1 hnamed))
      simp only [place, hfind] at h
      rw [if_neg (by simpa using hmet)] at h
      apply Clears.enter hfind hmet
      apply ih.foldl hwhole (hpartial.enter hfact hmet) _ _ hentered (List.Subset.refl _)
      · exact Clears.close hfind h
      · exact fun named hnamed => hwhole.closed record hrecord named (List.mem_reverse.1 hnamed)
      · simp only [List.length_cons]
        omega

/-- The records of facts and of all that they rest on are put in order. -/
theorem Arranges.foldl (hwhole : IsWhole links records) (hpartial : IsPartial links records done)
    (hfacts : ∀ fact ∈ facts, Holds records fact)
    (hdepth : records.length ≤ depth + done.met.length)
    (hleads : ∀ fact ∈ facts, LeadsTo links done fact) :
    Arranges records facts done (facts.foldl (place records depth) done) := by
  induction facts generalizing done with
  | nil => exact Arranges.nil done
  | cons first rest ih =>
    rw [List.forall_mem_cons] at hfacts hleads
    obtain ⟨hpartial', hextends, _⟩ :=
      places hwhole depth done first hpartial hfacts.1 hdepth hleads.1
    have hlonger := hextends.met.length_le
    have hfirst := follows hwhole depth done first [] _ hpartial hfacts.1 hdepth hleads.1
      (Clears.done _)
    exact Arranges.cons hfirst (ih hpartial' hfacts.2 (by omega)
      fun fact hfact => (hleads.2 fact hfact).of_extends hextends)

end Arrangement

open Arrangement (Arranges IsWhole)

theorem exists_arranges {links : Links} {records : List Record} (hwhole : IsWhole links records)
    {facts : List Reference} (hfacts : ∀ fact ∈ facts, Holds records fact) :
    ∃ last, Arranges records facts {} last ∧ predecessorsFirst records facts = last.ordered := by
  refine ⟨_, Arranges.foldl hwhole ⟨by simp, by simp, .nil, by simp⟩ hfacts ?_ ?_, rfl⟩
  · exact Nat.le_add_right _ _
  · simp [Arrangement.LeadsTo]

theorem nodup_predecessorsFirst {links : Links} {records : List Record}
    (hwhole : IsWhole links records) {facts : List Reference}
    (hfacts : ∀ fact ∈ facts, Holds records fact) :
    ((predecessorsFirst records facts).map Record.reference).Nodup := by
  obtain ⟨last, harranges, hordered⟩ := exists_arranges hwhole hfacts
  have horderly := harranges.isOrderly ⟨List.nodup_nil, by simp [Arrangement.expanded]⟩
  have hnodup := horderly.nodup
  rw [hordered]
  exact hnodup.of_append_left

namespace Store

variable {store : Store} {facts : List Reference}

inductive Closes (store : Store) (facts : List Reference) : Except Reference (List Record) → Prop
  | missing {fact : Reference} : store.Loads [] facts (.error fact) →
      Closes store facts (.error fact)
  | arranged {records : List Record} {last : Arrangement} : store.Loads [] facts (.ok records) →
      Arranges records facts {} last → Closes store facts (.ok last.ordered)

theorem Closes.unique {ended other : Except Reference (List Record)} (h : store.Closes facts ended)
    (h' : store.Closes facts other) : other = ended := by
  cases h with
  | missing hloads =>
    cases h' with
    | missing hloads' => exact hloads.unique hloads'
    | arranged hloads' _ => cases hloads.unique hloads'
  | arranged hloads harranges =>
    cases h' with
    | missing hloads' => cases hloads.unique hloads'
    | arranged hloads' harranges' =>
      obtain rfl := Except.ok.inj (hloads.unique hloads')
      rw [harranges.unique harranges']

/-- The loops end for any facts, and come to the closure in order. -/
theorem closes_iff (hsound : store.IsSound) {ended : Except Reference (List Record)} :
    store.Closes facts ended ↔
      ended = (store.closure facts).map fun records => predecessorsFirst records facts := by
  have hcloses : store.Closes facts
      ((store.closure facts).map fun records => predecessorsFirst records facts) := by
    have hloads := store.loads_closure hsound facts
    cases hclosure : store.closure facts with
    | error missing =>
      rw [hclosure] at hloads
      exact Closes.missing hloads
    | ok records =>
      rw [hclosure] at hloads
      have hall := isClosureOf_of_closure hsound hclosure
      obtain ⟨last, harranges, hordered⟩ := exists_arranges (hall.isWhole hsound) hall.holds
      rw [Except.map, hordered]
      exact Closes.arranged hloads harranges
  constructor
  · exact fun h => hcloses.unique h
  · rintro rfl
    exact hcloses

/-- The closure of facts in order: each fact that they rest on once and nothing else, and after
those that it names if no fact rests on itself. -/
theorem predecessorsFirst_closure_spec (hsound : store.IsSound) {records : List Record}
    (h : store.closure facts = .ok records) :
    ((predecessorsFirst records facts).map Record.reference).Nodup ∧
      (∀ record, record ∈ predecessorsFirst records facts ↔
        record ∈ store.records ∧ ∃ fact ∈ facts, store.links.RestsOn fact record.reference) ∧
      (store.IsAcyclic → ∀ before record after,
        predecessorsFirst records facts = before ++ record :: after →
          ∀ named ∈ record.named, Holds before named) := by
  have hall := isClosureOf_of_closure hsound h
  obtain ⟨hrests, hgrounded⟩ := predecessorsFirst_closure hsound h
  refine ⟨nodup_predecessorsFirst (hall.isWhole hsound) hall.holds, fun record => ?_, ?_⟩
  · constructor
    · intro hmem
      have hrecord := mem_predecessorsFirst record hmem
      exact ⟨hall.stored record hrecord, hall.reached record hrecord⟩
    · rintro ⟨hstored, fact, hfact, hrested⟩
      obtain ⟨other, hother, hreference⟩ := hrests fact hfact _ hrested
      have hkept := hall.stored other (mem_predecessorsFirst other hother)
      rwa [← hsound.eq_of_reference_eq hkept hstored hreference]
  · intro hacyclic before record after hordered named hnamed
    have hearlier := hgrounded hacyclic
    rw [hordered] at hearlier
    exact ((Record.areGrounded_append.1 hearlier).2.2.1 named hnamed).resolve_left id

end Store

end LiveFacts
