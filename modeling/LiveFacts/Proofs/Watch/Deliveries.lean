import LiveFacts.Proofs.Query.Exactness

/-!
# What a watch makes of what it is told

A watch takes up changes one by one, in whatever order they come, some of them twice. Exact reports
bring its results from one set to the other, and its listener hears of each difference once.
-/

namespace LiveFacts

def Listener.NeverPanics (listener : Listener) : Prop :=
  ∀ change count, (listener change count).panics = false

def Listener.NeverStops (listener : Listener) : Prop :=
  ∀ change count, (listener change count).stops = false

theorem Listener.neverPanics_quiet : Listener.quiet.NeverPanics := fun _ _ => rfl

theorem Listener.neverStops_quiet : Listener.quiet.NeverStops := fun _ _ => rfl

def Event.Alters (event : Event) (results : List Reference) : Prop :=
  match event.change with
  | .added => event.fact ∉ results
  | .removed => event.fact ∈ results

instance (event : Event) (results : List Reference) : Decidable (event.Alters results) :=
  match event with
  | ⟨.added, fact⟩ => inferInstanceAs (Decidable (fact ∉ results))
  | ⟨.removed, fact⟩ => inferInstanceAs (Decidable (fact ∈ results))

@[simp] theorem Event.alters_added {fact : Reference} {results : List Reference} :
    Event.Alters ⟨.added, fact⟩ results ↔ fact ∉ results := Iff.rfl

@[simp] theorem Event.alters_removed {fact : Reference} {results : List Reference} :
    Event.Alters ⟨.removed, fact⟩ results ↔ fact ∈ results := Iff.rfl

def Event.alter (event : Event) (results : List Reference) : List Reference :=
  match event.change with
  | .added => results ++ [event.fact]
  | .removed => results.erase event.fact

def Event.opposite (event : Event) : Event :=
  ⟨event.change.opposite, event.fact⟩

@[simp] theorem Event.opposite_opposite (event : Event) : event.opposite.opposite = event := by
  simp [opposite]

theorem Event.mem_map_added {facts : List Reference} {change : Change} {fact : Reference} :
    ⟨change, fact⟩ ∈ facts.map (Event.mk .added) ↔ change = .added ∧ fact ∈ facts := by
  rw [List.mem_map]
  constructor
  · rintro ⟨other, hother, heq⟩
    cases heq
    exact ⟨rfl, hother⟩
  · rintro ⟨rfl, hfact⟩
    exact ⟨fact, hfact, rfl⟩

theorem Event.alters_opposite {event : Event} {results : List Reference} :
    event.opposite.Alters results ↔ ¬ event.Alters results := by
  obtain ⟨change, fact⟩ := event
  cases change with
  | added => exact not_not.symm
  | removed => exact Iff.rfl

/-- An event goes on making a difference until it comes. -/
theorem Event.Alters.alter {event other : Event} {results : List Reference}
    (h : event.Alters results) (hne : other ≠ event) : event.Alters (other.alter results) := by
  obtain ⟨change, fact⟩ := event
  obtain ⟨change', fact'⟩ := other
  cases change with
  | added =>
    rw [alters_added] at h ⊢
    cases change' with
    | added =>
      have hfact : fact ≠ fact' := by
        rintro rfl
        exact hne rfl
      simp [Event.alter, h, hfact]
    | removed => exact fun hmem => h (List.mem_of_mem_erase hmem)
  | removed =>
    rw [alters_removed] at h ⊢
    cases change' with
    | added => exact List.mem_append_left _ h
    | removed =>
      have hfact : fact ≠ fact' := by
        rintro rfl
        exact hne rfl
      exact (List.mem_erase_of_ne hfact).2 h

namespace Watch

structure SameTask (a b : Watch) : Prop where
  id : a.id = b.id
  start : a.start = b.start
  query : a.query = b.query
  listener : a.listener = b.listener
  held : a.held = b.held

theorem SameTask.refl (watch : Watch) : SameTask watch watch := ⟨rfl, rfl, rfl, rfl, rfl⟩

theorem SameTask.trans {a b c : Watch} (hab : SameTask a b) (hbc : SameTask b c) : SameTask a c :=
  ⟨hab.id.trans hbc.id, hab.start.trans hbc.start, hab.query.trans hbc.query,
    hab.listener.trans hbc.listener, hab.held.trans hbc.held⟩

variable (watch : Watch) (change : Change) (fact : Reference)

theorem sameTask_tell : SameTask (watch.tell change fact).1 watch := by
  cases change <;> simp only [tell] <;> split <;> split <;> exact ⟨rfl, rfl, rfl, rfl, rfl⟩

theorem results_tell : (watch.tell change fact).1.results = watch.results := by
  cases change <;> simp only [tell] <;> split <;> split <;> rfl

theorem events_tell : (watch.tell change fact).1.events = watch.events ++ [⟨change, fact⟩] := by
  cases change <;> simp only [tell] <;> split <;> split <;> rfl

/-- What a listener says does not stop the watch. -/
def IsKept (watch : Watch) : Prop :=
  watch.held = false ∨ watch.listener.NeverStops

theorem isStopped_tell (h : watch.IsKept) :
    (watch.tell change fact).1.isStopped = watch.isStopped := by
  have hstops : ((watch.listener change (watch.count change + 1)).stops && watch.held) = false := by
    rcases h with hheld | hstops
    · rw [hheld, Bool.and_false]
    · rw [hstops, Bool.false_and]
  cases change <;> simp only [tell, hstops] <;> split <;> rfl

theorem panics_tell (h : watch.listener.NeverPanics) : (watch.tell change fact).2 = false := by
  have hpanics := h change (watch.count change + 1)
  cases change <;> simp [tell, hpanics]

def take (watch : Watch) (event : Event) : Watch :=
  (watch.deliver event.change event.fact).1

def takeAll (watch : Watch) (events : List Event) : Watch :=
  events.foldl take watch

@[simp] theorem takeAll_nil : watch.takeAll [] = watch := rfl

@[simp] theorem takeAll_cons (event : Event) (rest : List Event) :
    watch.takeAll (event :: rest) = (watch.take event).takeAll rest := rfl

theorem takeAll_append (p q : List Event) :
    watch.takeAll (p ++ q) = (watch.takeAll p).takeAll q :=
  List.foldl_append

variable {watch}

theorem deliver_of_isStopped (h : watch.isStopped = true) (event : Event) :
    watch.deliver event.change event.fact = (watch, false) := by
  simp [deliver, h]

theorem deliver_of_not_alters {event : Event} (h : ¬ event.Alters watch.results) :
    watch.deliver event.change event.fact = (watch, false) := by
  obtain ⟨change, fact⟩ := event
  by_cases hstopped : watch.isStopped = true
  · exact deliver_of_isStopped hstopped _
  · cases change with
    | added =>
      have hmem : fact ∈ watch.results := not_not.1 h
      simp [deliver, hmem]
    | removed =>
      have hmem : fact ∉ watch.results := h
      simp [deliver, hmem]

theorem deliver_of_alters (hactive : watch.isStopped = false) {event : Event}
    (h : event.Alters watch.results) :
    watch.deliver event.change event.fact =
      { watch with results := event.alter watch.results }.tell event.change event.fact := by
  obtain ⟨change, fact⟩ := event
  cases change with
  | added =>
    have hmem : fact ∉ watch.results := h
    simp [deliver, hactive, hmem, Event.alter]
  | removed =>
    have hmem : fact ∈ watch.results := h
    simp [deliver, hactive, hmem, Event.alter]

theorem take_of_isStopped (h : watch.isStopped = true) (event : Event) :
    watch.take event = watch := by
  rw [take, deliver_of_isStopped h]

theorem take_of_not_alters {event : Event} (h : ¬ event.Alters watch.results) :
    watch.take event = watch := by
  rw [take, deliver_of_not_alters h]

theorem take_of_alters (hactive : watch.isStopped = false) {event : Event}
    (h : event.Alters watch.results) :
    watch.take event =
      ({ watch with results := event.alter watch.results }.tell event.change event.fact).1 := by
  rw [take, deliver_of_alters hactive h]

theorem panics_deliver (h : watch.listener.NeverPanics) (event : Event) :
    (watch.deliver event.change event.fact).2 = false := by
  by_cases hstopped : watch.isStopped = true
  · rw [deliver_of_isStopped hstopped]
  · by_cases halters : event.Alters watch.results
    · rw [deliver_of_alters (by simpa using hstopped) halters]
      exact panics_tell { watch with results := event.alter watch.results } event.change
        event.fact h
    · rw [deliver_of_not_alters halters]

theorem results_take (hactive : watch.isStopped = false) {event : Event}
    (h : event.Alters watch.results) :
    (watch.take event).results = event.alter watch.results := by
  rw [take_of_alters hactive h, results_tell]

theorem events_take (hactive : watch.isStopped = false) {event : Event}
    (h : event.Alters watch.results) : (watch.take event).events = watch.events ++ [event] := by
  rw [take_of_alters hactive h, events_tell]

theorem sameTask_take (event : Event) : SameTask (watch.take event) watch := by
  by_cases hactive : watch.isStopped = true
  · rw [take_of_isStopped hactive]
    exact SameTask.refl watch
  · by_cases h : event.Alters watch.results
    · rw [take_of_alters (by simpa using hactive) h]
      have htell := sameTask_tell { watch with results := event.alter watch.results }
        event.change event.fact
      exact ⟨htell.id, htell.start, htell.query, htell.listener, htell.held⟩
    · rw [take_of_not_alters h]
      exact SameTask.refl watch

theorem isStopped_take (h : watch.IsKept) (event : Event) :
    (watch.take event).isStopped = watch.isStopped := by
  by_cases hactive : watch.isStopped = true
  · rw [take_of_isStopped hactive]
  · by_cases halters : event.Alters watch.results
    · rw [take_of_alters (by simpa using hactive) halters]
      exact isStopped_tell { watch with results := event.alter watch.results } event.change
        event.fact h
    · rw [take_of_not_alters halters]

theorem sameTask_takeAll (events : List Event) : SameTask (watch.takeAll events) watch := by
  induction events generalizing watch with
  | nil => exact SameTask.refl watch
  | cons event rest ih => exact ih.trans (sameTask_take event)

structure Follows (watch : Watch) (start : Reference) (query : Query) (listener : Listener) :
    Prop where
  start_eq : watch.start = start
  query_eq : watch.query = query
  listener_eq : watch.listener = listener

theorem Follows.takeAll {start : Reference} {query : Query} {listener : Listener}
    (h : watch.Follows start query listener) (events : List Event) :
    (watch.takeAll events).Follows start query listener := by
  have htask : SameTask (watch.takeAll events) watch := sameTask_takeAll events
  exact ⟨htask.start.trans h.start_eq, htask.query.trans h.query_eq,
    htask.listener.trans h.listener_eq⟩

theorem takeAll_of_isStopped (h : watch.isStopped = true) (events : List Event) :
    watch.takeAll events = watch := by
  induction events with
  | nil => rfl
  | cons event rest ih => rw [takeAll_cons, take_of_isStopped h, ih]

theorem isStopped_takeAll (h : watch.IsKept) (events : List Event) :
    (watch.takeAll events).isStopped = watch.isStopped := by
  induction events generalizing watch with
  | nil => rfl
  | cons event rest ih =>
    have hkept : (watch.take event).IsKept := by
      rwa [IsKept, (sameTask_take event).listener, (sameTask_take event).held]
    rw [takeAll_cons, ih hkept, isStopped_take h]

theorem isStopped_takeAll_of_neverStops (hactive : watch.isStopped = false)
    (hstops : watch.listener.NeverStops) (events : List Event) :
    (watch.takeAll events).isStopped = false := by
  rw [isStopped_takeAll (Or.inr hstops), hactive]

/-- A watch that is active in the end has been active all along. -/
theorem isStopped_of_takeAll {events : List Event}
    (h : (watch.takeAll events).isStopped = false) : watch.isStopped = false := by
  by_contra hstopped
  rw [takeAll_of_isStopped (by simpa using hstopped)] at h
  exact hstopped h

theorem nodup_results_takeAll (hnodup : watch.results.Nodup) (events : List Event) :
    (watch.takeAll events).results.Nodup := by
  induction events generalizing watch with
  | nil => exact hnodup
  | cons event rest ih =>
    apply ih
    by_cases hstopped : watch.isStopped = true
    · rwa [take_of_isStopped hstopped]
    · by_cases halters : event.Alters watch.results
      · rw [results_take (by simpa using hstopped) halters]
        obtain ⟨change, fact⟩ := event
        cases change with
        | added =>
          rw [Event.alters_added] at halters
          exact List.nodup_append.2 ⟨hnodup, by simp, by grind⟩
        | removed => exact hnodup.erase fact
      · rwa [take_of_not_alters halters]

/-- The listener hears of changes that the watch took up, in their order. -/
theorem exists_told (watch : Watch) (events : List Event) :
    ∃ told, (watch.takeAll events).events = watch.events ++ told ∧ told.Sublist events := by
  induction events generalizing watch with
  | nil => exact ⟨[], by simp, List.Sublist.refl _⟩
  | cons event rest ih =>
    obtain ⟨told, htold, hsub⟩ := ih (watch.take event)
    by_cases hstopped : watch.isStopped = true
    · rw [take_of_isStopped hstopped] at htold
      exact ⟨told, by rw [takeAll_cons, take_of_isStopped hstopped, htold], hsub.cons _⟩
    · by_cases halters : event.Alters watch.results
      · rw [events_take (by simpa using hstopped) halters] at htold
        exact ⟨event :: told, by simpa using htold, hsub.cons_cons _⟩
      · rw [take_of_not_alters halters] at htold
        exact ⟨told, by rw [takeAll_cons, take_of_not_alters halters, htold], hsub.cons _⟩

/-- An event that makes a difference, and is taken up, is told. -/
theorem mem_told_of_alters {events : List Event}
    (hactive : (watch.takeAll events).isStopped = false) {event : Event}
    (halters : event.Alters watch.results) (hmem : event ∈ events) {told : List Event}
    (htold : (watch.takeAll events).events = watch.events ++ told) : event ∈ told := by
  induction events generalizing watch told with
  | nil => cases hmem
  | cons first rest ih =>
    have hnow := isStopped_of_takeAll hactive
    rw [takeAll_cons] at hactive htold
    by_cases hfirst : first.Alters watch.results
    · obtain ⟨later, hlater, -⟩ := exists_told (watch.take first) rest
      rw [hlater, events_take hnow hfirst, List.append_assoc, List.append_cancel_left_eq] at htold
      subst htold
      by_cases heq : first = event
      · simp [heq]
      · refine List.mem_append_right _ (ih hactive ?_ ?_ hlater)
        · rw [results_take hnow hfirst]
          exact halters.alter heq
        · exact (List.mem_cons.1 hmem).resolve_left (Ne.symm heq)
    · rw [take_of_not_alters hfirst] at hactive htold
      refine ih hactive halters ?_ htold
      rcases List.mem_cons.1 hmem with rfl | hrest
      · exact absurd halters hfirst
      · exact hrest

theorem mem_told_of_alters_later {first later : List Event}
    (hactive : (watch.takeAll (first ++ later)).isStopped = false) {event : Event}
    (halters : event.Alters (watch.takeAll first).results) (hmem : event ∈ later)
    {told : List Event} (htold : (watch.takeAll (first ++ later)).events = watch.events ++ told) :
    event ∈ told := by
  rw [takeAll_append] at hactive htold
  obtain ⟨begun, hbegun, -⟩ := exists_told watch first
  obtain ⟨ended, hended, -⟩ := exists_told (watch.takeAll first) later
  rw [hended, hbegun, List.append_assoc, List.append_cancel_left_eq] at htold
  rw [← htold]
  exact List.mem_append_right _ (mem_told_of_alters hactive halters hmem hended)

/-- An event that makes no difference, and whose opposite is not taken up, is not told. -/
theorem not_mem_told_of_not_alters {events : List Event} {event : Event}
    (hnot : ¬ event.Alters watch.results) (hopposite : event.opposite ∉ events)
    {told : List Event} (htold : (watch.takeAll events).events = watch.events ++ told) :
    event ∉ told := by
  induction events generalizing watch told with
  | nil =>
    have hnone : told = [] := by simpa using htold
    simp [hnone]
  | cons first rest ih =>
    obtain ⟨hne, hrest⟩ := not_or.1 (mt List.mem_cons.2 hopposite)
    rw [takeAll_cons] at htold
    by_cases hstopped : watch.isStopped = true
    · rw [take_of_isStopped hstopped] at htold
      exact ih hnot hrest htold
    · by_cases hfirst : first.Alters watch.results
      · have hactive : watch.isStopped = false := by simpa using hstopped
        obtain ⟨later, hlater, -⟩ := exists_told (watch.take first) rest
        rw [hlater, events_take hactive hfirst, List.append_assoc,
          List.append_cancel_left_eq] at htold
        subst htold
        have hafter : ¬ event.Alters (watch.take first).results := by
          rw [results_take hactive hfirst, ← Event.alters_opposite]
          exact (Event.alters_opposite.2 hnot).alter (Ne.symm hne)
        rw [List.mem_append, List.mem_singleton]
        rintro (rfl | hlaterTold)
        · exact hnot hfirst
        · exact ih hafter hrest hlater hlaterTold
      · rw [take_of_not_alters hfirst] at htold
        exact ih hnot hrest htold

def HasResults (watch : Watch) (facts : Reference → Prop) : Prop :=
  watch.results.Nodup ∧ ∀ fact, fact ∈ watch.results ↔ facts fact

theorem mem_results_takeAll {events : List Event}
    (hactive : (watch.takeAll events).isStopped = false) (hnodup : watch.results.Nodup)
    (hdisjoint : ∀ fact, ⟨.added, fact⟩ ∈ events → ⟨.removed, fact⟩ ∉ events) {fact : Reference} :
    fact ∈ (watch.takeAll events).results ↔
      (fact ∈ watch.results ∨ ⟨.added, fact⟩ ∈ events) ∧ ⟨.removed, fact⟩ ∉ events := by
  induction events generalizing watch with
  | nil => simp
  | cons event rest ih =>
    have hnow := isStopped_of_takeAll hactive
    rw [takeAll_cons] at hactive
    have hnodup' := nodup_results_takeAll hnodup [event]
    rw [takeAll_cons, ih hactive hnodup' fun fact hadded hremoved =>
      hdisjoint fact (List.mem_cons_of_mem _ hadded) (List.mem_cons_of_mem _ hremoved)]
    obtain ⟨change, other⟩ := event
    have hother := hdisjoint other
    by_cases halters : Event.Alters ⟨change, other⟩ watch.results
    · rw [results_take hnow halters]
      cases change with
      | added =>
        simp only [Event.alter, List.mem_append, List.mem_cons, Event.mk.injEq]
        grind
      | removed =>
        simp only [Event.alter, hnodup.mem_erase_iff, List.mem_cons, Event.mk.injEq]
        grind
    · rw [take_of_not_alters halters]
      cases change with
      | added =>
        rw [Event.alters_added] at halters
        simp only [List.mem_cons, Event.mk.injEq]
        grind
      | removed =>
        rw [Event.alters_removed] at halters
        simp only [List.mem_cons, Event.mk.injEq]
        grind

/-- After changes of one kind, the opposite of each of them makes a difference. -/
theorem alters_opposite_takeAll {events : List Event} {event : Event}
    (hactive : (watch.takeAll events).isStopped = false) (hnodup : watch.results.Nodup)
    (hkind : ∀ other ∈ events, other.change = event.change) (hmem : event ∈ events) :
    event.opposite.Alters (watch.takeAll events).results := by
  have hdisjoint : ∀ fact, ⟨.added, fact⟩ ∈ events → ⟨.removed, fact⟩ ∉ events := by
    intro fact hadded hremoved
    cases (hkind _ hadded).trans (hkind _ hremoved).symm
  rw [Event.alters_opposite]
  obtain ⟨change, fact⟩ := event
  cases change with
  | added =>
    have hremoved : ⟨.removed, fact⟩ ∉ events := fun h => nomatch hkind _ h
    rw [Event.alters_added, not_not, mem_results_takeAll hactive hnodup hdisjoint]
    exact ⟨Or.inr hmem, hremoved⟩
  | removed =>
    rw [Event.alters_removed, mem_results_takeAll hactive hnodup hdisjoint]
    exact fun h => h.2 hmem

/-- Of changes that do not contradict each other, the listener hears once of each that makes a
difference to the results from before. -/
theorem nodup_told_and_mem_iff {events : List Event}
    (hactive : (watch.takeAll events).isStopped = false) (hnodup : watch.results.Nodup)
    (hdisjoint : ∀ fact, ⟨.added, fact⟩ ∈ events → ⟨.removed, fact⟩ ∉ events)
    {told : List Event} (htold : (watch.takeAll events).events = watch.events ++ told) :
    told.Nodup ∧ ∀ event, event ∈ told ↔ event ∈ events ∧ event.Alters watch.results := by
  induction events generalizing watch told with
  | nil =>
    have hnone : told = [] := by simpa using htold
    simp [hnone]
  | cons first rest ih =>
    have hnow := isStopped_of_takeAll hactive
    rw [takeAll_cons] at hactive htold
    have hrest : ∀ fact, ⟨.added, fact⟩ ∈ rest → ⟨.removed, fact⟩ ∉ rest :=
      fun fact hadded hremoved =>
        hdisjoint fact (List.mem_cons_of_mem _ hadded) (List.mem_cons_of_mem _ hremoved)
    by_cases halters : first.Alters watch.results
    · obtain ⟨later, hlater, -⟩ := exists_told (watch.take first) rest
      rw [hlater, events_take hnow halters, List.append_assoc, List.append_cancel_left_eq,
        List.singleton_append] at htold
      subst htold
      obtain ⟨hlaterNodup, hlaterMem⟩ :=
        ih hactive (nodup_results_takeAll hnodup [first]) hrest hlater
      rw [results_take hnow halters] at hlaterMem
      obtain ⟨change, other⟩ := first
      have hother := hdisjoint other
      constructor
      · refine List.nodup_cons.2 ⟨?_, hlaterNodup⟩
        rw [hlaterMem]
        cases change with
        | added => simp [Event.alter]
        | removed => simp [Event.alter, hnodup.mem_erase_iff]
      · rintro ⟨change', fact⟩
        rw [List.mem_cons, hlaterMem]
        cases change <;> cases change' <;>
          simp only [Event.alter, Event.alters_added, Event.alters_removed, List.mem_append,
            hnodup.mem_erase_iff, List.mem_cons, Event.mk.injEq] at * <;> grind
    · rw [take_of_not_alters halters] at hactive htold
      obtain ⟨hlaterNodup, hlaterMem⟩ := ih hactive hnodup hrest htold
      refine ⟨hlaterNodup, fun event => ?_⟩
      rw [hlaterMem, List.mem_cons]
      constructor
      · rintro ⟨hmem, hevent⟩
        exact ⟨Or.inr hmem, hevent⟩
      · rintro ⟨rfl | hmem, hevent⟩
        · exact absurd hevent halters
        · exact ⟨hmem, hevent⟩

/-- Exact reports bring the results from one set to the other, and the listener hears once of each
fact that is in one of them only. -/
theorem takeAll_of_exactReports {reports : Change → Reference → Prop}
    {old new : Reference → Prop} (exact : ExactReports reports old new) {events : List Event}
    (hevents : ∀ change fact, ⟨change, fact⟩ ∈ events ↔ reports change fact)
    (hactive : (watch.takeAll events).isStopped = false) (hold : watch.HasResults old) :
    (watch.takeAll events).HasResults new ∧
      ∃ told, (watch.takeAll events).events = watch.events ++ told ∧ told.Nodup ∧
        (∀ fact, ⟨.added, fact⟩ ∈ told ↔ new fact ∧ ¬ old fact) ∧
        ∀ fact, ⟨.removed, fact⟩ ∈ told ↔ old fact ∧ ¬ new fact := by
  have hdisjoint : ∀ fact, ⟨.added, fact⟩ ∈ events → ⟨.removed, fact⟩ ∉ events := by
    intro fact hadded hremoved
    exact exact.of_removed ((hevents _ _).1 hremoved) (exact.of_added ((hevents _ _).1 hadded))
  obtain ⟨told, htold, -⟩ := exists_told watch events
  obtain ⟨hnodup, hmem⟩ := nodup_told_and_mem_iff hactive hold.1 hdisjoint htold
  refine ⟨⟨nodup_results_takeAll hold.1 events, fun fact => ?_⟩, told, htold, hnodup, ?_, ?_⟩
  · rw [mem_results_takeAll hactive hold.1 hdisjoint, hevents, hevents, hold.2]
    constructor
    · rintro ⟨hbefore | hadded, hremoved⟩
      · by_contra hnew
        exact hremoved (exact.removed hbefore hnew)
      · exact exact.of_added hadded
    · intro hnew
      refine ⟨?_, fun hremoved => exact.of_removed hremoved hnew⟩
      by_cases hbefore : old fact
      · exact Or.inl hbefore
      · exact Or.inr (exact.added hnew hbefore)
  · intro fact
    rw [hmem, hevents, Event.alters_added, hold.2]
    exact ⟨fun h => ⟨exact.of_added h.1, h.2⟩, fun h => ⟨exact.added h.1 h.2, h.2⟩⟩
  · intro fact
    rw [hmem, hevents, Event.alters_removed, hold.2]
    exact ⟨fun h => ⟨h.2, exact.of_removed h.1⟩, fun h => ⟨exact.removed h.1 h.2, h.1⟩⟩

/-- Reports that say of nothing that it goes add what they say appears. -/
theorem takeAll_of_no_removal {reports : Change → Reference → Prop}
    (hremoved : ∀ fact, ¬ reports .removed fact) {events : List Event}
    (hevents : ∀ change fact, ⟨change, fact⟩ ∈ events ↔ reports change fact)
    (hactive : (watch.takeAll events).isStopped = false) (hnodup : watch.results.Nodup) :
    (watch.takeAll events).HasResults fun fact => fact ∈ watch.results ∨ reports .added fact := by
  have exact : ExactReports reports (· ∈ watch.results)
      fun fact => fact ∈ watch.results ∨ reports .added fact := by
    refine ⟨Or.inr, fun h => absurd h (hremoved _), fun hnew hold => hnew.resolve_left hold, ?_⟩
    exact fun hold hnew => absurd (Or.inl hold) hnew
  exact (takeAll_of_exactReports exact hevents hactive ⟨hnodup, fun _ => Iff.rfl⟩).1

/-- A unit of deliveries takes up changes up to the one at which the listener fails, so all of them
if it never fails. -/
theorem exists_deliverAll_eq (change : Change) (facts : List Reference) (watch : Watch) :
    ∃ taken, taken <+: facts.map (Event.mk change) ∧
      (watch.deliverAll change facts).1 = watch.takeAll taken ∧
      (watch.listener.NeverPanics → taken = facts.map (Event.mk change) ∧
        (watch.deliverAll change facts).2 = false) := by
  induction facts generalizing watch with
  | nil => exact ⟨[], by simp [deliverAll]⟩
  | cons fact rest ih =>
    have htake : watch.take ⟨change, fact⟩ = (watch.deliver change fact).1 := rfl
    rw [deliverAll]
    match hdeliver : watch.deliver change fact with
    | (next, true) =>
      refine ⟨[⟨change, fact⟩], by simp, by rw [takeAll_cons, htake, hdeliver]; rfl, fun h => ?_⟩
      have := panics_deliver h ⟨change, fact⟩
      simp [hdeliver] at this
    | (next, false) =>
      have hnext : watch.take ⟨change, fact⟩ = next := by rw [htake, hdeliver]
      obtain ⟨taken, htaken, heq, hall⟩ := ih next
      refine ⟨⟨change, fact⟩ :: taken, ?_, ?_, fun h => ?_⟩
      · simpa using htaken
      · rw [takeAll_cons, hnext]
        exact heq
      · have hlistener : next.listener.NeverPanics := by
          rwa [← hnext, (sameTask_take _).listener]
        simpa using hall hlistener

end Watch

end LiveFacts
