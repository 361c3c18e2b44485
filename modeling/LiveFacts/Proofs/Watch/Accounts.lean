import Mathlib.Data.List.Chain
import LiveFacts.Proofs.Watch.Deliveries

/-!
# What a watch owes to its listener

For every fact the listener hears by turns that it came and that it went, and the results of a watch
are the facts that came last. So long as no call of the listener fails, what has been counted are
the calls, and the counts differ by the size of the results. All this holds of a new watch, and
whatever a watch is told, asked or given keeps it.
-/

namespace LiveFacts

structure Change.Alternate (changes : List Change) : Prop where
  starts : ∀ change ∈ changes.head?, change = .added
  turns : changes.IsChain (· ≠ ·)

theorem Change.alternate_nil : Change.Alternate [] := ⟨nofun, List.isChain_nil⟩

/-- What comes next is a removal after an addition, and else an addition. -/
theorem Change.Alternate.concat {changes : List Change} (h : Change.Alternate changes)
    {change : Change} (hnext : change = .removed ↔ changes.getLast? = some .added) :
    Change.Alternate (changes ++ [change]) where
  starts := by
    intro first hfirst
    cases changes with
    | nil =>
      have hchange : change ≠ .removed := by simpa using hnext
      obtain rfl : change = first := by simpa using hfirst
      cases change with
      | added => rfl
      | removed => exact absurd rfl hchange
    | cons head rest => exact h.starts first hfirst
  turns := by
    rw [List.isChain_append]
    refine ⟨h.turns, List.isChain_singleton change, fun last hlast next hmem => ?_⟩
    obtain rfl : change = next := by simpa using hmem
    rintro rfl
    rw [Option.mem_def.1 hlast, Option.some.injEq] at hnext
    cases last with
    | added => cases hnext.2 rfl
    | removed => cases hnext.1 rfl

namespace Watch

variable {watch : Watch}

def changesOf (fact : Reference) (watch : Watch) : List Change :=
  (watch.events.filter (·.fact = fact)).map Event.change

def IsUnfailing (watch : Watch) : Prop :=
  ∀ change, ∀ number < watch.count change, (watch.listener change (number + 1)).panics = false

instance (watch : Watch) : Decidable watch.IsUnfailing :=
  decidable_of_iff
    ((∀ number < watch.count .added, (watch.listener .added (number + 1)).panics = false) ∧
      ∀ number < watch.count .removed, (watch.listener .removed (number + 1)).panics = false)
    ⟨fun h change => by cases change; exacts [h.1, h.2], fun h => ⟨h .added, h .removed⟩⟩

structure IsCounted (watch : Watch) : Prop where
  added : watch.addedCount = watch.count .added
  removed : watch.removedCount = watch.count .removed
  balance : watch.addedCount = watch.removedCount + watch.results.length

/-- The events of a watch come by turns for each fact, its results are the facts that came last,
and its counts are those of the calls, unless one has failed. -/
structure IsAccounted (watch : Watch) : Prop where
  turns : ∀ fact, Change.Alternate (watch.changesOf fact)
  nodup : watch.results.Nodup
  results : ∀ fact, fact ∈ watch.results ↔ (watch.changesOf fact).getLast? = some .added
  counts : watch.IsUnfailing → watch.IsCounted

theorem isAccounted_of_events_eq_nil (hevents : watch.events = []) (hresults : watch.results = [])
    (hadded : watch.addedCount = 0) (hremoved : watch.removedCount = 0) : watch.IsAccounted where
  turns := fun fact => by simpa [changesOf, hevents] using Change.alternate_nil
  nodup := by simp [hresults]
  results := fun fact => by simp [changesOf, hevents, hresults]
  counts := fun _ => ⟨by simp [count, hevents, hadded], by simp [count, hevents, hremoved],
    by simp [hadded, hremoved, hresults]⟩

/-- Accounts are about the listener, what it was told, the results and the counts. -/
theorem IsAccounted.of_eq {other : Watch} (h : watch.IsAccounted)
    (hlistener : other.listener = watch.listener) (hevents : other.events = watch.events)
    (hresults : other.results = watch.results) (hadded : other.addedCount = watch.addedCount)
    (hremoved : other.removedCount = watch.removedCount) : other.IsAccounted where
  turns := by simpa only [changesOf, hevents] using h.turns
  nodup := hresults ▸ h.nodup
  results := by simpa only [changesOf, hevents, hresults] using h.results
  counts := by
    intro hunfailing
    have hbefore : watch.IsUnfailing := by
      simpa only [IsUnfailing, count, hevents, hlistener] using hunfailing
    have hcounts := h.counts hbefore
    exact ⟨by rw [hadded, hcounts.added, count, count, hevents],
      by rw [hremoved, hcounts.removed, count, count, hevents],
      by rw [hadded, hcounts.balance, hremoved, hresults]⟩

theorem count_take (hactive : watch.isStopped = false) {event : Event}
    (halters : event.Alters watch.results) (change : Change) :
    (watch.take event).count change =
      watch.count change + if event.change = change then 1 else 0 := by
  rw [count, events_take hactive halters, List.countP_append, List.countP_singleton, count]
  simp

theorem changesOf_take (hactive : watch.isStopped = false) {event : Event}
    (halters : event.Alters watch.results) (fact : Reference) :
    (watch.take event).changesOf fact =
      if event.fact = fact then watch.changesOf fact ++ [event.change]
      else watch.changesOf fact := by
  rw [changesOf, events_take hactive halters, List.filter_append, List.map_append, changesOf]
  split <;> simp [*]

/-- A call of the listener is noted, may stop the watch, and is counted unless it fails. -/
theorem tell_eq (watch : Watch) (change : Change) (fact : Reference) {reaction : Reaction}
    (h : watch.listener change (watch.count change + 1) = reaction) :
    watch.tell change fact =
      ({ watch with
        events := watch.events ++ [⟨change, fact⟩]
        phase := if reaction.stops && watch.held then .stopped else watch.phase
        addedCount :=
          watch.addedCount + if change = .added ∧ reaction.panics = false then 1 else 0
        removedCount :=
          watch.removedCount + if change = .removed ∧ reaction.panics = false then 1 else 0 },
      reaction.panics) := by
  obtain ⟨stops, panics⟩ := reaction
  simp only [tell, h]
  cases change <;> cases stops && watch.held <;> cases panics <;> simp [stop]

/-- What is left of a watch whose listener stops it when it is told of an event: the call under way
is the last, and is counted unless it fails. -/
def stopIn (event : Event) (watch : Watch) : Watch :=
  let failed := (watch.listener event.change (watch.count event.change + 1)).panics
  { watch with
    phase := .stopped
    results := event.alter watch.results
    events := watch.events ++ [event]
    addedCount := watch.addedCount + if event.change = .added ∧ failed = false then 1 else 0
    removedCount := watch.removedCount + if event.change = .removed ∧ failed = false then 1 else 0 }

theorem deliver_of_stops (hactive : watch.isStopped = false) (hheld : watch.held = true)
    {event : Event} (halters : event.Alters watch.results)
    (hstops : (watch.listener event.change (watch.count event.change + 1)).stops = true) :
    (watch.deliver event.change event.fact).1 = watch.stopIn event := by
  have hcall : ({ watch with results := event.alter watch.results } : Watch).listener event.change
      (watch.count event.change + 1) = watch.listener event.change (watch.count event.change + 1) :=
    rfl
  rw [deliver_of_alters hactive halters, tell_eq _ _ _ hcall]
  simp [stopIn, hstops, hheld]

/-- A call that does not fail is counted, and no other is. -/
theorem counts_take (hactive : watch.isStopped = false) {event : Event}
    (halters : event.Alters watch.results)
    (hpanics : (watch.listener event.change (watch.count event.change + 1)).panics = false) :
    (watch.take event).addedCount =
        watch.addedCount + (if event.change = .added then 1 else 0) ∧
      (watch.take event).removedCount =
        watch.removedCount + if event.change = .removed then 1 else 0 := by
  have hcall : ({ watch with results := event.alter watch.results } : Watch).listener event.change
      (watch.count event.change + 1) = watch.listener event.change (watch.count event.change + 1) :=
    rfl
  rw [take_of_alters hactive halters, tell_eq _ _ _ hcall]
  simp [hpanics]

/-- The call that a change leads to is the next of its kind. -/
theorem IsUnfailing.of_take (hactive : watch.isStopped = false) {event : Event}
    (halters : event.Alters watch.results) (h : (watch.take event).IsUnfailing) :
    watch.IsUnfailing ∧
      (watch.listener event.change (watch.count event.change + 1)).panics = false := by
  have hlistener : (watch.take event).listener = watch.listener := (sameTask_take event).listener
  constructor
  · intro change number hnumber
    rw [← hlistener]
    apply h
    rw [count_take hactive halters]
    omega
  · rw [← hlistener]
    apply h
    rw [count_take hactive halters, if_pos rfl]
    omega

theorem IsCounted.take (h : watch.IsCounted) (hactive : watch.isStopped = false) {event : Event}
    (halters : event.Alters watch.results)
    (hpanics : (watch.listener event.change (watch.count event.change + 1)).panics = false) :
    (watch.take event).IsCounted := by
  obtain ⟨hadded, hremoved⟩ := counts_take hactive halters hpanics
  refine ⟨by rw [hadded, count_take hactive halters, h.added],
    by rw [hremoved, count_take hactive halters, h.removed], ?_⟩
  have hbalance := h.balance
  rw [hadded, hremoved, results_take hactive halters]
  obtain ⟨change, fact⟩ := event
  cases change with
  | added =>
    simp only [Event.alter, List.length_append, List.length_singleton, reduceCtorEq, if_true,
      if_false]
    omega
  | removed =>
    have hmem : fact ∈ watch.results := halters
    have hlength := List.length_erase_add_one hmem
    simp only [Event.alter, reduceCtorEq, if_true, if_false]
    omega

namespace IsAccounted

/-- A change that makes a difference is the one whose turn it is. -/
theorem change_eq_removed_iff (h : watch.IsAccounted) {event : Event}
    (halters : event.Alters watch.results) :
    event.change = .removed ↔ (watch.changesOf event.fact).getLast? = some .added := by
  rw [← h.results]
  obtain ⟨change, fact⟩ := event
  cases change with
  | added => exact iff_of_false nofun halters
  | removed => exact iff_of_true rfl halters

theorem take (h : watch.IsAccounted) (event : Event) : (watch.take event).IsAccounted := by
  by_cases hstopped : watch.isStopped = true
  · rwa [take_of_isStopped hstopped]
  by_cases halters : event.Alters watch.results
  · have hactive : watch.isStopped = false := by simpa using hstopped
    refine ⟨?_, nodup_results_takeAll h.nodup [event], ?_, ?_⟩
    · intro fact
      rw [changesOf_take hactive halters]
      split
      · next hfact =>
        subst hfact
        exact (h.turns event.fact).concat (h.change_eq_removed_iff halters)
      · exact h.turns fact
    · intro fact
      rw [results_take hactive halters, changesOf_take hactive halters]
      obtain ⟨change, other⟩ := event
      by_cases hfact : other = fact
      · subst hfact
        cases change with
        | added => simp [Event.alter]
        | removed => simp [Event.alter, h.nodup.mem_erase_iff]
      · rw [if_neg hfact, ← h.results]
        cases change with
        | added => simp [Event.alter, Ne.symm hfact]
        | removed => simp [Event.alter, h.nodup.mem_erase_iff, Ne.symm hfact]
    · intro hunfailing
      obtain ⟨hbefore, hpanics⟩ := IsUnfailing.of_take hactive halters hunfailing
      exact (h.counts hbefore).take hactive halters hpanics
  · rwa [take_of_not_alters halters]

theorem takeAll (h : watch.IsAccounted) (events : List Event) :
    (watch.takeAll events).IsAccounted := by
  induction events generalizing watch with
  | nil => exact h
  | cons event rest ih => exact ih (h.take event)

theorem deliverAll (h : watch.IsAccounted) (change : Change) (facts : List Reference) :
    (watch.deliverAll change facts).1.IsAccounted := by
  obtain ⟨taken, -, htaken, -⟩ := watch.exists_deliverAll_eq change facts
  rw [htaken]
  exact h.takeAll taken

theorem advance (h : watch.IsAccounted) (phase : Phase) : (watch.advance phase).IsAccounted := by
  rw [Watch.advance]
  split
  · exact h
  · exact h.of_eq rfl rfl rfl rfl rfl

theorem stop (h : watch.IsAccounted) : watch.stop.IsAccounted := h.of_eq rfl rfl rfl rfl rfl

end IsAccounted

end Watch

end LiveFacts
