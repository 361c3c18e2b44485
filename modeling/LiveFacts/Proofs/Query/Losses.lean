import LiveFacts.Proofs.Query.Exactness

/-!
# Results that go, and are not reported to go

A result that a new fact takes away is reported to go if one condition lapses and the rest of the
query still leads to it. A fact that makes two conditions of a walk fail at once takes the result
away in silence: behind the first of them the query, asked now, no longer passes the second.
-/

namespace LiveFacts

namespace Store

instance (store : Store) (query : Query) (start result : Reference) :
    Decidable (store.Finds query start result) :=
  decidable_of_iff (result ∈ store.found query start) mem_found

theorem tells_iff_exists_mem {store : Store} {query : Query} {start fact result : Reference}
    {change : Change} :
    (∃ inverse ∈ query.inverses, inverse.appliesTo fact.type = true ∧
      store.Finds inverse.affected fact start ∧
      ∃ effect ∈ (inverse.effect change).toList, store.Finds effect fact result) ↔
    store.Tells query start fact change result := by
  simp only [Tells, Option.mem_toList]

instance (store : Store) (query : Query) (start fact : Reference) (change : Change)
    (result : Reference) : Decidable (store.Tells query start fact change result) :=
  decidable_of_iff _ tells_iff_exists_mem

end Store

/-- Of the results that a new fact takes away, those are reported that follow, in the store with the
fact, from a candidate of a condition that fails now: so it is when the condition lapses and the
rest of the query still leads to the result, and always when there is one condition at most. -/
theorem tells_removed_iff_of_disappears {records : List Record}
    (hkeyed : ∀ record ∈ records, record.IsKeyed) (hclosed : (Store.ofRecords records).IsClosed)
    {start : Reference} (hstart : (Store.ofRecords records).contains start = true)
    {record : Record} (hrecord : record.IsKeyed)
    (hnew : (Store.ofRecords records).contains record.reference = false)
    (hnamed : ∀ fact ∈ record.named, (Store.ofRecords records).contains fact = true)
    (query : Query) :
    ∃ before after, (Store.ofRecords records).evaluate start query = .ok before ∧
      ((Store.ofRecords records).save record).evaluate start query = .ok after ∧
      ∀ result ∈ terminals before, result ∉ terminals after →
        (((Store.ofRecords records).save record).Tells query start record.reference .removed
            result ↔
          ∃ candidate other, ((Store.ofRecords records).save record).links.Recalls query start
            record.reference .removed result candidate other) ∧
        (Links.Lapses (Store.ofRecords records).links
            ((Store.ofRecords records).save record).links query start record.reference result →
          ((Store.ofRecords records).save record).Tells query start record.reference .removed
            result) ∧
        (query.countP Step.isCondition ≤ 1 →
          ((Store.ofRecords records).save record).Tells query start record.reference .removed
            result) := by
  have hadmits : (Store.ofRecords records).Admits record :=
    ⟨Store.isSound_ofRecords hkeyed, hclosed, hrecord, hnew, hnamed⟩
  have hstart' := hadmits.contains_save_iff.2 (Or.inl hstart)
  have hself := hadmits.contains_save_iff.2 (Or.inr rfl)
  have grows := hadmits.grows
  obtain ⟨before, hbefore, hfoundBefore⟩ :=
    Store.exists_evaluate hadmits.sound hadmits.closed hstart query
  obtain ⟨after, hafter, hfoundAfter⟩ :=
    Store.exists_evaluate hadmits.sound_save hadmits.closed_save hstart' query
  refine ⟨before, after, hbefore, hafter, ?_⟩
  intro result hresult hgone
  rw [hfoundBefore] at hresult
  rw [hfoundAfter] at hgone
  rw [Store.tells_iff_of_isClosed hadmits.sound_save hadmits.closed_save hself]
  refine ⟨Links.reports_removed_iff, fun hlapses => ?_, fun hcount => ?_⟩
  · obtain ⟨candidate, hrecalls⟩ := grows.recalls_of_lapses hlapses
    exact hrecalls.reports
  · exact grows.reports_of_loss (hadmits.ne_of_contains hstart) hcount hresult hgone

namespace Reviewed

def list : Record :=
  ⟨"List", "5ea541e58e82ca31cf238faabf95bdc9a18037a4e6baea92adf861588439dadd", [], []⟩

def task : Record :=
  ⟨"Task", "0ed478c70f18f1e94b3f3d543616a20b2b827ae3b8294f4d70ddaee35bac8dff", [],
    [("list", .one list.reference)]⟩

def completion : Record :=
  ⟨"Completion", "2dc11e9d9b84cc3780fdcd551740f8b455fb100fe88090f385cb624dc0d3adf3", [],
    [("review", .one task.reference), ("task", .one task.reference)]⟩

def openTasks : Query :=
  [.successor "list", .field "Task", .existential .absent [.successor "task"]]

def untouchedTasks : Query :=
  openTasks ++ [.existential .absent [.successor "review"]]

end Reviewed

open Reviewed in
/-- Of the open tasks, the one that is completed is reported to go. -/
theorem tells_removed_of_completion :
    ((Store.ofRecords [list, task]).save completion).Tells openTasks list.reference
      completion.reference .removed task.reference := by
  have hkeyed : ∀ record ∈ [list, task], record.IsKeyed := by decide
  have hclosed : (Store.ofRecords [list, task]).IsClosed := by decide
  have hstart : (Store.ofRecords [list, task]).contains list.reference = true := by decide
  have hrecord : completion.IsKeyed := by decide
  have hnew : (Store.ofRecords [list, task]).contains completion.reference = false := by decide
  have hnamed : ∀ fact ∈ completion.named,
      (Store.ofRecords [list, task]).contains fact = true := by decide
  have hbefore : (Store.ofRecords [list, task]).evaluate list.reference openTasks =
      .ok [[list.reference, task.reference]] := by decide
  have hafter : ((Store.ofRecords [list, task]).save completion).evaluate list.reference
      openTasks = .ok [] := by decide
  obtain ⟨before, after, hb, ha, hgoes⟩ :=
    tells_removed_iff_of_disappears hkeyed hclosed hstart hrecord hnew hnamed openTasks
  have hb' : before = [[list.reference, task.reference]] :=
    (Except.ok.inj (hbefore.symm.trans hb)).symm
  have ha' : after = [] := (Except.ok.inj (hafter.symm.trans ha)).symm
  subst hb' ha'
  exact (hgoes task.reference (by decide) (by decide)).2.2 (by decide)

open Reviewed in
/-- Of the tasks that are neither completed nor reviewed, the one that becomes both at once goes,
and is not reported to go. -/
theorem not_tells_removed_of_completion :
    (Store.ofRecords [list, task]).Admits completion ∧
      (Store.ofRecords [list, task]).contains list.reference = true ∧
      (Store.ofRecords [list, task]).evaluate list.reference untouchedTasks =
        .ok [[list.reference, task.reference]] ∧
      ((Store.ofRecords [list, task]).save completion).evaluate list.reference untouchedTasks =
        .ok [] ∧
      ¬ ((Store.ofRecords [list, task]).save completion).Tells untouchedTasks list.reference
        completion.reference .removed task.reference := by
  have hkeyed : ∀ record ∈ [list, task], record.IsKeyed := by decide
  have hadmits : (Store.ofRecords [list, task]).Admits completion :=
    ⟨Store.isSound_ofRecords hkeyed, by decide, by decide, by decide, by decide⟩
  exact ⟨hadmits, by decide, by decide, by decide, by decide⟩

end LiveFacts
