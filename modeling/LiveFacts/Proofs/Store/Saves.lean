import LiveFacts.Proofs.Store.Links

/-!
# Saving records one after another

A store only grows. Of the records under one reference it keeps the first, so what it holds after
a row of saves is what it held before and what was new to it.
-/

namespace LiveFacts

namespace Store

theorem records_grow_save (store : Store) (record : Record) :
    store.records <+: (store.save record).records := by
  by_cases hnew : store.contains record.reference = true
  · simp [save_of_contains hnew]
  · rw [records_save_of_new (by simpa using hnew)]
    exact List.prefix_append _ _

theorem records_grow_saveAll (store : Store) (records : List Record) :
    store.records <+: (records.foldl save store).records := by
  induction records generalizing store with
  | nil => exact List.prefix_refl _
  | cons record rest ih => exact (records_grow_save store record).trans (ih _)

theorem contains_of_grown {store more : Store} (hmore : store.records <+: more.records)
    {fact : Reference} (h : store.contains fact = true) : more.contains fact = true := by
  obtain ⟨record, hrecord, hreference⟩ := contains_iff.1 h
  exact contains_iff.2 ⟨record, hmore.subset hrecord, hreference⟩

theorem contains_save_self (store : Store) (record : Record) :
    (store.save record).contains record.reference = true := by
  by_cases hnew : store.contains record.reference = true
  · rwa [save_of_contains hnew]
  · exact (contains_save_iff (by simpa using hnew)).2 (Or.inr rfl)

theorem contains_saveAll {store : Store} {records : List Record} {record : Record}
    (h : record ∈ records) : (records.foldl save store).contains record.reference = true := by
  induction records generalizing store with
  | nil => cases h
  | cons first rest ih =>
    rcases List.mem_cons.1 h with rfl | hrest
    · exact contains_of_grown (records_grow_saveAll _ rest) (contains_save_self store record)
    · exact ih hrest

/-- After saves a store contains what it contained before and what was saved. -/
theorem contains_saveAll_iff {store : Store} {records : List Record} {fact : Reference} :
    (records.foldl save store).contains fact = true ↔
      store.contains fact = true ∨ ∃ record ∈ records, record.reference = fact := by
  induction records generalizing store with
  | nil => simp
  | cons record rest ih =>
    rw [List.foldl_cons, ih, List.exists_mem_cons_iff, ← or_assoc]
    refine or_congr_left ?_
    by_cases hknown : store.contains record.reference = true
    · rw [save_of_contains hknown]
      refine ⟨Or.inl, ?_⟩
      rintro (hold | rfl)
      · exact hold
      · exact hknown
    · rw [contains_save_iff (by simpa using hknown), @eq_comm _ fact]

theorem contains_saveAll_empty_iff {records : List Record} {fact : Reference} :
    (records.foldl save {}).contains fact = true ↔
      ∃ record ∈ records, record.reference = fact := by
  rw [contains_saveAll_iff]
  simp [contains_iff]

theorem foldl_save_of_contains {store : Store} {records : List Record}
    (h : ∀ record ∈ records, store.contains record.reference = true) :
    records.foldl save store = store := by
  induction records with
  | nil => rfl
  | cons record rest ih =>
    rw [List.forall_mem_cons] at h
    rw [List.foldl_cons, save_of_contains h.1, ih h.2]

theorem IsSingleValued.of_grown {store more : Store} (h : more.IsSingleValued)
    (hmore : store.records <+: more.records) : store.IsSingleValued :=
  fun record hrecord => h record (hmore.subset hrecord)

/-- Of the records under one reference the store keeps the one that it has, or else the first. -/
theorem mem_saveAll_iff {store : Store} {records : List Record} {record : Record} :
    record ∈ (records.foldl save store).records ↔
      record ∈ store.records ∨ store.contains record.reference = false ∧
        records.find? (·.reference = record.reference) = some record := by
  induction records generalizing store with
  | nil => simp
  | cons first rest ih =>
    rw [List.foldl_cons, ih, List.find?_cons]
    by_cases hknown : store.contains first.reference = true
    · rw [save_of_contains hknown]
      refine or_congr_right (and_congr_right fun hlacks => ?_)
      have hne : first.reference ≠ record.reference := by
        rintro heq
        rw [heq, hlacks] at hknown
        cases hknown
      simp [hne]
    · have hnew : store.contains first.reference = false := by simpa using hknown
      have hcontains : (store.save first).contains record.reference = false ↔
          store.contains record.reference = false ∧ record.reference ≠ first.reference := by
        rw [← Bool.not_eq_true, contains_save_iff hnew, not_or, Bool.not_eq_true]
      rw [records_save_of_new hnew, List.mem_append, List.mem_singleton, or_assoc, hcontains]
      refine or_congr_right ?_
      by_cases heq : first.reference = record.reference
      · simp only [heq, ne_eq, not_true_eq_false, and_false, false_and, or_false, decide_true]
        rw [heq] at hnew
        simp [hnew, eq_comm]
      · have hne : record ≠ first := by
          rintro rfl
          exact heq rfl
        simp [heq, hne, Ne.symm heq]

end Store

end LiveFacts
