import LiveFacts.Store.Basic
import Mathlib.Data.List.Nodup

/-!
# The links between stored facts

A store answers from its index which facts name a given fact. The records say the same without
an index: a link leads from a fact to each fact that its record names under a role. In a store
that holds what was saved into it, and nothing else, the two agree.
-/

namespace LiveFacts

namespace Keyed

theorem find?_eq_some_iff {α : Type} {entries : Keyed α} (h : (entries.map Prod.fst).Nodup)
    {key : String} {value : α} : entries.find? key = some value ↔ (key, value) ∈ entries := by
  induction entries with
  | nil => simp [find?]
  | cons entry rest ih =>
    obtain ⟨first, other⟩ := entry
    simp only [List.map_cons, List.nodup_cons, List.mem_map, Prod.exists, not_exists] at h
    have hrest := ih h.2
    simp only [find?] at hrest
    simp only [find?, List.lookup_cons, List.mem_cons, Prod.mk.injEq]
    by_cases hkey : key = first
    · subst hkey
      have hnot : (key, value) ∉ rest := by
        intro hmem
        exact h.1 key value ⟨hmem, rfl⟩
      simp [hnot, eq_comm]
    · have hne : (key == first) = false := beq_eq_false_iff_ne.2 hkey
      simp [hne, hkey, hrest]

end Keyed

abbrev Links := Reference → String → Reference → Prop

namespace Record

def IsKeyed (record : Record) : Prop :=
  (record.predecessors.map Prod.fst).Nodup

instance (record : Record) : Decidable record.IsKeyed :=
  inferInstanceAs (Decidable (List.Nodup _))

theorem mem_links {record : Record} {role : String} {fact : Reference} :
    (role, fact) ∈ record.links ↔
      ∃ named, (role, named) ∈ record.predecessors ∧ fact ∈ named.toList := by
  simp only [links, List.mem_flatMap, List.mem_map, Prod.mk.injEq]
  constructor
  · rintro ⟨entry, hentry, fact', hfact, hrole, rfl⟩
    exact ⟨entry.2, hrole ▸ hentry, hfact⟩
  · rintro ⟨named, hentry, hfact⟩
    exact ⟨(role, named), hentry, fact, hfact, rfl, rfl⟩

theorem mem_named_iff {record : Record} {fact : Reference} :
    fact ∈ record.named ↔ ∃ role, (role, fact) ∈ record.links := by
  simp only [mem_links, named, List.mem_flatMap, Prod.exists]

theorem mem_predecessorsIn {record : Record} (h : record.IsKeyed) {role : String}
    {fact : Reference} : fact ∈ record.predecessorsIn role ↔ (role, fact) ∈ record.links := by
  rw [mem_links, predecessorsIn]
  cases hfind : record.predecessors.find? role with
  | none =>
    have hnone : ∀ named, (role, named) ∉ record.predecessors := by
      intro named hmem
      rw [(Keyed.find?_eq_some_iff h).2 hmem] at hfind
      cases hfind
    simp [hnone]
  | some named =>
    have hsome := (Keyed.find?_eq_some_iff h).1 hfind
    constructor
    · intro hfact
      exact ⟨named, hsome, by simpa using hfact⟩
    · rintro ⟨named', hmem, hfact⟩
      have heq : named' = named := by
        have := (Keyed.find?_eq_some_iff h).2 hmem
        rw [hfind] at this
        exact (Option.some.inj this).symm
      simpa [heq] using hfact

end Record

namespace SuccessorIndex

theorem get_add (index : SuccessorIndex) (fact fact' successor : Reference)
    (role role' : String) :
    get (add fact role successor index) fact' role' =
      get index fact' role' ++ if (role, fact) = (role', fact') then [successor] else [] := by
  induction index with
  | nil =>
    by_cases h : (fact', role') = (fact, role)
    · cases h
      simp [add, get]
    · have h' : ¬ (role = role' ∧ fact = fact') := by
        rintro ⟨rfl, rfl⟩
        exact h rfl
      have hne : ((fact', role') == (fact, role)) = false := beq_eq_false_iff_ne.2 h
      simp [add, get, List.lookup_cons, hne, h']
  | cons entry rest ih =>
    obtain ⟨key, successors⟩ := entry
    simp only [get] at ih
    simp only [add]
    by_cases hkey : key = (fact, role)
    · subst hkey
      by_cases h : (fact', role') = (fact, role)
      · cases h
        simp [get]
      · have h' : ¬ (role = role' ∧ fact = fact') := by
          rintro ⟨rfl, rfl⟩
          exact h rfl
        have hne : ((fact', role') == (fact, role)) = false := beq_eq_false_iff_ne.2 h
        simp [get, List.lookup_cons, hne, h']
    · rw [if_neg hkey]
      by_cases h : (fact', role') = key
      · subst h
        have h' : ¬ (role = role' ∧ fact = fact') := by
          rintro ⟨rfl, rfl⟩
          exact hkey rfl
        simp [get, h']
      · have hne : ((fact', role') == key) = false := beq_eq_false_iff_ne.2 h
        simp only [get, List.lookup_cons, hne, ih]

end SuccessorIndex

namespace Store

/-- Entering a record adds it once for each link to the fact under the role. -/
theorem get_indexRecord (index : SuccessorIndex) (record : Record) (fact : Reference)
    (role : String) :
    SuccessorIndex.get (indexRecord index record) fact role =
      SuccessorIndex.get index fact role ++
        (record.links.filter (· = (role, fact))).map fun _ => record.reference := by
  rw [indexRecord]
  generalize record.links = links
  induction links generalizing index with
  | nil => simp
  | cons link rest ih =>
    obtain ⟨role', fact'⟩ := link
    rw [List.foldl_cons, ih, SuccessorIndex.get_add]
    by_cases h : (role', fact') = (role, fact)
    · simp [h]
    · simp [h]

def ofRecords (records : List Record) : Store :=
  records.foldl save {}

/-- The store holds what was saved into it: no two records under one reference, and an index of
all links. -/
structure IsSound (store : Store) : Prop where
  nodup : (store.records.map Record.reference).Nodup
  keyed : ∀ record ∈ store.records, record.IsKeyed
  successors_eq : ∀ fact role, store.successors fact role =
    store.records.flatMap fun record =>
      (record.links.filter (· = (role, fact))).map fun _ => record.reference

/-- A link leads from a stored fact to each fact that it names under a role. -/
def links (store : Store) : Links := fun fact role named =>
  ∃ record ∈ store.records, record.reference = fact ∧ named ∈ record.predecessorsIn role

def IsClosed (store : Store) : Prop :=
  ∀ record ∈ store.records, ∀ fact ∈ record.named, store.contains fact

instance (store : Store) : Decidable store.IsClosed :=
  inferInstanceAs (Decidable (∀ record ∈ store.records, ∀ fact ∈ record.named, store.contains fact))

def IsSingleValued (store : Store) : Prop :=
  ∀ record ∈ store.records, ∀ entry ∈ record.predecessors, entry.2.toList.length ≤ 1

instance (store : Store) : Decidable store.IsSingleValued :=
  inferInstanceAs (Decidable (∀ record ∈ store.records, ∀ entry ∈ record.predecessors,
    entry.2.toList.length ≤ 1))

theorem contains_iff {store : Store} {fact : Reference} :
    store.contains fact = true ↔ ∃ record ∈ store.records, record.reference = fact := by
  simp [contains, find?]

theorem save_eq_of_new {store : Store} {record : Record}
    (h : store.contains record.reference = false) :
    store.save record =
      { records := store.records ++ [record], index := indexRecord store.index record } := by
  simp [save, h]

theorem records_save_of_new {store : Store} {record : Record}
    (h : store.contains record.reference = false) :
    (store.save record).records = store.records ++ [record] := by
  rw [save_eq_of_new h]

theorem contains_save_iff {store : Store} {record : Record}
    (h : store.contains record.reference = false) {fact : Reference} :
    (store.save record).contains fact = true ↔
      store.contains fact = true ∨ fact = record.reference := by
  rw [contains_iff, contains_iff, records_save_of_new h]
  simp only [List.mem_append, List.mem_singleton, or_and_right, exists_or, exists_eq_left]
  rw [eq_comm]

theorem isSound_empty : IsSound {} where
  nodup := List.nodup_nil
  keyed := by simp
  successors_eq := by simp [successors, SuccessorIndex.get]

theorem IsSound.save {store : Store} (hsound : store.IsSound) {record : Record}
    (hkeyed : record.IsKeyed) : (store.save record).IsSound := by
  by_cases hnew : store.contains record.reference = true
  · rwa [save_of_contains hnew]
  · have hnew : store.contains record.reference = false := by simpa using hnew
    rw [save_eq_of_new hnew]
    refine ⟨?_, ?_, ?_⟩
    · rw [List.map_append, List.nodup_append]
      refine ⟨hsound.nodup, by simp, ?_⟩
      intro fact hfact other hother heq
      obtain ⟨stored, hstored, rfl⟩ := List.mem_map.1 hfact
      have hreference : stored.reference = record.reference := by simpa [heq] using hother
      rw [contains_iff.2 ⟨stored, hstored, hreference⟩] at hnew
      cases hnew
    · intro stored hstored
      rcases List.mem_append.1 hstored with hold | hlast
      · exact hsound.keyed stored hold
      · rwa [List.mem_singleton.1 hlast]
    · intro fact role
      have hold := hsound.successors_eq fact role
      simp only [successors] at hold
      rw [successors, get_indexRecord, hold]
      simp

theorem IsSound.saveAll {store : Store} (hsound : store.IsSound) {records : List Record}
    (hkeyed : ∀ record ∈ records, record.IsKeyed) :
    (records.foldl Store.save store).IsSound := by
  induction records generalizing store with
  | nil => exact hsound
  | cons record rest ih =>
    rw [List.forall_mem_cons] at hkeyed
    exact ih (hsound.save hkeyed.1) hkeyed.2

theorem isSound_ofRecords {records : List Record} (h : ∀ record ∈ records, record.IsKeyed) :
    (ofRecords records).IsSound :=
  isSound_empty.saveAll h

namespace IsSound

variable {store : Store} (hsound : store.IsSound)
include hsound

theorem mem_successors {fact successor : Reference} {role : String} :
    successor ∈ store.successors fact role ↔ store.links successor role fact := by
  rw [hsound.successors_eq, links, List.mem_flatMap]
  constructor
  · rintro ⟨record, hrecord, hmem⟩
    simp only [List.mem_map, List.mem_filter, decide_eq_true_eq] at hmem
    obtain ⟨link, ⟨hlink, rfl⟩, hreference⟩ := hmem
    exact ⟨record, hrecord, hreference,
      (Record.mem_predecessorsIn (hsound.keyed _ hrecord)).2 hlink⟩
  · rintro ⟨record, hrecord, hreference, hmem⟩
    have hlink := (Record.mem_predecessorsIn (hsound.keyed _ hrecord)).1 hmem
    refine ⟨record, hrecord, ?_⟩
    simp only [List.mem_map, List.mem_filter, decide_eq_true_eq]
    exact ⟨(role, fact), ⟨hlink, rfl⟩, hreference⟩

theorem eq_of_reference_eq {a b : Record} (ha : a ∈ store.records) (hb : b ∈ store.records)
    (h : a.reference = b.reference) : a = b :=
  List.inj_on_of_nodup_map hsound.nodup ha hb h

theorem find?_eq_some_iff {fact : Reference} {record : Record} :
    store.find? fact = some record ↔ record ∈ store.records ∧ record.reference = fact := by
  constructor
  · intro h
    exact ⟨List.mem_of_find?_eq_some h, by simpa using List.find?_some h⟩
  · rintro ⟨hrecord, rfl⟩
    cases hfind : store.find? record.reference with
    | none =>
      have hnone := List.find?_eq_none.1 hfind record hrecord
      simp at hnone
    | some other =>
      have hother := List.find?_some hfind
      simp only [decide_eq_true_eq] at hother
      rw [hsound.eq_of_reference_eq (List.mem_of_find?_eq_some hfind) hrecord hother]

theorem links_iff_of_get {fact named : Reference} {role : String} {record : Record}
    (h : store.find? fact = some record) :
    store.links fact role named ↔ named ∈ record.predecessorsIn role := by
  obtain ⟨hrecord, hreference⟩ := hsound.find?_eq_some_iff.1 h
  constructor
  · rintro ⟨other, hother, hfact, hmem⟩
    rwa [hsound.eq_of_reference_eq hother hrecord (hfact.trans hreference.symm)] at hmem
  · intro hmem
    exact ⟨record, hrecord, hreference, hmem⟩

end IsSound

theorem contains_of_links {store : Store} {fact named : Reference} {role : String}
    (h : store.links fact role named) : store.contains fact = true := by
  obtain ⟨record, hrecord, hreference, _⟩ := h
  exact contains_iff.2 ⟨record, hrecord, hreference⟩

theorem IsClosed.contains_of_links {store : Store} (hclosed : store.IsClosed)
    (hsound : store.IsSound) {fact named : Reference} {role : String}
    (h : store.links fact role named) : store.contains named = true := by
  obtain ⟨record, hrecord, _, hmem⟩ := h
  have hlink := (Record.mem_predecessorsIn (hsound.keyed _ hrecord)).1 hmem
  exact hclosed record hrecord named (Record.mem_named_iff.2 ⟨role, hlink⟩)

theorem IsClosed.save {store : Store} (hclosed : store.IsClosed) {record : Record}
    (hnamed : ∀ fact ∈ record.named, store.contains fact = true) :
    (store.save record).IsClosed := by
  by_cases hnew : store.contains record.reference = true
  · rwa [save_of_contains hnew]
  · have hnew : store.contains record.reference = false := by simpa using hnew
    have hkept : ∀ fact, store.contains fact = true → (store.save record).contains fact = true :=
      fun fact hfact => (contains_save_iff hnew).2 (Or.inl hfact)
    intro stored hstored fact hfact
    rw [records_save_of_new hnew] at hstored
    rcases List.mem_append.1 hstored with hold | hlast
    · exact hkept fact (hclosed stored hold fact hfact)
    · rw [List.mem_singleton.1 hlast] at hfact
      exact hkept fact (hnamed fact hfact)

end Store

end LiveFacts
