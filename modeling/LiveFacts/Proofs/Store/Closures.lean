import LiveFacts.Proofs.Fact.Records
import LiveFacts.Proofs.Store.Evaluation
import LiveFacts.Store.Closure
import Mathlib.Data.List.Perm.Subperm
import Mathlib.Logic.Relation

/-!
# What a closure holds

A closure of stored facts holds their records and those of all facts that they rest on, each once,
and nothing else. Put in order, each record comes after those that it names, for no fact rests on
itself.
-/

namespace LiveFacts

open Record (Holds)

namespace Links

def Names (links : Links) (fact named : Reference) : Prop :=
  ∃ role, links fact role named

/-- From a fact to itself, the facts that it names, those that they name, and so on. -/
def RestsOn (links : Links) : Reference → Reference → Prop :=
  Relation.ReflTransGen links.Names

def IsAcyclicBelow (links : Links) (fact : Reference) : Prop :=
  ∀ other named, links.RestsOn fact other → links.Names other named → ¬ links.RestsOn named other

theorem IsAcyclicBelow.of_restsOn {links : Links} {fact other : Reference}
    (h : links.IsAcyclicBelow fact) (hrests : links.RestsOn fact other) :
    links.IsAcyclicBelow other :=
  fun below named hbelow => h below named (hrests.trans hbelow)

end Links

namespace Store

variable {store : Store} {facts : List Reference} {known records : List Record}

theorem IsSound.names_iff (hsound : store.IsSound) {record : Record}
    (hrecord : record ∈ store.records) {named : Reference} :
    store.links.Names record.reference named ↔ named ∈ record.named := by
  have hfind := hsound.find?_eq_some_iff.2 ⟨hrecord, rfl⟩
  rw [Record.mem_named_iff]
  refine exists_congr fun role => ?_
  rw [hsound.links_iff_of_get hfind, Record.mem_predecessorsIn (hsound.keyed record hrecord)]

theorem mem_of_get {fact : Reference} {record : Record} (h : store.get fact = .ok record) :
    record ∈ store.records ∧ record.reference = fact := by
  rw [get] at h
  split at h
  · next found hfind =>
    rw [Except.ok.injEq] at h
    subst h
    exact ⟨List.mem_of_find?_eq_some hfind, by simpa using List.find?_some hfind⟩
  · cases h

theorem exists_get {fact : Reference} (h : store.contains fact = true) :
    ∃ record, store.get fact = .ok record := by
  obtain ⟨record, hrecord⟩ := Option.isSome_iff_exists.1 h
  exact ⟨record, by rw [get, hrecord]⟩

theorem mem_of_load (h : store.load facts = .ok records) :
    (∀ record ∈ records, record ∈ store.records ∧ record.reference ∈ facts) ∧
      ∀ fact ∈ facts, Holds records fact := by
  induction facts generalizing records with
  | nil =>
    have hnone : records = [] := by simpa [load, pure, Except.pure, eq_comm] using h
    simp [hnone]
  | cons fact rest ih =>
    obtain ⟨first, others, hfirst, hothers, rfl⟩ := mapM_cons_eq_ok.1 h
    obtain ⟨hstored, hhas⟩ := ih hothers
    obtain ⟨hmem, rfl⟩ := mem_of_get hfirst
    constructor
    · intro record hrecord
      rcases List.mem_cons.1 hrecord with rfl | hrest
      · exact ⟨hmem, List.mem_cons_self⟩
      · exact ⟨(hstored record hrest).1, List.mem_cons_of_mem _ (hstored record hrest).2⟩
    · intro other hother
      rcases List.mem_cons.1 hother with rfl | hrest
      · exact ⟨first, List.mem_cons_self, rfl⟩
      · obtain ⟨record, hrecord, hreference⟩ := hhas other hrest
        exact ⟨record, List.mem_cons_of_mem _ hrecord, hreference⟩

theorem addRecords_cons (known : List Record) (record : Record) (rest : List Record) :
    addRecords known (record :: rest) =
      addRecords (if known.any (·.reference = record.reference) then known
        else known ++ [record]) rest := rfl

/-- What is added comes last, adds no reference twice, and leaves none of the references out. -/
theorem addRecords_spec (known records : List Record) :
    known <+: addRecords known records ∧
      (∀ record ∈ addRecords known records, record ∈ known ∨ record ∈ records) ∧
      (∀ record ∈ records, Holds (addRecords known records) record.reference) ∧
      ((known.map Record.reference).Nodup →
        ((addRecords known records).map Record.reference).Nodup) := by
  induction records generalizing known with
  | nil => exact ⟨List.prefix_refl _, fun _ h => Or.inl h, by simp, id⟩
  | cons record rest ih =>
    rw [addRecords_cons]
    by_cases hknown : known.any (·.reference = record.reference) = true
    · rw [if_pos hknown]
      obtain ⟨hbegins, hmem, hhas, hnodup⟩ := ih known
      refine ⟨hbegins, fun other h => (hmem other h).imp_right (List.mem_cons_of_mem _), ?_, hnodup⟩
      refine List.forall_mem_cons.2 ⟨?_, hhas⟩
      obtain ⟨other, hother, hreference⟩ := List.any_eq_true.1 hknown
      exact ⟨other, hbegins.subset hother, by simpa using hreference⟩
    · rw [if_neg hknown]
      obtain ⟨hbegins, hmem, hhas, hnodup⟩ := ih (known ++ [record])
      have hlast : record ∈ addRecords (known ++ [record]) rest := hbegins.subset (by simp)
      refine ⟨(List.prefix_append _ _).trans hbegins, ?_, ?_, fun h => hnodup ?_⟩
      · intro other hother
        rcases hmem other hother with hold | hrest
        · rcases List.mem_append.1 hold with hknown' | hnew
          · exact Or.inl hknown'
          · rw [List.mem_singleton.1 hnew]
            exact Or.inr List.mem_cons_self
        · exact Or.inr (List.mem_cons_of_mem _ hrest)
      · exact List.forall_mem_cons.2 ⟨⟨record, hlast, rfl⟩, hhas⟩
      · rw [List.map_append, List.nodup_append]
        refine ⟨h, by simp, ?_⟩
        intro fact hfact other hother heq
        obtain ⟨held, hheld, rfl⟩ := List.mem_map.1 hfact
        rw [List.map_singleton, List.mem_singleton] at hother
        refine hknown (List.any_eq_true.2 ⟨held, hheld, ?_⟩)
        simpa using heq.trans hother

/-- The records are those of the facts and of all facts that they rest on, each once. -/
structure IsClosureOf (store : Store) (facts : List Reference) (records : List Record) : Prop where
  stored : ∀ record ∈ records, record ∈ store.records
  nodup : (records.map Record.reference).Nodup
  holds : ∀ fact ∈ facts, Holds records fact
  closed : ∀ record ∈ records, ∀ named ∈ record.named, Holds records named
  reached : ∀ record ∈ records, ∃ fact ∈ facts, store.links.RestsOn fact record.reference

theorem mem_of_loadFrom {rounds : Nat} (hknown : ∀ record ∈ known, record ∈ store.records)
    (h : store.loadFrom rounds known facts = .ok records) :
    ∀ record ∈ records, record ∈ store.records := by
  induction rounds generalizing known facts with
  | zero =>
    rw [loadFrom, Except.ok.injEq] at h
    rwa [← h]
  | succ rounds ih =>
    rw [loadFrom] at h
    split at h
    · rw [Except.ok.injEq] at h
      rwa [← h]
    · obtain ⟨loaded, hloaded, hrest⟩ := bind_eq_ok.1 h
      refine ih (fun record hrecord => ?_) hrest
      rcases (addRecords_spec known loaded).2.1 record hrecord with hold | hnew
      · exact hknown record hold
      · exact ((mem_of_load hloaded).1 record hnew).1

/-- While facts are still to be loaded, what the known records name is known or to be loaded, and
all of it comes of the facts at the start. -/
structure IsLoading (store : Store) (starts : List Reference) (known : List Record)
    (facts : List Reference) : Prop where
  stored : ∀ record ∈ known, record ∈ store.records
  nodup : (known.map Record.reference).Nodup
  unknown : ∀ fact ∈ facts, ¬ Holds known fact
  sought : ∀ fact ∈ starts, Holds known fact ∨ fact ∈ facts
  named : ∀ record ∈ known, ∀ named ∈ record.named, Holds known named ∨ named ∈ facts
  reached : ∀ record ∈ known, ∃ fact ∈ starts, store.links.RestsOn fact record.reference
  reaching : ∀ fact ∈ facts, ∃ start ∈ starts, store.links.RestsOn start fact

section Loading

variable {starts : List Reference} {loaded : List Record}

theorem isLoading_starts (store : Store) (starts : List Reference) :
    store.IsLoading starts [] starts where
  stored := by simp
  nodup := by simp
  unknown := by simp [Holds]
  sought := fun _ hfact => Or.inr hfact
  named := by simp
  reached := by simp
  reaching := fun fact hfact => ⟨fact, hfact, Relation.ReflTransGen.refl⟩

theorem IsLoading.length_le (h : store.IsLoading starts known facts) :
    known.length ≤ store.records.length := by
  have hsub : known.map Record.reference ⊆ store.records.map Record.reference := by
    intro fact hfact
    obtain ⟨record, hrecord, rfl⟩ := List.mem_map.1 hfact
    exact List.mem_map_of_mem (h.stored record hrecord)
  simpa using (h.nodup.subperm hsub).length_le

theorem IsLoading.isClosureOf (h : store.IsLoading starts records []) :
    store.IsClosureOf starts records where
  stored := h.stored
  nodup := h.nodup
  holds := fun fact hfact => (h.sought fact hfact).resolve_right (by simp)
  closed := fun record hrecord named hnamed =>
    (h.named record hrecord named hnamed).resolve_right (by simp)
  reached := h.reached

theorem holds_addRecords (hloaded : store.load facts = .ok loaded) :
    ∀ fact ∈ facts, Holds (addRecords known loaded) fact := by
  intro fact hfact
  obtain ⟨record, hrecord, rfl⟩ := (mem_of_load hloaded).2 fact hfact
  exact (addRecords_spec known loaded).2.2.1 record hrecord

theorem mem_named_unknown {named : Reference} :
    named ∈ (distinct (loaded.flatMap Record.named)).filter
        (fun fact => !known.any (·.reference = fact)) ↔
      (∃ record ∈ loaded, named ∈ record.named) ∧ ¬ Holds known named := by
  simp only [List.mem_filter, (distinct_spec _).2, List.mem_flatMap, Bool.not_eq_true',
    List.any_eq_false, decide_eq_true_eq, Holds, not_exists, not_and]

/-- When the facts have been loaded, the unknown ones that they name are to be loaded next. -/
theorem IsLoading.next (h : store.IsLoading starts known facts) (hsound : store.IsSound)
    (hloaded : store.load facts = .ok loaded) :
    store.IsLoading starts (addRecords known loaded)
      ((distinct (loaded.flatMap Record.named)).filter fun fact =>
        !(addRecords known loaded).any (·.reference = fact)) := by
  obtain ⟨hbegins, hmem, -, hnodup⟩ := addRecords_spec known loaded
  have hstored := (mem_of_load hloaded).1
  have hall : ∀ fact, Holds known fact ∨ fact ∈ facts → Holds (addRecords known loaded) fact := by
    rintro fact (hknown | hfact)
    · exact hknown.of_grown hbegins
    · exact holds_addRecords hloaded fact hfact
  refine ⟨?_, hnodup h.nodup, ?_, ?_, ?_, ?_, ?_⟩
  · intro record hrecord
    rcases hmem record hrecord with hold | hnew
    · exact h.stored record hold
    · exact (hstored record hnew).1
  · intro fact hfact
    exact (mem_named_unknown.1 hfact).2
  · intro fact hfact
    exact Or.inl (hall fact (h.sought fact hfact))
  · intro record hrecord named hnamed
    rcases hmem record hrecord with hold | hnew
    · exact Or.inl (hall named (h.named record hold named hnamed))
    · by_cases hknown : Holds (addRecords known loaded) named
      · exact Or.inl hknown
      · exact Or.inr (mem_named_unknown.2 ⟨⟨record, hnew, hnamed⟩, hknown⟩)
  · intro record hrecord
    rcases hmem record hrecord with hold | hnew
    · exact h.reached record hold
    · exact h.reaching _ (hstored record hnew).2
  · intro named hfact
    obtain ⟨⟨record, hrecord, hnamed⟩, -⟩ := mem_named_unknown.1 hfact
    obtain ⟨hkept, hreference⟩ := hstored record hrecord
    obtain ⟨start, hstart, hrests⟩ := h.reaching _ hreference
    exact ⟨start, hstart, hrests.tail ((hsound.names_iff hkept).2 hnamed)⟩

/-- Each round but the last brings a record that was not known. -/
theorem IsLoading.length_lt (h : store.IsLoading starts known facts) (hsome : facts ≠ [])
    (hloaded : store.load facts = .ok loaded) :
    known.length < (addRecords known loaded).length := by
  have hbegins := (addRecords_spec known loaded).1
  obtain ⟨fact, hfact⟩ := List.exists_mem_of_ne_nil facts hsome
  by_contra hshort
  have hsame := hbegins.eq_of_length (Nat.le_antisymm hbegins.length_le (Nat.not_lt.1 hshort))
  refine h.unknown fact hfact ?_
  rw [hsame]
  exact holds_addRecords hloaded fact hfact

theorem loadFrom_spec (hsound : store.IsSound) {rounds : Nat}
    (hloading : store.IsLoading starts known facts)
    (hrounds : store.records.length + 2 ≤ rounds + known.length)
    (h : store.loadFrom rounds known facts = .ok records) : store.IsClosureOf starts records := by
  induction rounds generalizing known facts with
  | zero =>
    have hle := hloading.length_le
    omega
  | succ rounds ih =>
    rw [loadFrom] at h
    split at h
    · next hempty =>
      rw [Except.ok.injEq] at h
      rw [← h]
      exact (List.isEmpty_iff.1 hempty ▸ hloading).isClosureOf
    · next hsome =>
      obtain ⟨loaded, hloaded, hrest⟩ := bind_eq_ok.1 h
      have hlonger := hloading.length_lt (by simpa using hsome) hloaded
      exact ih (hloading.next hsound hloaded) (by omega) hrest

/-- Loading ends if all is stored that the facts at the start rest on. -/
theorem IsLoading.exists_loadFrom (h : store.IsLoading starts known facts)
    (hsound : store.IsSound)
    (hall : ∀ start ∈ starts, ∀ rested, store.links.RestsOn start rested →
      store.contains rested = true) (rounds : Nat) :
    ∃ records, store.loadFrom rounds known facts = .ok records := by
  induction rounds generalizing known facts with
  | zero => exact ⟨known, rfl⟩
  | succ rounds ih =>
    rw [loadFrom]
    split
    · exact ⟨known, rfl⟩
    · have hstored : ∀ fact ∈ facts, store.contains fact = true := by
        intro fact hfact
        obtain ⟨start, hstart, hrests⟩ := h.reaching fact hfact
        exact hall start hstart fact hrests
      obtain ⟨loaded, hloaded⟩ := mapM_isOk_iff.2 fun fact hfact => exists_get (hstored fact hfact)
      obtain ⟨records, hrecords⟩ := ih (h.next hsound hloaded)
      exact ⟨records, bind_eq_ok.2 ⟨loaded, hloaded, hrecords⟩⟩

end Loading

/-- Facts have a closure if all that they rest on is stored. -/
theorem exists_closure_of_restsOn (hsound : store.IsSound)
    (hall : ∀ fact ∈ facts, ∀ rested, store.links.RestsOn fact rested →
      store.contains rested = true) : ∃ records, store.closure facts = .ok records :=
  (store.isLoading_starts facts).exists_loadFrom hsound hall _

theorem IsClosed.contains_of_restsOn (hclosed : store.IsClosed) (hsound : store.IsSound)
    {fact rested : Reference} (hfact : store.contains fact = true)
    (hrests : store.links.RestsOn fact rested) : store.contains rested = true := by
  induction hrests with
  | refl => exact hfact
  | tail _ hnames _ => exact hnames.elim fun _ hlink => hclosed.contains_of_links hsound hlink

theorem exists_closure (hclosed : store.IsClosed) (hsound : store.IsSound)
    (hfacts : ∀ fact ∈ facts, store.contains fact = true) :
    ∃ records, store.closure facts = .ok records :=
  exists_closure_of_restsOn hsound fun fact hfact _ hrests =>
    hclosed.contains_of_restsOn hsound (hfacts fact hfact) hrests

/-- Stored records that hold all that they name hold all that they rest on. -/
theorem holds_of_restsOn (hsound : store.IsSound)
    (hstored : ∀ record ∈ records, record ∈ store.records)
    (hclosed : ∀ record ∈ records, ∀ named ∈ record.named, Holds records named)
    {fact rested : Reference} (hfact : Holds records fact)
    (h : store.links.RestsOn fact rested) : Holds records rested := by
  induction h with
  | refl => exact hfact
  | tail _ hnames ih =>
    obtain ⟨record, hrecord, rfl⟩ := ih
    exact hclosed record hrecord _ ((hsound.names_iff (hstored record hrecord)).1 hnames)

theorem mem_of_closure (h : store.closure facts = .ok records) :
    ∀ record ∈ records, record ∈ store.records :=
  mem_of_loadFrom (by simp) h

theorem isClosureOf_of_closure (hsound : store.IsSound) (h : store.closure facts = .ok records) :
    store.IsClosureOf facts records :=
  loadFrom_spec hsound (store.isLoading_starts facts) (Nat.le_refl _) h

end Store

namespace Arrangement

variable {links : Links} {records ordered : List Record} {depth : Nat}
  {done next last : Arrangement} {fact : Reference} {facts : List Reference}

theorem mem_place (depth : Nat) {done : Arrangement} (fact : Reference)
    (hdone : ∀ record ∈ done.ordered, record ∈ records) :
    ∀ record ∈ (place records depth done fact).ordered, record ∈ records := by
  induction depth generalizing done fact with
  | zero => exact hdone
  | succ depth ih =>
    rw [place]
    split
    · exact hdone
    · next record hfind =>
      split
      · exact hdone
      · intro other hother
        rcases List.mem_append.1 hother with hearlier | hlast
        · refine List.foldlRecOn record.named.reverse (place records depth)
            (motive := fun done => ∀ record ∈ done.ordered, record ∈ records) ?_
            (fun _ h fact _ => ih fact h) other hearlier
          exact hdone
        · rw [List.mem_singleton.1 hlast]
          exact List.mem_of_find?_eq_some hfind

structure IsWhole (links : Links) (records : List Record) : Prop where
  names : ∀ record ∈ records, ∀ named ∈ record.named, links.Names record.reference named
  closed : ∀ record ∈ records, ∀ named ∈ record.named, Holds records named

/-- Each record comes after those that it names, but for those that rest on it. -/
inductive Arranged (links : Links) (records : List Record) : List Record → Prop
  | nil : Arranged links records []
  | snoc {ordered : List Record} {record : Record} : Arranged links records ordered →
      record ∈ records →
      (∀ named ∈ record.named, Holds ordered named ∨ links.RestsOn named record.reference) →
      Arranged links records (ordered ++ [record])

structure IsPartial (links : Links) (records : List Record) (done : Arrangement) : Prop where
  nodup : done.met.Nodup
  met : ∀ fact ∈ done.met, Holds records fact
  arranged : Arranged links records done.ordered
  named : ∀ record ∈ done.ordered, ∀ named ∈ record.named, named ∈ done.met

structure Extends (done next : Arrangement) : Prop where
  ordered : done.ordered <+: next.ordered
  met : done.met <:+ next.met
  newly : ∀ fact ∈ next.met, fact ∈ done.met ∨ Holds next.ordered fact

def LeadsTo (links : Links) (done : Arrangement) (fact : Reference) : Prop :=
  ∀ other ∈ done.met, Holds done.ordered other ∨ links.RestsOn other fact

theorem Extends.refl (done : Arrangement) : Extends done done :=
  ⟨List.prefix_refl _, List.suffix_refl _, fun _ => Or.inl⟩

theorem Extends.trans (h : Extends done next) (h' : Extends next last) : Extends done last where
  ordered := h.ordered.trans h'.ordered
  met := h.met.trans h'.met
  newly := by
    intro fact hfact
    rcases h'.newly fact hfact with hmet | hordered
    · exact (h.newly fact hmet).imp_right fun hordered => hordered.of_grown h'.ordered
    · exact Or.inr hordered

theorem LeadsTo.of_extends (h : LeadsTo links done fact) (hnext : Extends done next) :
    LeadsTo links next fact := by
  intro other hother
  rcases hnext.newly other hother with hmet | hordered
  · exact (h other hmet).imp_left fun hordered => hordered.of_grown hnext.ordered
  · exact Or.inl hordered

theorem IsPartial.length_met_le (h : IsPartial links records done) :
    done.met.length ≤ records.length := by
  have hsub : done.met ⊆ records.map Record.reference := by
    intro fact hfact
    obtain ⟨record, hrecord, rfl⟩ := h.met fact hfact
    exact List.mem_map_of_mem hrecord
  simpa using (h.nodup.subperm hsub).length_le

/-- A fact that has not been met is entered before the facts that it names. -/
theorem IsPartial.enter (h : IsPartial links records done) (hfact : Holds records fact)
    (hnew : fact ∉ done.met) :
    IsPartial links records { done with met := fact :: done.met } where
  nodup := List.nodup_cons.2 ⟨hnew, h.nodup⟩
  met := List.forall_mem_cons.2 ⟨hfact, h.met⟩
  arranged := h.arranged
  named := fun record hrecord named hnamed =>
    List.mem_cons_of_mem _ (h.named record hrecord named hnamed)

theorem LeadsTo.enter {named : Reference} (h : LeadsTo links done fact)
    (hnames : links.Names fact named) :
    LeadsTo links { done with met := fact :: done.met } named := by
  refine List.forall_mem_cons.2 ⟨Or.inr (.single hnames), ?_⟩
  intro other hother
  exact (h other hother).imp_right fun hrests => hrests.tail hnames

/-- When all facts that a record names have been met, the record is put in order. -/
theorem IsPartial.close {record : Record} (h : IsPartial links records done)
    (hrecord : record ∈ records) (hmet : ∀ named ∈ record.named, named ∈ done.met)
    (hnamed : ∀ named ∈ record.named,
      Holds done.ordered named ∨ links.RestsOn named record.reference) :
    IsPartial links records { done with ordered := done.ordered ++ [record] } where
  nodup := h.nodup
  met := h.met
  arranged := h.arranged.snoc hrecord hnamed
  named := by
    intro other hother
    rcases List.mem_append.1 hother with hearlier | hlast
    · exact h.named other hearlier
    · rw [List.mem_singleton.1 hlast]
      exact hmet

theorem Extends.close {record : Record}
    (h : Extends { done with met := record.reference :: done.met } next) :
    Extends done { next with ordered := next.ordered ++ [record] } where
  ordered := h.ordered.trans (List.prefix_append _ _)
  met := (List.suffix_cons record.reference done.met).trans h.met
  newly := by
    intro other hother
    rcases h.newly other hother with hmet | hordered
    · rcases List.mem_cons.1 hmet with rfl | hearlier
      · exact Or.inr ⟨record, List.mem_append_right _ (List.mem_singleton_self _), rfl⟩
      · exact Or.inl hearlier
    · exact Or.inr (hordered.of_grown (List.prefix_append _ _))

/-- What putting a fact in order comes to, if there is depth enough for all that is to be met. -/
def Places (links : Links) (records : List Record) (depth : Nat) : Prop :=
  ∀ done fact, IsPartial links records done → Holds records fact →
    records.length ≤ depth + done.met.length → LeadsTo links done fact →
    IsPartial links records (place records depth done fact) ∧
      Extends done (place records depth done fact) ∧
      fact ∈ (place records depth done fact).met

theorem Places.foldl (hplaces : Places links records depth)
    (hpartial : IsPartial links records done) (hfacts : ∀ fact ∈ facts, Holds records fact)
    (hdepth : records.length ≤ depth + done.met.length)
    (hleads : ∀ fact ∈ facts, LeadsTo links done fact) :
    IsPartial links records (facts.foldl (place records depth) done) ∧
      Extends done (facts.foldl (place records depth) done) ∧
      ∀ fact ∈ facts, fact ∈ (facts.foldl (place records depth) done).met := by
  induction facts generalizing done with
  | nil => exact ⟨hpartial, Extends.refl done, by simp⟩
  | cons first rest ih =>
    rw [List.forall_mem_cons] at hfacts hleads
    obtain ⟨hpartial', hextends, hfirst⟩ := hplaces _ _ hpartial hfacts.1 hdepth hleads.1
    have hlonger := hextends.met.length_le
    obtain ⟨hlast, hextends', hrest⟩ := ih hpartial' hfacts.2 (by omega)
      fun fact hfact => (hleads.2 fact hfact).of_extends hextends
    exact ⟨hlast, hextends.trans hextends',
      List.forall_mem_cons.2 ⟨hextends'.met.subset hfirst, hrest⟩⟩

/-- A fact is met, the facts that it names are put in order, and then it is. -/
theorem places (hwhole : IsWhole links records) (depth : Nat) : Places links records depth := by
  induction depth with
  | zero =>
    intro done fact hpartial hfact hdepth _
    refine ⟨hpartial, Extends.refl done, ?_⟩
    by_contra hnew
    have hle := (hpartial.enter hfact hnew).length_met_le
    simp only [List.length_cons] at hle
    omega
  | succ depth ih =>
    intro done fact hpartial hfact hdepth hleads
    rw [place]
    split
    · next hnone =>
      obtain ⟨record, hrecord, hreference⟩ := hfact
      exact absurd hreference (by simpa using List.find?_eq_none.1 hnone record hrecord)
    · next record hfind =>
      have hrecord := List.mem_of_find?_eq_some hfind
      obtain rfl : record.reference = fact := by simpa using List.find?_some hfind
      split
      · next hmet => exact ⟨hpartial, Extends.refl done, by simpa using hmet⟩
      · next hmet =>
        have hnew : record.reference ∉ done.met := by simpa using hmet
        have hentered : ∀ named ∈ record.named.reverse, LeadsTo links
            { done with met := record.reference :: done.met } named := fun named hnamed =>
          hleads.enter (hwhole.names record hrecord named (List.mem_reverse.1 hnamed))
        obtain ⟨hpartial', hextends, hnamed⟩ := Places.foldl ih (hpartial.enter hfact hnew)
          (fun named hnamed => hwhole.closed record hrecord named (List.mem_reverse.1 hnamed))
          (by simp only [List.length_cons]; omega) hentered
        refine ⟨hpartial'.close hrecord ?_ ?_, hextends.close,
          hextends.met.subset List.mem_cons_self⟩
        · exact fun named hmem => hnamed named (List.mem_reverse.2 hmem)
        · intro named hmem
          -- what was met earlier and is not in order yet is on the way to this record
          rcases hextends.newly named (hnamed named (List.mem_reverse.2 hmem)) with hmet | hordered
          · rcases List.mem_cons.1 hmet with rfl | hearlier
            · exact Or.inr .refl
            · exact (hleads named hearlier).imp_left (·.of_grown hextends.ordered)
          · exact Or.inl hordered

end Arrangement

theorem mem_predecessorsFirst {records : List Record} {facts : List Reference} :
    ∀ record ∈ predecessorsFirst records facts, record ∈ records :=
  List.foldlRecOn facts (Arrangement.place records records.length)
    (motive := fun done => ∀ record ∈ done.ordered, record ∈ records) (by simp)
    fun _ h fact _ => Arrangement.mem_place _ fact h

/-- In order, each record comes after those that it names, but for those that rest on it; none of
the facts is left out, and none that the records name. -/
theorem predecessorsFirst_spec {links : Links} {records : List Record}
    (hwhole : Arrangement.IsWhole links records) {facts : List Reference}
    (hfacts : ∀ fact ∈ facts, Holds records fact) :
    Arrangement.Arranged links records (predecessorsFirst records facts) ∧
      (∀ fact ∈ facts, Holds (predecessorsFirst records facts) fact) ∧
      ∀ record ∈ predecessorsFirst records facts, ∀ named ∈ record.named,
        Holds (predecessorsFirst records facts) named := by
  have hnothing : Arrangement.IsPartial links records {} :=
    ⟨by simp, by simp, .nil, by simp⟩
  obtain ⟨hpartial, hextends, hall⟩ := Arrangement.Places.foldl
    (Arrangement.places hwhole records.length) hnothing hfacts (Nat.le_add_right _ _)
    (by simp [Arrangement.LeadsTo])
  have hmet : ∀ fact ∈ (facts.foldl (Arrangement.place records records.length) {}).met,
      Holds (predecessorsFirst records facts) fact := fun fact hfact =>
    (hextends.newly fact hfact).resolve_left (by simp)
  exact ⟨hpartial.arranged, fun fact hfact => hmet fact (hall fact hfact),
    fun record hrecord named hnamed => hmet named (hpartial.named record hrecord named hnamed)⟩

namespace Store

variable {store : Store}

/-- No fact that is named rests on the one that names it. A fact is known by the hash of its
content, what it names included, so that the hash of a named fact is there before its own. -/
def IsAcyclic (store : Store) : Prop :=
  ∀ fact named, store.links.Names fact named → ¬ store.links.RestsOn named fact

theorem isAcyclic_of_rank (hsound : store.IsSound) (rank : Reference → Nat)
    (hrank : ∀ record ∈ store.records, ∀ named ∈ record.named,
      rank named < rank record.reference) : store.IsAcyclic := by
  have hlt : ∀ {fact named}, store.links.Names fact named → rank named < rank fact := by
    rintro fact named ⟨role, record, hrecord, rfl, hmem⟩
    refine hrank record hrecord named ((hsound.names_iff hrecord).1 ?_)
    exact ⟨role, record, hrecord, rfl, hmem⟩
  have hle : ∀ {fact rested}, store.links.RestsOn fact rested → rank rested ≤ rank fact := by
    intro fact rested hrests
    induction hrests with
    | refl => exact Nat.le_refl _
    | tail _ hnames ih => exact Nat.le_trans (Nat.le_of_lt (hlt hnames)) ih
  intro fact named hnames hrests
  exact absurd (hle hrests) (Nat.not_le.2 (hlt hnames))

/-- In a store whose records came after those that they name no fact rests on itself. -/
theorem isAcyclic_of_areGrounded (hsound : store.IsSound)
    (hgrounded : Record.AreGrounded (fun _ => False) store.records) : store.IsAcyclic := by
  refine isAcyclic_of_rank hsound (store.records.map Record.reference).idxOf ?_
  intro record hrecord named hnamed
  obtain ⟨earlier, later, hrecords⟩ := List.append_of_mem hrecord
  have hnodup := hsound.nodup
  rw [hrecords] at hgrounded hnodup ⊢
  obtain ⟨other, hother, rfl⟩ :=
    ((Record.areGrounded_append.1 hgrounded).2.2.1 named hnamed).resolve_left id
  have hearlier : other.reference ∈ earlier.map Record.reference := List.mem_map_of_mem hother
  rw [List.map_append, List.map_cons] at hnodup ⊢
  have hnew : record.reference ∉ earlier.map Record.reference := fun hmem =>
    (List.nodup_append.1 hnodup).2.2 _ hmem _ List.mem_cons_self rfl
  rw [List.idxOf_append_of_mem hearlier, List.idxOf_append_of_notMem hnew, List.idxOf_cons_self]
  exact Nat.lt_of_lt_of_le (List.idxOf_lt_length_iff.2 hearlier) (Nat.le_add_right _ _)

theorem areGrounded_of_arranged (hsound : store.IsSound) (hacyclic : store.IsAcyclic)
    {records ordered : List Record} (hstored : ∀ record ∈ records, record ∈ store.records)
    (h : Arrangement.Arranged store.links records ordered) :
    Record.AreGrounded (fun _ => False) ordered := by
  induction h with
  | nil => trivial
  | @snoc ordered record _ hrecord hnamed ih =>
    have hkept := hstored record hrecord
    refine Record.areGrounded_append.2 ⟨ih, hsound.keyed record hkept, ?_, trivial⟩
    intro named hmem
    refine Or.inr ((hnamed named hmem).resolve_right ?_)
    exact hacyclic _ _ ((hsound.names_iff hkept).2 hmem)

theorem IsClosureOf.isWhole {facts : List Reference} {records : List Record}
    (h : store.IsClosureOf facts records) (hsound : store.IsSound) :
    Arrangement.IsWhole store.links records :=
  ⟨fun record hrecord _ hnamed => (hsound.names_iff (h.stored record hrecord)).2 hnamed, h.closed⟩

/-- A closure that has been put in order holds the facts and all that they rest on, and where no
fact rests on itself, each record comes after those that it names. -/
theorem predecessorsFirst_closure (hsound : store.IsSound) {facts : List Reference}
    {records : List Record} (h : store.closure facts = .ok records) :
    (∀ fact ∈ facts, ∀ other, store.links.RestsOn fact other →
        Holds (predecessorsFirst records facts) other) ∧
      (store.IsAcyclic →
        Record.AreGrounded (fun _ => False) (predecessorsFirst records facts)) := by
  have hclosure := isClosureOf_of_closure hsound h
  obtain ⟨harranged, hfacts, hclosed⟩ :=
    predecessorsFirst_spec (hclosure.isWhole hsound) hclosure.holds
  refine ⟨fun fact hfact other hrests => ?_, fun hacyclic =>
    areGrounded_of_arranged hsound hacyclic hclosure.stored harranged⟩
  have hstored : ∀ record ∈ predecessorsFirst records facts, record ∈ store.records :=
    fun record hrecord => hclosure.stored record (mem_predecessorsFirst record hrecord)
  exact holds_of_restsOn hsound hstored hclosed (hfacts fact hfact) hrests

end Store

end LiveFacts
