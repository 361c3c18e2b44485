import LiveFacts.Fact.Document
import LiveFacts.Proofs.Fact.Records
import LiveFacts.Proofs.Traversals

/-!
# What a document gives

The records that a document is taken apart into come in an order in which each names only facts
that come before it, and no record has a role twice when no object of the document has a key twice.
-/

namespace LiveFacts

namespace Json

mutual

/-- Whether every object has each of its keys once, as in any document that was read. -/
def isKeyed : Json → Bool
  | .array items => itemsKeyed items
  | .object members => decide (members.map Prod.fst).Nodup && membersKeyed members
  | _ => true

def itemsKeyed : List Json → Bool
  | [] => true
  | item :: rest => item.isKeyed && itemsKeyed rest

def membersKeyed : List (String × Json) → Bool
  | [] => true
  | (_, value) :: rest => value.isKeyed && membersKeyed rest

end

end Json

namespace Document

open Record (Holds)

/-- What has been read of a fact so far: its records come after those that they name, and hold the
facts that it names itself, under roles none of which is still to come. -/
structure Progress.IsGrounded (progress : Progress) (keys : List String) : Prop where
  records : Record.AreGrounded (fun _ => False) progress.records
  held : ∀ entry ∈ progress.predecessors, ∀ fact ∈ entry.2.toList, Holds progress.records fact
  keys : (progress.predecessors.map Prod.fst ++ keys).Nodup

namespace Progress

variable {progress : Progress} {key : String} {keys : List String}

theorem IsGrounded.tail (h : progress.IsGrounded (key :: keys)) : progress.IsGrounded keys := by
  refine ⟨h.records, h.held, ?_⟩
  exact h.keys.sublist ((List.Sublist.refl _).append (List.sublist_cons_self _ _))

theorem IsGrounded.addField (h : progress.IsGrounded (key :: keys)) (value : Json) :
    (progress.addField key value).IsGrounded keys :=
  ⟨h.tail.records, h.tail.held, h.tail.keys⟩

theorem IsGrounded.addRole (h : progress.IsGrounded (key :: keys)) {records : List Record}
    {named : Predecessors} (hmore : progress.records <+: records)
    (hrecords : Record.AreGrounded (fun _ => False) records)
    (hnamed : ∀ fact ∈ named.toList, Holds records fact) :
    (progress.addRole key records named).IsGrounded keys := by
  refine ⟨hrecords, ?_, ?_⟩
  · intro entry hentry fact hfact
    rcases List.mem_append.1 hentry with hold | hlast
    · exact (h.held entry hold fact hfact).of_grown hmore
    · rw [List.mem_singleton.1 hlast] at hfact
      exact hnamed fact hfact
  · simpa [Progress.addRole] using h.keys

/-- The record of the fact comes last, unless it is there already. -/
theorem IsGrounded.finish (h : progress.IsGrounded []) (type : String) :
    progress.records <+: (progress.finish type).1 ∧
      Record.AreGrounded (fun _ => False) (progress.finish type).1 ∧
      Holds (progress.finish type).1 (progress.finish type).2 := by
  rw [Progress.finish]
  split
  · next hthere =>
    refine ⟨List.prefix_refl _, h.records, ?_⟩
    simpa [Holds] using hthere
  · refine ⟨List.prefix_append _ _, ?_, ?_⟩
    · refine Record.areGrounded_append.2 ⟨h.records, ?_, ?_, trivial⟩
      · simpa [Record.IsKeyed, Record.ofContent] using h.keys
      · intro fact hfact
        obtain ⟨entry, hentry, hmem⟩ := List.mem_flatMap.1 hfact
        exact Or.inr (h.held entry hentry fact hmem)
    · exact ⟨_, List.mem_append_right _ (List.mem_singleton_self _), rfl⟩

end Progress

mutual

theorem dehydrateFact_grounded (document : Json) {records more : List Record} {root : Reference}
    (hkeyed : document.isKeyed = true) (hrecords : Record.AreGrounded (fun _ => False) records)
    (h : dehydrateFact records document = .ok (more, root)) :
    records <+: more ∧ Record.AreGrounded (fun _ => False) more ∧ Holds more root := by
  match document with
  | .object members =>
    rw [dehydrateFact] at h
    split at h
    · cases h
    · next type _ =>
      obtain ⟨progress, hprogress, hfinish⟩ := bind_eq_ok.1 h
      rw [Json.isKeyed, Bool.and_eq_true, decide_eq_true_eq] at hkeyed
      have hbegin : Progress.IsGrounded { records } (members.map Prod.fst) :=
        ⟨hrecords, by simp, by simpa using hkeyed.1⟩
      obtain ⟨hmore, hgrounded⟩ := dehydrateMembers_grounded members hkeyed.2 hbegin hprogress
      have hresult := hgrounded.finish type
      have heq : progress.finish type = (more, root) := Except.ok.inj hfinish
      rw [heq] at hresult
      exact ⟨hmore.trans hresult.1, hresult.2⟩
  | .null | .bool _ | .int _ | .float _ | .string _ | .array _ => simp [dehydrateFact] at h

theorem dehydrateMembers_grounded (members : List (String × Json)) {progress done : Progress}
    (hkeyed : Json.membersKeyed members = true)
    (hgrounded : progress.IsGrounded (members.map Prod.fst))
    (h : dehydrateMembers progress members = .ok done) :
    progress.records <+: done.records ∧ done.IsGrounded [] := by
  match members with
  | [] =>
    rw [dehydrateMembers, Except.ok.injEq] at h
    subst h
    exact ⟨List.prefix_refl _, hgrounded⟩
  | (key, value) :: rest =>
    rw [Json.membersKeyed, Bool.and_eq_true] at hkeyed
    rw [dehydrateMembers] at h
    split at h
    · exact dehydrateMembers_grounded rest hkeyed.2 hgrounded.tail h
    · obtain ⟨next, hnext, hrest⟩ := bind_eq_ok.1 h
      obtain ⟨hmore, hstep⟩ := dehydrateMember_grounded value hkeyed.1 hgrounded hnext
      obtain ⟨hmore', hdone⟩ := dehydrateMembers_grounded rest hkeyed.2 hstep hrest
      exact ⟨hmore.trans hmore', hdone⟩

theorem dehydrateMember_grounded (value : Json) {progress next : Progress} {key : String}
    {keys : List String} (hkeyed : value.isKeyed = true)
    (hgrounded : progress.IsGrounded (key :: keys))
    (h : dehydrateMember progress key value = .ok next) :
    progress.records <+: next.records ∧ next.IsGrounded keys := by
  match value with
  | .object members =>
    rw [dehydrateMember] at h
    split at h
    · rw [Except.ok.injEq] at h
      subst h
      exact ⟨List.prefix_refl _, hgrounded.addField _⟩
    · next type _ =>
      obtain ⟨nested, hnested, hadd⟩ := bind_eq_ok.1 h
      rw [Json.isKeyed, Bool.and_eq_true, decide_eq_true_eq] at hkeyed
      have hbegin : Progress.IsGrounded { records := progress.records } (members.map Prod.fst) :=
        ⟨hgrounded.records, by simp, by simpa using hkeyed.1⟩
      obtain ⟨hmore, hinner⟩ := dehydrateMembers_grounded members hkeyed.2 hbegin hnested
      obtain ⟨hfinish, hrecords, hroot⟩ := hinner.finish type
      have hall := hmore.trans hfinish
      have hnext := Except.ok.inj hadd
      subst hnext
      refine ⟨hall, hgrounded.addRole hall hrecords fun fact hfact => ?_⟩
      rwa [List.mem_singleton.1 hfact]
  | .array items =>
    rw [dehydrateMember] at h
    split at h
    · split at h
      · obtain ⟨⟨records, references⟩, hitems, hadd⟩ := bind_eq_ok.1 h
        rw [Json.isKeyed] at hkeyed
        obtain ⟨hmore, hrecords, hheld⟩ :=
          dehydrateItems_grounded items hkeyed hgrounded.records hitems
        have hnext := Except.ok.inj hadd
        subst hnext
        exact ⟨hmore, hgrounded.addRole hmore hrecords hheld⟩
      · cases h
    · rw [Except.ok.injEq] at h
      subst h
      exact ⟨List.prefix_refl _, hgrounded.addField _⟩
  | .null | .bool _ | .int _ | .float _ | .string _ =>
    simp only [dehydrateMember, Except.ok.injEq] at h
    subst h
    exact ⟨List.prefix_refl _, hgrounded.addField _⟩

theorem dehydrateItems_grounded (items : List Json) {records more : List Record}
    {references : List Reference} (hkeyed : Json.itemsKeyed items = true)
    (hrecords : Record.AreGrounded (fun _ => False) records)
    (h : dehydrateItems records items = .ok (more, references)) :
    records <+: more ∧ Record.AreGrounded (fun _ => False) more ∧
      ∀ fact ∈ references, Holds more fact := by
  match items with
  | [] =>
    rw [dehydrateItems, Except.ok.injEq, Prod.mk.injEq] at h
    obtain ⟨rfl, rfl⟩ := h
    exact ⟨List.prefix_refl _, hrecords, by simp⟩
  | item :: rest =>
    rw [Json.itemsKeyed, Bool.and_eq_true] at hkeyed
    rw [dehydrateItems] at h
    obtain ⟨⟨first, reference⟩, hfirst, hothers⟩ := bind_eq_ok.1 h
    obtain ⟨⟨all, others⟩, hrest, hall⟩ := bind_eq_ok.1 hothers
    have heq : (all, reference :: others) = (more, references) := Except.ok.inj hall
    rw [Prod.mk.injEq] at heq
    obtain ⟨rfl, rfl⟩ := heq
    obtain ⟨hmore, hgrounded, hroot⟩ := dehydrateFact_grounded item hkeyed.1 hrecords hfirst
    obtain ⟨hmore', hgrounded', hheld⟩ := dehydrateItems_grounded rest hkeyed.2 hgrounded hrest
    refine ⟨hmore.trans hmore', hgrounded', ?_⟩
    intro fact hfact
    rcases List.mem_cons.1 hfact with rfl | hmem
    · exact hroot.of_grown hmore'
    · exact hheld fact hmem

end

theorem areGrounded_dehydrateFact {document : Json} (hkeyed : document.isKeyed = true)
    {records : List Record} {root : Reference}
    (h : dehydrateFact [] document = .ok (records, root)) :
    Record.AreGrounded (fun _ => False) records :=
  (dehydrateFact_grounded document hkeyed (by trivial) h).2.1

def AddsAuthentic (records more : List Record) : Prop :=
  ∀ record ∈ more, record ∈ records ∨ record.IsAuthentic

theorem AddsAuthentic.refl (records : List Record) : AddsAuthentic records records :=
  fun _ => Or.inl

theorem AddsAuthentic.trans {a b c : List Record} (hab : AddsAuthentic a b)
    (hbc : AddsAuthentic b c) : AddsAuthentic a c := by
  intro record hrecord
  rcases hbc record hrecord with hearlier | hauthentic
  · exact hab record hearlier
  · exact Or.inr hauthentic

theorem Progress.addsAuthentic_finish (progress : Progress) (type : String) :
    AddsAuthentic progress.records (progress.finish type).1 := by
  rw [Progress.finish]
  split
  · exact AddsAuthentic.refl _
  · intro record hrecord
    rcases List.mem_append.1 hrecord with hearlier | hlast
    · exact Or.inl hearlier
    · rw [List.mem_singleton.1 hlast]
      exact Or.inr (Record.isAuthentic_ofContent _ _ _)

mutual

theorem dehydrateFact_authentic (document : Json) {records more : List Record} {root : Reference}
    (h : dehydrateFact records document = .ok (more, root)) : AddsAuthentic records more := by
  match document with
  | .object members =>
    rw [dehydrateFact] at h
    split at h
    · cases h
    · next type _ =>
      obtain ⟨progress, hprogress, hfinish⟩ := bind_eq_ok.1 h
      have hmembers := dehydrateMembers_authentic members hprogress
      have heq : progress.finish type = (more, root) := Except.ok.inj hfinish
      have hlast := progress.addsAuthentic_finish type
      rw [heq] at hlast
      exact hmembers.trans hlast
  | .null | .bool _ | .int _ | .float _ | .string _ | .array _ => simp [dehydrateFact] at h

theorem dehydrateMembers_authentic (members : List (String × Json)) {progress done : Progress}
    (h : dehydrateMembers progress members = .ok done) :
    AddsAuthentic progress.records done.records := by
  match members with
  | [] =>
    rw [dehydrateMembers, Except.ok.injEq] at h
    subst h
    exact AddsAuthentic.refl _
  | (key, value) :: rest =>
    rw [dehydrateMembers] at h
    split at h
    · exact dehydrateMembers_authentic rest h
    · obtain ⟨next, hnext, hrest⟩ := bind_eq_ok.1 h
      exact (dehydrateMember_authentic value hnext).trans (dehydrateMembers_authentic rest hrest)

theorem dehydrateMember_authentic (value : Json) {progress next : Progress} {key : String}
    (h : dehydrateMember progress key value = .ok next) :
    AddsAuthentic progress.records next.records := by
  match value with
  | .object members =>
    rw [dehydrateMember] at h
    split at h
    · rw [Except.ok.injEq] at h
      subst h
      exact AddsAuthentic.refl _
    · next type _ =>
      obtain ⟨nested, hnested, hadd⟩ := bind_eq_ok.1 h
      have hnext := Except.ok.inj hadd
      subst hnext
      exact (dehydrateMembers_authentic members hnested).trans (nested.addsAuthentic_finish type)
  | .array items =>
    rw [dehydrateMember] at h
    split at h
    · split at h
      · obtain ⟨⟨records, references⟩, hitems, hadd⟩ := bind_eq_ok.1 h
        have hnext := Except.ok.inj hadd
        subst hnext
        exact dehydrateItems_authentic items hitems
      · cases h
    · rw [Except.ok.injEq] at h
      subst h
      exact AddsAuthentic.refl _
  | .null | .bool _ | .int _ | .float _ | .string _ =>
    simp only [dehydrateMember, Except.ok.injEq] at h
    subst h
    exact AddsAuthentic.refl _

theorem dehydrateItems_authentic (items : List Json) {records more : List Record}
    {references : List Reference}
    (h : dehydrateItems records items = .ok (more, references)) : AddsAuthentic records more := by
  match items with
  | [] =>
    rw [dehydrateItems, Except.ok.injEq, Prod.mk.injEq] at h
    obtain ⟨rfl, rfl⟩ := h
    exact AddsAuthentic.refl _
  | item :: rest =>
    rw [dehydrateItems] at h
    obtain ⟨⟨first, reference⟩, hfirst, hothers⟩ := bind_eq_ok.1 h
    obtain ⟨⟨all, others⟩, hrest, hall⟩ := bind_eq_ok.1 hothers
    have heq : (all, reference :: others) = (more, references) := Except.ok.inj hall
    rw [Prod.mk.injEq] at heq
    obtain ⟨rfl, rfl⟩ := heq
    exact (dehydrateFact_authentic item hfirst).trans (dehydrateItems_authentic rest hrest)

end

theorem isAuthentic_of_dehydrateFact {document : Json} {records : List Record} {root : Reference}
    (h : dehydrateFact [] document = .ok (records, root)) :
    ∀ record ∈ records, record.IsAuthentic := by
  intro record hrecord
  exact (dehydrateFact_authentic document h record hrecord).resolve_left (by simp)

theorem dehydrate_eq_ok {document : Json} {records : List Record} :
    dehydrate document = .ok records ↔ ∃ root, dehydrateFact [] document = .ok (records, root) := by
  rw [dehydrate, map_eq_ok]
  constructor
  · rintro ⟨⟨same, root⟩, hrecords, rfl⟩
    exact ⟨root, hrecords⟩
  · rintro ⟨root, hrecords⟩
    exact ⟨(records, root), hrecords, rfl⟩

theorem dehydrate_of_error {document : Json} {fault : DocumentFault}
    (h : dehydrateFact [] document = .error fault) : dehydrate document = .error fault := by
  rw [dehydrate, h]
  rfl

theorem Progress.finish_ne_nil (progress : Progress) (type : String) :
    (progress.finish type).1 ≠ [] := by
  rw [finish]
  split
  · next hthere =>
    obtain ⟨record, hrecord, -⟩ := List.any_eq_true.1 hthere
    exact List.ne_nil_of_mem hrecord
  · exact List.append_ne_nil_of_right_ne_nil _ (List.cons_ne_nil _ _)

theorem exists_last_of_dehydrateFact {document : Json} {records : List Record} {root : Reference}
    (h : dehydrateFact [] document = .ok (records, root)) :
    ∃ last, records.getLast? = some last := by
  cases document with
  | object members =>
    rw [dehydrateFact] at h
    split at h
    · cases h
    · next type _ =>
      obtain ⟨progress, -, hfinish⟩ := bind_eq_ok.1 h
      have hrecords : (progress.finish type).1 = records :=
        congrArg Prod.fst (Except.ok.inj hfinish)
      have hsome := progress.finish_ne_nil type
      rw [hrecords] at hsome
      exact ⟨records.getLast hsome, List.getLast?_eq_some_getLast hsome⟩
  | null | bool _ | int _ | float _ | string _ | array _ => cases h

end Document

end LiveFacts
