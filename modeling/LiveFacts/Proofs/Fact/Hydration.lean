import LiveFacts.Fact.Hydrate
import LiveFacts.Proofs.Fact.Identity
import Mathlib.Data.Finset.Card

/-!
# Documents put together again

The records of the facts in a document are enough to put the document together again, exactly as
it was.
-/

namespace LiveFacts.Document

def referencesOf (document : Json) : Finset Reference :=
  ((facts document).map fun fact => (recordOf fact).reference).toFinset

theorem mem_referencesOf {document : Json} {reference : Reference} :
    reference ∈ referencesOf document ↔
      ∃ fact ∈ facts document, (recordOf fact).reference = reference := by
  simp [referencesOf]

def hydrateRole (find? : Reference → Option Record) (depth : Nat) :
    String × Predecessors → Except Error (String × Json)
  | (role, .one fact) => do
    let document ← hydrateFrom find? depth fact
    return (role, document)
  | (role, .many facts) => do
    let documents ← facts.mapM (hydrateFrom find? depth)
    return (role, Json.array documents)

theorem hydrateFrom_succ {find? : Reference → Option Record} {fact : Reference} {record : Record}
    (hfind : find? fact = some record) (depth : Nat) :
    hydrateFrom find? (depth + 1) fact =
      (record.predecessors.mapM (hydrateRole find? depth)).map fun named => .object
        ((Keyed.insertAll [("type", .string record.type)] record.fields).insertAll named) := by
  let build (named : List (String × Json)) : Except Error Json :=
    .ok (.object ((Keyed.insertAll [("type", .string record.type)] record.fields).insertAll named))
  calc hydrateFrom find? (depth + 1) fact
      = record.predecessors.mapM (hydrateRole find? depth) >>= build := by
        rw [hydrateFrom, hfind]
        refine congrArg (fun read => record.predecessors.mapM read >>= build)
          (funext fun entry => ?_)
        obtain ⟨role, named⟩ := entry
        cases named <;> rfl
    _ = _ := by cases record.predecessors.mapM (hydrateRole find? depth) <;> rfl

theorem hydrateRole_eq {members : Keyed Json} (h : membersAccepted members = true)
    {member : String × Json} (hrole : member ∈ rolesOf members)
    {find? : Reference → Option Record} {depth : Nat}
    (hheads : ∀ fact ∈ heads member.2,
      hydrateFrom find? depth (recordOf fact).reference = .ok fact) :
    hydrateRole find? depth (member.1, namedIn member.2) = .ok member := by
  obtain ⟨key, value⟩ := member
  rcases role_cases h hrole with ⟨hvalue, -⟩ | ⟨items, rfl, -⟩
  · obtain ⟨inner, -, rfl, -⟩ := exists_members_of_isAccepted hvalue
    have hread := hheads (.object inner) (List.mem_singleton_self _)
    rw [recordOf] at hread
    rw [namedIn, hydrateRole, hread]
    rfl
  · have hread : (items.map fun item => (recordOf item).reference).mapM
        (hydrateFrom find? depth) = .ok items := mapM_map_eq_ok hheads
    rw [namedIn, hydrateRole, referencesIn_eq, hread]
    rfl

theorem find?_reverse {records : List Record} (hnodup : (records.map Record.reference).Nodup)
    {record : Record} (h : record ∈ records) :
    records.reverse.find? (·.reference = record.reference) = some record := by
  cases hfind : records.reverse.find? (·.reference = record.reference) with
  | none => simpa using List.find?_eq_none.1 hfind record (List.mem_reverse.2 h)
  | some other =>
    have hother := List.mem_reverse.1 (List.mem_of_find?_eq_some hfind)
    have heq : other.reference = record.reference := by simpa using List.find?_some hfind
    rw [List.inj_on_of_nodup_map hnodup hother h heq]

namespace IsCatalog

variable {known : List Json} {document fact : Json}

/-- A fact rests on more facts than each of those that it names. -/
theorem card_referencesOf_lt (h : IsCatalog known) (hdocument : document ∈ known)
    (hfact : fact ∈ Document.nested document) :
    (referencesOf fact).card < (referencesOf document).card := by
  have haccepted := h.accepted document hdocument
  refine Finset.card_lt_card (Finset.ssubset_iff_of_subset ?_ |>.2 ?_)
  · intro reference hreference
    obtain ⟨below, hbelow, heq⟩ := mem_referencesOf.1 hreference
    have hsublist := facts_sublist haccepted (mem_facts_of_mem_nested haccepted hfact)
    exact mem_referencesOf.2 ⟨below, hsublist.subset hbelow, heq⟩
  · refine ⟨(recordOf document).reference,
      mem_referencesOf.2 ⟨document, mem_facts_self haccepted, rfl⟩, fun hmem => ?_⟩
    obtain ⟨below, hbelow, heq⟩ := mem_referencesOf.1 hmem
    exact h.reference_ne_of_below hdocument (List.mem_flatMap.2 ⟨fact, hfact, hbelow⟩) heq

/-- A document is put together from the records of its facts, in no more levels than there are
references in it. -/
theorem hydrateFrom_eq (h : IsCatalog known) (hdocument : document ∈ known)
    {find? : Reference → Option Record}
    (hfind : ∀ fact ∈ facts document, find? (recordOf fact).reference = some (recordOf fact))
    {depth : Nat} (hdepth : (referencesOf document).card ≤ depth) :
    hydrateFrom find? depth (recordOf document).reference = .ok document := by
  refine facts_induction (P := fun document => document ∈ known →
    (∀ fact ∈ facts document, find? (recordOf fact).reference = some (recordOf fact)) →
    ∀ depth, (referencesOf document).card ≤ depth →
      hydrateFrom find? depth (recordOf document).reference = .ok document) ?_ document
    (h.accepted document hdocument) hdocument hfind depth hdepth
  intro document haccepted ih hdocument hfind depth hdepth
  have hself := hfind document (mem_facts_self haccepted)
  have hmem : (recordOf document).reference ∈ referencesOf document :=
    mem_referencesOf.2 ⟨document, mem_facts_self haccepted, rfl⟩
  have hpos : 0 < (referencesOf document).card := Finset.card_pos.2 ⟨_, hmem⟩
  obtain ⟨depth, rfl⟩ : ∃ below, depth = below + 1 := ⟨depth - 1, by omega⟩
  have hbelow : ∀ fact ∈ Document.nested document,
      hydrateFrom find? depth (recordOf fact).reference = .ok fact := by
    intro fact hfact
    have hless := h.card_referencesOf_lt hdocument hfact
    have hsublist := facts_sublist haccepted (mem_facts_of_mem_nested haccepted hfact)
    exact ih fact hfact (h.nested document hdocument fact hfact)
      (fun below hmem => hfind below (hsublist.subset hmem)) depth (by omega)
  have horder := h.ordered document hdocument
  obtain ⟨members, type, rfl, htype, hmembers⟩ := exists_members_of_isAccepted haccepted
  rw [Json.isOrdered, Bool.and_eq_true, decide_eq_true_eq] at horder
  have hnamed : (namedBy members).mapM (hydrateRole find? depth) = .ok (rolesOf members) := by
    rw [namedBy_eq]
    refine mapM_map_eq_ok fun member hrole => hydrateRole_eq hmembers hrole fun fact hfact => ?_
    exact hbelow fact (List.mem_flatMap.2 ⟨member, hrole, hfact⟩)
  rw [hydrateFrom_succ hself, recordOf_object htype]
  simp only [Record.ofContent, hnamed, Except.map, insertAll_members horder.1 htype]

/-- Records that hold those of the facts in a document, and no two of one reference, give the
document. -/
theorem hydrate_eq (h : IsCatalog known) (hdocument : document ∈ known) {records : List Record}
    (hnodup : (records.map Record.reference).Nodup)
    (hrecords : ∀ fact ∈ facts document, recordOf fact ∈ records) :
    hydrate records (recordOf document).reference = .ok document := by
  refine h.hydrateFrom_eq hdocument (fun fact hfact => ?_) ?_
  · exact find?_reverse hnodup (hrecords fact hfact)
  · have hsubset : referencesOf document ⊆ (records.map Record.reference).toFinset := by
      intro reference hreference
      obtain ⟨fact, hfact, rfl⟩ := mem_referencesOf.1 hreference
      exact List.mem_toFinset.2 (List.mem_map_of_mem (hrecords fact hfact))
    calc (referencesOf document).card ≤ (records.map Record.reference).toFinset.card :=
          Finset.card_le_card hsubset
      _ ≤ (records.map Record.reference).length := List.toFinset_card_le _
      _ ≤ records.length + 1 := by rw [List.length_map]; omega

end IsCatalog

end LiveFacts.Document
