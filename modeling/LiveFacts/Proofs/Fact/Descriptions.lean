import LiveFacts.Fact.Json
import LiveFacts.Proofs.Fact.Identity

/-!
# Records that documents can describe

A record that comes from elsewhere may have a content that no document has: a field that passes for
the type or for a predecessor, a field and a role of one name, or a role without facts. A record
without any of these is that of the document put together from its type, its fields and the
documents of the facts that it names, and a record with one of them is that of no document.
-/

namespace LiveFacts

open Json (MemberAlike)

namespace Record

structure IsOrdered (record : Record) : Prop where
  fields : record.fields.IsSorted
  values : Json.membersOrdered record.fields = true
  roles : record.predecessors.IsSorted

instance (record : Record) : Decidable record.IsOrdered :=
  decidable_of_iff (record.fields.IsSorted ∧ Json.membersOrdered record.fields = true ∧
      record.predecessors.IsSorted)
    ⟨fun ⟨hfields, hvalues, hroles⟩ => ⟨hfields, hvalues, hroles⟩,
      fun h => ⟨h.fields, h.values, h.roles⟩⟩

theorem IsOrdered.isKeyed {record : Record} (h : record.IsOrdered) : record.IsKeyed :=
  h.roles.nodup

/-- No field passes for the type or for a predecessor, no field stands where a predecessor belongs,
and no predecessor passes for the type or is an empty list. -/
structure IsDescribable (record : Record) : Prop where
  field : ∀ member ∈ record.fields, member.1 ≠ "type" ∧ Document.isRole member = false
  apart : ∀ member ∈ record.fields, member.1 ∉ record.predecessors.map Prod.fst
  role : ∀ entry ∈ record.predecessors, entry.1 ≠ "type" ∧ entry.2.toList ≠ []

instance (record : Record) : Decidable record.IsDescribable :=
  decidable_of_iff
    ((∀ member ∈ record.fields, member.1 ≠ "type" ∧ Document.isRole member = false) ∧
      (∀ member ∈ record.fields, member.1 ∉ record.predecessors.map Prod.fst) ∧
      ∀ entry ∈ record.predecessors, entry.1 ≠ "type" ∧ entry.2.toList ≠ [])
    ⟨fun ⟨hfield, hapart, hrole⟩ => ⟨hfield, hapart, hrole⟩, fun h => ⟨h.field, h.apart, h.role⟩⟩

/-- Whether a document can describe a record depends on its content alone. -/
theorem IsDescribable.of_bytes_eq {a b : Record} (h : a.IsDescribable) (heq : a.bytes = b.bytes) :
    b.IsDescribable := by
  obtain ⟨-, hfields, hnamed⟩ := content_eq_iff.1 heq
  have halike := (Json.membersAlike_iff.1 hfields).flip
  refine ⟨fun member hmember => ?_, fun member hmember => ?_, hnamed ▸ h.role⟩
  · obtain ⟨other, hother, hsame⟩ := exists_of_forall₂ halike hmember
    rw [← hsame.1, ← Document.isRole_eq_of_alike hsame]
    exact h.field other hother
  · obtain ⟨other, hother, hsame⟩ := exists_of_forall₂ halike hmember
    rw [← hsame.1, ← hnamed]
    exact h.apart other hother

end Record

namespace Document

variable {members roles : Keyed Json} {document : Json} {record : Record}

theorem isSorted_of_isOrdered (h : (Json.object members).isOrdered = true) : members.IsSorted := by
  rw [Json.isOrdered, Bool.and_eq_true, decide_eq_true_eq] at h
  exact h.1

theorem eq_of_key_eq (h : members.IsSorted) {a b : String × Json} (ha : a ∈ members)
    (hb : b ∈ members) (hkey : a.1 = b.1) : a = b :=
  List.inj_on_of_nodup_map h.nodup ha hb hkey

theorem isOrdered_recordOf (haccepted : isAccepted document = true)
    (horder : document.isOrdered = true) : (recordOf document).IsOrdered := by
  obtain ⟨members, type, rfl, htype, -⟩ := exists_members_of_isAccepted haccepted
  have hsorted := isSorted_of_isOrdered horder
  rw [Json.isOrdered, Bool.and_eq_true, Json.membersOrdered_eq, List.all_eq_true] at horder
  rw [recordOf_object htype]
  refine ⟨List.Pairwise.filter _ hsorted, ?_, ?_⟩
  · rw [Json.membersOrdered_eq, List.all_eq_true]
    exact fun member hmember => horder.2 member (List.mem_of_mem_filter hmember)
  · have hroles : Keyed.IsSorted (rolesOf members) := List.Pairwise.filter _ hsorted
    apply hroles.of_keys_eq
    rw [Record.ofContent, namedBy_eq, List.map_map]
    rfl

/-- What stands under a role names some fact. -/
theorem toList_namedIn_ne_nil (h : membersAccepted members = true) {member : String × Json}
    (hrole : member ∈ rolesOf members) : (namedIn member.2).toList ≠ [] := by
  obtain ⟨key, value⟩ := member
  rcases role_cases h hrole with ⟨hvalue, -⟩ | ⟨items, rfl, -⟩
  · obtain ⟨inner, -, rfl, -⟩ := exists_members_of_isAccepted hvalue
    exact List.cons_ne_nil _ _
  · have hany := (List.mem_filter.1 hrole).2
    rw [isRole, Bool.and_eq_true, List.any_eq_true] at hany
    obtain ⟨item, hitem, -⟩ := hany.2
    rw [namedIn, referencesIn_eq, Predecessors.toList_many]
    exact List.ne_nil_of_mem (List.mem_map_of_mem hitem)

/-- The record of a document is one that documents can describe. -/
theorem isDescribable_recordOf (hsorted : members.IsSorted)
    (haccepted : isAccepted (.object members) = true) :
    (recordOf (.object members)).IsDescribable := by
  obtain ⟨_, type, hsame, htype, hmembers⟩ := exists_members_of_isAccepted haccepted
  cases hsame
  rw [recordOf_object htype]
  refine ⟨fun member hmember => ?_, fun member hmember hkey => ?_, fun entry hentry => ?_⟩
  · simpa using (List.mem_filter.1 hmember).2
  · -- a field and a role of one key would be the same member
    rw [Record.ofContent, namedBy_eq, List.map_map] at hkey
    obtain ⟨other, hother, hsame⟩ := List.mem_map.1 hkey
    have heq := eq_of_key_eq hsorted (List.mem_of_mem_filter hother)
      (List.mem_of_mem_filter hmember) hsame
    have hfield := (List.mem_filter.1 hmember).2
    rw [← heq, (List.mem_filter.1 hother).2] at hfield
    simp at hfield
  · rw [Record.ofContent, namedBy_eq] at hentry
    obtain ⟨member, hrole, rfl⟩ := List.mem_map.1 hentry
    have hkey := (List.mem_filter.1 hrole).2
    rw [isRole, Bool.and_eq_true, decide_eq_true_eq] at hkey
    exact ⟨hkey.1, toList_namedIn_ne_nil hmembers hrole⟩

end Document

namespace Json

theorem isOrdered_of_find? {members : Keyed Json} (h : membersOrdered members = true)
    {key : String} {value : Json} (hfind : members.find? key = some value) :
    value.isOrdered = true := by
  obtain ⟨before, after, rfl, -⟩ := List.lookup_eq_some_iff.1 hfind
  rw [membersOrdered_eq, List.all_eq_true] at h
  exact h _ (List.mem_append_right _ List.mem_cons_self)

theorem isOrdered_of_fields? {names : List String} {value : Json} (h : value.isOrdered = true)
    {values : List Json} (hvalues : value.fields? names = some values) :
    ∀ part ∈ values, part.isOrdered = true := by
  cases value with
  | object members =>
    rw [isOrdered, Bool.and_eq_true] at h
    rw [fields?] at hvalues
    induction names generalizing values with
    | nil =>
      cases hvalues
      simp
    | cons name rest ih =>
      obtain ⟨first, others, hfirst, hothers, rfl⟩ := mapM_cons_eq_some.1 hvalues
      exact List.forall_mem_cons.2 ⟨isOrdered_of_find? h.2 hfirst, ih hothers⟩
  | array items =>
    rw [isOrdered, itemsOrdered_eq, List.all_eq_true] at h
    rw [fields?] at hvalues
    split at hvalues
    · rwa [← Option.some.inj hvalues]
    · cases hvalues
  | null | bool _ | int _ | float _ | string _ => cases hvalues

end Json

namespace Record

theorem keys_of_predecessorsOfJson? {members : Keyed Json} {named : Keyed Predecessors}
    (h : predecessorsOfJson? (.object members) = some named) :
    named.map Prod.fst = members.map Prod.fst := by
  rw [predecessorsOfJson?, Json.object?, Option.bind_eq_bind, Option.bind_some] at h
  induction members generalizing named with
  | nil =>
    cases h
    rfl
  | cons member rest ih =>
    obtain ⟨first, others, hfirst, hothers, rfl⟩ := mapM_cons_eq_some.1 h
    obtain ⟨predecessors, -, hsame⟩ := Option.bind_eq_some_iff.1 hfirst
    cases hsame
    rw [List.map_cons, List.map_cons, ih hothers]

/-- A record that was read is in order. -/
theorem isOrdered_of_ofJson? {value : Json} (h : value.isOrdered = true) {record : Record}
    (hrecord : ofJson? value = some record) : record.IsOrdered := by
  rw [ofJson?] at hrecord
  split at hrecord
  · next type hash fields predecessors hvalues =>
    have hparts := Json.isOrdered_of_fields? h hvalues
    obtain ⟨named, hnamed, hsame⟩ := Option.bind_eq_some_iff.1 hrecord
    cases hsame
    have hfields := hparts (.object fields) (by simp)
    rw [Json.isOrdered, Bool.and_eq_true, decide_eq_true_eq] at hfields
    refine ⟨hfields.1, hfields.2, ?_⟩
    cases predecessors with
    | object members =>
      have hmembers := Document.isSorted_of_isOrdered (hparts (.object members) (by simp))
      exact hmembers.of_keys_eq (keys_of_predecessorsOfJson? hnamed)
    | null | bool _ | int _ | float _ | string _ | array _ => cases hnamed
  · cases hrecord

end Record

namespace Record

def members (record : Record) (roles : Keyed Json) : Keyed Json :=
  (Keyed.insertAll [("type", .string record.type)] record.fields).insertAll roles

theorem isSorted_members (record : Record) (roles : Keyed Json) :
    (record.members roles).IsSorted :=
  Keyed.isSorted_insertAll (Keyed.isSorted_insertAll (List.pairwise_singleton _ _))

variable {record : Record} {roles : Keyed Json}

theorem members_perm (hordered : record.IsOrdered) (h : record.IsDescribable)
    (hkeys : roles.map Prod.fst = record.predecessors.map Prod.fst) :
    (record.members roles).Perm (("type", .string record.type) :: (record.fields ++ roles)) := by
  rw [members, ← Keyed.insertAll_append]
  apply Keyed.insertAll_perm
  rw [List.singleton_append, List.map_cons, List.map_append, hkeys, List.nodup_cons,
    List.nodup_append, List.mem_append, not_or]
  refine ⟨⟨fun hfield => ?_, fun hrole => ?_⟩, hordered.fields.nodup, hordered.roles.nodup, ?_⟩
  · obtain ⟨member, hmember, hkey⟩ := List.mem_map.1 hfield
    exact (h.field member hmember).1 hkey
  · obtain ⟨entry, hentry, hkey⟩ := List.mem_map.1 hrole
    exact (h.role entry hentry).1 hkey
  · intro key hfield other hrole heq
    obtain ⟨member, hmember, rfl⟩ := List.mem_map.1 hfield
    exact h.apart member hmember (heq ▸ hrole)

/-- The document of a record that documents can describe has its type, its fields and its roles. -/
theorem parts_members (hordered : record.IsOrdered) (h : record.IsDescribable)
    (hkeys : roles.map Prod.fst = record.predecessors.map Prod.fst)
    (hroles : ∀ member ∈ roles, Document.isRole member = true) :
    Document.type? (record.members roles) = some record.type ∧
      Document.fieldsOf (record.members roles) = record.fields ∧
      Document.rolesOf (record.members roles) = roles := by
  have hperm := members_perm hordered h hkeys
  have hsorted := isSorted_members record roles
  refine ⟨?_, ?_, ?_⟩
  · have hfind := (Keyed.find?_eq_some_iff hsorted.nodup).2 (hperm.mem_iff.2 List.mem_cons_self)
    rw [Document.type?, hfind]
    rfl
  · apply Keyed.IsSorted.eq_of_perm (List.Pairwise.filter _ hsorted) hordered.fields
    have hfields : record.fields.filter
        (fun member => member.1 ≠ "type" && !Document.isRole member) = record.fields := by
      refine List.filter_eq_self.2 fun member hmember => ?_
      simpa using h.field member hmember
    have hnone : roles.filter
        (fun member => member.1 ≠ "type" && !Document.isRole member) = [] := by
      refine List.filter_eq_nil_iff.2 fun member hmember => ?_
      simp [hroles member hmember]
    refine (hperm.filter _).trans (List.Perm.of_eq ?_)
    rw [List.filter_cons_of_neg (by simp), List.filter_append, hfields, hnone, List.append_nil]
  · apply Keyed.IsSorted.eq_of_perm (List.Pairwise.filter _ hsorted)
      (hordered.roles.of_keys_eq hkeys)
    have hnone : record.fields.filter Document.isRole = [] := by
      refine List.filter_eq_nil_iff.2 fun member hmember => ?_
      simp [(h.field member hmember).2]
    refine (hperm.filter _).trans (List.Perm.of_eq ?_)
    rw [List.filter_cons_of_neg (by simp), List.filter_append, hnone, List.nil_append,
      List.filter_eq_self.2 hroles]

end Record

namespace Document

def StandsFor (fact : Reference) (document : Json) : Prop :=
  isAccepted document = true ∧ (recordOf document).reference = fact

/-- A value under a role that names one fact or a list of facts, given which values may stand for
which facts. -/
def Fills (stands : Reference → Json → Prop) : Predecessors → Json → Prop
  | .one fact, value => stands fact value
  | .many facts, .array items => List.Forall₂ stands facts items
  | .many _, _ => False

def FillsAll (stands : Reference → Json → Prop) (named : Keyed Predecessors)
    (roles : Keyed Json) : Prop :=
  List.Forall₂ (fun entry member => entry.1 = member.1 ∧ Fills stands entry.2 member.2) named roles

variable {P Q : Reference → Json → Prop} {named : Predecessors} {value : Json}
  {entries : Keyed Predecessors} {members roles : Keyed Json} {record : Record}

theorem Fills.imp (himp : ∀ fact document, P fact document → Q fact document)
    (h : Fills P named value) : Fills Q named value := by
  cases named with
  | one fact => exact himp fact value h
  | many facts =>
    cases value with
    | array items => exact List.Forall₂.imp himp h
    | null | bool _ | int _ | float _ | string _ | object _ => exact h

theorem FillsAll.imp (himp : ∀ fact document, P fact document → Q fact document)
    (h : FillsAll P entries roles) : FillsAll Q entries roles :=
  List.Forall₂.imp (fun _ _ hfills => ⟨hfills.1, hfills.2.imp himp⟩) h

theorem Fills.exists_of_mem (h : Fills P named value) {fact : Reference}
    (hfact : fact ∈ named.toList) : ∃ document, P fact document := by
  cases named with
  | one only =>
    rw [Predecessors.toList_one, List.mem_singleton] at hfact
    exact ⟨value, hfact ▸ h⟩
  | many facts =>
    cases value with
    | array items =>
      obtain ⟨item, -, hitem⟩ := exists_of_forall₂ h hfact
      exact ⟨item, hitem⟩
    | null | bool _ | int _ | float _ | string _ | object _ => cases h

/-- Each of the values under a role, given that only documents stand for facts. -/
theorem Fills.exists_of_head (hobject : ∀ fact document, P fact document → isAccepted document = true)
    (h : Fills P named value) {child : Json} (hchild : child ∈ heads value) :
    ∃ fact, P fact child := by
  cases named with
  | one fact =>
    obtain ⟨inner, -, rfl, -⟩ := exists_members_of_isAccepted (hobject fact value h)
    rw [heads, List.mem_singleton] at hchild
    · exact ⟨fact, hchild ▸ h⟩
    · nofun
  | many facts =>
    cases value with
    | array items =>
      obtain ⟨fact, -, hstands⟩ := exists_of_forall₂ (List.Forall₂.flip h) hchild
      exact ⟨fact, hstands⟩
    | null | bool _ | int _ | float _ | string _ | object _ => cases h

theorem FillsAll.keys_eq (h : FillsAll P entries roles) :
    roles.map Prod.fst = entries.map Prod.fst :=
  map_eq_map_iff_forall₂.2 (h.flip.imp fun _ _ hfills => hfills.1.symm)

theorem FillsAll.exists_of_named (h : FillsAll P record.predecessors roles) {fact : Reference}
    (hfact : fact ∈ record.named) : ∃ entry ∈ record.predecessors, fact ∈ entry.2.toList ∧
      ∃ member ∈ roles, entry.1 = member.1 ∧ Fills P entry.2 member.2 := by
  obtain ⟨entry, hentry, hmem⟩ := List.mem_flatMap.1 hfact
  obtain ⟨member, hmember, hfills⟩ := exists_of_forall₂ h hentry
  exact ⟨entry, hentry, hmem, member, hmember, hfills⟩

/-- Values that stand for facts are read as a role that names these facts. -/
theorem Fills.namedIn_eq (h : Fills StandsFor named value) (hsome : named.toList ≠ [])
    {key : String} (hkey : key ≠ "type") :
    isRole (key, value) = true ∧ roleAccepted value = true ∧ namedIn value = named := by
  cases named with
  | one fact =>
    obtain ⟨haccepted, hreference⟩ : StandsFor fact value := h
    have hfact := isFact_of_isAccepted haccepted
    obtain ⟨inner, -, rfl, -, hinner⟩ := exists_members_of_isAccepted haccepted
    refine ⟨by simp [isRole, hkey, hfact], hinner, ?_⟩
    rw [namedIn, ← hreference, recordOf]
  | many facts =>
    cases value with
    | array items =>
      have hitems : List.Forall₂ StandsFor facts items := h
      have haccepted : ∀ item ∈ items, isAccepted item = true := by
        intro item hitem
        obtain ⟨fact, -, hstands⟩ := exists_of_forall₂ hitems.flip hitem
        exact hstands.1
      obtain ⟨fact, hfact⟩ := List.exists_mem_of_ne_nil _ hsome
      obtain ⟨first, hfirst, -⟩ := exists_of_forall₂ hitems hfact
      have hany : items.any isFact = true :=
        List.any_eq_true.2 ⟨first, hfirst, isFact_of_isAccepted (haccepted first hfirst)⟩
      refine ⟨by simp [isRole, hkey, hany], ?_, ?_⟩
      · rw [roleAccepted, itemsAccepted_eq, List.all_eq_true]
        exact haccepted
      · have hmap : items.map (fun item => (recordOf item).reference) = facts.map id :=
          map_eq_map_iff_forall₂.2 (hitems.flip.imp fun _ _ hstands => hstands.2)
        rw [namedIn, referencesIn_eq, hmap, List.map_id]
    | null | bool _ | int _ | float _ | string _ | object _ => cases h

/-- Where a role is read as naming some facts, the values under it stand for them. -/
theorem Fills.exists_standsFor (h : Fills P named value) (hmembers : membersAccepted members = true)
    {key : String} (hrole : (key, value) ∈ rolesOf members) (hnamed : namedIn value = named)
    {fact : Reference} (hfact : fact ∈ named.toList) :
    ∃ document ∈ heads value, P fact document ∧ StandsFor fact document := by
  subst hnamed
  rcases role_cases hmembers hrole with ⟨haccepted, hheads⟩ | ⟨items, rfl, hitems⟩
  · rw [hheads]
    obtain ⟨inner, -, rfl, -⟩ := exists_members_of_isAccepted haccepted
    rw [namedIn, Predecessors.toList_one, List.mem_singleton] at hfact
    rw [namedIn, ← hfact] at h
    refine ⟨_, List.mem_singleton_self _, h, haccepted, ?_⟩
    rw [hfact, recordOf]
  · rw [namedIn, referencesIn_eq] at h hfact
    obtain ⟨item, hitem, rfl⟩ := List.mem_map.1 hfact
    have hall := List.forall₂_same.1 (List.forall₂_map_left_iff.1 h)
    exact ⟨item, hitem, hall item hitem, hitems item hitem, rfl⟩

/-- A record that documents can describe is that of the document put together from it and from
documents for the facts that it names. -/
theorem recordOf_members (hauthentic : record.IsAuthentic) (hordered : record.IsOrdered)
    (h : record.IsDescribable) (hroles : FillsAll StandsFor record.predecessors roles) :
    isAccepted (.object (record.members roles)) = true ∧
      recordOf (.object (record.members roles)) = record ∧
      nested (.object (record.members roles)) = roles.flatMap fun member => heads member.2 := by
  have hread : ∀ member ∈ roles, ∃ entry ∈ record.predecessors, entry.1 = member.1 ∧
      isRole member = true ∧ roleAccepted member.2 = true ∧ namedIn member.2 = entry.2 := by
    intro member hmember
    obtain ⟨entry, hentry, hkey, hfills⟩ := exists_of_forall₂ hroles.flip hmember
    obtain ⟨hname, hsome⟩ := h.role entry hentry
    exact ⟨entry, hentry, hkey, hfills.namedIn_eq hsome (hkey ▸ hname)⟩
  have hisRole : ∀ member ∈ roles, isRole member = true := by
    intro member hmember
    obtain ⟨_, -, -, hrole, -⟩ := hread member hmember
    exact hrole
  obtain ⟨htype, hfields, hrolesOf⟩ := Record.parts_members hordered h hroles.keys_eq hisRole
  refine ⟨?_, ?_, ?_⟩
  · rw [isAccepted, htype, membersAccepted_eq, hrolesOf, Bool.and_eq_true, List.all_eq_true]
    refine ⟨rfl, fun member hmember => ?_⟩
    obtain ⟨_, -, -, -, haccepted, -⟩ := hread member hmember
    exact haccepted
  · have hnamed : (roles.map fun member => (member.1, namedIn member.2)) =
        record.predecessors.map id := by
      apply map_eq_map_iff_forall₂.2
      refine forall₂_imp_of_mem hroles.flip fun member _ entry hentry hfills => ?_
      obtain ⟨hname, hsome⟩ := h.role entry hentry
      exact Prod.ext hfills.1.symm (hfills.2.namedIn_eq hsome hname).2.2
    rw [recordOf_object htype, hfields, namedBy_eq, hrolesOf, hnamed, List.map_id]
    exact hauthentic.eq_ofContent.symm
  · rw [nested, hrolesOf]

end Document

end LiveFacts
