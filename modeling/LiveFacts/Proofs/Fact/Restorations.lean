import LiveFacts.Proofs.Fact.Descriptions
import LiveFacts.Proofs.Fact.Hydration

/-!
# Documents put together from records that came from elsewhere

A document can be put together from the records of a fact and of all that it rests on exactly if
none of these facts rests on itself. If documents can describe all of these records, the document
describes the fact, and these facts are the facts in it. If they cannot describe one of them, it
describes another fact, or none.
-/

namespace LiveFacts.Document

/-- A fact and the document put together for it in some number of levels. -/
def Restores (find? : Reference → Option Record) (depth : Nat) (fact : Reference)
    (document : Json) : Prop :=
  hydrateFrom find? depth fact = .ok document

variable {find? : Reference → Option Record} {depth : Nat} {fact : Reference} {document : Json}
  {record : Record}

theorem hydrateRole_eq_ok {entry : String × Predecessors} {member : String × Json} :
    hydrateRole find? depth entry = .ok member ↔
      entry.1 = member.1 ∧ Fills (Restores find? depth) entry.2 member.2 := by
  obtain ⟨role, named⟩ := entry
  obtain ⟨key, value⟩ := member
  cases named with
  | one fact =>
    rw [hydrateRole, bind_eq_ok]
    simp [Fills, Restores, pure, Except.pure, and_comm]
  | many facts =>
    rw [hydrateRole, bind_eq_ok]
    simp only [pure, Except.pure, Except.ok.injEq, Prod.mk.injEq, mapM_eq_ok_iff_forall₂]
    constructor
    · rintro ⟨items, hitems, hrole, rfl⟩
      exact ⟨hrole, hitems⟩
    · rintro ⟨hrole, hfills⟩
      cases value with
      | array items => exact ⟨items, hfills, hrole, rfl⟩
      | null | bool _ | int _ | float _ | string _ | object _ => cases hfills

theorem hydrateFrom_eq_ok (hfind : find? fact = some record) :
    hydrateFrom find? (depth + 1) fact = .ok document ↔
      ∃ roles, FillsAll (Restores find? depth) record.predecessors roles ∧
        .object (record.members roles) = document := by
  rw [hydrateFrom_succ hfind, map_eq_ok]
  simp only [mapM_eq_ok_iff_forall₂, hydrateRole_eq_ok]
  rfl

/-- What holds of a document when it holds of those of the facts that it was put together from holds
of every document put together. -/
theorem restores_induction {P : Reference → Json → Prop}
    (hstep : ∀ fact record roles, find? fact = some record →
      FillsAll P record.predecessors roles → P fact (.object (record.members roles)))
    (h : hydrateFrom find? depth fact = .ok document) : P fact document := by
  induction depth generalizing fact document with
  | zero => cases h
  | succ depth ih =>
    cases hfind : find? fact with
    | none =>
      rw [hydrateFrom, hfind] at h
      cases h
    | some record =>
      obtain ⟨roles, hroles, rfl⟩ := (hydrateFrom_eq_ok hfind).1 h
      exact hstep fact record roles hfind (hroles.imp fun _ _ => ih)

/-- Records in order that are found under the references of their own contents, with the links
between them. -/
structure IsArchive (links : Links) (find? : Reference → Option Record) : Prop where
  reference : ∀ fact record, find? fact = some record → record.reference = fact
  authentic : ∀ fact record, find? fact = some record → record.IsAuthentic
  ordered : ∀ fact record, find? fact = some record → record.IsOrdered
  names : ∀ fact record, find? fact = some record → ∀ named,
    links.Names fact named ↔ named ∈ record.named

namespace IsArchive

variable {links : Links}

theorem isOrdered (h : IsArchive links find?)
    (hdocument : hydrateFrom find? depth fact = .ok document) : document.isOrdered = true := by
  refine restores_induction (P := fun _ document => document.isOrdered = true) ?_ hdocument
  intro fact record roles hfind hroles
  have hrecord := h.ordered fact record hfind
  rw [Json.isOrdered, Bool.and_eq_true, decide_eq_true_eq]
  refine ⟨record.isSorted_members roles, ?_⟩
  apply Json.membersOrdered_insertAll
  · exact Json.membersOrdered_insertAll rfl hrecord.values
  · rw [Json.membersOrdered_eq, List.all_eq_true]
    intro member hmember
    obtain ⟨⟨role, named⟩, -, -, hfills⟩ := exists_of_forall₂ hroles.flip hmember
    obtain ⟨key, value⟩ := member
    cases named with
    | one fact => exact hfills
    | many facts =>
      cases value with
      | array items =>
        rw [Json.isOrdered, Json.itemsOrdered_eq, List.all_eq_true]
        intro item hitem
        obtain ⟨-, -, hordered⟩ := exists_of_forall₂ (List.Forall₂.flip hfills) hitem
        exact hordered
      | null | bool _ | int _ | float _ | string _ | object _ => cases hfills

/-- From records that documents can describe comes a document of the fact, with the records of all
facts in it among them. -/
theorem standsFor (h : IsArchive links find?)
    (hall : ∀ fact record, find? fact = some record → record.IsDescribable)
    (hdocument : hydrateFrom find? depth fact = .ok document) :
    StandsFor fact document ∧
      ∀ part ∈ facts document, find? (recordOf part).reference = some (recordOf part) := by
  refine restores_induction (P := fun fact document => StandsFor fact document ∧
    ∀ part ∈ facts document, find? (recordOf part).reference = some (recordOf part)) ?_ hdocument
  intro fact record roles hfind hroles
  have hreference := h.reference fact record hfind
  obtain ⟨haccepted, hrecord, hnested⟩ := recordOf_members (h.authentic fact record hfind)
    (h.ordered fact record hfind) (hall fact record hfind) (hroles.imp fun _ _ => And.left)
  have hsame : (recordOf (.object (record.members roles))).reference = fact := by
    rw [hrecord, hreference]
  refine ⟨⟨haccepted, hsame⟩, fun part hpart => ?_⟩
  rw [facts_eq haccepted, hnested, List.mem_append, List.mem_singleton] at hpart
  rcases hpart with hbelow | rfl
  · obtain ⟨child, hchild, hpart⟩ := List.mem_flatMap.1 hbelow
    obtain ⟨member, hmember, hhead⟩ := List.mem_flatMap.1 hchild
    obtain ⟨entry, -, -, hfills⟩ := exists_of_forall₂ hroles.flip hmember
    obtain ⟨named, -, hparts⟩ := hfills.exists_of_head (fun _ _ hstands => hstands.1.1) hhead
    exact hparts part hpart
  · rw [hrecord, hreference]
    exact hfind

/-- A document put together from records that documents can describe has the reference of the fact. -/
theorem referenceOf_eq (h : IsArchive links find?)
    (hall : ∀ fact record, find? fact = some record → record.IsDescribable)
    (hdocument : hydrateFrom find? depth fact = .ok document) :
    referenceOf document = .ok fact := by
  obtain ⟨⟨haccepted, hreference⟩, hparts⟩ := h.standsFor hall hdocument
  have hroot := referenceOf_eq_of_content haccepted (h.isOrdered hdocument) fun x hx y hy heq => by
    have hsame := (hparts x hx).symm.trans ((congrArg find? heq).trans (hparts y hy))
    rw [contentOf, contentOf, Option.some.inj hsame]
  rw [hroot, hreference]

/-- What a fact names stands nested in a document that was put together from its record and has the
same content. -/
theorem exists_nested {roles : Keyed Json} {P : Reference → Json → Prop}
    (hordered : record.IsOrdered) (hroles : FillsAll P record.predecessors roles)
    (haccepted : isAccepted (.object (record.members roles)) = true)
    (hnamed : (recordOf (.object (record.members roles))).predecessors = record.predecessors)
    {named : Reference} (hmem : named ∈ record.named) :
    ∃ child ∈ nested (.object (record.members roles)), P named child ∧ StandsFor named child := by
  obtain ⟨_, type, hsame, htype, hmembers⟩ := exists_members_of_isAccepted haccepted
  cases hsame
  rw [recordOf_object htype, Record.ofContent, namedBy_eq] at hnamed
  obtain ⟨entry, hentry, hfact, member, hmember, hkey, hfills⟩ := hroles.exists_of_named hmem
  have hkeys : (roles.map Prod.fst).Nodup := by
    rw [hroles.keys_eq]
    exact hordered.isKeyed
  -- the role that is read under the key of the entry is the value that was put there
  rw [← hnamed] at hentry
  obtain ⟨read, hread, rfl⟩ := List.mem_map.1 hentry
  have heq : read = member := eq_of_key_eq (record.isSorted_members roles)
    (List.mem_of_mem_filter hread) (Keyed.mem_insertAll hkeys hmember) hkey
  subst heq
  obtain ⟨child, hchild, hstands⟩ := hfills.exists_standsFor hmembers hread rfl hfact
  exact ⟨child, List.mem_flatMap.2 ⟨read, hread, hchild⟩, hstands⟩

/-- Where no two of the byte strings hashed collide, the document describes the fact only if
documents can describe the records of all that it rests on. -/
theorem isDescribable_of_standsFor (h : IsArchive links find?) {strings : List (List UInt8)}
    (hfree : Sha256.CollisionFree strings)
    (hrecords : ∀ fact record, find? fact = some record → record.bytes ∈ strings)
    (hdocument : hydrateFrom find? depth fact = .ok document) (hstands : StandsFor fact document)
    (hparts : ∀ part ∈ facts document, contentOf part ∈ strings) {rested : Reference}
    (hrests : links.RestsOn fact rested) {record : Record} (hfind : find? rested = some record) :
    record.IsDescribable := by
  refine restores_induction (P := fun fact document => StandsFor fact document →
    (∀ part ∈ facts document, contentOf part ∈ strings) → ∀ rested, links.RestsOn fact rested →
      ∀ record, find? rested = some record → record.IsDescribable) ?_ hdocument hstands hparts
    rested hrests record hfind
  intro fact top roles hfind hroles hstands hparts rested hrests record hrecord
  obtain ⟨haccepted, hreference⟩ := hstands
  have htop := h.reference fact top hfind
  have hbytes : (recordOf (.object (top.members roles))).bytes = top.bytes := by
    apply (isAuthentic_recordOf _).bytes_eq (h.authentic fact top hfind) hfree
    · exact hparts _ (mem_facts_self haccepted)
    · exact hrecords fact top hfind
    · rw [hreference, htop]
  rcases Relation.ReflTransGen.cases_head hrests with rfl | ⟨named, hnames, hbelow⟩
  · rw [hfind, Option.some.injEq] at hrecord
    rw [← hrecord]
    exact (isDescribable_recordOf (top.isSorted_members roles) haccepted).of_bytes_eq hbytes
  · have hmem := (h.names fact top hfind named).1 hnames
    have hsame := (Record.content_eq_iff.1 hbytes).2.2
    obtain ⟨child, hchild, hbelow', hstands⟩ :=
      exists_nested (h.ordered fact top hfind) hroles haccepted hsame hmem
    have hfacts := facts_sublist haccepted (mem_facts_of_mem_nested haccepted hchild)
    exact hbelow' hstands (fun part hpart => hparts part (hfacts.subset hpart)) rested hbelow
      record hrecord

end IsArchive

namespace IsArchive

variable {links : Links}

/-- A document is put together only of facts that do not rest on themselves. -/
theorem isAcyclicBelow (h : IsArchive links find?)
    (hdocument : hydrateFrom find? depth fact = .ok document) : links.IsAcyclicBelow fact := by
  refine restores_induction (P := fun fact _ => links.IsAcyclicBelow fact) ?_ hdocument
  intro fact record roles hfind hroles other named hrests hnames hback
  have hbelow : ∀ below, links.Names fact below → links.IsAcyclicBelow below := by
    intro below hbelow
    obtain ⟨entry, -, hmem, member, -, -, hfills⟩ :=
      hroles.exists_of_named ((h.names fact record hfind below).1 hbelow)
    obtain ⟨_, hacyclic⟩ := hfills.exists_of_mem hmem
    exact hacyclic
  rcases Relation.ReflTransGen.cases_head hrests with rfl | ⟨below, hfirst, hrest⟩
  · -- the circle comes back to the fact by way of what it names, which has no circle below it
    exact hbelow named hnames fact named hback hnames hback
  · exact hbelow below hfirst other named hrest hnames hback

end IsArchive

open Classical in
noncomputable def restedOn (links : Links) (known : Finset Reference) (fact : Reference) :
    Finset Reference :=
  known.filter (links.RestsOn fact)

theorem mem_restedOn {links : Links} {known : Finset Reference} {rested : Reference} :
    rested ∈ restedOn links known fact ↔ rested ∈ known ∧ links.RestsOn fact rested := by
  simp [restedOn]

theorem card_restedOn_lt {links : Links} {known : Finset Reference} {named : Reference}
    (hacyclic : links.IsAcyclicBelow fact) (hfact : fact ∈ known) (hnames : links.Names fact named) :
    (restedOn links known named).card < (restedOn links known fact).card := by
  apply Finset.card_lt_card
  refine (Finset.ssubset_iff_of_subset fun rested hrested => ?_).2 ⟨fact, ?_, fun hback => ?_⟩
  · obtain ⟨hknown, hrests⟩ := mem_restedOn.1 hrested
    exact mem_restedOn.2 ⟨hknown, hrests.head hnames⟩
  · exact mem_restedOn.2 ⟨hfact, .refl⟩
  · exact hacyclic fact named .refl hnames (mem_restedOn.1 hback).2

theorem exists_hydrateFrom_succ (hfind : find? fact = some record)
    (h : ∀ named ∈ record.named, ∃ document, hydrateFrom find? depth named = .ok document) :
    ∃ document, hydrateFrom find? (depth + 1) fact = .ok document := by
  have hrole : ∀ entry ∈ record.predecessors, ∃ member,
      hydrateRole find? depth entry = .ok member := by
    intro entry hentry
    have hbelow : ∀ named ∈ entry.2.toList, ∃ document,
        hydrateFrom find? depth named = .ok document := fun named hnamed =>
      h named (List.mem_flatMap.2 ⟨entry, hentry, hnamed⟩)
    obtain ⟨role, named⟩ := entry
    cases named with
    | one only =>
      obtain ⟨value, hvalue⟩ := hbelow only (List.mem_singleton_self only)
      exact ⟨(role, value), hydrateRole_eq_ok.2 ⟨rfl, hvalue⟩⟩
    | many facts =>
      obtain ⟨items, hitems⟩ := mapM_isOk_iff.2 hbelow
      exact ⟨(role, .array items),
        hydrateRole_eq_ok.2 ⟨rfl, mapM_eq_ok_iff_forall₂.1 hitems⟩⟩
  obtain ⟨named, hnamed⟩ := mapM_isOk_iff.2 hrole
  rw [hydrateFrom_succ hfind, hnamed]
  exact ⟨_, rfl⟩

namespace IsArchive

variable {links : Links}

/-- A fact with all that it rests on, none of it in a circle, gives a document in as many levels as
it rests on facts. -/
theorem exists_hydrateFrom (h : IsArchive links find?) {known : Finset Reference}
    (hfound : ∀ rested, links.RestsOn fact rested →
      rested ∈ known ∧ ∃ record, find? rested = some record)
    (hacyclic : links.IsAcyclicBelow fact)
    (hdepth : (restedOn links known fact).card ≤ depth) :
    ∃ document, hydrateFrom find? depth fact = .ok document := by
  induction depth generalizing fact with
  | zero =>
    have hself : fact ∈ restedOn links known fact := mem_restedOn.2 ⟨(hfound fact .refl).1, .refl⟩
    have hpos := Finset.card_pos.2 ⟨fact, hself⟩
    omega
  | succ depth ih =>
    obtain ⟨hknown, record, hfind⟩ := hfound fact .refl
    refine exists_hydrateFrom_succ hfind fun named hnamed => ?_
    have hnames := (h.names fact record hfind named).2 hnamed
    have hless := card_restedOn_lt hacyclic hknown hnames
    apply ih
    · exact fun rested hrests => hfound rested (hrests.head hnames)
    · exact hacyclic.of_restsOn (.single hnames)
    · omega

end IsArchive

end LiveFacts.Document
