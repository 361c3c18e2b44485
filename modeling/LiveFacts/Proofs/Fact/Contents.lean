import LiveFacts.Proofs.Fact.Dehydration
import LiveFacts.Proofs.Json.Orders
import LiveFacts.Proofs.Store.Closures

/-!
# The facts in a document

A document that is accepted is a fact with the facts nested in it, and each of them has a record
that depends on that fact alone. What a document is taken apart into are the records of its facts,
each once, a fact after those nested in it.
-/

namespace LiveFacts

namespace Json

mutual

theorem isKeyed_of_isOrdered (value : Json) (h : value.isOrdered = true) :
    value.isKeyed = true := by
  match value with
  | .array items => exact itemsKeyed_of_itemsOrdered items h
  | .object members =>
    rw [isOrdered, Bool.and_eq_true, decide_eq_true_eq] at h
    rw [isKeyed, membersKeyed_of_membersOrdered members h.2, Bool.and_true, decide_eq_true_eq]
    exact h.1.nodup
  | .null | .bool _ | .int _ | .float _ | .string _ => rfl

theorem itemsKeyed_of_itemsOrdered (items : List Json) (h : itemsOrdered items = true) :
    itemsKeyed items = true := by
  match items with
  | [] => rfl
  | item :: rest =>
    rw [itemsOrdered, Bool.and_eq_true] at h
    rw [itemsKeyed, isKeyed_of_isOrdered item h.1, itemsKeyed_of_itemsOrdered rest h.2]
    rfl

theorem membersKeyed_of_membersOrdered (members : List (String × Json))
    (h : membersOrdered members = true) : membersKeyed members = true := by
  match members with
  | [] => rfl
  | (_, value) :: rest =>
    rw [membersOrdered, Bool.and_eq_true] at h
    rw [membersKeyed, isKeyed_of_isOrdered value h.1, membersKeyed_of_membersOrdered rest h.2]
    rfl

end

end Json

namespace Document

/-- Whether a member of a fact is a predecessor or a list of them, and not a field. -/
def isRole (member : String × Json) : Bool :=
  member.1 ≠ "type" &&
    match member.2 with
    | .array items => items.any isFact
    | value => isFact value

@[simp] theorem isRole_type (value : Json) : isRole ("type", value) = false := rfl

def fieldsOf (members : Keyed Json) : Keyed Json :=
  members.filter fun member => member.1 ≠ "type" && !isRole member

def rolesOf (members : Keyed Json) : Keyed Json :=
  members.filter isRole

theorem rolesOf_cons (member : String × Json) (rest : Keyed Json) :
    rolesOf (member :: rest) =
      if isRole member then member :: rolesOf rest else rolesOf rest :=
  List.filter_cons

def describe (members : Keyed Json) (named : Keyed Predecessors) : Record :=
  Record.ofContent ((type? members).getD "") (fieldsOf members) named

mutual

def recordOf : Json → Record
  | .object members => describe members (namedBy members)
  | _ => describe [] []

def namedBy : List (String × Json) → Keyed Predecessors
  | [] => []
  | (key, value) :: rest =>
    if isRole (key, value) then (key, namedIn value) :: namedBy rest else namedBy rest

def namedIn : Json → Predecessors
  | .object members => .one (describe members (namedBy members)).reference
  | .array items => .many (referencesIn items)
  | _ => .many []

def referencesIn : List Json → List Reference
  | [] => []
  | item :: rest => (recordOf item).reference :: referencesIn rest

end

mutual

/-- The facts in a fact or in a list of facts, each after those nested in it. -/
def facts : Json → List Json
  | .object members => factsBelow members ++ [.object members]
  | .array items => factsAmong items
  | _ => []

def factsBelow : List (String × Json) → List Json
  | [] => []
  | (key, value) :: rest =>
    if isRole (key, value) then facts value ++ factsBelow rest else factsBelow rest

def factsAmong : List Json → List Json
  | [] => []
  | item :: rest => facts item ++ factsAmong rest

end

theorem referencesIn_eq (items : List Json) :
    referencesIn items = items.map fun item => (recordOf item).reference := by
  induction items with
  | nil => rfl
  | cons item rest ih => rw [referencesIn, ih, List.map_cons]

theorem factsAmong_eq (items : List Json) : factsAmong items = items.flatMap facts := by
  induction items with
  | nil => rfl
  | cons item rest ih => rw [factsAmong, ih, List.flatMap_cons]

theorem namedBy_eq (members : Keyed Json) :
    namedBy members = (rolesOf members).map fun member => (member.1, namedIn member.2) := by
  induction members with
  | nil => rfl
  | cons member rest ih =>
    rw [namedBy, ih, rolesOf_cons]
    split <;> rfl

theorem factsBelow_eq (members : Keyed Json) :
    factsBelow members = (rolesOf members).flatMap fun member => facts member.2 := by
  induction members with
  | nil => rfl
  | cons member rest ih =>
    rw [factsBelow, ih, rolesOf_cons]
    split <;> rfl

mutual

/-- Whether a document is a fact and so is every item of a list of facts in it. -/
def isAccepted : Json → Bool
  | .object members => (type? members).isSome && membersAccepted members
  | _ => false

def membersAccepted : List (String × Json) → Bool
  | [] => true
  | (key, value) :: rest => (!isRole (key, value) || roleAccepted value) && membersAccepted rest

def roleAccepted : Json → Bool
  | .object members => membersAccepted members
  | .array items => itemsAccepted items
  | _ => false

def itemsAccepted : List Json → Bool
  | [] => true
  | item :: rest => isAccepted item && itemsAccepted rest

end

theorem itemsAccepted_eq (items : List Json) : itemsAccepted items = items.all isAccepted := by
  induction items with
  | nil => rfl
  | cons item rest ih => rw [itemsAccepted, ih, List.all_cons]

theorem membersAccepted_eq (members : Keyed Json) :
    membersAccepted members = (rolesOf members).all fun member => roleAccepted member.2 := by
  induction members with
  | nil => rfl
  | cons member rest ih =>
    obtain ⟨key, value⟩ := member
    rw [membersAccepted, ih, rolesOf_cons]
    cases hrole : isRole (key, value) <;> simp

theorem isFact_of_isAccepted {document : Json} (h : isAccepted document = true) :
    isFact document = true := by
  cases document with
  | object members => exact (Bool.and_eq_true_iff.1 h).1
  | null | bool _ | int _ | float _ | string _ | array _ => cases h

theorem all_isFact_of_itemsAccepted {items : List Json} (h : itemsAccepted items = true) :
    items.all isFact = true := by
  rw [itemsAccepted_eq, List.all_eq_true] at h
  exact List.all_eq_true.2 fun item hitem => isFact_of_isAccepted (h item hitem)

theorem Progress.finish_eq (progress : Progress) (type : String) :
    progress.finish type =
      (addRecords progress.records
          [Record.ofContent type progress.fields progress.predecessors],
        (Record.ofContent type progress.fields progress.predecessors).reference) := by
  rw [Progress.finish, Store.addRecords_cons]
  split <;> rfl

theorem addRecords_append (known p q : List Record) :
    addRecords known (p ++ q) = addRecords (addRecords known p) q :=
  List.foldl_append

mutual

/-- A document that is accepted adds the records of its facts. -/
theorem dehydrateFact_eq (document : Json) (h : isAccepted document = true)
    (records : List Record) :
    dehydrateFact records document =
      .ok (addRecords records ((facts document).map recordOf), (recordOf document).reference) := by
  match document with
  | .object members =>
    rw [isAccepted, Bool.and_eq_true] at h
    obtain ⟨type, htype⟩ := Option.isSome_iff_exists.1 h.1
    rw [dehydrateFact, htype, dehydrateMembers_eq members h.2]
    simp only [bind, Except.bind, pure, Except.pure, Progress.finish_eq]
    simp [facts, recordOf, describe, htype, addRecords_append]
  | .null | .bool _ | .int _ | .float _ | .string _ | .array _ => cases h

theorem dehydrateMembers_eq (members : List (String × Json)) (h : membersAccepted members = true)
    (progress : Progress) :
    dehydrateMembers progress members =
      .ok ⟨addRecords progress.records ((factsBelow members).map recordOf),
        progress.fields ++ fieldsOf members, progress.predecessors ++ namedBy members⟩ := by
  match members with
  | [] => simp [dehydrateMembers, factsBelow, fieldsOf, namedBy, addRecords]
  | (key, value) :: rest =>
    rw [membersAccepted, Bool.and_eq_true] at h
    rw [dehydrateMembers]
    by_cases htype : key = "type"
    · subst htype
      rw [if_pos rfl]
      simp only [bind, Except.bind]
      rw [dehydrateMembers_eq rest h.2]
      simp [factsBelow, namedBy, fieldsOf]
    · rw [if_neg htype, dehydrateMember_eq value htype h.1]
      simp only [bind, Except.bind]
      rw [dehydrateMembers_eq rest h.2]
      cases hrole : isRole (key, value) <;>
        simp [factsBelow, namedBy, fieldsOf, htype, hrole, Progress.addField, Progress.addRole,
          addRecords_append]

theorem dehydrateMember_eq (value : Json) {key : String} (hkey : key ≠ "type")
    (h : (!isRole (key, value) || roleAccepted value) = true) (progress : Progress) :
    dehydrateMember progress key value =
      .ok (if isRole (key, value) then
        progress.addRole key (addRecords progress.records ((facts value).map recordOf))
          (namedIn value)
      else progress.addField key value) := by
  match value with
  | .object members =>
    rw [dehydrateMember]
    split
    · next hnone => simp [isRole, isFact, hnone]
    · next type htype =>
      have hrole : isRole (key, .object members) = true := by simp [isRole, isFact, htype, hkey]
      rw [hrole, Bool.not_true, Bool.false_or, roleAccepted] at h
      rw [if_pos hrole, dehydrateMembers_eq members h]
      simp only [bind, Except.bind, pure, Except.pure, Progress.finish_eq]
      simp [facts, namedIn, recordOf, describe, htype, addRecords_append]
  | .array items =>
    rw [dehydrateMember]
    by_cases hany : items.any isFact = true
    · have hrole : isRole (key, .array items) = true := by simp [isRole, hkey, hany]
      rw [hrole, Bool.not_true, Bool.false_or, roleAccepted] at h
      rw [if_pos hany, if_pos (all_isFact_of_itemsAccepted h), dehydrateItems_eq items h,
        if_pos hrole]
      rfl
    · have hrole : isRole (key, .array items) = false := by simpa [isRole, hkey] using hany
      rw [if_neg hany, hrole]
      rfl
  | .null | .bool _ | .int _ | .float _ | .string _ =>
    simp [dehydrateMember, isRole, isFact]

theorem dehydrateItems_eq (items : List Json) (h : itemsAccepted items = true)
    (records : List Record) :
    dehydrateItems records items =
      .ok (addRecords records ((factsAmong items).map recordOf), referencesIn items) := by
  match items with
  | [] => rfl
  | item :: rest =>
    rw [itemsAccepted, Bool.and_eq_true] at h
    rw [dehydrateItems, dehydrateFact_eq item h.1]
    simp only [bind, Except.bind]
    rw [dehydrateItems_eq rest h.2]
    simp [factsAmong, referencesIn, addRecords_append, pure, Except.pure]

end

mutual

theorem isAccepted_of_dehydrateFact (document : Json) {records : List Record}
    {result : List Record × Reference} (h : dehydrateFact records document = .ok result) :
    isAccepted document = true := by
  match document with
  | .object members =>
    rw [dehydrateFact] at h
    split at h
    · cases h
    · next type htype =>
      obtain ⟨progress, hprogress, -⟩ := bind_eq_ok.1 h
      rw [isAccepted, htype, membersAccepted_of_dehydrateMembers members hprogress]
      rfl
  | .null | .bool _ | .int _ | .float _ | .string _ | .array _ => simp [dehydrateFact] at h

theorem membersAccepted_of_dehydrateMembers (members : List (String × Json))
    {progress done : Progress} (h : dehydrateMembers progress members = .ok done) :
    membersAccepted members = true := by
  match members with
  | [] => rfl
  | (key, value) :: rest =>
    rw [dehydrateMembers] at h
    split at h
    · next htype =>
      rw [membersAccepted, htype, isRole_type, membersAccepted_of_dehydrateMembers rest h]
      rfl
    · obtain ⟨next, hnext, hrest⟩ := bind_eq_ok.1 h
      rw [membersAccepted, roleAccepted_of_dehydrateMember value hnext,
        membersAccepted_of_dehydrateMembers rest hrest]
      rfl

theorem roleAccepted_of_dehydrateMember (value : Json) {key : String} {progress next : Progress}
    (h : dehydrateMember progress key value = .ok next) :
    (!isRole (key, value) || roleAccepted value) = true := by
  match value with
  | .object members =>
    rw [dehydrateMember] at h
    split at h
    · next hnone => simp [isRole, isFact, hnone]
    · obtain ⟨nested, hnested, -⟩ := bind_eq_ok.1 h
      rw [roleAccepted, membersAccepted_of_dehydrateMembers members hnested, Bool.or_true]
  | .array items =>
    rw [dehydrateMember] at h
    split at h
    · split at h
      · obtain ⟨added, hitems, -⟩ := bind_eq_ok.1 h
        rw [roleAccepted, itemsAccepted_of_dehydrateItems items hitems, Bool.or_true]
      · cases h
    · next hnone => simp [isRole, hnone]
  | .null | .bool _ | .int _ | .float _ | .string _ => simp [isRole, isFact]

theorem itemsAccepted_of_dehydrateItems (items : List Json) {records : List Record}
    {result : List Record × List Reference} (h : dehydrateItems records items = .ok result) :
    itemsAccepted items = true := by
  match items with
  | [] => rfl
  | item :: rest =>
    rw [dehydrateItems] at h
    obtain ⟨first, hfirst, hothers⟩ := bind_eq_ok.1 h
    obtain ⟨others, hrest, -⟩ := bind_eq_ok.1 hothers
    rw [itemsAccepted, isAccepted_of_dehydrateFact item hfirst,
      itemsAccepted_of_dehydrateItems rest hrest]
    rfl

end

theorem isAccepted_of_referenceOf {document : Json} {root : Reference}
    (h : referenceOf document = .ok root) : isAccepted document = true := by
  obtain ⟨records, hrecords, -⟩ := bind_eq_ok.1 h
  rw [dehydrate] at hrecords
  cases hresult : dehydrateFact [] document with
  | error fault => rw [hresult] at hrecords; cases hrecords
  | ok result => exact isAccepted_of_dehydrateFact document hresult

def heads : Json → List Json
  | .array items => items
  | value => [value]

def nested : Json → List Json
  | .object members => (rolesOf members).flatMap fun member => heads member.2
  | _ => []

theorem exists_members_of_isAccepted {document : Json} (h : isAccepted document = true) :
    ∃ members type, document = .object members ∧ type? members = some type ∧
      membersAccepted members = true := by
  cases document with
  | object members =>
    rw [isAccepted, Bool.and_eq_true] at h
    obtain ⟨type, htype⟩ := Option.isSome_iff_exists.1 h.1
    exact ⟨members, type, rfl, htype, h.2⟩
  | null | bool _ | int _ | float _ | string _ | array _ => cases h

/-- What stands under a role of a fact that is accepted: a fact that is accepted, or a list of
such facts. -/
theorem role_cases {members : Keyed Json} (h : membersAccepted members = true)
    {key : String} {value : Json} (hrole : (key, value) ∈ rolesOf members) :
    (isAccepted value = true ∧ heads value = [value]) ∨
      ∃ items, value = .array items ∧ ∀ item ∈ items, isAccepted item = true := by
  induction members with
  | nil => cases hrole
  | cons member rest ih =>
    obtain ⟨key', value'⟩ := member
    rw [membersAccepted, Bool.and_eq_true] at h
    rw [rolesOf_cons] at hrole
    split at hrole
    · next hfirst =>
      rcases List.mem_cons.1 hrole with heq | hrest
      · cases heq
        rw [hfirst, Bool.not_true, Bool.false_or] at h
        cases value with
        | object inner =>
          have hfact : isFact (.object inner) = true := by
            simpa [isRole] using (Bool.and_eq_true_iff.1 hfirst).2
          exact Or.inl ⟨by rw [isAccepted, Bool.and_eq_true]; exact ⟨hfact, h.1⟩, rfl⟩
        | array items =>
          have hitems := h.1
          rw [roleAccepted, itemsAccepted_eq, List.all_eq_true] at hitems
          exact Or.inr ⟨items, rfl, hitems⟩
        | null | bool _ | int _ | float _ | string _ => cases h.1
      · exact ih h.2 hrest
    · exact ih h.2 hrole

theorem isAccepted_of_mem_nested {document fact : Json} (h : isAccepted document = true)
    (hfact : fact ∈ nested document) : isAccepted fact = true := by
  obtain ⟨members, type, rfl, -, hmembers⟩ := exists_members_of_isAccepted h
  obtain ⟨⟨key, value⟩, hrole, hhead⟩ := List.mem_flatMap.1 hfact
  rcases role_cases hmembers hrole with ⟨hvalue, hheads⟩ | ⟨items, rfl, hitems⟩
  · rw [hheads, List.mem_singleton] at hhead
    rwa [hhead]
  · exact hitems fact hhead

/-- The facts in a fact are those in the facts that it names, and itself. -/
theorem facts_eq {document : Json} (h : isAccepted document = true) :
    facts document = (nested document).flatMap facts ++ [document] := by
  obtain ⟨members, type, rfl, -, hmembers⟩ := exists_members_of_isAccepted h
  rw [facts, nested, factsBelow_eq, List.flatMap_assoc]
  congr 1
  refine List.flatMap_congr fun member hrole => ?_
  rcases role_cases hmembers hrole with ⟨-, hheads⟩ | ⟨items, hvalue, -⟩
  · rw [hheads, List.flatMap_singleton]
  · rw [hvalue, facts, factsAmong_eq]
    rfl

theorem mem_facts_self {document : Json} (h : isAccepted document = true) :
    document ∈ facts document := by
  rw [facts_eq h]
  exact List.mem_append_right _ (List.mem_singleton_self _)

/-- A document that is accepted has a reference. -/
theorem exists_referenceOf {document : Json} (h : isAccepted document = true) :
    ∃ root, referenceOf document = .ok root := by
  have hmem : recordOf document ∈ (facts document).map recordOf :=
    List.mem_map_of_mem (mem_facts_self h)
  obtain ⟨record, hrecord, -⟩ := (Store.addRecords_spec [] _).2.2.1 _ hmem
  have hlast := List.getLast?_eq_some_getLast (List.ne_nil_of_mem hrecord)
  rw [referenceOf, dehydrate, dehydrateFact_eq document h]
  simp [Except.map, bind, Except.bind, pure, Except.pure, hlast]

theorem mem_facts_of_mem_nested {document fact : Json} (h : isAccepted document = true)
    (hfact : fact ∈ nested document) : fact ∈ facts document := by
  rw [facts_eq h]
  refine List.mem_append_left _ (List.mem_flatMap.2 ⟨fact, hfact, ?_⟩)
  exact mem_facts_self (isAccepted_of_mem_nested h hfact)

theorem facts_sublist_nested {document fact : Json} (hfact : fact ∈ nested document) :
    (facts fact).Sublist ((nested document).flatMap facts) := by
  rw [List.flatMap_def]
  exact List.sublist_flatten_of_mem (List.mem_map_of_mem hfact)

theorem length_facts_lt {document fact : Json} (h : isAccepted document = true)
    (hfact : fact ∈ nested document) : (facts fact).length < (facts document).length := by
  have hle := (facts_sublist_nested hfact).length_le
  rw [facts_eq h, List.length_append, List.length_singleton]
  omega

/-- What holds of a fact when it holds of the facts that it names holds of every fact. -/
theorem facts_induction {P : Json → Prop}
    (hstep : ∀ document, isAccepted document = true → (∀ fact ∈ nested document, P fact) →
      P document)
    (document : Json) (h : isAccepted document = true) : P document := by
  induction hlength : (facts document).length using Nat.strongRecOn generalizing document with
  | _ length ih =>
    subst hlength
    refine hstep document h fun fact hfact => ?_
    exact ih _ (length_facts_lt h hfact) fact (isAccepted_of_mem_nested h hfact) rfl

/-- What a fact hands on to the facts that it names holds of all facts in it. -/
theorem forall_facts {P : Json → Prop}
    (hstep : ∀ document, isAccepted document = true → P document →
      ∀ fact ∈ nested document, P fact)
    {document : Json} (h : isAccepted document = true) (hdocument : P document) :
    ∀ fact ∈ facts document, P fact := by
  refine facts_induction (P := fun document => P document → ∀ fact ∈ facts document, P fact)
    ?_ document h hdocument
  intro document haccepted ih hdocument fact hfact
  rw [facts_eq haccepted, List.mem_append, List.mem_flatMap, List.mem_singleton] at hfact
  rcases hfact with ⟨below, hbelow, hmem⟩ | rfl
  · exact ih below hbelow (hstep document haccepted hdocument below hbelow) fact hmem
  · exact hdocument

theorem isAccepted_of_mem_facts {document fact : Json} (h : isAccepted document = true)
    (hfact : fact ∈ facts document) : isAccepted fact = true :=
  forall_facts (P := fun fact => isAccepted fact = true)
    (fun _ haccepted _ _ => isAccepted_of_mem_nested haccepted) h h fact hfact

theorem facts_sublist {document fact : Json} (h : isAccepted document = true)
    (hfact : fact ∈ facts document) : (facts fact).Sublist (facts document) := by
  refine forall_facts (P := fun fact => (facts fact).Sublist (facts document)) ?_ h
    (List.Sublist.refl _) fact hfact
  intro above habove hsublist below hbelow
  refine (facts_sublist_nested hbelow).trans (List.Sublist.trans ?_ hsublist)
  rw [facts_eq habove]
  exact List.sublist_append_left _ _

theorem isOrdered_of_mem_nested {document fact : Json} (h : document.isOrdered = true)
    (hfact : fact ∈ nested document) : fact.isOrdered = true := by
  cases document with
  | object members =>
    obtain ⟨⟨key, value⟩, hrole, hhead⟩ := List.mem_flatMap.1 hfact
    rw [Json.isOrdered, Json.membersOrdered_eq, Bool.and_eq_true, List.all_eq_true] at h
    have hvalue : value.isOrdered = true := h.2 _ (List.mem_of_mem_filter hrole)
    cases value with
    | array items =>
      rw [Json.isOrdered, Json.itemsOrdered_eq, List.all_eq_true] at hvalue
      exact hvalue fact hhead
    | null | bool _ | int _ | float _ | string _ | object _ =>
      rw [List.mem_singleton.1 hhead]
      exact hvalue
  | null | bool _ | int _ | float _ | string _ | array _ => cases hfact

theorem isOrdered_of_mem_facts {document fact : Json} (haccepted : isAccepted document = true)
    (h : document.isOrdered = true) (hfact : fact ∈ facts document) : fact.isOrdered = true :=
  forall_facts (P := fun fact => fact.isOrdered = true)
    (fun _ _ hordered _ => isOrdered_of_mem_nested hordered) haccepted h fact hfact

theorem filter_type {members : Keyed Json} (h : members.IsSorted) {type : String}
    (htype : type? members = some type) :
    members.filter (·.1 = "type") = [("type", .string type)] := by
  obtain ⟨value, hfind, hstring⟩ := Option.bind_eq_some_iff.1 htype
  obtain ⟨before, after, rfl, hbefore⟩ := List.lookup_eq_some_iff.1 hfind
  obtain rfl : value = .string type := by
    cases value <;> simp_all [Json.string?]
  have hnodup := h.nodup
  rw [List.map_append, List.map_cons, List.nodup_append, List.nodup_cons] at hnodup
  have hnone : before.filter (·.1 = "type") = [] := by
    refine List.filter_eq_nil_iff.2 fun member hmember hkey => ?_
    exact hnodup.2.2 _ (List.mem_map_of_mem hmember) _ List.mem_cons_self (of_decide_eq_true hkey)
  have hnone' : after.filter (·.1 = "type") = [] := by
    refine List.filter_eq_nil_iff.2 fun member hmember hkey => ?_
    have hmem := List.mem_map_of_mem (f := Prod.fst) hmember
    rw [of_decide_eq_true hkey] at hmem
    exact hnodup.2.1.1 hmem
  rw [List.filter_append, List.filter_cons_of_pos (by simp), hnone, hnone']
  rfl

theorem type_fields_roles_perm {members : Keyed Json} (h : members.IsSorted) {type : String}
    (htype : type? members = some type) :
    ([("type", Json.string type)] ++ (fieldsOf members ++ rolesOf members)).Perm members := by
  have hfields : fieldsOf members =
      (members.filter fun member => !decide (member.1 = "type")).filter fun member =>
        !isRole member := by
    rw [List.filter_filter]
    exact List.filter_congr fun member _ => by simp [Bool.and_comm]
  have hroles : rolesOf members =
      (members.filter fun member => !decide (member.1 = "type")).filter fun member =>
        !!isRole member := by
    rw [List.filter_filter]
    refine List.filter_congr fun member _ => ?_
    cases hkey : decide (member.1 = "type") <;> simp_all [isRole]
  rw [← filter_type h htype, hfields, hroles]
  exact ((List.filter_append_perm _ _).append_left _).trans (List.filter_append_perm _ members)

/-- The type, the fields and the predecessors of a fact are its members again. -/
theorem insertAll_members {members : Keyed Json} (h : members.IsSorted) {type : String}
    (htype : type? members = some type) :
    (Keyed.insertAll [("type", .string type)] (fieldsOf members)).insertAll (rolesOf members) =
      members := by
  rw [← Keyed.insertAll_append]
  exact Keyed.insertAll_eq h (List.pairwise_singleton _ _) (type_fields_roles_perm h htype)

end Document

end LiveFacts
