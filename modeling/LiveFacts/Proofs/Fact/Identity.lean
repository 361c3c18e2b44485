import LiveFacts.Proofs.Fact.Contents
import LiveFacts.Proofs.Json.Texts
import Mathlib.Data.List.Forall2

/-!
# References identify documents

The bytes that the hash of a fact is taken of tell its type, its fields and what it names. So two
documents have the same reference exactly if they are alike, provided that no two of the byte
strings hashed for them have the same digest.
-/

namespace LiveFacts

namespace Sha256

def CollisionFree (strings : List (List UInt8)) : Prop :=
  ∀ s ∈ strings, ∀ t ∈ strings, digest s = digest t → s = t

instance (strings : List (List UInt8)) : Decidable (CollisionFree strings) :=
  inferInstanceAs (Decidable (∀ s ∈ strings, ∀ t ∈ strings, _))

theorem hexOfByte_injective {a b : UInt8} (h : Text.hexOfByte a = Text.hexOfByte b) : a = b := by
  have hvalue {c : UInt8} : (Text.hexOfByte c).map Text.hexValue? =
      [some (c.toNat / 16), some (c.toNat % 16)] := by
    have hlt := c.toNat_lt
    rw [Text.hexOfByte, List.map_cons, List.map_singleton, Text.hexValue?_hexDigit (by omega),
      Text.hexValue?_hexDigit (by omega)]
  have heq := congrArg (List.map Text.hexValue?) h
  rw [hvalue, hvalue] at heq
  simp only [List.cons.injEq, Option.some.injEq, and_true] at heq
  refine UInt8.toNat_inj.1 ?_
  omega

theorem flatMap_hexOfByte_injective {p q : List UInt8}
    (h : p.flatMap Text.hexOfByte = q.flatMap Text.hexOfByte) : p = q := by
  induction p generalizing q with
  | nil => cases q <;> simp [Text.hexOfByte] at h ⊢
  | cons a p ih =>
    cases q with
    | nil => simp [Text.hexOfByte] at h
    | cons b q =>
      rw [List.flatMap_cons, List.flatMap_cons] at h
      obtain ⟨hbyte, hrest⟩ := List.append_inj h rfl
      rw [hexOfByte_injective hbyte, ih hrest]

end Sha256

namespace Record

theorem utf8_injective {s t : List Char} (h : utf8 s = utf8 t) : s = t := by
  have hbytes : String.ofList s = String.ofList t := by
    rw [← String.toByteArray_inj, String.toByteArray_ofList, String.toByteArray_ofList,
      List.utf8Encode, List.utf8Encode]
    exact congrArg _ h
  simpa using congrArg String.toList hbytes

def content (type : String) (fields : Keyed Json) (predecessors : Keyed Predecessors) :
    List UInt8 :=
  utf8 (canonical type fields predecessors).chars

theorem canonical_alike_iff {p q : Predecessors} :
    p.canonical.alike q.canonical = true ↔ p = q := by
  have hone {a b : Reference} : a.canonical.alike b.canonical = true ↔ a = b := by
    cases a
    cases b
    simp [Reference.canonical, Json.alike, Json.membersAlike, Json.isNumber]
  have hmany {as bs : List Reference} :
      Json.itemsAlike (as.map Reference.canonical) (bs.map Reference.canonical) = true ↔
        as = bs := by
    simp only [Json.itemsAlike_iff, List.forall₂_map_left_iff, List.forall₂_map_right_iff, hone,
      List.forall₂_eq_eq_eq]
  cases p with
  | one a =>
    cases q with
    | one b => simpa [Predecessors.canonical] using hone
    | many bs => simp [Predecessors.canonical, Reference.canonical, Json.alike, Json.isNumber]
  | many as =>
    cases q with
    | one b => simp [Predecessors.canonical, Reference.canonical, Json.alike, Json.isNumber]
    | many bs => simpa [Predecessors.canonical, Json.alike] using hmany

theorem namedAlike_iff {p q : Keyed Predecessors} :
    Json.membersAlike (p.map fun (role, named) => (role, named.canonical))
        (q.map fun (role, named) => (role, named.canonical)) = true ↔ p = q := by
  rw [Json.membersAlike_iff, List.forall₂_map_left_iff, List.forall₂_map_right_iff]
  simp only [Json.MemberAlike, canonical_alike_iff, ← Prod.ext_iff, List.forall₂_eq_eq_eq]

/-- The bytes tell type, fields and predecessors apart: no field can pass for a predecessor, and
no single predecessor for a list. -/
theorem content_eq_iff {type type' : String} {fields fields' : Keyed Json}
    {predecessors predecessors' : Keyed Predecessors} :
    content type fields predecessors = content type' fields' predecessors' ↔
      type = type' ∧ Json.membersAlike fields fields' = true ∧ predecessors = predecessors' := by
  have hchars {s t : List Char} : utf8 s = utf8 t ↔ s = t :=
    ⟨utf8_injective, congrArg utf8⟩
  rw [content, content, hchars, Json.chars_eq_iff]
  simp only [canonical, Json.alike, Json.membersAlike, namedAlike_iff, Json.isNumber,
    Bool.and_eq_true, beq_iff_eq, Bool.or_eq_true, Json.string.injEq]
  tauto

/-- Two facts with the same reference have the same digest. -/
theorem digest_eq_of_reference_eq {type type' : String} {fields fields' : Keyed Json}
    {predecessors predecessors' : Keyed Predecessors}
    (h : (ofContent type fields predecessors).reference =
      (ofContent type' fields' predecessors').reference) :
    Sha256.digest (content type fields predecessors) =
      Sha256.digest (content type' fields' predecessors') := by
  have hhash : contentHash type fields predecessors = contentHash type' fields' predecessors' :=
    congrArg Reference.hash h
  refine Sha256.flatMap_hexOfByte_injective ?_
  simpa [contentHash, Sha256.hexDigest, content] using congrArg String.toList hhash

theorem reference_eq_of_content_eq {type type' : String} {fields fields' : Keyed Json}
    {predecessors predecessors' : Keyed Predecessors}
    (h : content type fields predecessors = content type' fields' predecessors') :
    (ofContent type fields predecessors).reference =
      (ofContent type' fields' predecessors').reference := by
  have hhash : contentHash type fields predecessors = contentHash type' fields' predecessors' :=
    congrArg (fun bytes => String.ofList (Sha256.hexDigest bytes)) h
  exact congrArg₂ Reference.mk (content_eq_iff.1 h).1 hhash

/-- The bytes that a record is to be hashed by. -/
def bytes (record : Record) : List UInt8 :=
  content record.type record.fields record.predecessors

theorem IsAuthentic.eq_ofContent {record : Record} (h : record.IsAuthentic) :
    record = ofContent record.type record.fields record.predecessors := by
  obtain ⟨type, hash, fields, predecessors⟩ := record
  rw [ofContent, ← show hash = contentHash type fields predecessors from h]

/-- Records with the same reference have the same content, if these do not collide. -/
theorem IsAuthentic.bytes_eq {a b : Record} (ha : a.IsAuthentic) (hb : b.IsAuthentic)
    {strings : List (List UInt8)} (hfree : Sha256.CollisionFree strings)
    (hmem : a.bytes ∈ strings) (hmem' : b.bytes ∈ strings) (h : a.reference = b.reference) :
    a.bytes = b.bytes := by
  apply hfree _ hmem _ hmem'
  rw [ha.eq_ofContent, hb.eq_ofContent] at h
  exact digest_eq_of_reference_eq h

end Record

namespace Json

theorem find?_alike {as bs : Keyed Json} (h : List.Forall₂ MemberAlike as bs) (key : String) :
    Option.Rel (fun a b => a.alike b = true) (as.find? key) (bs.find? key) := by
  induction h with
  | nil => exact Option.Rel.none
  | @cons m n as bs hmember hrest ih =>
    obtain ⟨j, a⟩ := m
    obtain ⟨k, b⟩ := n
    obtain ⟨rfl, halike⟩ := hmember
    rw [Keyed.find?, Keyed.find?, List.lookup_cons, List.lookup_cons]
    cases hkey : key == j
    · exact ih
    · exact Option.Rel.some halike

theorem string?_eq_of_alike {a b : Json} (h : a.alike b = true) : a.string? = b.string? := by
  cases a <;> cases b <;> simp_all [alike, isNumber, string?]

theorem insert_alike {as bs : Keyed Json} (h : List.Forall₂ MemberAlike as bs) {m n : String × Json}
    (hmember : MemberAlike m n) :
    List.Forall₂ MemberAlike (Keyed.insert m.1 m.2 as) (Keyed.insert n.1 n.2 bs) := by
  obtain ⟨j, a⟩ := m
  obtain ⟨k, b⟩ := n
  obtain ⟨rfl, halike⟩ : j = k ∧ a.alike b = true := hmember
  induction h with
  | nil => exact List.Forall₂.cons ⟨rfl, halike⟩ List.Forall₂.nil
  | @cons m n as bs hfirst hrest ih =>
    obtain ⟨key, value⟩ := m
    obtain ⟨key', value'⟩ := n
    obtain ⟨rfl, hvalue⟩ : key = key' ∧ value.alike value' = true := hfirst
    rw [Keyed.insert, Keyed.insert]
    split_ifs
    · exact List.Forall₂.cons ⟨rfl, halike⟩ (List.Forall₂.cons ⟨rfl, hvalue⟩ hrest)
    · exact List.Forall₂.cons ⟨rfl, halike⟩ hrest
    · exact List.Forall₂.cons ⟨rfl, hvalue⟩ ih

theorem insertAll_alike {as bs cs ds : Keyed Json} (h : List.Forall₂ MemberAlike as bs)
    (hmore : List.Forall₂ MemberAlike cs ds) :
    List.Forall₂ MemberAlike (Keyed.insertAll as cs) (Keyed.insertAll bs ds) := by
  induction hmore generalizing as bs with
  | nil => exact h
  | cons hmember _ ih => exact ih (insert_alike h hmember)

end Json

namespace Document

open Json (MemberAlike)

theorem type?_eq_of_alike {as bs : Keyed Json} (h : List.Forall₂ MemberAlike as bs) :
    type? as = type? bs := by
  have hfind := Json.find?_alike h "type"
  rw [type?, type?]
  generalize as.find? "type" = a, bs.find? "type" = b at hfind ⊢
  cases hfind with
  | none => rfl
  | some halike => exact Json.string?_eq_of_alike halike

theorem isFact_eq_of_alike {a b : Json} (h : a.alike b = true) : isFact a = isFact b := by
  have hkind := Json.kind_eq_of_alike h
  cases a with
  | object as =>
    obtain ⟨bs, rfl⟩ := Json.exists_object_of_kind hkind.symm
    rw [isFact, isFact, type?_eq_of_alike (Json.membersAlike_iff.1 h)]
  | null | bool _ | int _ | float _ | string _ | array _ =>
    cases b <;> first | rfl | cases hkind

theorem any_isFact_eq_of_alike {as bs : List Json}
    (h : List.Forall₂ (fun a b => a.alike b = true) as bs) : as.any isFact = bs.any isFact := by
  induction h with
  | nil => rfl
  | cons hitem _ ih => rw [List.any_cons, List.any_cons, isFact_eq_of_alike hitem, ih]

theorem isRole_eq_of_alike {m n : String × Json} (h : MemberAlike m n) : isRole m = isRole n := by
  obtain ⟨j, a⟩ := m
  obtain ⟨k, b⟩ := n
  obtain ⟨rfl, h⟩ : j = k ∧ a.alike b = true := h
  have hkind := Json.kind_eq_of_alike h
  have hfact := isFact_eq_of_alike h
  cases a with
  | array as =>
    obtain ⟨bs, rfl⟩ := Json.exists_array_of_kind hkind.symm
    simp [isRole, any_isFact_eq_of_alike (Json.itemsAlike_iff.1 h)]
  | null | bool _ | int _ | float _ | string _ | object _ =>
    cases b <;> first | cases hkind; done | simp [isRole, hfact]

theorem rolesOf_alike {as bs : Keyed Json} (h : List.Forall₂ MemberAlike as bs) :
    List.Forall₂ MemberAlike (rolesOf as) (rolesOf bs) :=
  List.rel_filter (fun _ _ hmember => by simp only [isRole_eq_of_alike hmember]) h

theorem fieldsOf_alike {as bs : Keyed Json} (h : List.Forall₂ MemberAlike as bs) :
    List.Forall₂ MemberAlike (fieldsOf as) (fieldsOf bs) :=
  List.rel_filter (fun _ _ hmember => by simp only [isRole_eq_of_alike hmember, hmember.1]) h

theorem heads_alike {a b : Json} (h : a.alike b = true) :
    List.Forall₂ (fun a b => a.alike b = true) (heads a) (heads b) := by
  have hkind := Json.kind_eq_of_alike h
  cases a with
  | array as =>
    obtain ⟨bs, rfl⟩ := Json.exists_array_of_kind hkind.symm
    exact Json.itemsAlike_iff.1 h
  | null | bool _ | int _ | float _ | string _ | object _ =>
    cases b <;> first | cases hkind; done | exact List.Forall₂.cons h List.Forall₂.nil

theorem nested_alike {a b : Json} (h : a.alike b = true) :
    List.Forall₂ (fun a b => a.alike b = true) (nested a) (nested b) := by
  have hkind := Json.kind_eq_of_alike h
  cases a with
  | object as =>
    obtain ⟨bs, rfl⟩ := Json.exists_object_of_kind hkind.symm
    exact List.rel_flatMap (rolesOf_alike (Json.membersAlike_iff.1 h))
      fun _ _ hmember => heads_alike hmember.2
  | null | bool _ | int _ | float _ | string _ | array _ =>
    cases b <;> first | cases hkind; done | exact List.Forall₂.nil

/-- Facts alike have as many facts in them. -/
theorem length_facts_eq_of_alike {a b : Json} (ha : isAccepted a = true)
    (hb : isAccepted b = true) (h : a.alike b = true) :
    (facts a).length = (facts b).length := by
  refine facts_induction (P := fun a => ∀ b, isAccepted b = true → a.alike b = true →
    (facts a).length = (facts b).length) ?_ a ha b hb h
  intro a ha ih b hb h
  have hlengths : List.Forall₂ (fun x y => (facts x).length = (facts y).length)
      (nested a) (nested b) :=
    forall₂_imp_of_mem (nested_alike h) fun x hx y hy hxy =>
      ih x hx y (isAccepted_of_mem_nested hb hy) hxy
  have heq : (nested a).map (fun x => (facts x).length) =
      (nested b).map fun y => (facts y).length := by
    rw [← List.forall₂_eq_eq_eq, List.forall₂_map_left_iff, List.forall₂_map_right_iff]
    exact hlengths
  rw [facts_eq ha, facts_eq hb, List.length_append, List.length_append, List.length_flatMap,
    List.length_flatMap, heq]
  rfl

/-- Two facts are alike if they have the same type, fields alike, and roles alike. -/
theorem alike_of_parts {as bs : Keyed Json} (has : as.IsSorted) (hbs : bs.IsSorted)
    {type : String} (htype : type? as = some type) (htype' : type? bs = some type)
    (hfields : List.Forall₂ MemberAlike (fieldsOf as) (fieldsOf bs))
    (hroles : List.Forall₂ MemberAlike (rolesOf as) (rolesOf bs)) :
    (Json.object as).alike (.object bs) = true := by
  have hfirst : List.Forall₂ MemberAlike [("type", .string type)] [("type", .string type)] :=
    List.Forall₂.cons ⟨rfl, by simp [Json.alike]⟩ List.Forall₂.nil
  have hall := Json.insertAll_alike (Json.insertAll_alike hfirst hfields) hroles
  rw [insertAll_members has htype, insertAll_members hbs htype'] at hall
  exact Json.membersAlike_iff.2 hall

/-- Roles name the same facts exactly if what stands under them is alike, provided that this is so
for each of the facts. -/
theorem namedIn_eq_iff {as bs : Keyed Json} (has : membersAccepted as = true)
    (hbs : membersAccepted bs = true) {m n : String × Json} (hm : m ∈ rolesOf as)
    (hn : n ∈ rolesOf bs)
    (h : ∀ x ∈ heads m.2, ∀ y ∈ heads n.2,
      ((recordOf x).reference = (recordOf y).reference ↔ x.alike y = true)) :
    namedIn m.2 = namedIn n.2 ↔ m.2.alike n.2 = true := by
  obtain ⟨j, a⟩ := m
  obtain ⟨k, b⟩ := n
  have hone {value : Json} (hvalue : isAccepted value = true) :
      namedIn value = .one (recordOf value).reference ∧ value.kind = .object := by
    obtain ⟨members, -, rfl, -⟩ := exists_members_of_isAccepted hvalue
    exact ⟨rfl, rfl⟩
  rcases role_cases has hm with ⟨ha, hheads⟩ | ⟨as, rfl, -⟩ <;>
    rcases role_cases hbs hn with ⟨hb, hheads'⟩ | ⟨bs, rfl, -⟩
  · simp only [hheads, hheads', List.mem_singleton, forall_eq] at h
    rw [(hone ha).1, (hone hb).1, Predecessors.one.injEq, h]
  · rw [(hone ha).1]
    refine iff_of_false (by simp [namedIn]) fun halike => ?_
    have hkind := (hone ha).2.symm.trans (Json.kind_eq_of_alike halike)
    cases hkind
  · rw [(hone hb).1]
    refine iff_of_false (by simp [namedIn]) fun halike => ?_
    have hkind := (Json.kind_eq_of_alike halike).trans (hone hb).2
    cases hkind
  · rw [namedIn, namedIn, Predecessors.many.injEq, referencesIn_eq, referencesIn_eq,
      map_eq_map_iff_forall₂]
    refine Iff.trans ?_ Json.itemsAlike_iff.symm
    exact ⟨fun hitems => forall₂_imp_of_mem hitems fun x hx y hy => (h x hx y hy).1,
      fun hitems => forall₂_imp_of_mem hitems fun x hx y hy => (h x hx y hy).2⟩

theorem namedBy_eq_iff {as bs : Keyed Json} (has : membersAccepted as = true)
    (hbs : membersAccepted bs = true)
    (h : ∀ x ∈ nested (.object as), ∀ y ∈ nested (.object bs),
      ((recordOf x).reference = (recordOf y).reference ↔ x.alike y = true)) :
    namedBy as = namedBy bs ↔ List.Forall₂ MemberAlike (rolesOf as) (rolesOf bs) := by
  have hrole {m n : String × Json} (hm : m ∈ rolesOf as) (hn : n ∈ rolesOf bs) :
      (m.1, namedIn m.2) = (n.1, namedIn n.2) ↔ MemberAlike m n := by
    rw [Prod.mk.injEq, MemberAlike, namedIn_eq_iff has hbs hm hn]
    intro x hx y hy
    exact h x (List.mem_flatMap.2 ⟨m, hm, hx⟩) y (List.mem_flatMap.2 ⟨n, hn, hy⟩)
  rw [namedBy_eq, namedBy_eq, map_eq_map_iff_forall₂]
  exact ⟨fun hroles => forall₂_imp_of_mem hroles fun m hm n hn => (hrole hm hn).1,
    fun hroles => forall₂_imp_of_mem hroles fun m hm n hn => (hrole hm hn).2⟩

def contentOf (fact : Json) : List UInt8 :=
  Record.content (recordOf fact).type (recordOf fact).fields (recordOf fact).predecessors

/-- The byte strings that are hashed when a document is taken apart. -/
def hashed (document : Json) : List (List UInt8) :=
  (facts document).map contentOf

/-- Facts with all those that they name, no two of different content under one reference. -/
structure IsCatalog (known : List Json) : Prop where
  accepted : ∀ fact ∈ known, isAccepted fact = true
  ordered : ∀ fact ∈ known, fact.isOrdered = true
  nested : ∀ fact ∈ known, ∀ below ∈ nested fact, below ∈ known
  content : ∀ x ∈ known, ∀ y ∈ known, (recordOf x).reference = (recordOf y).reference →
    contentOf x = contentOf y

/-- The facts in some documents are a catalog, if references tell their contents. -/
theorem isCatalog_of_documents {documents : List Json}
    (haccepted : ∀ document ∈ documents, isAccepted document = true)
    (horder : ∀ document ∈ documents, document.isOrdered = true)
    (hcontent : ∀ x ∈ documents.flatMap facts, ∀ y ∈ documents.flatMap facts,
      (recordOf x).reference = (recordOf y).reference → contentOf x = contentOf y) :
    IsCatalog (documents.flatMap facts) := by
  refine ⟨?_, ?_, ?_, hcontent⟩ <;> intro fact hfact <;>
    obtain ⟨document, hdocument, hmem⟩ := List.mem_flatMap.1 hfact
  · exact isAccepted_of_mem_facts (haccepted document hdocument) hmem
  · exact isOrdered_of_mem_facts (haccepted document hdocument) (horder document hdocument) hmem
  · intro below hbelow
    have hfacts := facts_sublist (haccepted document hdocument) hmem
    have hfact := isAccepted_of_mem_facts (haccepted document hdocument) hmem
    exact List.mem_flatMap.2
      ⟨document, hdocument, hfacts.subset (mem_facts_of_mem_nested hfact hbelow)⟩

theorem isAuthentic_recordOf (document : Json) : (recordOf document).IsAuthentic := by
  cases document <;> rfl

theorem content_eq_of_collisionFree {known : List Json}
    (h : Sha256.CollisionFree (known.map contentOf)) {x y : Json} (hx : x ∈ known) (hy : y ∈ known)
    (heq : (recordOf x).reference = (recordOf y).reference) : contentOf x = contentOf y :=
  (isAuthentic_recordOf x).bytes_eq (isAuthentic_recordOf y) h (List.mem_map_of_mem hx)
    (List.mem_map_of_mem hy) heq

theorem recordOf_object {members : Keyed Json} {type : String} (h : type? members = some type) :
    recordOf (.object members) = Record.ofContent type (fieldsOf members) (namedBy members) := by
  rw [recordOf, describe, h]
  rfl

namespace IsCatalog

variable {known : List Json}

theorem mem_of_mem_facts (h : IsCatalog known) {document fact : Json} (hdocument : document ∈ known)
    (hfact : fact ∈ facts document) : fact ∈ known :=
  forall_facts (P := (· ∈ known)) (fun above _ habove => h.nested above habove)
    (h.accepted document hdocument) hdocument fact hfact

/-- Two facts have the same reference exactly if they are alike. -/
theorem reference_eq_iff (h : IsCatalog known) {a b : Json} (ha : a ∈ known) (hb : b ∈ known) :
    (recordOf a).reference = (recordOf b).reference ↔ a.alike b = true := by
  refine facts_induction (P := fun a => a ∈ known → ∀ b ∈ known,
    ((recordOf a).reference = (recordOf b).reference ↔ a.alike b = true)) ?_ a
    (h.accepted a ha) ha b hb
  intro a haccepted ih ha b hb
  -- by induction the references below identify what they name
  have hbelow : ∀ x ∈ Document.nested a, ∀ y ∈ Document.nested b,
      ((recordOf x).reference = (recordOf y).reference ↔ x.alike y = true) :=
    fun x hx y hy => ih x hx (h.nested a ha x hx) y (h.nested b hb y hy)
  have hcontent := h.content a ha b hb
  have horder := h.ordered a ha
  have horder' := h.ordered b hb
  obtain ⟨as, type, rfl, htype, has⟩ := exists_members_of_isAccepted haccepted
  obtain ⟨bs, type', rfl, htype', hbs⟩ := exists_members_of_isAccepted (h.accepted b hb)
  rw [Json.isOrdered, Bool.and_eq_true, decide_eq_true_eq] at horder horder'
  rw [contentOf, contentOf, recordOf_object htype, recordOf_object htype'] at hcontent
  calc (recordOf (.object as)).reference = (recordOf (.object bs)).reference
      ↔ Record.content type (fieldsOf as) (namedBy as) =
          Record.content type' (fieldsOf bs) (namedBy bs) := by
        rw [recordOf_object htype, recordOf_object htype']
        exact ⟨hcontent, Record.reference_eq_of_content_eq⟩
    _ ↔ type = type' ∧ List.Forall₂ MemberAlike (fieldsOf as) (fieldsOf bs) ∧
          List.Forall₂ MemberAlike (rolesOf as) (rolesOf bs) := by
        rw [Record.content_eq_iff, Json.membersAlike_iff, namedBy_eq_iff has hbs hbelow]
    _ ↔ (Json.object as).alike (.object bs) = true := by
        constructor
        · rintro ⟨rfl, hfields, hroles⟩
          exact alike_of_parts horder.1 horder'.1 htype htype' hfields hroles
        · intro halike
          have hmembers := Json.membersAlike_iff.1 halike
          have heq := type?_eq_of_alike hmembers
          rw [htype, htype', Option.some.injEq] at heq
          exact ⟨heq, fieldsOf_alike hmembers, rolesOf_alike hmembers⟩

/-- No fact nested in a fact has its reference. -/
theorem reference_ne_of_below (h : IsCatalog known) {document fact : Json}
    (hdocument : document ∈ known) (hfact : fact ∈ (Document.nested document).flatMap facts) :
    (recordOf fact).reference ≠ (recordOf document).reference := by
  intro heq
  -- facts of one reference are alike and have as many facts in them, and a nested one has fewer
  obtain ⟨above, habove, hmem⟩ := List.mem_flatMap.1 hfact
  have haccepted := h.accepted document hdocument
  have habove' := h.nested document hdocument above habove
  have hfact' := h.mem_of_mem_facts habove' hmem
  have hsame := length_facts_eq_of_alike (h.accepted fact hfact') haccepted
    ((h.reference_eq_iff hfact' hdocument).1 heq)
  have hle := (facts_sublist (h.accepted above habove') hmem).length_le
  have hlt := length_facts_lt haccepted habove
  omega

/-- The record of a document comes last among those that it is taken apart into. -/
theorem addRecords_facts (h : IsCatalog known) {document : Json} (hdocument : document ∈ known) :
    addRecords [] ((facts document).map recordOf) =
      addRecords [] (((Document.nested document).flatMap facts).map recordOf) ++
        [recordOf document] := by
  rw [facts_eq (h.accepted document hdocument), List.map_append, addRecords_append,
    List.map_singleton, Store.addRecords_cons, if_neg]
  · rfl
  · intro hany
    obtain ⟨record, hrecord, heq⟩ := List.any_eq_true.1 hany
    obtain ⟨fact, hfact, rfl⟩ := List.mem_map.1 <|
      ((Store.addRecords_spec [] _).2.1 record hrecord).resolve_left (by simp)
    exact h.reference_ne_of_below hdocument hfact (of_decide_eq_true heq)

theorem referenceOf_eq (h : IsCatalog known) {document : Json} (hdocument : document ∈ known) :
    referenceOf document = .ok (recordOf document).reference := by
  rw [referenceOf, dehydrate, dehydrateFact_eq document (h.accepted document hdocument),
    h.addRecords_facts hdocument]
  simp [Except.map, bind, Except.bind, pure, Except.pure]

end IsCatalog

/-- The facts in a document are a catalog, if references tell their contents. -/
theorem isCatalog_facts {document : Json} (haccepted : isAccepted document = true)
    (horder : document.isOrdered = true)
    (hcontent : ∀ x ∈ facts document, ∀ y ∈ facts document,
      (recordOf x).reference = (recordOf y).reference → contentOf x = contentOf y) :
    IsCatalog (facts document) := by
  rw [← List.flatMap_singleton facts document] at hcontent ⊢
  exact isCatalog_of_documents (List.forall_mem_singleton.2 haccepted)
    (List.forall_mem_singleton.2 horder) hcontent

/-- A document has the reference of its record, if references tell the contents of the facts in
it. -/
theorem referenceOf_eq_of_content {document : Json} (haccepted : isAccepted document = true)
    (horder : document.isOrdered = true)
    (hcontent : ∀ x ∈ facts document, ∀ y ∈ facts document,
      (recordOf x).reference = (recordOf y).reference → contentOf x = contentOf y) :
    referenceOf document = .ok (recordOf document).reference :=
  (isCatalog_facts haccepted horder hcontent).referenceOf_eq (mem_facts_self haccepted)

/-- Two fact documents have the same reference exactly if they are alike, provided that the byte
strings hashed for them do not collide; and these byte strings tell type, fields and predecessors
of a fact. -/
theorem referenceOf_eq_iff_alike {a b : Json} (horder : a.isOrdered = true)
    (horder' : b.isOrdered = true) {root root' : Reference} (ha : referenceOf a = .ok root)
    (hb : referenceOf b = .ok root')
    (hfree : Sha256.CollisionFree (hashed a ++ hashed b)) :
    (referenceOf a = referenceOf b ↔ a.alike b = true) ∧
      ∀ type type' fields fields' predecessors predecessors',
        Record.content type fields predecessors = Record.content type' fields' predecessors' ↔
          type = type' ∧ Json.membersAlike fields fields' = true ∧
            predecessors = predecessors' := by
  refine ⟨?_, fun _ _ _ _ _ _ => Record.content_eq_iff⟩
  have haccepted := isAccepted_of_referenceOf ha
  have haccepted' := isAccepted_of_referenceOf hb
  have hhashed : ([a, b].flatMap facts).map contentOf = hashed a ++ hashed b := by
    simp [hashed]
  have hcatalog : IsCatalog ([a, b].flatMap facts) := by
    refine isCatalog_of_documents (by simp [haccepted, haccepted']) (by simp [horder, horder']) ?_
    intro x hx y hy
    exact content_eq_of_collisionFree (hhashed ▸ hfree) hx hy
  have hmem : a ∈ [a, b].flatMap facts := by simp [mem_facts_self haccepted]
  have hmem' : b ∈ [a, b].flatMap facts := by simp [mem_facts_self haccepted']
  rw [hcatalog.referenceOf_eq hmem, hcatalog.referenceOf_eq hmem', Except.ok.injEq,
    hcatalog.reference_eq_iff hmem hmem']

def single : Json :=
  .object [("list", .object [("name", .string "a"), ("type", .string "List")]),
    ("type", .string "Task")]

def listed : Json :=
  .object [("list", .array [.object [("name", .string "a"), ("type", .string "List")]]),
    ("type", .string "Task")]

theorem referenceOf_single_ne_listed : referenceOf single ≠ referenceOf listed := by
  have haccepted : isAccepted single = true := by decide +kernel
  have haccepted' : isAccepted listed = true := by decide +kernel
  obtain ⟨root, hroot⟩ := exists_referenceOf haccepted
  obtain ⟨root', hroot'⟩ := exists_referenceOf haccepted'
  have hiff := (referenceOf_eq_iff_alike (by decide +kernel) (by decide +kernel) hroot hroot'
    (by decide +kernel)).1
  exact fun h => absurd (hiff.1 h) (by decide +kernel)

end Document

end LiveFacts
