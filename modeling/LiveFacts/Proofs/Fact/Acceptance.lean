import LiveFacts.Proofs.Fact.Identity

/-!
# Which documents are accepted, and what they give

A document is accepted if it is a fact, and no list under a key of a fact in it holds facts beside
other values; what stands in a plain value is not looked at. An accepted document gives records
under the hashes of their contents, no reference twice, each after the records that it names. As
long as the hashes do not collide, the record of the document itself is not among those that were
met before, and so it is the last.
-/

namespace LiveFacts.Document

/-- The value is the document, or a fact that stands under a key of a fact in the document, alone or
in a list. -/
inductive Includes (document : Json) : Json → Prop
  | itself : Includes document document
  | alone {members : Keyed Json} {key : String} {value : Json} :
      Includes document (.object members) → (key, value) ∈ members → isFact value = true →
      Includes document value
  | listed {members : Keyed Json} {key : String} {items : List Json} {item : Json} :
      Includes document (.object members) → (key, .array items) ∈ members → item ∈ items →
      isFact item = true → Includes document item

theorem Includes.trans {document fact value : Json} (h : Includes document fact)
    (hinner : Includes fact value) : Includes document value := by
  induction hinner with
  | itself => exact h
  | alone _ hmember hfact ih => exact ih.alone hmember hfact
  | listed _ hmember hitem hfact ih => exact ih.listed hmember hitem hfact

def Mixes (items : List Json) : Prop :=
  (∃ item ∈ items, isFact item = true) ∧ ∃ item ∈ items, isFact item = false

/-- No list under a key of a fact in the document mixes facts with other values. -/
def IsUnmixed (document : Json) : Prop :=
  ∀ members key items, Includes document (.object members) → (key, .array items) ∈ members →
    ¬ Mixes items

theorem IsUnmixed.of_includes {document fact : Json} (h : IsUnmixed document)
    (hfact : Includes document fact) : IsUnmixed fact :=
  fun members key items hinner => h members key items (hfact.trans hinner)

theorem isFact_object_iff {members : Keyed Json} :
    isFact (.object members) = true ↔
      ∃ type, Keyed.find? "type" members = some (.string type) := by
  rw [isFact, Option.isSome_iff_exists]
  refine exists_congr fun type => ?_
  rw [type?, Option.bind_eq_some_iff]
  constructor
  · rintro ⟨value, hfind, hstring⟩
    cases value <;> simp_all [Json.string?]
  · intro hfind
    exact ⟨_, hfind, rfl⟩

/-- In a fact, only a string stands under the key of its type. -/
theorem isRole_of_mem {members : Keyed Json} (horder : (Json.object members).isOrdered = true)
    (hfact : isFact (.object members) = true) {key : String} {value : Json}
    (hmember : (key, value) ∈ members)
    (hvalue : isFact value = true ∨ ∃ items, value = .array items ∧ items.any isFact = true) :
    isRole (key, value) = true := by
  have hkey : key ≠ "type" := by
    rintro rfl
    rw [Json.isOrdered, Bool.and_eq_true, decide_eq_true_eq] at horder
    obtain ⟨type, htype⟩ := isFact_object_iff.1 hfact
    rw [(Keyed.find?_eq_some_iff horder.1.nodup).2 hmember, Option.some.injEq] at htype
    subst htype
    simp [isFact] at hvalue
  rcases hvalue with hvalue | ⟨items, rfl, hany⟩
  · cases value with
    | object inner => simp [isRole, hkey, hvalue]
    | null | bool _ | int _ | float _ | string _ | array _ => cases hvalue
  · simp [isRole, hkey, hany]

theorem isAccepted_of_includes {document fact : Json} (horder : document.isOrdered = true)
    (haccepted : isAccepted document = true) (h : Includes document fact) :
    isAccepted fact = true ∧ fact.isOrdered = true := by
  have hnested {members : Keyed Json} {key : String} {value below : Json}
      (hmember : (key, value) ∈ members)
      (hvalue : isFact value = true ∨ ∃ items, value = .array items ∧ items.any isFact = true)
      (hbelow : below ∈ heads value)
      (h : isAccepted (.object members) = true ∧ (Json.object members).isOrdered = true) :
      isAccepted below = true ∧ below.isOrdered = true := by
    have hrole := isRole_of_mem h.2 (isFact_of_isAccepted h.1) hmember hvalue
    have hmem : below ∈ nested (.object members) :=
      List.mem_flatMap.2 ⟨_, List.mem_filter.2 ⟨hmember, hrole⟩, hbelow⟩
    exact ⟨isAccepted_of_mem_nested h.1 hmem, isOrdered_of_mem_nested h.2 hmem⟩
  induction h with
  | itself => exact ⟨haccepted, horder⟩
  | @alone members key value _ hmember hfact ih =>
    refine hnested hmember (Or.inl hfact) ?_ ih
    cases value with
    | object inner => exact List.mem_singleton_self _
    | null | bool _ | int _ | float _ | string _ | array _ => cases hfact
  | @listed members key items item _ hmember hitem hfact ih =>
    exact hnested hmember (Or.inr ⟨items, rfl, List.any_eq_true.2 ⟨item, hitem, hfact⟩⟩) hitem ih

theorem isUnmixed_of_isAccepted {document : Json} (horder : document.isOrdered = true)
    (haccepted : isAccepted document = true) : IsUnmixed document := by
  rintro members key items hincludes hmember ⟨⟨item, hitem, hfact⟩, other, hother, hplain⟩
  -- by the first item the other would be a fact of the document as well
  obtain ⟨haccepted', horder'⟩ := isAccepted_of_includes horder haccepted hincludes
  have hrole := isRole_of_mem horder' (isFact_of_isAccepted haccepted') hmember
    (Or.inr ⟨items, rfl, List.any_eq_true.2 ⟨item, hitem, hfact⟩⟩)
  have hmem : other ∈ nested (.object members) :=
    List.mem_flatMap.2 ⟨_, List.mem_filter.2 ⟨hmember, hrole⟩, hother⟩
  rw [isFact_of_isAccepted (isAccepted_of_mem_nested haccepted' hmem)] at hplain
  cases hplain

theorem isAccepted_of_isUnmixed (document : Json) (hfact : isFact document = true)
    (h : IsUnmixed document) : isAccepted document = true := by
  match document with
  | .object members =>
    rw [isAccepted, Bool.and_eq_true, membersAccepted_eq, List.all_eq_true]
    refine ⟨hfact, fun ⟨key, value⟩ hrole => ?_⟩
    obtain ⟨hmember, hrole⟩ := List.mem_filter.1 hrole
    have hvalue := (Bool.and_eq_true_iff.1 hrole).2
    have hsmall := List.sizeOf_lt_of_mem hmember
    match value with
    | .object inner =>
      have hinner := Includes.itself.alone hmember hvalue
      have haccepted := isAccepted_of_isUnmixed (.object inner) hvalue (h.of_includes hinner)
      exact (Bool.and_eq_true_iff.1 haccepted).2
    | .array items =>
      have hall : ∀ item ∈ items, isFact item = true := by
        intro item hitem
        by_contra hplain
        obtain ⟨other, hother, hfact'⟩ := List.any_eq_true.1 hvalue
        exact h members key items .itself hmember
          ⟨⟨other, hother, hfact'⟩, item, hitem, by simpa using hplain⟩
      rw [roleAccepted, itemsAccepted_eq, List.all_eq_true]
      intro item hitem
      have hsmaller := List.sizeOf_lt_of_mem hitem
      have hinner := Includes.itself.listed hmember hitem (hall item hitem)
      exact isAccepted_of_isUnmixed item (hall item hitem) (h.of_includes hinner)
    | .null | .bool _ | .int _ | .float _ | .string _ => cases hvalue
  | .null | .bool _ | .int _ | .float _ | .string _ | .array _ => cases hfact
termination_by sizeOf document
decreasing_by
  all_goals simp only [Json.object.sizeOf_spec, Json.array.sizeOf_spec, Prod.mk.sizeOf_spec] at *
  all_goals omega

theorem isAccepted_iff {document : Json} (horder : document.isOrdered = true) :
    isAccepted document = true ↔ isFact document = true ∧ IsUnmixed document :=
  ⟨fun h => ⟨isFact_of_isAccepted h, isUnmixed_of_isAccepted horder h⟩,
    fun h => isAccepted_of_isUnmixed document h.1 h.2⟩

theorem dehydrate_eq {document : Json} (h : isAccepted document = true) :
    dehydrate document = .ok (addRecords [] ((facts document).map recordOf)) := by
  rw [dehydrate, dehydrateFact_eq document h]
  rfl

theorem dehydrate_isOk_iff {document : Json} :
    (∃ records, dehydrate document = .ok records) ↔ isAccepted document = true := by
  constructor
  · rintro ⟨records, h⟩
    obtain ⟨result, hresult, -⟩ := map_eq_ok.1 h
    exact isAccepted_of_dehydrateFact document hresult
  · intro h
    exact ⟨_, dehydrate_eq h⟩

theorem exists_earlier_of_areGrounded {records : List Record}
    (h : Record.AreGrounded (fun _ => False) records) {earlier later : List Record}
    {record : Record} (heq : records = earlier ++ record :: later) :
    ∀ fact ∈ record.named, ∃ other ∈ earlier, other.reference = fact := by
  rw [heq, Record.areGrounded_append] at h
  intro fact hfact
  exact (h.2.2.1 fact hfact).resolve_left id

theorem getLast?_addRecords_facts {document : Json} (haccepted : isAccepted document = true)
    (horder : document.isOrdered = true) (hfree : Sha256.CollisionFree (hashed document)) :
    (addRecords [] ((facts document).map recordOf)).getLast? = some (recordOf document) := by
  have hcatalog := isCatalog_facts haccepted horder fun x hx y hy =>
    content_eq_of_collisionFree hfree hx hy
  rw [hcatalog.addRecords_facts (mem_facts_self haccepted), List.getLast?_concat]

/-- A document is accepted exactly if it is an object with a string for its type, and no list under
a key of a fact in it mixes facts with other values. It gives records in an order in which each
comes after those that it names, no two under one reference, and each under the hash of its content;
the last one is that of the document itself, if the byte strings hashed for it do not collide. -/
theorem dehydrate_isOk_iff_and_ordered {document : Json} (horder : document.isOrdered = true) :
    ((∃ records, dehydrate document = .ok records) ↔
      (∃ members type, document = .object members ∧
        Keyed.find? "type" members = some (.string type)) ∧
      ∀ members key items, Includes document (.object members) → (key, .array items) ∈ members →
        ¬ Mixes items) ∧
    ∀ records, dehydrate document = .ok records →
      (∀ earlier record later, records = earlier ++ record :: later →
        ∀ fact ∈ record.named, ∃ other ∈ earlier, other.reference = fact) ∧
      (records.map Record.reference).Nodup ∧
      (∀ record ∈ records, record.IsAuthentic) ∧
      (Sha256.CollisionFree (hashed document) →
        records.getLast? = some (recordOf document)) := by
  refine ⟨?_, fun records hrecords => ?_⟩
  · rw [dehydrate_isOk_iff, isAccepted_iff horder]
    refine and_congr_left fun _ => ?_
    cases document with
    | object members => simp [isFact_object_iff]
    | null | bool _ | int _ | float _ | string _ | array _ => simp [isFact]
  · have haccepted := dehydrate_isOk_iff.1 ⟨records, hrecords⟩
    obtain ⟨⟨_, root⟩, hresult, rfl⟩ := map_eq_ok.1 hrecords
    have hgrounded := areGrounded_dehydrateFact (Json.isKeyed_of_isOrdered document horder) hresult
    refine ⟨fun earlier record later heq => exists_earlier_of_areGrounded hgrounded heq, ?_,
      isAuthentic_of_dehydrateFact hresult, fun hfree => ?_⟩
    all_goals
      rw [dehydrate_eq haccepted, Except.ok.injEq] at hrecords
      rw [← hrecords]
    · exact (Store.addRecords_spec [] _).2.2.2 List.nodup_nil
    · exact getLast?_addRecords_facts haccepted horder hfree

def board : Json :=
  let groceries := Json.object [("type", .string "List")]
  .object
    [("list", groceries), ("notes", .array [.string "a", .object []]),
      ("task", .object [("list", groceries), ("type", .string "Task")]), ("type", .string "Board")]

def mixture : Json :=
  .object
    [("items", .array [.object [("type", .string "Task")], .int 3]), ("type", .string "List")]

/-- The list is given once, although it is named twice, and the board comes last; a list that
mixes facts with other values is refused. -/
theorem dehydrate_board :
    (∃ records, dehydrate board = .ok records ∧ records.length = 3 ∧
      (records.map Record.reference).Nodup ∧ records.getLast? = some (recordOf board)) ∧
    ¬ ∃ records, dehydrate mixture = .ok records := by
  have horder : board.isOrdered = true := by decide +kernel
  have horder' : mixture.isOrdered = true := by decide +kernel
  have hfree : Sha256.CollisionFree (hashed board) := by decide +kernel
  have hlength : (dehydrate board).toOption.map List.length = some 3 := by decide +kernel
  refine ⟨?_, fun hrefused => ?_⟩
  · cases hrecords : dehydrate board with
    | error fault =>
      rw [hrecords] at hlength
      cases hlength
    | ok records =>
      rw [hrecords] at hlength
      obtain ⟨-, hnodup, -, hlast⟩ := (dehydrate_isOk_iff_and_ordered horder).2 records hrecords
      exact ⟨records, rfl, Option.some.inj hlength, hnodup, hlast hfree⟩
  · refine ((dehydrate_isOk_iff_and_ordered horder').1.1 hrefused).2 _ "items" _ .itself
      List.mem_cons_self ⟨⟨_, List.mem_cons_self, rfl⟩, .int 3, by simp, rfl⟩

end LiveFacts.Document
