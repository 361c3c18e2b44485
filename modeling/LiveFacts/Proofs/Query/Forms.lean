import LiveFacts.Proofs.Fact.Descriptions
import LiveFacts.Proofs.Json.Readings
import LiveFacts.Query.Json

/-!
# What the forms of facts and queries keep

A form is read back as the value that it is the form of, whatever the value. For what stands under
a role this takes a look at the shapes: a reference may also be given as an array of two strings,
but the items of a list are objects, so that no list passes for a reference, not even one of two.

The text of a form is read back up to the depth to which texts are read at all. What nests deeper is
written like any other, and its text is refused.
-/

namespace LiveFacts

/-- An array that passes for a reference has a type and a hash, and nothing more. -/
theorem Reference.ofJson?_array {items : List Json} {reference : Reference} :
    ofJson? (.array items) = some reference ↔
      items = [.string reference.type, .string reference.hash] := by
  refine ⟨fun h => ?_, fun h => h ▸ rfl⟩
  rw [ofJson?] at h
  split at h
  · next type hash hfields =>
    cases h
    rw [Json.fields?] at hfields
    split at hfields
    · exact Option.some.inj hfields
    · cases hfields
  · cases h

namespace Predecessors

/-- No list of references passes for a reference. -/
theorem reference_ofJson?_many (references : List Reference) :
    Reference.ofJson? (many references).toJson = none := by
  refine Option.eq_none_iff_forall_ne_some.2 fun reference h => ?_
  have hitems := Reference.ofJson?_array.1 h
  -- where a reference has strings, a list has objects
  cases references with
  | nil => cases hitems
  | cons first rest => cases hitems

theorem ofJson?_toJson (named : Predecessors) : ofJson? named.toJson = some named := by
  cases named with
  | one reference => rw [ofJson?, toJson, Reference.ofJson?_toJson]
  | many references =>
    rw [ofJson?, reference_ofJson?_many]
    simp only [toJson, Json.array?, Option.bind_eq_bind, Option.bind_some,
      mapM_map_eq_some Reference.ofJson?_toJson, Option.pure_def]

end Predecessors

namespace Record

theorem predecessorsOfJson?_toJson (named : Keyed Predecessors) :
    predecessorsOfJson? (.object (named.map fun (role, p) => (role, p.toJson))) = some named := by
  rw [predecessorsOfJson?, Json.object?, Option.bind_eq_bind, Option.bind_some]
  exact mapM_map_eq_some (fun entry => by simp [Predecessors.ofJson?_toJson]) named

theorem ofJson?_toJson (record : Record) : ofJson? record.toJson = some record := by
  have hfields : record.toJson.fields? ["type", "hash", "fields", "predecessors"] =
      some [.string record.type, .string record.hash, .object record.fields,
        .object (record.predecessors.map fun (role, p) => (role, p.toJson))] := rfl
  simp only [ofJson?, hfields, predecessorsOfJson?_toJson]
  rfl

end Record

theorem Quantifier.ofJson?_toJson (quantifier : Quantifier) :
    ofJson? quantifier.toJson = some quantifier := by
  cases quantifier <;> rfl

namespace Step

mutual

theorem ofJson?_toJson (step : Step) : ofJson? step.toJson = some step := by
  match step with
  | field _ | successor _ | predecessor _ => rfl
  | existential quantifier steps =>
    have hquantifier := Quantifier.ofJson?_toJson quantifier
    have hsteps := ofItems?_listToJson steps
    simp [toJson, ofJson?, Keyed.find?, stepsMember?, listOfJson?, hquantifier, hsteps]

theorem ofItems?_listToJson (steps : List Step) : ofItems? (listToJson steps) = some steps := by
  match steps with
  | [] => rfl
  | step :: rest =>
    rw [listToJson, ofItems?, ofJson?_toJson step, ofItems?_listToJson rest]
    rfl

end

end Step

theorem Query.ofJson?_toJson (query : Query) : ofJson? query.toJson = some query := by
  have hfields : query.toJson.fields? ["steps"] = some [.array (Step.listToJson query)] := rfl
  simp only [ofJson?, hfields]
  exact Step.ofItems?_listToJson query

namespace Inverse

theorem queryOrNullOfJson?_toJson (query? : Option Query) :
    queryOrNullOfJson? (query?.elim .null Query.toJson) = some query? := by
  cases query? with
  | none => rfl
  | some query =>
    have hquery : queryOrNullOfJson? query.toJson = (Query.ofJson? query.toJson).map some := rfl
    rw [Option.elim_some, hquery, Query.ofJson?_toJson, Option.map_some]

theorem typeOfJson?_toJson (type? : Option String) :
    typeOfJson? (type?.elim .null .string) = some type? := by
  cases type? <;> rfl

theorem ofJson?_toJson (inverse : Inverse) : ofJson? inverse.toJson = some inverse := by
  have hvalue : ofJson? inverse.toJson = (do
      let type? ← typeOfJson? (inverse.type?.elim .null .string)
      let affected ← Query.ofJson? inverse.affected.toJson
      let added ← queryOrNullOfJson? (inverse.added.elim .null Query.toJson)
      let removed ← queryOrNullOfJson? (inverse.removed.elim .null Query.toJson)
      return ⟨type?, affected, added, removed⟩) := rfl
  rw [hvalue, typeOfJson?_toJson, Query.ofJson?_toJson, queryOrNullOfJson?_toJson,
    queryOrNullOfJson?_toJson]
  rfl

end Inverse

theorem Reference.writes_toJson (reference : Reference) :
    reference.toJson.Writes reference.toJson := by
  have hkeys : Keyed.IsSorted [("hash", Json.null), ("type", .null)] := by decide
  exact .object (hkeys.of_keys_eq rfl) (by simp [Json.Writes.string])

theorem Predecessors.writes_toJson (named : Predecessors) : named.toJson.Writes named.toJson := by
  cases named with
  | one reference => exact reference.writes_toJson
  | many references =>
    refine .array fun item hitem => ?_
    obtain ⟨reference, -, rfl⟩ := List.mem_map.1 hitem
    exact reference.writes_toJson

/-- The form of a record whose numbers read back is one of the values that can be written for it. -/
theorem Record.writes_toJson {record : Record} (horder : record.IsOrdered)
    (hnumbers : Json.membersReadBack record.fields = true) :
    record.toJson.Writes record.toJson := by
  have hkeys : Keyed.IsSorted
      [("fields", Json.null), ("hash", .null), ("predecessors", .null), ("type", .null)] := by
    decide
  have hfields : (Json.object record.fields).Writes (.object record.fields) :=
    .of_isOrdered (by simp [Json.isOrdered, horder.fields, horder.values]) hnumbers
  have hroles : Keyed.IsSorted (record.predecessors.map fun (role, p) => (role, p.toJson)) :=
    horder.roles.of_keys_eq (by simp)
  refine .object (hkeys.of_keys_eq rfl) ?_
  simp only [List.forall_mem_cons]
  refine ⟨hfields, .string _, .object hroles fun member hmember => ?_, .string _, by simp⟩
  obtain ⟨entry, -, rfl⟩ := List.mem_map.1 hmember
  exact entry.2.writes_toJson

namespace Step

mutual

theorem writes_toJson (step : Step) : step.toJson.Writes step.toJson := by
  match step with
  | field _ | successor _ | predecessor _ =>
    exact .object (List.pairwise_singleton _ _) (by simp [Json.Writes.string])
  | existential quantifier steps =>
    have hkeys : Keyed.IsSorted [("quantifier", Json.null), ("steps", .null)] := by decide
    have hsteps : (Json.array (listToJson steps)).Writes (.array (listToJson steps)) :=
      .array (writes_listToJson steps)
    refine .object (List.pairwise_singleton _ _) (List.forall_mem_singleton.2 ?_)
    exact .object (hkeys.of_keys_eq rfl) (by simp [Quantifier.toJson, Json.Writes.string, hsteps])

theorem writes_listToJson (steps : List Step) :
    ∀ item ∈ listToJson steps, item.Writes item := by
  match steps with
  | [] => simp [listToJson]
  | step :: rest => exact List.forall_mem_cons.2 ⟨writes_toJson step, writes_listToJson rest⟩

end

end Step

theorem Query.writes_toJson (query : Query) : query.toJson.Writes query.toJson :=
  .object (List.pairwise_singleton _ _)
    (List.forall_mem_singleton.2 (.array (Step.writes_listToJson query)))

theorem Inverse.writes_toJson (inverse : Inverse) : inverse.toJson.Writes inverse.toJson := by
  have hkeys : Keyed.IsSorted
      [("added", Json.null), ("affected", .null), ("fact_type", .null), ("removed", .null)] := by
    decide
  have hquery (query? : Option Query) : (query?.elim Json.null Query.toJson).Writes
      (query?.elim Json.null Query.toJson) := by
    cases query? with
    | none => exact .null
    | some query => exact query.writes_toJson
  have htype : (inverse.type?.elim Json.null .string).Writes
      (inverse.type?.elim Json.null .string) := by
    cases inverse.type? with
    | none => exact .null
    | some type => exact .string type
  refine .object (hkeys.of_keys_eq rfl) ?_
  simp only [List.forall_mem_cons]
  exact ⟨hquery _, inverse.affected.writes_toJson, htype, hquery _, by simp⟩

/-- Decoding a form gives back the value, and different values have different texts, however deep
they nest. -/
structure KeepsAll {α : Type} (toJson : α → Json) (ofJson? : Json → Option α) : Prop where
  decoded : ∀ value, ofJson? (toJson value) = some value
  told : ∀ (a b : α) (written other : Json), written.Writes (toJson a) → other.Writes (toJson b) →
    written.text = other.text → a = b

/-- A text of a form is decoded as the value if it nests no deeper than the limit, and refused if it
does. -/
def ReadsUpTo {α : Type} (limit : Nat) (toJson : α → Json) (ofJson? : Json → Option α) : Prop :=
  ∀ (value : α) (written : Json), written.Writes (toJson value) →
    (Json.read? written.text).bind ofJson? = if written.depth ≤ limit then some value else none

section Kept

variable {α : Type} {toJson : α → Json} {ofJson? : Json → Option α}

theorem toJson_injective_of_decoded (h : ∀ value, ofJson? (toJson value) = some value) :
    Function.Injective toJson := fun a b heq =>
  Option.some.inj ((h a).symm.trans ((congrArg ofJson? heq).trans (h b)))

theorem keepsAll_of_decoded (h : ∀ value, ofJson? (toJson value) = some value) :
    KeepsAll toJson ofJson? where
  decoded := h
  told _ _ _ _ ha hb htext := toJson_injective_of_decoded h (ha.eq_of_text_eq hb htext)

theorem readsUpTo_of_decoded (h : ∀ value, ofJson? (toJson value) = some value) :
    ReadsUpTo Json.nestingLimit toJson ofJson? := by
  intro value written hwritten
  rw [hwritten.read?_eq]
  by_cases hdepth : written.depth ≤ Json.nestingLimit
  · rw [if_pos hdepth, if_pos hdepth, Option.bind_some, h]
  · rw [if_neg hdepth, if_neg hdepth, Option.bind_none]

end Kept

/-- Forms of records, queries and inverses keep all of them at any depth. They are written, those of
records if their numbers read back, and a text of a form is read as the value exactly if it nests no
deeper than texts are read. A record that was decoded is known by the hash of its content exactly
if the original is, and one reference never passes for a list. -/
theorem forms_keep_all :
    KeepsAll Record.toJson Record.ofJson? ∧ KeepsAll Query.toJson Query.ofJson? ∧
      KeepsAll Inverse.toJson Inverse.ofJson? ∧ KeepsAll Predecessors.toJson Predecessors.ofJson? ∧
      (∀ record : Record, record.IsOrdered → Json.membersReadBack record.fields = true →
        record.toJson.Writes record.toJson) ∧
      (∀ query : Query, query.toJson.Writes query.toJson) ∧
      (∀ inverse : Inverse, inverse.toJson.Writes inverse.toJson) ∧
      ReadsUpTo Json.nestingLimit Record.toJson Record.ofJson? ∧
      ReadsUpTo Json.nestingLimit Query.toJson Query.ofJson? ∧
      ReadsUpTo Json.nestingLimit Inverse.toJson Inverse.ofJson? ∧
      (∀ (text : String) (record : Record),
        (Json.read? text).bind Record.ofJson? = some record → record.IsOrdered) ∧
      (∀ record decoded : Record,
        (Record.ofJson? record.toJson = some decoded ∨
          ∃ written : Json, written.Writes record.toJson ∧
            (Json.read? written.text).bind Record.ofJson? = some decoded) →
        (decoded.IsAuthentic ↔ record.IsAuthentic)) ∧
      ∀ (reference : Reference) (references : List Reference),
        (Predecessors.one reference).toJson ≠ (Predecessors.many references).toJson := by
  have hrecords := readsUpTo_of_decoded Record.ofJson?_toJson
  refine ⟨keepsAll_of_decoded Record.ofJson?_toJson, keepsAll_of_decoded Query.ofJson?_toJson,
    keepsAll_of_decoded Inverse.ofJson?_toJson, keepsAll_of_decoded Predecessors.ofJson?_toJson,
    fun _ => Record.writes_toJson, Query.writes_toJson, Inverse.writes_toJson, hrecords,
    readsUpTo_of_decoded Query.ofJson?_toJson, readsUpTo_of_decoded Inverse.ofJson?_toJson,
    fun text record h => ?_, fun record decoded h => ?_, fun reference references heq => ?_⟩
  · obtain ⟨value, hvalue, hrecord⟩ := Option.bind_eq_some_iff.1 h
    exact Record.isOrdered_of_ofJson? (Json.isOrdered_of_read? hvalue) hrecord
  · suffices hsame : decoded = record by rw [hsame]
    obtain h | ⟨written, hwritten, h⟩ := h
    · exact Option.some.inj (h.symm.trans record.ofJson?_toJson)
    · rw [hrecords record written hwritten] at h
      split at h
      · exact (Option.some.inj h).symm
      · cases h
  · cases toJson_injective_of_decoded Predecessors.ofJson?_toJson heq

/-- A record with a single reference and lists of none, one and two, written with its members in
another order, and a query with a condition inside a condition. -/
theorem forms_keep_task_and_condition :
    let list : Reference := ⟨"List", "l1"⟩
    let record : Record :=
      ⟨"Task", "t1", [("done", .bool false), ("share", .float ⟨false, 0x3FE0000000000000⟩)],
        [("list", .one list), ("prior", .many []), ("shared", .many [list]),
          ("visited", .many [list, list])]⟩
    let one : Json := .object [("type", .string "List"), ("hash", .string "l1")]
    let written : Json := .object
      [("type", .string "Task"), ("hash", .string "t1"),
        ("fields", .object [("share", .float ⟨false, 0x3FE0000000000000⟩), ("done", .bool false)]),
        ("predecessors",
          .object [("visited", .array [one, one]), ("shared", .array [one]), ("prior", .array []),
            ("list", one)])]
    let query : Query :=
      [.existential .absent [.successor "task", .existential .present [.field "Done"]]]
    written.Writes record.toJson ∧
      (Json.read? written.text).bind Record.ofJson? = some record ∧
      (Json.read? query.toJson.text).bind Query.ofJson? = some query := by
  intro list record one written query
  have hwritten : written.Writes record.toJson := ⟨by decide +kernel, by decide +kernel⟩
  obtain ⟨-, -, -, -, -, -, -, hrecords, hqueries, -⟩ := forms_keep_all
  refine ⟨hwritten, ?_, ?_⟩
  · rw [hrecords record written hwritten]
    exact if_pos (by decide)
  · rw [hqueries query query.toJson query.writes_toJson]
    exact if_pos (by decide)

def Json.nested : Nat → Json
  | 0 => .null
  | depth + 1 => .array [nested depth]

def Query.nested : Nat → Query
  | 0 => []
  | depth + 1 => [.existential .present (nested depth)]

/-- A record with a field that nests 126 deep, and a query of 42 conditions one inside another, are
written down, but what is written cannot be read. -/
theorem deep_forms_refused :
    let note : Record := ⟨"Note", "n1", [("v", Json.nested 126)], []⟩
    let query : Query := Query.nested 42
    note.toJson.Writes note.toJson ∧ query.toJson.Writes query.toJson ∧
      (Json.read? note.toJson.text).bind Record.ofJson? = none ∧
      (Json.read? query.toJson.text).bind Query.ofJson? = none := by
  intro note query
  have hnote : note.toJson.Writes note.toJson := ⟨by decide +kernel, by decide +kernel⟩
  have hquery : query.toJson.Writes query.toJson := query.writes_toJson
  have hnoted : ¬ note.toJson.depth ≤ Json.nestingLimit := by decide +kernel
  have hqueried : ¬ query.toJson.depth ≤ Json.nestingLimit := by decide +kernel
  refine ⟨hnote, hquery, ?_, ?_⟩
  · rw [hnote.read?_eq, if_neg hnoted, Option.bind_none]
  · rw [hquery.read?_eq, if_neg hqueried, Option.bind_none]

end LiveFacts
