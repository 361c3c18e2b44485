import LiveFacts.Proofs.Store.Reversals
import LiveFacts.Proofs.Template.Meaning
import Mathlib.Data.List.Induction

/-!
# One query after another

A run takes every path one step further before it takes the next step, keeps paths apart that end in
the same fact, and gives up as soon as one of them fails. All the same, a query followed by another
finds what the other finds from each of the facts that the first one finds, taken once each and in
their order, and it fails if the first one does or if the other does from one of these facts.
-/

namespace LiveFacts

theorem mem_distinct {references : List Reference} {fact : Reference} :
    fact ∈ distinct references ↔ fact ∈ references :=
  (distinct_spec references).2 fact

theorem distinct_concat (references : List Reference) (fact : Reference) :
    distinct (references ++ [fact]) =
      if fact ∈ references then distinct references else distinct references ++ [fact] := by
  have hadd : distinct (references ++ [fact]) =
      if (distinct references).contains fact then distinct references
      else distinct references ++ [fact] := List.foldl_concat _ _ _ _
  rw [hadd]
  simp only [List.contains_iff_mem, mem_distinct]

theorem distinct_append_distinct (p q : List Reference) :
    distinct (p ++ distinct q) = distinct (p ++ q) := by
  induction q using List.reverseRecOn with
  | nil => rfl
  | append_singleton q fact ih =>
    rw [distinct_concat, ← List.append_assoc, distinct_concat]
    by_cases hfact : fact ∈ q
    · rw [if_pos hfact, if_pos (List.mem_append_right p hfact), ih]
    · rw [if_neg hfact, ← List.append_assoc, distinct_concat, ih]
      simp only [List.mem_append, mem_distinct]

theorem distinct_distinct_append (p q : List Reference) :
    distinct (distinct p ++ q) = distinct (p ++ q) := by
  induction q using List.reverseRecOn with
  | nil => simpa using distinct_append_distinct [] p
  | append_singleton q fact ih =>
    rw [← List.append_assoc, ← List.append_assoc, distinct_concat, distinct_concat, ih]
    simp only [List.mem_append, mem_distinct]

theorem distinct_append_of_subset {p q : List Reference} (h : q ⊆ p) :
    distinct (p ++ q) = distinct p := by
  induction q using List.reverseRecOn with
  | nil => rw [List.append_nil]
  | append_singleton q fact ih =>
    obtain ⟨hq, hfact⟩ := List.append_subset.1 h
    have hmem : fact ∈ p := hfact List.mem_cons_self
    rw [← List.append_assoc, distinct_concat, if_pos (List.mem_append_left q hmem), ih hq]

/-- What comes again in a list, and what comes again among what its members give, changes nothing in
all that is given. -/
theorem distinct_flatMap (references : List Reference) (f : Reference → List Reference) :
    distinct (references.flatMap f) =
      distinct ((distinct references).flatMap fun fact => distinct (f fact)) := by
  induction references using List.reverseRecOn with
  | nil => rfl
  | append_singleton references fact ih =>
    rw [List.flatMap_append, List.flatMap_singleton, distinct_concat]
    by_cases hfact : fact ∈ references
    · rw [if_pos hfact, ← ih]
      exact distinct_append_of_subset fun _ hmem => List.mem_flatMap.2 ⟨fact, hfact, hmem⟩
    · rw [if_neg hfact, List.flatMap_append, List.flatMap_singleton, distinct_append_distinct,
        ← distinct_distinct_append, ih, distinct_distinct_append]

section Collected

variable {α β γ : Type}

/-- What all members of a list give, one after another, unless one of them gives nothing. -/
def collect? (f : α → Option (List β)) : List α → Option (List β)
  | [] => some []
  | a :: rest => do
    let first ← f a
    let others ← collect? f rest
    return first ++ others

theorem collect?_cons (f : α → Option (List β)) (a : α) (rest : List α) :
    collect? f (a :: rest) =
      (f a).bind fun first => (collect? f rest).map fun others => first ++ others := by
  rw [collect?]
  cases f a <;> cases collect? f rest <;> rfl

theorem collect?_singleton (f : α → Option (List β)) (a : α) : collect? f [a] = f a := by
  rw [collect?_cons]
  cases f a <;> simp [collect?]

theorem collect?_append (f : α → Option (List β)) (p q : List α) :
    collect? f (p ++ q) =
      (collect? f p).bind fun first => (collect? f q).map fun others => first ++ others := by
  induction p with
  | nil => simp [collect?]
  | cons a rest ih =>
    rw [List.cons_append, collect?_cons, collect?_cons, ih]
    cases f a <;> cases collect? f rest <;> cases collect? f q <;> simp

/-- It is the same whether a list is taken one stage further as a whole or member by member. -/
theorem collect?_bind (f : α → Option (List β)) (g : β → Option (List γ)) (list : List α) :
    (collect? f list).bind (collect? g) = collect? (fun a => (f a).bind (collect? g)) list := by
  induction list with
  | nil => rfl
  | cons a rest ih =>
    rw [collect?_cons, collect?_cons, ← ih]
    cases f a with
    | none => rfl
    | some first =>
      cases collect? f rest with
      | none => simp
      | some others => simp [collect?_append]

theorem collect?_some (f : α → List β) (list : List α) :
    collect? (fun a => some (f a)) list = some (list.flatMap f) := by
  induction list with
  | nil => rfl
  | cons a rest ih => rw [collect?_cons, ih, List.flatMap_cons]; rfl

theorem collect?_eq_none_iff {f : α → Option (List β)} {list : List α} :
    collect? f list = none ↔ ∃ a ∈ list, f a = none := by
  induction list with
  | nil => simp [collect?]
  | cons a rest ih =>
    rw [collect?_cons, List.exists_mem_cons_iff, ← ih]
    cases f a <;> simp

theorem collect?_eq_some {f : α → Option (List β)} {list : List α} {found : List β}
    (h : collect? f list = some found) : found = list.flatMap fun a => (f a).getD [] := by
  induction list generalizing found with
  | nil => simpa [collect?, eq_comm] using h
  | cons a rest ih =>
    rw [collect?_cons] at h
    obtain ⟨first, hfirst, hrest⟩ := Option.bind_eq_some_iff.1 h
    obtain ⟨others, hothers, rfl⟩ := Option.map_eq_some_iff.1 hrest
    rw [List.flatMap_cons, hfirst, ih hothers]
    rfl

end Collected

theorem ends_append (p q : List Path) : ends (p ++ q) = ends p ++ ends q :=
  List.filterMap_append

namespace Store

variable (store : Store)

/-- The facts that the paths of a query from a fact end in; none if its run fails. -/
def endsFrom? (query : Query) (fact : Reference) : Option (List Reference) :=
  (store.evaluate fact query).toOption.map ends

/-- One step on, only the end of a path counts. -/
theorem ends_extend (step : Step) {path : Path} {fact : Reference}
    (hlast : path.getLast? = some fact) :
    (store.extend step path).toOption.map ends =
      (store.extend step [fact]).toOption.map ends := by
  cases step with
  | field type =>
    simp only [extend, hlast, List.getLast?_singleton, Option.any_some]
    by_cases htype : fact.type = type <;> simp [Except.toOption, ends, hlast, htype]
  | successor role => simp [extend, hlast, Except.toOption, ends, Function.comp_def]
  | predecessor role =>
    simp only [extend, hlast, List.getLast?_singleton]
    cases store.get fact <;>
      simp [Except.toOption, bind, Except.bind, pure, Except.pure, ends, Function.comp_def]
  | existential quantifier steps =>
    simp only [extend, hlast, List.getLast?_singleton]
    cases store.walk steps [[fact]] with
    | error missing => rfl
    | ok found =>
      simp only [bind, Except.bind, pure, Except.pure]
      split <;> simp [Except.toOption, ends, hlast]

theorem ends_mapM_extend (step : Step) (paths : List Path) :
    (paths.mapM (store.extend step)).toOption.map (fun extended => ends extended.flatten) =
      collect? (fun fact => (store.extend step [fact]).toOption.map ends) (ends paths) := by
  induction paths with
  | nil => rfl
  | cons path rest ih =>
    have hcons : ((path :: rest).mapM (store.extend step)).toOption.map
          (fun extended => ends extended.flatten) =
        ((store.extend step path).toOption.map ends).bind fun first =>
          ((rest.mapM (store.extend step)).toOption.map fun extended => ends extended.flatten).map
            fun others => first ++ others := by
      rw [List.mapM_cons]
      cases store.extend step path with
      | error missing => rfl
      | ok first =>
        cases rest.mapM (store.extend step) with
        | error missing => rfl
        | ok others => simp [Except.toOption, bind, Except.bind, pure, Except.pure, ends_append]
    rw [hcons, ih]
    cases hlast : path.getLast? with
    | none =>
      have hends : ends (path :: rest) = ends rest := List.filterMap_cons_none hlast
      rw [hends, List.getLast?_eq_none_iff.1 hlast, extend_nil]
      simp [Except.toOption, ends]
    | some fact =>
      have hends : ends (path :: rest) = fact :: ends rest := List.filterMap_cons_some hlast
      rw [hends, collect?_cons, store.ends_extend step hlast]

/-- The paths of a run end where runs from the ends of the paths before it do, one after another. -/
theorem ends_walk (query : Query) (paths : List Path) :
    (store.walk query paths).toOption.map ends =
      collect? (store.endsFrom? query) (ends paths) := by
  induction query generalizing paths with
  | nil =>
    have hstay : store.endsFrom? [] = fun fact => some [fact] := by
      funext fact
      simp [endsFrom?, evaluate, walk, Except.toOption, ends]
    rw [hstay, collect?_some, walk]
    simp [Except.toOption]
  | cons step rest ih =>
    have hwalk (paths : List Path) : (store.walk (step :: rest) paths).toOption.map ends =
        collect? (fun fact => ((store.extend step [fact]).toOption.map ends).bind
          (collect? (store.endsFrom? rest))) (ends paths) := by
      rw [walk, toOption_bind, ← collect?_bind, ← ends_mapM_extend, Option.map_bind,
        Option.bind_map]
      congr 1
      funext extended
      exact ih extended.flatten
    rw [hwalk]
    congr 1
    funext fact
    exact (collect?_singleton _ fact).symm.trans (hwalk [[fact]]).symm

theorem walk_append (p q : Query) (paths : List Path) :
    store.walk (p ++ q) paths = store.walk p paths >>= store.walk q := by
  induction p generalizing paths with
  | nil => rw [List.nil_append, walk]; rfl
  | cons step rest ih =>
    rw [List.cons_append, walk, walk]
    cases paths.mapM (store.extend step) with
    | error missing => rfl
    | ok extended => exact ih extended.flatten

theorem endsFrom?_append (p q : Query) (fact : Reference) :
    store.endsFrom? (p ++ q) fact =
      (store.endsFrom? p fact).bind (collect? (store.endsFrom? q)) := by
  rw [endsFrom?, endsFrom?, evaluate, evaluate, walk_append, toOption_bind, Option.map_bind,
    Option.bind_map]
  congr 1
  funext found
  exact store.ends_walk q found

variable {store}

theorem endsFrom?_eq_none_iff {query : Query} {fact : Reference} :
    store.endsFrom? query fact = none ↔ ∃ missing, store.evaluate fact query = .error missing := by
  rw [endsFrom?, Option.map_eq_none_iff, toOption_eq_none_iff]

theorem endsFrom?_eq_some_iff {query : Query} {fact : Reference} {found : List Reference} :
    store.endsFrom? query fact = some found ↔
      ∃ paths, store.evaluate fact query = .ok paths ∧ ends paths = found := by
  simp only [endsFrom?, Option.map_eq_some_iff, toOption_eq_some_iff]

theorem terminals_of_endsFrom? {query : Query} {fact : Reference} {paths : List Path}
    (h : store.evaluate fact query = .ok paths) :
    terminals paths = distinct ((store.endsFrom? query fact).getD []) := by
  rw [endsFrom?_eq_some_iff.2 ⟨paths, h, rfl⟩]
  rfl

theorem flatMap_terminals_of_mapM {query : Query} {facts : List Reference}
    {found : List (List Path)} (h : facts.mapM (store.evaluate · query) = .ok found) :
    found.flatMap terminals =
      facts.flatMap fun fact => distinct ((store.endsFrom? query fact).getD []) := by
  induction facts generalizing found with
  | nil =>
    obtain rfl : found = [] := by simpa [pure, Except.pure, eq_comm] using h
    rfl
  | cons fact rest ih =>
    obtain ⟨first, others, hfirst, hothers, rfl⟩ := mapM_cons_eq_ok.1 h
    rw [List.flatMap_cons, List.flatMap_cons, ih hothers, terminals_of_endsFrom? hfirst]

/-- A query followed by another fails exactly if it fails or if the other does from a fact that it
finds. Otherwise it finds what the other finds from the facts that it finds, one after another, and
each once. So it is for the query of a selection that a template goes on from. -/
theorem evaluate_append (store : Store) (start : Reference) (p q : Query) :
    ((∃ missing, store.evaluate start (p ++ q) = .error missing) ↔
      (∃ missing, store.evaluate start p = .error missing) ∨
        ∃ paths, store.evaluate start p = .ok paths ∧
          ∃ middle ∈ terminals paths, ∃ missing, store.evaluate middle q = .error missing) ∧
    (∀ paths, store.evaluate start (p ++ q) = .ok paths →
      ∃ firsts seconds, store.evaluate start p = .ok firsts ∧
        (terminals firsts).mapM (store.evaluate · q) = .ok seconds ∧
        terminals paths = distinct (seconds.flatMap terminals)) ∧
    ∀ (selection next : Selection) (specification : Specification),
      selection.followedBy specification = .ok next →
        ∃ single, Selection.ofTemplate specification = .ok single ∧
          next.query = selection.query ++ single.query := by
  refine ⟨?_, fun paths hpaths => ?_, fun selection next specification h => ?_⟩
  · rw [← endsFrom?_eq_none_iff, ← endsFrom?_eq_none_iff, endsFrom?_append]
    cases hfirsts : store.evaluate start p with
    | error missing => simp [endsFrom?_eq_none_iff.2 ⟨missing, hfirsts⟩]
    | ok firsts =>
      rw [endsFrom?_eq_some_iff.2 ⟨firsts, hfirsts, rfl⟩, Option.bind_some, collect?_eq_none_iff]
      simp [endsFrom?_eq_none_iff, mem_terminals]
  · have hends := endsFrom?_eq_some_iff.2 ⟨paths, hpaths, rfl⟩
    rw [endsFrom?_append] at hends
    obtain ⟨middles, hmiddles, hcollected⟩ := Option.bind_eq_some_iff.1 hends
    obtain ⟨firsts, hfirsts, rfl⟩ := endsFrom?_eq_some_iff.1 hmiddles
    have hruns : ∀ middle ∈ terminals firsts, ∃ found, store.evaluate middle q = .ok found := by
      intro middle hmiddle
      cases hrun : store.evaluate middle q with
      | ok found => exact ⟨found, rfl⟩
      | error missing =>
        have hnone := collect?_eq_none_iff.2
          ⟨middle, mem_terminals.1 hmiddle, endsFrom?_eq_none_iff.2 ⟨missing, hrun⟩⟩
        rw [hcollected] at hnone
        cases hnone
    obtain ⟨seconds, hseconds⟩ := mapM_isOk_iff.2 hruns
    refine ⟨firsts, seconds, hfirsts, hseconds, ?_⟩
    calc terminals paths = distinct (ends paths) := rfl
      _ = distinct ((ends firsts).flatMap fun fact => (store.endsFrom? q fact).getD []) := by
        rw [collect?_eq_some hcollected]
      _ = distinct (seconds.flatMap terminals) := by
        rw [flatMap_terminals_of_mapM hseconds, distinct_flatMap]
        rfl
  · obtain ⟨single, hsingle, rfl⟩ := Selection.followedBy_eq_ok.1 h
    exact ⟨single, hsingle, rfl⟩

namespace Shelves

def withoutEssay : Store :=
  ofRecords [shelf, book, mixedShelf]

end Shelves

open Shelves in
/-- What stands beside the book is found once, although shelves list the book twice; who wrote it is
not to be found, for the essay is missing. -/
theorem evaluate_append_withoutEssay :
    (∃ firsts seconds, withoutEssay.evaluate book.reference [.successor "books"] = .ok firsts ∧
      terminals firsts = [shelf.reference, mixedShelf.reference] ∧
      (terminals firsts).mapM (withoutEssay.evaluate · [.predecessor "books"]) = .ok seconds ∧
      distinct (seconds.flatMap terminals) = [book.reference, essay.reference]) ∧
    ∃ missing, withoutEssay.evaluate book.reference
      ([.successor "books"] ++ [.predecessor "books", .predecessor "author"]) =
        .error missing := by
  have hfirsts : withoutEssay.evaluate book.reference [.successor "books"] =
      .ok [[book.reference, shelf.reference], [book.reference, shelf.reference],
        [book.reference, mixedShelf.reference], [book.reference, mixedShelf.reference]] := by decide
  have hshelves : mixedShelf.reference ∈
      terminals [[book.reference, shelf.reference], [book.reference, shelf.reference],
        [book.reference, mixedShelf.reference], [book.reference, mixedShelf.reference]] := by decide
  have hauthor : withoutEssay.evaluate mixedShelf.reference
      [.predecessor "books", .predecessor "author"] = .error essay.reference := by decide
  have hfound : (withoutEssay.evaluate book.reference
      ([.successor "books"] ++ [.predecessor "books"])).toOption.map terminals =
        some [book.reference, essay.reference] := by decide
  obtain ⟨paths, hpaths, hterminals⟩ := Option.map_eq_some_iff.1 hfound
  obtain ⟨firsts, seconds, heq, hseconds, hsame⟩ :=
    (evaluate_append withoutEssay book.reference _ _).2.1 paths (toOption_eq_some_iff.1 hpaths)
  obtain rfl := Except.ok.inj (hfirsts.symm.trans heq)
  refine ⟨⟨_, seconds, hfirsts, by decide, hseconds, hsame.symm.trans hterminals⟩, ?_⟩
  exact (evaluate_append withoutEssay book.reference _ _).1.2
    (Or.inr ⟨_, hfirsts, _, hshelves, _, hauthor⟩)

end Store

end LiveFacts
