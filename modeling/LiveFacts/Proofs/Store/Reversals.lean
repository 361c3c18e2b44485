import LiveFacts.Proofs.Store.Paths

/-!
# Paths backwards

A walk taken backwards is a walk of the query taken backwards: a move to a successor becomes one to
a predecessor along the same link, and filters and conditions hold where they held before. The link
is listed as often as before, whether the index or the record is asked. In a closed store no run
from a stored fact fails, so the paths from one fact to another are those that the reversed query
finds from the other to the one, each turned round and found as often.
-/

namespace LiveFacts

namespace Links.IsWalk

variable {links : Links} {query : Query} {step : Step} {path : Path} {fact next : Reference}

theorem snoc_stay (h : links.IsWalk query path) (hlast : path.getLast? = some fact)
    (hstep : step.isJoin = false) (hlead : links.StepLeads step fact fact) :
    links.IsWalk (query ++ [step]) path := by
  induction h with
  | done other =>
    obtain rfl : other = fact := by simpa using hlast
    exact stay hstep hlead (done other)
  | stay hfirst hhere _ ih => exact stay hfirst hhere (ih hlast)
  | move hfirst hthere _ ih => exact move hfirst hthere (ih (by simpa using hlast))

theorem snoc_move (h : links.IsWalk query path) (hlast : path.getLast? = some fact)
    (hstep : step.isJoin = true) (hlead : links.StepLeads step fact next) :
    links.IsWalk (query ++ [step]) (path ++ [next]) := by
  induction h with
  | done other =>
    obtain rfl : other = fact := by simpa using hlast
    exact move hstep hlead (done next)
  | stay hfirst hhere _ ih => exact stay hfirst hhere (ih hlast)
  | move hfirst hthere _ ih => exact move hfirst hthere (ih (by simpa using hlast))

/-- A walk taken backwards is a walk of the query taken backwards. -/
theorem reverse (h : links.IsWalk query path) : links.IsWalk query.reversed path.reverse := by
  induction h with
  | done fact => exact done fact
  | stay hstep hlead _ ih =>
    rw [Query.reversed_cons]
    exact ih.snoc_stay (by simp) (by simpa using hstep) (stepLeads_reversed.2 hlead)
  | move hstep hlead _ ih =>
    rw [Query.reversed_cons, List.reverse_cons]
    exact ih.snoc_move (by simp) (by simpa using hstep) (stepLeads_reversed.2 hlead)

end Links.IsWalk

theorem Links.isWalk_reversed {links : Links} {query : Query} {path : Path} :
    links.IsWalk query.reversed path.reverse ↔ links.IsWalk query path := by
  refine ⟨fun h => ?_, IsWalk.reverse⟩
  have hback := h.reverse
  rwa [Query.reversed_reversed, List.reverse_reverse] at hback

namespace Store

variable {store : Store}

theorem timesTaken_reversed (step : Step) (fact next : Reference) :
    store.timesTaken step.reversed next fact = store.timesTaken step fact next := by
  cases step <;> rfl

theorem multiplicity_snoc_stay {links : Links} {query : Query} {step : Step} {path : Path}
    (h : links.IsWalk query path) (hstep : step.isJoin = false) :
    store.multiplicity (query ++ [step]) path = store.multiplicity query path := by
  induction h with
  | done fact => rw [List.nil_append, multiplicity_stay hstep]
  | stay hfirst _ _ ih =>
    rw [List.cons_append, multiplicity_stay hfirst, multiplicity_stay hfirst, ih]
  | move hfirst _ _ ih =>
    rw [List.cons_append, multiplicity_move hfirst, multiplicity_move hfirst, ih]

theorem multiplicity_snoc_move {links : Links} {query : Query} {step : Step} {path : Path}
    {fact : Reference} (h : links.IsWalk query path) (hlast : path.getLast? = some fact)
    (hstep : step.isJoin = true) (next : Reference) :
    store.multiplicity (query ++ [step]) (path ++ [next]) =
      store.multiplicity query path * store.timesTaken step fact next := by
  induction h with
  | done other =>
    obtain rfl : other = fact := by simpa using hlast
    simp [multiplicity, hstep]
  | stay hfirst _ _ ih =>
    have hrest := ih hlast
    simp only [List.cons_append] at hrest ⊢
    rw [multiplicity_stay hfirst, multiplicity_stay hfirst, hrest]
  | move hfirst _ _ ih =>
    have hrest := ih (by simpa using hlast)
    simp only [List.cons_append] at hrest ⊢
    rw [multiplicity_move hfirst, multiplicity_move hfirst, hrest, Nat.mul_assoc]

/-- The links of a walk are listed as often when it is taken backwards. -/
theorem multiplicity_reversed {links : Links} {query : Query} {path : Path}
    (h : links.IsWalk query path) :
    store.multiplicity query.reversed path.reverse = store.multiplicity query path := by
  induction h with
  | done fact => rfl
  | stay hstep _ hrest ih =>
    rw [Query.reversed_cons, multiplicity_snoc_stay hrest.reverse (by simpa using hstep), ih,
      multiplicity_stay hstep]
  | @move step rest fact next path hstep _ hrest ih =>
    have hlast : (next :: path).reverse.getLast? = some next := by simp
    rw [Query.reversed_cons, List.reverse_cons,
      multiplicity_snoc_move hrest.reverse hlast (by simpa using hstep), ih,
      timesTaken_reversed, multiplicity_move hstep, Nat.mul_comm]

def pathsTo (paths : List Path) (last : Reference) : List Path :=
  paths.filter (·.getLast? = some last)

theorem mem_pathsTo {paths : List Path} {last : Reference} {path : Path} :
    path ∈ pathsTo paths last ↔ path ∈ paths ∧ path.getLast? = some last := by
  simp [pathsTo]

theorem count_pathsTo {paths : List Path} {last : Reference} {path : Path}
    (hlast : path.getLast? = some last) : (pathsTo paths last).count path = paths.count path :=
  List.count_filter (by simpa using hlast)

theorem pathsTo_perm_reverse (hsound : store.IsSound) {query : Query} {x y : Reference}
    {paths back : List Path} (h : store.evaluate x query = .ok paths)
    (hback : store.evaluate y query.reversed = .ok back) :
    (pathsTo paths y).Perm ((pathsTo back x).map List.reverse) := by
  rw [List.perm_iff_count]
  intro path
  have hturned : ((pathsTo back x).map List.reverse).count path =
      (pathsTo back x).count path.reverse := by
    rw [← List.count_map_of_injective (pathsTo back x) _ List.reverse_injective path.reverse,
      List.reverse_reverse]
  have hsame : path ∈ pathsTo paths y ↔ path.reverse ∈ pathsTo back x := by
    rw [mem_pathsTo, mem_pathsTo, mem_evaluate_iff hsound h, mem_evaluate_iff hsound hback,
      Links.isWalk_reversed, List.head?_reverse, List.getLast?_reverse]
    tauto
  rw [hturned]
  by_cases hpath : path ∈ pathsTo paths y
  · obtain ⟨hmem, hlast⟩ := mem_pathsTo.1 hpath
    obtain ⟨hmem', hlast'⟩ := mem_pathsTo.1 (hsame.1 hpath)
    obtain ⟨hhead, hwalk⟩ := (mem_evaluate_iff hsound h).1 hmem
    obtain ⟨hhead', hwalk'⟩ := (mem_evaluate_iff hsound hback).1 hmem'
    rw [count_pathsTo hlast, count_pathsTo hlast', count_evaluate hsound h hhead hwalk,
      count_evaluate hsound hback hhead' hwalk', multiplicity_reversed hwalk]
  · rw [List.count_eq_zero.2 hpath, List.count_eq_zero.2 (mt hsame.2 hpath)]

/-- Between two facts of a closed store the reversed query finds the same paths backwards, each as
often. -/
theorem evaluate_reversed_of_isClosed {records : List Record}
    (hkeyed : ∀ record ∈ records, record.IsKeyed) (hclosed : (ofRecords records).IsClosed)
    {x y : Reference} (hx : (ofRecords records).contains x = true)
    (hy : (ofRecords records).contains y = true) (query : Query) :
    ∃ paths back, (ofRecords records).evaluate x query = .ok paths ∧
      (ofRecords records).evaluate y query.reversed = .ok back ∧
      (pathsTo paths y).Perm ((pathsTo back x).map List.reverse) := by
  have hsound := isSound_ofRecords hkeyed
  obtain ⟨paths, hpaths, _⟩ := exists_evaluate hsound hclosed hx query
  obtain ⟨back, hback, _⟩ := exists_evaluate hsound hclosed hy query.reversed
  exact ⟨paths, back, hpaths, hback, pathsTo_perm_reverse hsound hpaths hback⟩

namespace Shelves

def essay : Record := ⟨"Essay", "walking", [], []⟩

def mixedShelf : Record :=
  ⟨"Shelf", "hall", [], [("books", .many [book.reference, essay.reference, book.reference])]⟩

def neighboursOfFree : Query :=
  [.existential .absent [.successor "borrowed"], .successor "books", .field "Shelf",
    .predecessor "books", .existential .present [.successor "books", .predecessor "books"]]

end Shelves

open Shelves in
/-- The two ways from the book to the essay are the two ways back. -/
theorem evaluate_reversed_mixedShelf :
    ∃ paths back,
      (ofRecords [essay, book, mixedShelf]).evaluate book.reference neighboursOfFree = .ok paths ∧
      (ofRecords [essay, book, mixedShelf]).evaluate essay.reference neighboursOfFree.reversed =
        .ok back ∧
      (pathsTo paths essay.reference).Perm
        ((pathsTo back book.reference).map List.reverse) ∧
      pathsTo back book.reference =
        List.replicate 2 [essay.reference, mixedShelf.reference, book.reference] := by
  have hkeyed : ∀ record ∈ [essay, book, mixedShelf], record.IsKeyed := by decide
  have hclosed : (ofRecords [essay, book, mixedShelf]).IsClosed := by decide
  have hback : ((ofRecords [essay, book, mixedShelf]).evaluate essay.reference
      neighboursOfFree.reversed).toOption.map (pathsTo · book.reference) =
        some (List.replicate 2 [essay.reference, mixedShelf.reference, book.reference]) := by decide
  obtain ⟨paths, back, hpaths, hfound, hperm⟩ := evaluate_reversed_of_isClosed hkeyed hclosed
    (x := book.reference) (y := essay.reference) (by decide) (by decide) neighboursOfFree
  rw [hfound] at hback
  exact ⟨paths, back, hpaths, hfound, hperm, Option.some.inj hback⟩

end Store

end LiveFacts
