import LiveFacts.Proofs.Store.Evaluation
import LiveFacts.Proofs.Store.Saves
import Mathlib.Data.List.Perm.Lattice

/-!
# In which order records arrive

The index lists facts in the order of their arrival, and a run finds paths in the order of the
index. Two stores into which the same records were saved, in two orders and some of them more than
once, therefore differ in the order of what they hold and find, and in nothing else: not in what a
run finds, how often it finds it, and whether it fails.
-/

namespace LiveFacts

section Alike

variable {ε α β : Type}

/-- Both runs fail, or both find the same things, each as often, in whatever order. -/
inductive EndAlike : Except ε (List α) → Except ε (List α) → Prop
  | failed (e e' : ε) : EndAlike (.error e) (.error e')
  | found {list list' : List α} (h : list.Perm list') : EndAlike (.ok list) (.ok list')

namespace EndAlike

theorem refl (run : Except ε (List α)) : EndAlike run run := by
  cases run with
  | error e => exact failed e e
  | ok list => exact found (List.Perm.refl list)

theorem trans {a b c : Except ε (List α)} (hab : EndAlike a b) (hbc : EndAlike b c) :
    EndAlike a c := by
  cases hab with
  | failed e e' =>
    cases hbc with
    | failed _ e'' => exact failed e e''
  | found h =>
    cases hbc with
    | found h' => exact found (h.trans h')

/-- Runs end alike that go on alike from what runs found that ended alike. -/
theorem bind {a b : Except ε (List α)} {f g : List α → Except ε (List β)} (hab : EndAlike a b)
    (hfg : ∀ list list' : List α, list.Perm list' → EndAlike (f list) (g list')) :
    EndAlike (a >>= f) (b >>= g) := by
  cases hab with
  | failed e e' => exact failed e e'
  | found h => exact hfg _ _ h

end EndAlike

def gather (f : α → Except ε (List β)) : List α → Except ε (List β)
  | [] => .ok []
  | a :: rest => do
    let first ← f a
    let others ← gather f rest
    return first ++ others

theorem gather_eq_mapM (f : α → Except ε (List β)) (list : List α) :
    gather f list = (list.mapM f).map List.flatten := by
  induction list with
  | nil => rfl
  | cons a rest ih =>
    rw [gather, ih, List.mapM_cons]
    cases f a with
    | error e => rfl
    | ok first => cases rest.mapM f <;> rfl

namespace EndAlike

theorem gather_cons {f g : α → Except ε (List β)} {a : α} {rest rest' : List α}
    (ha : EndAlike (f a) (g a)) (hrest : EndAlike (gather f rest) (gather g rest')) :
    EndAlike (gather f (a :: rest)) (gather g (a :: rest')) := by
  apply ha.bind
  intro first first' hfirst
  apply hrest.bind
  intro others others' hothers
  exact found (hfirst.append hothers)

/-- Two neighbours may change places: if either fails, so does the whole. -/
theorem gather_swap (f : α → Except ε (List β)) (a b : α) (rest : List α) :
    EndAlike (gather f (a :: b :: rest)) (gather f (b :: a :: rest)) := by
  unfold gather gather
  cases f a with
  | error e =>
    cases f b with
    | error e' => exact failed e e'
    | ok second => exact failed e e
  | ok first =>
    cases f b with
    | error e => exact failed e e
    | ok second =>
      cases gather f rest with
      | error e => exact failed e e
      | ok others =>
        apply found
        have hswap : (first ++ second ++ others).Perm (second ++ first ++ others) :=
          List.perm_append_comm.append_right others
        simpa only [List.append_assoc] using hswap

theorem gather_congr {f g : α → Except ε (List β)} (h : ∀ a, EndAlike (f a) (g a))
    (list : List α) : EndAlike (gather f list) (gather g list) := by
  induction list with
  | nil => exact refl _
  | cons a rest ih => exact gather_cons (h a) ih

theorem gather_perm (f : α → Except ε (List β)) {list list' : List α} (h : list.Perm list') :
    EndAlike (gather f list) (gather f list') := by
  induction h with
  | nil => exact refl _
  | cons a _ ih => exact gather_cons (refl (f a)) ih
  | swap a b rest => exact gather_swap f b a rest
  | trans _ _ ih ih' => exact ih.trans ih'

end EndAlike

end Alike

theorem terminals_perm {paths paths' : List Path} (h : paths.Perm paths') :
    (terminals paths).Perm (terminals paths') := by
  apply (List.perm_ext_iff_of_nodup (nodup_terminals paths) (nodup_terminals paths')).2
  intro fact
  rw [mem_terminals, mem_terminals]
  exact (h.filterMap List.getLast?).mem_iff

namespace Store

theorem walk_cons_eq_gather (store : Store) (step : Step) (rest : Query) (paths : List Path) :
    store.walk (step :: rest) paths = gather (store.extend step) paths >>= store.walk rest := by
  rw [walk, gather_eq_mapM]
  cases paths.mapM (store.extend step) <;> rfl

section SameLookUps

variable {store other : Store}

mutual

theorem extend_alike (hfind : ∀ fact, store.find? fact = other.find? fact)
    (hsuccessors : ∀ fact role, (store.successors fact role).Perm (other.successors fact role))
    (step : Step) (path : Path) : EndAlike (store.extend step path) (other.extend step path) := by
  cases hlast : path.getLast? with
  | none =>
    rw [List.getLast?_eq_none_iff.1 hlast, extend_nil, extend_nil]
    exact EndAlike.refl _
  | some fact =>
    match step with
    | .field type =>
      unfold extend
      exact EndAlike.refl _
    | .successor role =>
      simp only [extend, hlast, Option.toList_some, List.flatMap_singleton]
      exact EndAlike.found ((hsuccessors fact role).map _)
    | .predecessor role =>
      simp only [extend, hlast, get, hfind]
      exact EndAlike.refl _
    | .existential quantifier steps =>
      simp only [extend, hlast]
      apply (walk_alike hfind hsuccessors steps (List.Perm.refl [[fact]])).bind
      -- A condition only asks whether anything was found.
      intro inner inner' hinner
      rw [hinner.isEmpty_eq]
      exact EndAlike.refl _

theorem walk_alike (hfind : ∀ fact, store.find? fact = other.find? fact)
    (hsuccessors : ∀ fact role, (store.successors fact role).Perm (other.successors fact role))
    (query : List Step) {paths paths' : List Path} (h : paths.Perm paths') :
    EndAlike (store.walk query paths) (other.walk query paths') := by
  match query with
  | [] =>
    rw [walk, walk]
    exact EndAlike.found h
  | step :: rest =>
    rw [walk_cons_eq_gather, walk_cons_eq_gather]
    have hextended : EndAlike (gather (store.extend step) paths)
        (gather (other.extend step) paths') :=
      (EndAlike.gather_congr (extend_alike hfind hsuccessors step) paths).trans
        (EndAlike.gather_perm _ h)
    exact hextended.bind fun _ _ hfound => walk_alike hfind hsuccessors rest hfound

end

theorem find?_eq_of_perm (hsound : store.IsSound) (hsound' : other.IsSound)
    (hsame : store.records.Perm other.records) (fact : Reference) :
    store.find? fact = other.find? fact := by
  apply Option.ext
  intro record
  rw [hsound.find?_eq_some_iff, hsound'.find?_eq_some_iff, hsame.mem_iff]

theorem successors_perm (hsound : store.IsSound) (hsound' : other.IsSound)
    (hsame : store.records.Perm other.records) (fact : Reference) (role : String) :
    (store.successors fact role).Perm (other.successors fact role) := by
  rw [hsound.successors_eq, hsound'.successors_eq]
  exact hsame.flatMap_right _

/-- A query from a fact does not tell apart two stores that hold the same records. -/
theorem evaluate_alike (hsound : store.IsSound) (hsound' : other.IsSound)
    (hsame : store.records.Perm other.records) (start : Reference) (query : Query) :
    EndAlike (store.evaluate start query) (other.evaluate start query) :=
  walk_alike (find?_eq_of_perm hsound hsound' hsame) (successors_perm hsound hsound' hsame) query
    (List.Perm.refl [[start]])

end SameLookUps

theorem mem_ofRecords_iff {records : List Record}
    (hreferences : ∀ a ∈ records, ∀ b ∈ records, a.reference = b.reference → a = b)
    {record : Record} : record ∈ (ofRecords records).records ↔ record ∈ records := by
  rw [ofRecords, mem_saveAll_iff]
  constructor
  · rintro (hold | ⟨_, hfirst⟩)
    · cases hold
    · exact List.mem_of_find?_eq_some hfirst
  · intro hrecord
    cases hfirst : records.find? (·.reference = record.reference) with
    | none =>
      have hnone := List.find?_eq_none.1 hfirst record hrecord
      simp at hnone
    | some first =>
      have hreference : first.reference = record.reference := by
        simpa using List.find?_some hfirst
      have heq := hreferences first (List.mem_of_find?_eq_some hfirst) record hrecord hreference
      exact Or.inr ⟨by simp [contains, find?], congrArg some heq⟩

theorem records_ofRecords_perm {records records' : List Record}
    (hkeyed : ∀ record ∈ records, record.IsKeyed)
    (hreferences : ∀ a ∈ records, ∀ b ∈ records, a.reference = b.reference → a = b)
    (hsame : ∀ record, record ∈ records ↔ record ∈ records') :
    (ofRecords records).records.Perm (ofRecords records').records := by
  have hkeyed' : ∀ record ∈ records', record.IsKeyed := fun record hrecord =>
    hkeyed record ((hsame record).2 hrecord)
  have hreferences' : ∀ a ∈ records', ∀ b ∈ records', a.reference = b.reference → a = b :=
    fun a ha b hb => hreferences a ((hsame a).2 ha) b ((hsame b).2 hb)
  apply (List.perm_ext_iff_of_nodup (isSound_ofRecords hkeyed).nodup.of_map
    (isSound_ofRecords hkeyed').nodup.of_map).2
  intro record
  rw [mem_ofRecords_iff hreferences, mem_ofRecords_iff hreferences', hsame]

/-- Records that differ in their references may be saved in any order and any number of times:
the stores hold them all and nothing else, and a query from a fact fails in both, or finds the
same paths in both, each as often, and with them the same facts. -/
theorem evaluate_alike_of_saves {records records' : List Record}
    (hkeyed : ∀ record ∈ records, record.IsKeyed)
    (hreferences : ∀ a ∈ records, ∀ b ∈ records, a.reference = b.reference → a = b)
    (hsame : ∀ record, record ∈ records ↔ record ∈ records') :
    (∀ record, record ∈ (ofRecords records).records ↔ record ∈ records) ∧
      (ofRecords records).records.Perm (ofRecords records').records ∧
      ∀ start query,
        (∃ missing missing', (ofRecords records).evaluate start query = .error missing ∧
          (ofRecords records').evaluate start query = .error missing') ∨
        ∃ paths paths', (ofRecords records).evaluate start query = .ok paths ∧
          (ofRecords records').evaluate start query = .ok paths' ∧
          paths.Perm paths' ∧ (terminals paths).Perm (terminals paths') := by
  have hperm := records_ofRecords_perm hkeyed hreferences hsame
  have hsound := isSound_ofRecords hkeyed
  have hsound' := isSound_ofRecords fun record hrecord => hkeyed record ((hsame record).2 hrecord)
  refine ⟨fun record => mem_ofRecords_iff hreferences, hperm, fun start query => ?_⟩
  have halike := evaluate_alike hsound hsound' hperm start query
  cases ha : (ofRecords records).evaluate start query with
  | error missing =>
    cases hb : (ofRecords records').evaluate start query with
    | error missing' => exact Or.inl ⟨missing, missing', rfl, rfl⟩
    | ok paths' =>
      rw [ha, hb] at halike
      cases halike
  | ok paths =>
    cases hb : (ofRecords records').evaluate start query with
    | error missing' =>
      rw [ha, hb] at halike
      cases halike
    | ok paths' =>
      rw [ha, hb] at halike
      cases halike with
      | found h => exact Or.inr ⟨paths, paths', rfl, rfl, h, terminals_perm h⟩

namespace Lending

def book : Record := ⟨"Book", "walden", [], []⟩

def loan : Record := ⟨"Loan", "march", [], [("book", .one book.reference)]⟩

def secondLoan : Record := ⟨"Loan", "may", [], [("book", .one book.reference)]⟩

end Lending

open Lending in
/-- Loans that arrive before their book, and one of them twice, are found all the same, in the
order of their arrival. -/
theorem evaluate_alike_loans :
    (ofRecords [secondLoan, loan, book, loan]).records ≠ (ofRecords [book, loan, secondLoan]).records ∧
      (ofRecords [secondLoan, loan, book, loan]).evaluate book.reference [.successor "book"] =
        .ok [[book.reference, secondLoan.reference], [book.reference, loan.reference]] ∧
      ∃ paths, (ofRecords [book, loan, secondLoan]).evaluate book.reference [.successor "book"] =
          .ok paths ∧
        paths.Perm [[book.reference, secondLoan.reference], [book.reference, loan.reference]] := by
  have hkeyed : ∀ record ∈ [secondLoan, loan, book, loan], record.IsKeyed := by decide
  have hreferences : ∀ a ∈ [secondLoan, loan, book, loan], ∀ b ∈ [secondLoan, loan, book, loan],
      a.reference = b.reference → a = b := by decide
  have hsame : ∀ record, record ∈ [secondLoan, loan, book, loan] ↔
      record ∈ [book, loan, secondLoan] := by
    intro record
    simp only [List.mem_cons, List.not_mem_nil, or_false]
    tauto
  have hfound : (ofRecords [secondLoan, loan, book, loan]).evaluate book.reference
      [.successor "book"] =
        .ok [[book.reference, secondLoan.reference], [book.reference, loan.reference]] := by decide
  obtain ⟨_, _, hruns⟩ := evaluate_alike_of_saves hkeyed hreferences hsame
  refine ⟨by decide, hfound, ?_⟩
  rcases hruns book.reference [.successor "book"] with ⟨missing, _, hfails, _⟩ |
    ⟨paths, paths', hpaths, hpaths', hperm, _⟩
  · rw [hfound] at hfails
    cases hfails
  · rw [hfound] at hpaths
    cases hpaths
    exact ⟨paths', hpaths', hperm.symm⟩

end Store

end LiveFacts
