import LiveFacts.Proofs.Node.Maintenance
import LiveFacts.Proofs.Node.Tellings

/-!
# Additions that are not true

A round may tell a watch of a fact that is no result: one that strays. For a watch that is told
nothing false, in whatever order the units of the round run, it is necessary and enough that no
fact strays that is neither a result nor held to be one.
-/

namespace LiveFacts

namespace Node

variable {before : Node} {record : Record} {id : Nat} {watch : Watch}

/-- Whatever order the round of the record runs in, the additions that the watch is told of are
among the facts. -/
def AddsOnly (before : Node) (record : Record) (id : Nat) (watch : Watch)
    (facts : List Reference) : Prop :=
  ∀ ⦃after : Node⦄ ⦃watch' : Watch⦄ ⦃told : List Event⦄, Saves record before after true →
    after.watch? id = some watch' → watch'.events = watch.events ++ told →
    ∀ result, ⟨.added, result⟩ ∈ told → result ∈ facts

/-- What strays is a result, or is held to be one and stays so. -/
def IsHarmless (before : Node) (record : Record) (watch : Watch) (facts : List Reference) : Prop :=
  ∀ result,
    (before.facts.save record).links.Strays watch.query watch.start record.reference result →
    result ∈ facts ∨ result ∈ watch.results ∧
      ¬ (before.facts.save record).links.Reports watch.query watch.start record.reference .removed
        result

variable {after : Node} {found : List Path}

/-- The round of a record tells a watch of additions that are results or stray. -/
theorem Saves.exists_told (hsave : Saves record before after true) (hsettled : before.IsSettled)
    (hadmits : before.facts.Admits record) (hwatch : before.watch? id = some watch)
    (hfound : (before.facts.save record).evaluate watch.start watch.query = .ok found) :
    ∃ taken told, after.watch? id = some (watch.takeAll taken) ∧
      watch.Takes (before.facts.save record).links record.reference taken ∧
      (watch.takeAll taken).events = watch.events ++ told ∧
      ∀ result, ⟨.added, result⟩ ∈ told → result ∈ terminals found ∨
        (before.facts.save record).links.Strays watch.query watch.start record.reference
          result := by
  obtain ⟨taken, told, htaken, htake, htold, hsub⟩ :=
    hsave.exists_told_takes hsettled hadmits hwatch
  refine ⟨taken, told, htaken, htake, htold, fun result hmem => ?_⟩
  have hsound := hadmits.sound.save hadmits.keyed
  rw [Store.mem_terminals_evaluate hsound hfound]
  exact Links.leads_or_strays_of_reports (htake.reported _ _ (hsub.subset hmem))

theorem addsOnly_of_isHarmless (hharmless : IsHarmless before record watch (terminals found))
    (hsettled : before.IsSettled) (hadmits : before.facts.Admits record)
    (hwatch : before.watch? id = some watch)
    (hfound : (before.facts.save record).evaluate watch.start watch.query = .ok found) :
    AddsOnly before record id watch (terminals found) := by
  intro after watch' told hsave hwatch' htold result hmem
  obtain ⟨taken, same, htaken, htake, hsame, hadded⟩ :=
    hsave.exists_told hsettled hadmits hwatch hfound
  rw [htaken, Option.some.injEq] at hwatch'
  subst hwatch'
  rw [hsame, List.append_cancel_left_eq] at htold
  subst htold
  rcases hadded result hmem with hresult | hstrays
  · exact hresult
  · rcases hharmless result hstrays with hresult | ⟨hheld, hstays⟩
    · exact hresult
    · have hremoved : ⟨.removed, result⟩ ∉ taken := fun h => hstays (htake.reported _ _ h)
      have hidle : ¬ Event.Alters ⟨.added, result⟩ watch.results := fun h => h hheld
      exact absurd hmem (Watch.not_mem_told_of_not_alters hidle hremoved hsame)

theorem isHarmless_of_addsOnly (hadds : AddsOnly before record id watch (terminals found))
    (hsettled : before.IsSettled) (hadmits : before.facts.Admits record)
    (hwatch : before.watch? id = some watch) (hactive : watch.isStopped = false)
    (hpanics : watch.listener.NeverPanics) (hstops : watch.listener.NeverStops)
    (hnodup : watch.results.Nodup) : IsHarmless before record watch (terminals found) := by
  intro result hstrays
  by_contra hnot
  rw [not_or, not_and_or, not_not] at hnot
  obtain ⟨hresult, hheld⟩ := hnot
  obtain ⟨after, watch', told, hsave, hwatch', htold, hmem⟩ :=
    exists_saves_of_reports ⟨.added, result⟩ hsettled hadmits hwatch hactive hpanics
      hstops hnodup hstrays.reports hheld
  exact hresult (hadds hsave hwatch' htold result hmem)

end Node

namespace World

open Node

/-- The additions that the round of a new record tells a watch of are results or stray. They are
results in every order of the round if what strays does no harm, and, of a watch that is active and
whose listener neither fails nor stops it, only then. -/
theorem additions_true_iff_isHarmless {config : Config} {node : Node}
    (hnode : Node.ofConfig? config = some node) {name : String} {world : World}
    (hworld : world.node name = node) {earlier : List Call} {opened : World}
    (hearlier : Run name world earlier opened) {start : Reference}
    (hstart : (opened.node name).facts.contains start = true) (query : Query)
    (listener : Listener) {later : List Call} {final : World}
    (hlater : Run name (opened.watch name start query listener).1 later final) {record : Record}
    {before : Node} (hcomes : ComesTo name final record before)
    (hnew : before.facts.contains record.reference = false) :
    ∃ id watch found, id = (opened.node name).watches.length + 1 ∧
      before.watch? id = some watch ∧ watch.Follows start query listener ∧
      (before.facts.save record).evaluate start query = .ok found ∧
      (∀ {after : Node}, Saves record before after true →
        after.facts = before.facts.save record ∧
        ∃ watch' told, after.watch? id = some watch' ∧ watch'.events = watch.events ++ told ∧
          ∀ result, ⟨.added, result⟩ ∈ told → result ∈ terminals found ∨
            after.facts.links.Strays query start record.reference result) ∧
      (IsHarmless before record watch (terminals found) →
        AddsOnly before record id watch (terminals found)) ∧
      (watch.isStopped = false → listener.NeverPanics → listener.NeverStops →
        AddsOnly before record id watch (terminals found) →
        IsHarmless before record watch (terminals found)) := by
  obtain ⟨hsettled, hadmits, watch, found, hwatch, ⟨hfollows, -, hnodup⟩, hfound⟩ :=
    exists_attends hnode hworld hearlier hstart query listener hlater hcomes hnew
  obtain ⟨rfl, rfl, rfl⟩ := id hfollows
  refine ⟨_, watch, found, rfl, hwatch, hfollows, hfound, ?_, ?_, ?_⟩
  · intro after hsave
    obtain ⟨-, hafter⟩ := hsave.spec hsettled hadmits.keyed hadmits.named
    obtain ⟨taken, told, htaken, -, htold, hadded⟩ :=
      hsave.exists_told hsettled hadmits hwatch hfound
    exact ⟨hafter, _, told, htaken, htold, hafter ▸ hadded⟩
  · intro hharmless
    exact addsOnly_of_isHarmless hharmless hsettled hadmits hwatch hfound
  · intro hactive hpanics hstops hadds
    exact isHarmless_of_addsOnly hadds hsettled hadmits hwatch hactive hpanics hstops hnodup

namespace Errands

/-- Of the open tasks of a list nothing strays, so a new task is all that a watch is told to add. -/
theorem openTasks_additions_true :
    ∃ before watch,
      ComesTo "a" (listed.watch "a" list.reference openTasks .quiet).1 task before ∧
        before.watch? 1 = some watch ∧
        (before.facts.save task).evaluate list.reference openTasks =
          .ok [[list.reference, task.reference]] ∧
        AddsOnly before task 1 watch [task.reference] := by
  have hnode : Node.ofConfig? {} = some {} := rfl
  have hlisted := run_listed.isSettled isSettled_fresh
  obtain ⟨hwatching, hsame, -⟩ := watch_frame hlisted list.reference openTasks .quiet
  have hrecords : Document.dehydrateFact [] completionDocument =
      .ok ([list] ++ task :: [completion], completion.reference) := dehydrate_completion
  obtain ⟨before, hcomes, hbefore⟩ :=
    exists_comesTo hwatching isKeyed_completionDocument hrecords
  rw [hsame, facts_listed] at hbefore
  have hnew : before.facts.contains task.reference = false := by
    rw [hbefore]
    decide
  obtain ⟨id, watch, found, hid, hwatch, hfollows, hfound, -, hadds, -⟩ :=
    additions_true_iff_isHarmless hnode rfl run_listed contains_listed openTasks .quiet (Run.nil _)
      hcomes hnew
  have hopen : (Store.evaluate (([list].foldl Store.save (Store.save {} list)).save task)
      list.reference openTasks) = .ok [[list.reference, task.reference]] := by decide
  have hone : id = 1 := by
    rw [hid]
    decide +kernel
  obtain ⟨hsettled, hkeyed, -⟩ := hcomes.spec hwatching
  have hsingle : (before.facts.save task).IsSingleValued := by
    rw [hbefore]
    decide
  have hpaths := Except.ok.inj (hfound.symm.trans (hbefore ▸ hopen))
  subst hone
  refine ⟨before, watch, hcomes, hwatch, hbefore ▸ hopen, ?_⟩
  rw [hpaths] at hadds
  refine hadds fun result hstrays => ?_
  rw [hfollows.query_eq] at hstrays
  refine absurd hstrays (Links.not_strays (hsingle.links (hsettled.sound.save hkeyed)) ?_)
  intro quantifier steps hmem
  simp only [openTasks, List.mem_cons, reduceCtorEq, Step.existential.injEq, List.not_mem_nil,
    or_false, false_or] at hmem
  obtain ⟨-, rfl⟩ := hmem
  decide

def looseTask : Record :=
  ⟨"Task", "3aa6b5490e25a7256a769b8be78c7eb890faba159883a3bbbf2256e3537831f7", [], []⟩

def report : Record :=
  ⟨"Report", "ba071a9f9960fa4a0069e72fed4859b17c053823c72d6e24942bcabe6d1d5ad7", [],
    [("tasks", .many [task.reference, looseTask.reference])]⟩

def reportDocument : Json :=
  .object
    [("tasks", .array
      [.object [("list", .object [("type", .string "List")]), ("type", .string "Task")],
        .object [("type", .string "Task")]]),
      ("type", .string "Report")]

theorem dehydrate_report : Document.dehydrateFact [] reportDocument =
    .ok ([list, task, looseTask] ++ [report], report.reference) := by
  decide +kernel

def reportedTasks : Query :=
  [.successor "list", .field "Task", .existential .present [.successor "tasks", .field "Report"]]

def awaiting : World :=
  (listed.watch "a" list.reference reportedTasks .quiet).1

def unreported : Node :=
  ((awaiting.node "a").saveAll [list, task, looseTask]).1

def reported : Node :=
  (unreported.saveRecord report).1.propagate report.reference

theorem saves_report : Saves report unreported reported true := by
  have hsave : (unreported.saveRecord report).2 = .ok true := by decide +kernel
  exact saves_propagate hsave

/-- A report on a task of the list and on a task of no list makes the latter stray: the watch is
told to add it, though the query does not find it. -/
theorem reportedTasks_adds_looseTask :
    ComesTo "a" awaiting report unreported ∧ Saves report unreported reported true ∧
      (unreported.watch? 1).map Watch.events = some [] ∧
      (reported.watch? 1).map Watch.events =
        some [⟨.added, task.reference⟩, ⟨.added, looseTask.reference⟩] ∧
      reported.facts.evaluate list.reference reportedTasks =
        .ok [[list.reference, task.reference]] := by
  have hdocument : reportDocument.isKeyed = true := by decide
  refine ⟨⟨reportDocument, report.reference, _, _, _, hdocument, dehydrate_report,
    savesAll_saveAll _ _⟩, saves_report, ?_, ?_, ?_⟩
  · decide +kernel
  · decide +kernel
  · decide +kernel

end Errands

end World

end LiveFacts
