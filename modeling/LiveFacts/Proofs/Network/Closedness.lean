import LiveFacts.Proofs.Network.Echoes
import LiveFacts.Proofs.Network.Exchanges

/-!
# Closed stores at both ends of a link

A call brings nothing to a node without all that it names, whether it is made there, handed over or
answered. What has waited for a network may come alone: an outbox that was full has dropped what
came first, and that is what the rest builds on. So the stores at both ends stay closed exactly as
long as no node, when it is attached, sends a fact without one that it names.
-/

namespace LiveFacts

namespace Ends

variable {ends : Ends} {side : Side} {world opened : World}

def AreClosed (ends : Ends) (world : World) : Prop :=
  ∀ one, (ends.nodeAt one world).facts.IsClosed

/-- If a node is attached at the other end, then of all that waits at this one and is new there, it
has what is named, or that waits too. -/
def SendsWhole (ends : Ends) (side : Side) (world : World) : Prop :=
  ends.IsAttached side.other world → ∀ record,
    (ends.nodeAt side world).outbox.find? (·.reference = record.reference) = some record →
    (ends.nodeAt side.other world).facts.contains record.reference = false →
    ∀ fact ∈ record.named, (ends.nodeAt side.other world).facts.contains fact = true ∨
      (ends.nodeAt side world).HasWaiting fact

namespace IsGenuine

variable (hgenuine : ends.IsGenuine world)
include hgenuine

theorem areClosed_call (hclosed : ends.AreClosed world) (side : Side) {call : World.Call}
    (hkeyed : Act.IsKeyed (.call call)) :
    ends.AreClosed (ends.perform side (.call call) world) := by
  intro one
  obtain ⟨records, hwhole, hgathers⟩ := hgenuine.gathersWhole_call side hkeyed one
  exact hgathers.isClosed_of_areWhole hwhole (hclosed one)

/-- What waited leaves a closed store closed if it comes with all it names, and only then. -/
theorem areClosed_delivered_iff (hclosed : ends.AreClosed world) (side : Side) :
    ends.AreClosed (ends.delivered side world) ↔ ends.SendsWhole side world := by
  obtain ⟨hown, hattached, hdetached⟩ := hgenuine.facts_delivered side
  have hgathers := Store.gathers_saveAll (fun record hrecord =>
    (hgenuine.waiting side record hrecord).2) (ends.nodeAt side.other world).facts
  constructor
  · intro hdelivered hother record hfirst hnew fact hfact
    have hstored := hdelivered side.other
    rw [hattached hother] at hstored
    exact hgathers.contains_iff.1
      (hstored record (Store.mem_saveAll_iff.2 (Or.inr ⟨hnew, hfirst⟩)) fact hfact)
  · intro hsends
    refine forall_side side ?_ ?_
    · rw [hown]
      exact hclosed side
    · by_cases hother : ends.IsAttached side.other world
      · rw [hattached hother]
        intro record hrecord fact hfact
        refine hgathers.contains_iff.2 ?_
        rcases Store.mem_saveAll_iff.1 hrecord with hold | ⟨hnew, hfirst⟩
        · exact Or.inl (hclosed side.other record hold fact hfact)
        · exact hsends hother record hfirst hnew fact hfact
      · rw [hdetached hother]
        exact hclosed side.other

theorem areClosed_sync_iff (hclosed : ends.AreClosed world) (side : Side) :
    ends.AreClosed (ends.perform side .sync world) ↔ ends.SendsWhole side world := by
  obtain ⟨hown, -⟩ := hgenuine.facts_delivered side
  obtain ⟨records, hwhole, hdraws, -⟩ := hgenuine.draws_sync side
  rw [← hgenuine.areClosed_delivered_iff hclosed side]
  constructor
  · intro hsynced
    refine forall_side side ?_ ?_
    · rw [hown]
      exact hclosed side
    · rw [← hdraws.other]
      exact hsynced side.other
  · intro hdelivered
    refine forall_side side ?_ ?_
    · exact hdraws.own.isClosed_of_areWhole hwhole (hdelivered side)
    · exact hdraws.other.symm ▸ hdelivered side.other

end IsGenuine

theorem Stands.warnings_perform (hstands : ends.Stands world) (side one : Side) (act : Act) :
    (ends.nodeAt one world).warnings <+:
      (ends.nodeAt one (ends.perform side act world)).warnings := by
  cases act with
  | sync =>
    have hjoined : (ends.nodeAt one (ends.joined side world)).warnings =
        (ends.nodeAt one world).warnings := by
      revert one
      refine forall_side side ?_ ?_
      · rw [nodeAt_joined]
      · rw [nodeAt_other_joined]
    rw [← hjoined]
    exact ((hstands.passes_sync side).nodes one).warnings
  | call call => exact ((hstands.passes_call side call).nodes one).warnings

theorem Stands.warnings_run (hstands : ends.Stands world) (one : Side) (acts : List (Side × Act)) :
    (ends.nodeAt one world).warnings <+: (ends.nodeAt one (ends.run acts world)).warnings := by
  induction acts generalizing world with
  | nil => exact List.prefix_refl _
  | cons act rest ih =>
    exact (hstands.warnings_perform act.1 one act.2).trans (ih (hstands.perform act.1 act.2).1)

def WaitsWhole (ends : Ends) (world : World) : Prop :=
  ∀ one, ∀ record ∈ (ends.nodeAt one world).outbox, ∀ fact ∈ record.named,
    (ends.nodeAt one world).HasWaiting fact

theorem WaitsWhole.perform (h : ends.WaitsWhole world) (hstands : ends.Stands world) (side : Side)
    {act : Act} (hkeyed : act.IsKeyed)
    (hcalm : ∀ one, .outboxFull ∉ (ends.nodeAt one (ends.perform side act world)).warnings) :
    ends.WaitsWhole (ends.perform side act world) := by
  intro one
  unfold Node.HasWaiting
  rcases hstands.outbox_perform side one act with hnone | hsame |
    ⟨document, records, root, saved, rfl, hrecords, houtbox, hnetwork, hposted⟩
  · rw [hnone]
    simp
  · rw [hsame]
    exact h one
  · have hcalm' := hcalm one
    rw [hposted] at hcalm' ⊢
    rcases Node.outbox_post_of_no_warning records hnetwork hcalm' with hnone | hall
    · rw [hnone, houtbox]
      exact h one
    · rw [hall, houtbox]
      intro record hrecord fact hfact
      rcases List.mem_append.1 hrecord with hold | hnew
      · exact (h one record hold fact hfact).of_grown (List.prefix_append _ _)
      · obtain ⟨other, hother, rfl⟩ :=
          (Document.areWhole_dehydrateFact hkeyed hrecords).named record hnew fact hfact
        exact ⟨other, List.mem_append_right _ hother, rfl⟩

theorem WaitsWhole.sendsWhole (h : ends.WaitsWhole world) (side : Side) :
    ends.SendsWhole side world :=
  fun _ record hfirst _ fact hfact =>
    Or.inr (h side record (List.mem_of_find?_eq_some hfirst) fact hfact)

section Runs

variable {config : Side → Config} {acts : List (Side × Act)}

/-- A run from two new nodes keeps the stores closed if whatever is sent at an attachment comes with
all it names. -/
theorem areClosed_of_sendsWhole (hopens : ends.Opens config opened)
    (hkeyed : ∀ act ∈ acts, act.2.IsKeyed)
    (hsends : ∀ past side, past ++ [(side, .sync)] <+: acts →
      ends.SendsWhole side (ends.run past opened))
    {past : List (Side × Act)} (hpast : past <+: acts) :
    ends.AreClosed (ends.run past opened) := by
  induction past using List.reverseRecOn with
  | nil =>
    intro one
    rw [run, List.foldl_nil, hopens.nodeAt_eq]
    simp [Store.IsClosed, Node.facts]
  | append_singleton past act ih =>
    have hbefore : past <+: acts := (List.prefix_append past [act]).trans hpast
    have hgenuine := hopens.isGenuine.run fun act hact => hkeyed act (hbefore.subset hact)
    have hact := hkeyed act (hpast.subset (List.mem_append_right _ (List.mem_singleton_self act)))
    rw [run_concat]
    obtain ⟨side, act⟩ := act
    cases act with
    | call call => exact hgenuine.areClosed_call (ih hbefore) side hact
    | sync => exact (hgenuine.areClosed_sync_iff (ih hbefore) side).2 (hsends past side hpast)

theorem waitsWhole_of_no_warning (hopens : ends.Opens config opened)
    (hkeyed : ∀ act ∈ acts, act.2.IsKeyed)
    (hcalm : ∀ one, .outboxFull ∉ (ends.nodeAt one (ends.run acts opened)).warnings) :
    ends.WaitsWhole (ends.run acts opened) := by
  induction acts using List.reverseRecOn with
  | nil =>
    intro one
    rw [run, List.foldl_nil, hopens.nodeAt_eq]
    simp
  | append_singleton past act ih =>
    have hstands := hopens.stands.run past
    rw [run_concat] at hcalm ⊢
    refine WaitsWhole.perform ?_ hstands act.1
      (hkeyed act (List.mem_append_right _ (List.mem_singleton_self act))) hcalm
    refine ih (fun act hact => hkeyed act (List.mem_append_left _ hact)) fun one hfull => ?_
    exact hcalm one ((hstands.warnings_perform act.1 one act.2).subset hfull)

/-- In a run from two new nodes the stores of both stay closed exactly if no node, when it is
attached, sends a fact without one that it names; and they do if no outbox was ever full. -/
theorem areClosed_iff_sendsWhole (hopens : ends.Opens config opened)
    (hkeyed : ∀ act ∈ acts, act.2.IsKeyed) :
    ((∀ past, past <+: acts → ends.AreClosed (ends.run past opened)) ↔
        ∀ past side, past ++ [(side, .sync)] <+: acts →
          ends.SendsWhole side (ends.run past opened)) ∧
      ((∀ one, .outboxFull ∉ (ends.nodeAt one (ends.run acts opened)).warnings) →
        ∀ past, past <+: acts → ends.AreClosed (ends.run past opened)) := by
  have hgenuine : ∀ {past}, past <+: acts → ends.IsGenuine (ends.run past opened) :=
    fun hpast => hopens.isGenuine.run fun act hact => hkeyed act (hpast.subset hact)
  refine ⟨⟨fun hclosed past side hpast => ?_, fun hsends past => ?_⟩, fun hcalm past => ?_⟩
  · have hbefore : past <+: acts := (List.prefix_append past _).trans hpast
    have hsynced := hclosed _ hpast
    rw [run_concat] at hsynced
    exact ((hgenuine hbefore).areClosed_sync_iff (hclosed past hbefore) side).1 hsynced
  · exact areClosed_of_sendsWhole hopens hkeyed hsends
  · refine areClosed_of_sendsWhole hopens hkeyed fun past side hpast => ?_
    have hbefore : past <+: acts := (List.prefix_append past _).trans hpast
    refine WaitsWhole.sendsWhole (waitsWhole_of_no_warning hopens
      (fun act hact => hkeyed act (hbefore.subset hact)) fun one hfull => ?_) side
    obtain ⟨later, rfl⟩ := hbefore
    refine hcalm one ?_
    rw [run_append]
    exact ((hopens.stands.run past).warnings_run one later).subset hfull

end Runs

namespace Desks

open World.Errands

def cramped : Side → Config
  | .first => { outboxCapacity := 1 }
  | .second => {}

def unlinkedCramped : World :=
  World.pair "link" "left" "right" (⟨0⟩, ⟨1⟩)
    (World.setNode "b" {} (World.setNode "a" { config := cramped .first } {}))

theorem opens_cramped : desks.Opens cramped unlinkedCramped where
  node := by
    intro side
    cases side <;> rfl
  transport := by
    intro side
    cases side <;> rfl
  vacant := by
    intro side
    cases side <;> rfl

def taskBeforeSync : List (Side × Act) :=
  [(.second, .sync), (.first, .call (.fact taskDocument)), (.first, .sync)]

theorem isKeyed_taskBeforeSync : ∀ act ∈ taskBeforeSync, act.2.IsKeyed := by
  simp [taskBeforeSync, Act.IsKeyed, isKeyed_taskDocument]

/-- Where there is room the task arrives with its list, and all stores are closed all the time. -/
theorem task_arrives_with_list :
    (∀ past, past <+: taskBeforeSync → desks.AreClosed (desks.run past unlinked)) ∧
      (desks.nodeAt .second (desks.run taskBeforeSync unlinked)).facts.contains
        task.reference = true := by
  have hend : (desks.nodeAt .first (desks.run taskBeforeSync unlinked)).warnings = [] ∧
      (desks.nodeAt .second (desks.run taskBeforeSync unlinked)).warnings = [] ∧
      (desks.nodeAt .second (desks.run taskBeforeSync unlinked)).facts.contains
        task.reference = true := by
    decide +kernel
  refine ⟨(areClosed_iff_sendsWhole opens_unlinked isKeyed_taskBeforeSync).2 ?_, hend.2.2⟩
  intro one
  cases one with
  | first => simp [hend.1]
  | second => simp [hend.2.1]

/-- Where there is room for one fact the list is dropped, and the task arrives without it. -/
theorem task_arrives_without_list :
    desks.Opens cramped unlinkedCramped ∧ (∀ act ∈ taskBeforeSync, act.2.IsKeyed) ∧
      ∃ record ∈ (desks.nodeAt .second (desks.run taskBeforeSync unlinkedCramped)).facts.records,
        ∃ fact ∈ record.named, (desks.nodeAt .second
          (desks.run taskBeforeSync unlinkedCramped)).facts.contains fact = false := by
  have harrived : (desks.nodeAt .second
      (desks.run taskBeforeSync unlinkedCramped)).facts.records = [task] := by decide +kernel
  refine ⟨opens_cramped, isKeyed_taskBeforeSync, task, ?_, list.reference, by decide, ?_⟩
  · rw [harrived]
    exact List.mem_singleton_self task
  · rw [Store.contains, Store.find?, harrived]
    decide

end Desks

end Ends

end LiveFacts
