import LiveFacts.Proofs.Store.Links

/-!
# Lists of records

Records hold the facts that they are about. They are grounded when each of them names only facts
that are known beforehand or held before it.
-/

namespace LiveFacts.Record

def Holds (records : List Record) (fact : Reference) : Prop :=
  ∃ record ∈ records, record.reference = fact

theorem Holds.of_grown {records more : List Record} (hmore : records <+: more)
    {fact : Reference} (h : Holds records fact) : Holds more fact := by
  obtain ⟨record, hrecord, hreference⟩ := h
  exact ⟨record, hmore.subset hrecord, hreference⟩

/-- Each of the records names facts that are known or that come before it, and has no role twice. -/
def AreGrounded (known : Reference → Prop) : List Record → Prop
  | [] => True
  | record :: rest =>
    record.IsKeyed ∧ (∀ fact ∈ record.named, known fact) ∧
      AreGrounded (fun fact => known fact ∨ record.reference = fact) rest

theorem areGrounded_mono {known known' : Reference → Prop} {records : List Record}
    (h : AreGrounded known records) (hknown : ∀ fact, known fact → known' fact) :
    AreGrounded known' records := by
  induction records generalizing known known' with
  | nil => trivial
  | cons record rest ih =>
    exact ⟨h.1, fun fact hfact => hknown fact (h.2.1 fact hfact),
      ih h.2.2 fun fact hfact => hfact.imp_left (hknown fact)⟩

theorem areGrounded_append {known : Reference → Prop} {p q : List Record} :
    AreGrounded known (p ++ q) ↔
      AreGrounded known p ∧
        AreGrounded (fun fact => known fact ∨ ∃ record ∈ p, record.reference = fact) q := by
  induction p generalizing known with
  | nil => simp [AreGrounded]
  | cons first p ih =>
    have hknown : (fun fact => (known fact ∨ first.reference = fact) ∨
          ∃ record ∈ p, record.reference = fact) =
        fun fact => known fact ∨ ∃ record ∈ first :: p, record.reference = fact := by
      funext fact
      simp only [List.mem_cons, or_and_right, exists_or, exists_eq_left, or_assoc]
    rw [List.cons_append, AreGrounded, AreGrounded, ih, hknown, and_assoc, and_assoc]

theorem isKeyed_of_areGrounded {known : Reference → Prop} {records : List Record}
    (h : AreGrounded known records) : ∀ record ∈ records, record.IsKeyed := by
  induction records generalizing known with
  | nil => simp
  | cons first rest ih => exact List.forall_mem_cons.2 ⟨h.1, ih h.2.2⟩

end LiveFacts.Record
