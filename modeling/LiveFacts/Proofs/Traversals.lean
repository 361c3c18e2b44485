import Mathlib.Data.List.Count
import Mathlib.Data.List.Forall2

/-!
# Lists traversed by functions that may fail

When a computation that may fail succeeds, so do its parts. A list is traversed by such a function
exactly if the function succeeds on every item, and what comes of it stands to the list item by
item.
-/

namespace LiveFacts

variable {ε α β : Type}

theorem bind_eq_ok {x : Except ε α} {f : α → Except ε β} {b : β} :
    (x >>= f) = .ok b ↔ ∃ a, x = .ok a ∧ f a = .ok b := by
  cases x <;> simp [bind, Except.bind]

theorem map_eq_ok {x : Except ε α} {f : α → β} {b : β} :
    x.map f = .ok b ↔ ∃ a, x = .ok a ∧ f a = b := by
  cases x <;> simp [Except.map]

theorem mapError_eq_ok {δ : Type} {x : Except ε α} {f : ε → δ} {a : α} :
    x.mapError f = .ok a ↔ x = .ok a := by
  cases x <;> simp [Except.mapError]

theorem toOption_bind (x : Except ε α) (f : α → Except ε β) :
    (x >>= f).toOption = x.toOption.bind fun a => (f a).toOption := by
  cases x <;> rfl

theorem toOption_eq_none_iff {x : Except ε α} :
    x.toOption = none ↔ ∃ e, x = .error e := by
  cases x <;> simp [Except.toOption]

theorem toOption_eq_some_iff {x : Except ε α} {a : α} :
    x.toOption = some a ↔ x = .ok a := by
  cases x <;> simp [Except.toOption]

theorem mapM_cons_eq_ok {f : α → Except ε β} {a : α} {rest : List α} {found : List β} :
    (a :: rest).mapM f = .ok found ↔
      ∃ first others, f a = .ok first ∧ rest.mapM f = .ok others ∧ found = first :: others := by
  rw [List.mapM_cons]
  cases ha : f a with
  | error e => simp [bind, Except.bind]
  | ok first =>
    cases hrest : rest.mapM f with
    | error e => simp [bind, Except.bind]
    | ok others => simp [bind, Except.bind, pure, Except.pure, eq_comm]

theorem mem_flatten_of_mapM {f : α → Except ε (List β)} {list : List α} {found : List (List β)}
    (h : list.mapM f = .ok found) {b : β} :
    b ∈ found.flatten ↔ ∃ a ∈ list, ∃ part, f a = .ok part ∧ b ∈ part := by
  induction list generalizing found with
  | nil =>
    have hfound : found = [] := by simpa [pure, Except.pure, eq_comm] using h
    simp [hfound]
  | cons a rest ih =>
    obtain ⟨first, others, ha, hrest, rfl⟩ := mapM_cons_eq_ok.1 h
    rw [List.flatten_cons, List.mem_append, ih hrest]
    constructor
    · rintro (hfirst | ⟨other, hother, part, hpart, hb⟩)
      · exact ⟨a, List.mem_cons_self, first, ha, hfirst⟩
      · exact ⟨other, List.mem_cons_of_mem _ hother, part, hpart, hb⟩
    · rintro ⟨other, hother, part, hpart, hb⟩
      rcases List.mem_cons.1 hother with rfl | hmem
      · rw [ha] at hpart
        exact Or.inl (Except.ok.inj hpart ▸ hb)
      · exact Or.inr ⟨other, hmem, part, hpart, hb⟩

theorem mapM_isOk_iff {f : α → Except ε β} {list : List α} :
    (∃ found, list.mapM f = .ok found) ↔ ∀ a ∈ list, ∃ part, f a = .ok part := by
  induction list with
  | nil => simp [pure, Except.pure]
  | cons a rest ih =>
    simp only [mapM_cons_eq_ok, List.forall_mem_cons, ← ih]
    constructor
    · rintro ⟨_, first, others, ha, hrest, _⟩
      exact ⟨⟨first, ha⟩, others, hrest⟩
    · rintro ⟨⟨first, ha⟩, others, hrest⟩
      exact ⟨_, first, others, ha, hrest, rfl⟩

theorem mapM_eq_error {f : α → Except ε β} {list : List α} {e : ε}
    (h : list.mapM f = .error e) : ∃ a ∈ list, f a = .error e := by
  induction list with
  | nil => cases h
  | cons a rest ih =>
    rw [List.mapM_cons] at h
    cases ha : f a with
    | error other =>
      rw [ha] at h
      obtain rfl : other = e := by simpa [bind, Except.bind] using h
      exact ⟨a, List.mem_cons_self, ha⟩
    | ok first =>
      cases hrest : rest.mapM f with
      | error other =>
        rw [ha, hrest] at h
        obtain rfl : other = e := by simpa [bind, Except.bind] using h
        obtain ⟨b, hb, hfails⟩ := ih hrest
        exact ⟨b, List.mem_cons_of_mem _ hb, hfails⟩
      | ok others =>
        rw [ha, hrest] at h
        cases h

theorem mapM_map_eq_ok {f : β → Except ε α} {g : α → β} {list : List α}
    (h : ∀ a ∈ list, f (g a) = .ok a) : (list.map g).mapM f = .ok list := by
  induction list with
  | nil => rfl
  | cons a rest ih =>
    rw [List.forall_mem_cons] at h
    rw [List.map_cons, List.mapM_cons, h.1, ih h.2]
    rfl

theorem mapM_eq_ok_iff_forall₂ {f : α → Except ε β} {list : List α}
    {found : List β} :
    list.mapM f = .ok found ↔ List.Forall₂ (fun a b => f a = .ok b) list found := by
  induction list generalizing found with
  | nil => simp [pure, Except.pure, eq_comm]
  | cons a rest ih =>
    rw [mapM_cons_eq_ok, List.forall₂_cons_left_iff]
    constructor
    · rintro ⟨first, others, ha, hrest, rfl⟩
      exact ⟨first, others, ha, ih.1 hrest, rfl⟩
    · rintro ⟨first, others, ha, hrest, rfl⟩
      exact ⟨first, others, ha, ih.2 hrest, rfl⟩

/-- What one of the runs finds and no other is found as often as that run is made. -/
theorem count_flatten_of_mapM [BEq α] [LawfulBEq α] [BEq β] [LawfulBEq β]
    {f : α → Except ε (List β)} {list : List α} {found : List (List β)}
    (h : list.mapM f = .ok found) {a : α} {b : β} {times : Nat}
    (hself : ∀ part, f a = .ok part → part.count b = times)
    (hother : ∀ other part, f other = .ok part → b ∈ part → other = a) :
    found.flatten.count b = list.count a * times := by
  induction list generalizing found with
  | nil =>
    obtain rfl : found = [] := by simpa [pure, Except.pure, eq_comm] using h
    simp
  | cons first rest ih =>
    obtain ⟨part, others, hpart, hothers, rfl⟩ := mapM_cons_eq_ok.1 h
    rw [List.flatten_cons, List.count_append, ih hothers]
    by_cases hfirst : first = a
    · subst hfirst
      rw [hself part hpart, List.count_cons_self, Nat.add_mul, Nat.one_mul, Nat.add_comm]
    · have hnot : b ∉ part := fun hb => hfirst (hother first part hpart hb)
      rw [List.count_eq_zero.2 hnot, List.count_cons_of_ne hfirst, Nat.zero_add]

theorem mapM_cons_eq_some {f : α → Option β} {a : α} {rest : List α}
    {found : List β} : (a :: rest).mapM f = some found ↔
      ∃ first others, f a = some first ∧ rest.mapM f = some others ∧ first :: others = found := by
  simp [List.mapM_cons, Option.bind_eq_some_iff, pure]

theorem mapM_map_eq_some {f : α → β} {g : β → Option α}
    (h : ∀ a, g (f a) = some a) (list : List α) : (list.map f).mapM g = some list := by
  induction list with
  | nil => rfl
  | cons a rest ih => exact mapM_cons_eq_some.2 ⟨a, rest, h a, ih, rfl⟩

theorem forall₂_imp_of_mem {R S : α → β → Prop} {as : List α} {bs : List β}
    (h : List.Forall₂ R as bs) (himp : ∀ a ∈ as, ∀ b ∈ bs, R a b → S a b) :
    List.Forall₂ S as bs := by
  obtain ⟨hlength, hzip⟩ := List.forall₂_iff_zip.1 h
  refine List.forall₂_iff_zip.2 ⟨hlength, fun {a b} hmem => ?_⟩
  exact himp a (List.of_mem_zip hmem).1 b (List.of_mem_zip hmem).2 (hzip hmem)

theorem exists_of_forall₂ {R : α → β → Prop} {as : List α} {bs : List β}
    (h : List.Forall₂ R as bs) {a : α} (ha : a ∈ as) : ∃ b ∈ bs, R a b := by
  induction h with
  | nil => cases ha
  | @cons first other as bs hfirst _ ih =>
    rcases List.mem_cons.1 ha with rfl | hrest
    · exact ⟨other, List.mem_cons_self, hfirst⟩
    · obtain ⟨b, hb, hab⟩ := ih hrest
      exact ⟨b, List.mem_cons_of_mem _ hb, hab⟩

theorem map_eq_map_iff_forall₂ {γ : Type} {f : α → γ} {g : β → γ} {as : List α}
    {bs : List β} : as.map f = bs.map g ↔ List.Forall₂ (fun a b => f a = g b) as bs := by
  rw [← List.forall₂_eq_eq_eq, List.forall₂_map_left_iff, List.forall₂_map_right_iff]

end LiveFacts
