import LiveFacts.Json.Reader
import Mathlib.Data.List.Nodup
import Mathlib.Data.List.Perm.Basic

/-!
# Values in order

Putting entries one after another into a list that is sorted by key keeps it sorted, and the
outcome does not depend on the order in which they come. So every object that was read has its
keys in order, each of them once.
-/

namespace LiveFacts

namespace Keyed

variable {α : Type} {key : String} {value : α} {sorted entries : Keyed α}

instance (entries : Keyed α) : Decidable entries.IsSorted :=
  inferInstanceAs (Decidable (List.Pairwise _ _))

theorem IsSorted.nodup (h : entries.IsSorted) : (entries.map Prod.fst).Nodup := by
  rw [List.Nodup, List.pairwise_map]
  refine List.Pairwise.imp (fun {a b} hlt heq => ?_) h
  exact String.lt_irrefl b.1 (heq ▸ hlt)

/-- Order is a matter of the keys alone. -/
theorem IsSorted.of_keys_eq {β : Type} {others : Keyed β} (h : entries.IsSorted)
    (hkeys : others.map Prod.fst = entries.map Prod.fst) : others.IsSorted := by
  have hsorted := List.pairwise_map.2 h
  rw [← hkeys] at hsorted
  exact List.pairwise_map.1 hsorted

theorem insert_perm (h : key ∉ entries.map Prod.fst) :
    (insert key value entries).Perm ((key, value) :: entries) := by
  induction entries with
  | nil => exact List.Perm.refl _
  | cons entry rest ih =>
    rw [List.map_cons, List.mem_cons, not_or] at h
    rw [insert]
    split
    · exact List.Perm.refl _
    · rw [if_neg h.1]
      exact ((ih h.2).cons entry).trans (List.Perm.swap _ _ _)

theorem eq_or_mem_of_mem_insert {entry : String × α} (h : entry ∈ insert key value entries) :
    entry = (key, value) ∨ entry ∈ entries := by
  induction entries with
  | nil => exact Or.inl (List.mem_singleton.1 h)
  | cons first rest ih =>
    rw [insert] at h
    split_ifs at h
    · exact List.mem_cons.1 h
    · exact (List.mem_cons.1 h).imp_right (List.mem_cons_of_mem _)
    · rcases List.mem_cons.1 h with rfl | hrest
      · exact Or.inr List.mem_cons_self
      · exact (ih hrest).imp_right (List.mem_cons_of_mem _)

theorem isSorted_insert (h : entries.IsSorted) : (insert key value entries).IsSorted := by
  induction entries with
  | nil => exact List.pairwise_singleton _ _
  | cons first rest ih =>
    obtain ⟨hfirst, hrest⟩ := List.pairwise_cons.1 h
    rw [insert]
    split_ifs with hbefore hsame
    · refine List.pairwise_cons.2 ⟨List.forall_mem_cons.2 ⟨hbefore, fun entry hentry => ?_⟩, h⟩
      exact String.lt_trans hbefore (hfirst entry hentry)
    · refine List.pairwise_cons.2 ⟨fun entry hentry => ?_, hrest⟩
      rw [hsame]
      exact hfirst entry hentry
    · refine List.pairwise_cons.2 ⟨fun entry hentry => ?_, ih hrest⟩
      rcases eq_or_mem_of_mem_insert hentry with rfl | hmem
      · exact Std.lt_of_le_of_ne (String.not_lt.1 hbefore) (Ne.symm hsame)
      · exact hfirst entry hmem

theorem mem_insert_self (key : String) (value : α) (entries : Keyed α) :
    (key, value) ∈ insert key value entries := by
  induction entries with
  | nil => exact List.mem_cons_self
  | cons first rest ih =>
    rw [insert]
    split_ifs
    · exact List.mem_cons_self
    · exact List.mem_cons_self
    · exact List.mem_cons_of_mem _ ih

theorem mem_insert_of_ne {entry : String × α} (h : entry ∈ entries) (hkey : entry.1 ≠ key) :
    entry ∈ insert key value entries := by
  induction entries with
  | nil => cases h
  | cons first rest ih =>
    rw [insert]
    split_ifs with _ hsame
    · exact List.mem_cons_of_mem _ h
    · rcases List.mem_cons.1 h with rfl | hrest
      · exact absurd hsame.symm hkey
      · exact List.mem_cons_of_mem _ hrest
    · rcases List.mem_cons.1 h with rfl | hrest
      · exact List.mem_cons_self
      · exact List.mem_cons_of_mem _ (ih hrest)

theorem isSorted_insertAll (h : sorted.IsSorted) : (insertAll sorted entries).IsSorted := by
  induction entries generalizing sorted with
  | nil => exact h
  | cons entry rest ih => exact ih (isSorted_insert h)

theorem insertAll_append (rest : Keyed α) :
    insertAll sorted (entries ++ rest) = insertAll (insertAll sorted entries) rest :=
  List.foldl_append

theorem mem_or_mem_of_mem_insertAll {entry : String × α} (h : entry ∈ insertAll sorted entries) :
    entry ∈ sorted ∨ entry ∈ entries := by
  induction entries generalizing sorted with
  | nil => exact Or.inl h
  | cons first rest ih =>
    rcases ih h with hsorted | hrest
    · rcases eq_or_mem_of_mem_insert hsorted with rfl | hmem
      · exact Or.inr List.mem_cons_self
      · exact Or.inl hmem
    · exact Or.inr (List.mem_cons_of_mem _ hrest)

theorem mem_insertAll_of_notMem {entry : String × α} (h : entry ∈ sorted)
    (hkey : entry.1 ∉ entries.map Prod.fst) : entry ∈ insertAll sorted entries := by
  induction entries generalizing sorted with
  | nil => exact h
  | cons first rest ih =>
    rw [List.map_cons, List.mem_cons, not_or] at hkey
    exact ih (mem_insert_of_ne h hkey.1) hkey.2

/-- Of entries with different keys none is replaced by another. -/
theorem mem_insertAll {entry : String × α} (hnodup : (entries.map Prod.fst).Nodup)
    (h : entry ∈ entries) : entry ∈ insertAll sorted entries := by
  induction entries generalizing sorted with
  | nil => cases h
  | cons first rest ih =>
    rw [List.map_cons, List.nodup_cons] at hnodup
    rcases List.mem_cons.1 h with rfl | hrest
    · have hfirst : entry ∈ insert entry.1 entry.2 sorted := mem_insert_self _ _ _
      have hlast : entry ∈ insertAll (insert entry.1 entry.2 sorted) rest :=
        mem_insertAll_of_notMem hfirst hnodup.1
      exact hlast
    · exact ih hnodup.2 hrest

theorem insertAll_perm (h : ((sorted ++ entries).map Prod.fst).Nodup) :
    (insertAll sorted entries).Perm (sorted ++ entries) := by
  induction entries generalizing sorted with
  | nil => rw [List.append_nil]; exact List.Perm.refl _
  | cons entry rest ih =>
    have hperm : (sorted ++ entry :: rest).Perm (entry :: sorted ++ rest) := List.perm_middle
    have hnodup := (hperm.map Prod.fst).nodup_iff.1 h
    rw [List.cons_append, List.map_cons, List.nodup_cons, List.map_append, List.mem_append,
      not_or] at hnodup
    have hinsert : (insert entry.1 entry.2 sorted).Perm (entry :: sorted) :=
      insert_perm hnodup.1.1
    refine (ih ?_).trans ((hinsert.append_right rest).trans hperm.symm)
    exact (((hinsert.append_right rest).trans hperm.symm).map Prod.fst).nodup_iff.2 h

/-- Entries in order are told by which entries there are. -/
theorem IsSorted.eq_of_perm {others : Keyed α} (h : entries.IsSorted) (h' : others.IsSorted)
    (hperm : entries.Perm others) : entries = others := by
  refine List.Perm.eq_of_pairwise ?_ h h' hperm
  intro a b _ _ hab hba
  exact absurd (String.lt_trans hab hba) (String.lt_irrefl _)

/-- Entries in order are what putting them in one after another gives. -/
theorem insertAll_eq (h : entries.IsSorted) {first rest : Keyed α}
    (hfirst : first.IsSorted) (hperm : (first ++ rest).Perm entries) :
    insertAll first rest = entries := by
  have hnodup : ((first ++ rest).map Prod.fst).Nodup := (hperm.map _).nodup_iff.2 h.nodup
  exact (isSorted_insertAll hfirst).eq_of_perm h ((insertAll_perm hnodup).trans hperm)

end Keyed

namespace Json

mutual

/-- Whether every object has its keys in order, as in any document that was read. -/
def isOrdered : Json → Bool
  | .array items => itemsOrdered items
  | .object members => decide (Keyed.IsSorted members) && membersOrdered members
  | _ => true

def itemsOrdered : List Json → Bool
  | [] => true
  | item :: rest => item.isOrdered && itemsOrdered rest

def membersOrdered : List (String × Json) → Bool
  | [] => true
  | (_, value) :: rest => value.isOrdered && membersOrdered rest

end

theorem itemsOrdered_eq (items : List Json) : itemsOrdered items = items.all isOrdered := by
  induction items with
  | nil => rfl
  | cons item rest ih => rw [itemsOrdered, ih, List.all_cons]

theorem membersOrdered_eq (members : List (String × Json)) :
    membersOrdered members = members.all (·.2.isOrdered) := by
  induction members with
  | nil => rfl
  | cons member rest ih => rw [membersOrdered, ih, List.all_cons]

theorem membersOrdered_insert {members : Keyed Json} (h : membersOrdered members = true)
    (key : String) {value : Json} (hvalue : value.isOrdered = true) :
    membersOrdered (Keyed.insert key value members) = true := by
  rw [membersOrdered_eq, List.all_eq_true] at h ⊢
  intro member hmember
  rcases Keyed.eq_or_mem_of_mem_insert hmember with rfl | hmem
  · exact hvalue
  · exact h member hmem

theorem membersOrdered_insertAll {members entries : Keyed Json}
    (h : membersOrdered members = true) (hentries : membersOrdered entries = true) :
    membersOrdered (Keyed.insertAll members entries) = true := by
  rw [membersOrdered_eq, List.all_eq_true] at h hentries ⊢
  intro member hmember
  exact (Keyed.mem_or_mem_of_mem_insertAll hmember).elim (h member) (hentries member)

def Frame.IsOrdered : Frame → Prop
  | .array before => itemsOrdered before = true
  | .member before _ => before.IsSorted ∧ membersOrdered before = true

def Token.IsOrdered : Token → Prop
  | .scalar value => value.isOrdered = true
  | _ => True

/-- What is put together from values in order is in order. -/
theorem isOrdered_of_assemble {frames : List Frame} {value? : Option Json} {tokens : List Token}
    (hframes : ∀ frame ∈ frames, frame.IsOrdered)
    (hvalue : ∀ value ∈ value?, value.isOrdered = true)
    (htokens : ∀ token ∈ tokens, token.IsOrdered) {result : Json}
    (h : assemble frames value? tokens = some result) : result.isOrdered = true := by
  fun_induction assemble frames value? tokens with
  | case1 value => exact hvalue result h
  | case2 value before frames rest ih =>
    rw [List.forall_mem_cons] at hframes htokens
    refine ih (List.forall_mem_cons.2 ⟨?_, hframes.2⟩) (by simp) htokens.2 h
    rw [Frame.IsOrdered, itemsOrdered, hvalue value rfl, Bool.true_and]
    exact hframes.1
  | case3 value before frames rest ih =>
    rw [List.forall_mem_cons] at hframes htokens
    refine ih hframes.2 (fun array harray => ?_) htokens.2 h
    have hitems : itemsOrdered (value :: before) = true := by
      rw [itemsOrdered, hvalue value rfl, Bool.true_and]
      exact hframes.1
    rw [← Option.some.inj harray, isOrdered, itemsOrdered_eq, List.all_reverse, ← itemsOrdered_eq]
    exact hitems
  | case4 value before key frames next rest ih =>
    rw [List.forall_mem_cons] at hframes
    refine ih (List.forall_mem_cons.2 ⟨?_, hframes.2⟩) (by simp)
      (fun token htoken => htokens token (by simp [htoken])) h
    exact ⟨Keyed.isSorted_insert hframes.1.1,
      membersOrdered_insert hframes.1.2 key (hvalue value rfl)⟩
  | case5 value before key frames rest ih =>
    rw [List.forall_mem_cons] at hframes htokens
    refine ih hframes.2 (fun object hobject => ?_) htokens.2 h
    rw [← Option.some.inj hobject, isOrdered, Bool.and_eq_true, decide_eq_true_eq]
    exact ⟨Keyed.isSorted_insert hframes.1.1,
      membersOrdered_insert hframes.1.2 key (hvalue value rfl)⟩
  | case6 frames value rest ih =>
    rw [List.forall_mem_cons] at htokens
    exact ih hframes (fun scalar hscalar => Option.some.inj hscalar ▸ htokens.1) htokens.2 h
  | case7 frames rest hdepth ih | case11 frames rest hdepth ih =>
    exact ih hframes (fun empty hempty => Option.some.inj hempty ▸ rfl)
      (fun token htoken => htokens token (by simp [htoken])) h
  | case9 frames rest _ hdepth ih =>
    rw [List.forall_mem_cons] at htokens
    exact ih (List.forall_mem_cons.2 ⟨rfl, hframes⟩) (by simp) htokens.2 h
  | case13 frames key rest hdepth ih =>
    exact ih (List.forall_mem_cons.2 ⟨⟨List.Pairwise.nil, rfl⟩, hframes⟩) (by simp)
      (fun token htoken => htokens token (by simp [htoken])) h
  | case8 | case10 | case12 | case14 | case15 => cases h

theorem isOrdered_of_floatOf? {negative negativeExponent : Bool} {s : Significand}
    {digits : List Char} {value : Json}
    (h : floatOf? negative s negativeExponent digits = some value) : value.isOrdered = true := by
  simp only [floatOf?] at h
  split at h
  · split at h <;> cases h
    rfl
  · obtain ⟨place, -, h⟩ := Option.bind_eq_some_iff.1 h
    obtain ⟨scaled, -, h⟩ := Option.bind_eq_some_iff.1 h
    cases h
    rfl

theorem isOrdered_of_wholeNumber? {negative : Bool} {s : Significand} {value : Json}
    (h : wholeNumber? negative s = some value) : value.isOrdered = true := by
  simp only [wholeNumber?] at h
  split at h
  · exact isOrdered_of_floatOf? h
  split at h
  · cases h
    rfl
  split at h
  · obtain ⟨place, -, h⟩ := Option.bind_eq_some_iff.1 h
    cases h
    rfl
  · cases h
    rfl

theorem isOrdered_of_readScaled {negative : Bool} {s : Significand} {plain : Option Json}
    {text rest : List Char} {value : Json} (hplain : ∀ value ∈ plain, value.isOrdered = true)
    (h : readScaled negative s plain text = some (value, rest)) : value.isOrdered = true := by
  rw [readScaled.eq_def] at h
  split at h
  · obtain ⟨⟨_, _, _⟩, -, h⟩ := Option.bind_eq_some_iff.1 h
    obtain ⟨number, hnumber, h⟩ := Option.bind_eq_some_iff.1 h
    cases h
    exact isOrdered_of_floatOf? hnumber
  · obtain ⟨⟨_, _, _⟩, -, h⟩ := Option.bind_eq_some_iff.1 h
    obtain ⟨number, hnumber, h⟩ := Option.bind_eq_some_iff.1 h
    cases h
    exact isOrdered_of_floatOf? hnumber
  · obtain ⟨number, hnumber, h⟩ := Option.map_eq_some_iff.1 h
    cases h
    exact hplain _ hnumber

theorem isOrdered_of_readMagnitude {negative : Bool} {text rest : List Char} {value : Json}
    (h : readMagnitude negative text = some (value, rest)) : value.isOrdered = true := by
  simp only [readMagnitude] at h
  split_ifs at h
  split at h
  · split_ifs at h
    exact isOrdered_of_readScaled (fun _ => isOrdered_of_floatOf?) h
  · exact isOrdered_of_readScaled (fun _ => isOrdered_of_wholeNumber?) h

theorem isOrdered_of_readNumber {text rest : List Char} {value : Json}
    (h : readNumber text = some (value, rest)) : value.isOrdered = true := by
  rw [readNumber.eq_def] at h
  split at h <;> exact isOrdered_of_readMagnitude h

theorem isOrdered_of_readToken {text rest : List Char} {token : Token}
    (h : readToken text = some (token, rest)) : token.IsOrdered := by
  rw [readToken.eq_def] at h
  split at h
  case h_10 =>
    obtain ⟨⟨value, _⟩, -, h⟩ := Option.map_eq_some_iff.1 h
    cases h
    rfl
  case h_11 =>
    obtain ⟨⟨value, _⟩, hvalue, h⟩ := Option.map_eq_some_iff.1 h
    cases h
    exact isOrdered_of_readNumber hvalue
  all_goals cases h; trivial

theorem isOrdered_of_tokens {text : List Char} {tokens : List Token}
    (h : Json.tokens text = some tokens) : ∀ token ∈ tokens, token.IsOrdered := by
  rw [Json.tokens] at h
  generalize text.length = rounds at h
  induction rounds generalizing text tokens with
  | zero =>
    rw [Json.tokens.go.eq_def] at h
    dsimp only at h
    split at h <;> cases h
    simp
  | succ rounds ih =>
    rw [Json.tokens.go.eq_def] at h
    dsimp only at h
    split at h
    · cases h
      simp
    · obtain ⟨⟨token, rest⟩, htoken, h⟩ := Option.bind_eq_some_iff.1 h
      obtain ⟨others, hothers, h⟩ := Option.bind_eq_some_iff.1 h
      cases h
      exact List.forall_mem_cons.2 ⟨isOrdered_of_readToken htoken, ih hothers⟩

/-- A value that was read is in order. -/
theorem isOrdered_of_read? {text : String} {value : Json} (h : read? text = some value) :
    value.isOrdered = true := by
  obtain ⟨tokens, htokens, hvalue⟩ := Option.bind_eq_some_iff.1 h
  exact isOrdered_of_assemble (by simp) (by simp) (isOrdered_of_tokens htokens) hvalue

end Json

end LiveFacts
