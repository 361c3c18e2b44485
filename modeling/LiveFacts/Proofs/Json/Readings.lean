import LiveFacts.Proofs.Json.Orders
import LiveFacts.Proofs.Json.Texts

/-!
# Reading back what was printed

The text of a value is cut into the tokens of the value, and these are put together to the value
again, with the members of its objects in order. Whole numbers that fit 64 bits read back as they
are printed; of other numbers it is assumed. Only a value that nests deeper than the reader goes is
refused, and even then its text is that of no other value.
-/

namespace LiveFacts.Json

def EndsValue (rest : List Char) : Prop :=
  ∀ c ∈ rest.head?, c = ',' ∨ c = ']' ∨ c = '}'

theorem endsValue_nil : EndsValue [] := by simp [EndsValue]

theorem endsValue_cons {c : Char} {rest : List Char} (hc : c = ',' ∨ c = ']' ∨ c = '}') :
    EndsValue (c :: rest) := by simpa [EndsValue] using hc

theorem EndsValue.not_isDigit {rest : List Char} (h : EndsValue rest) :
    ∀ c ∈ rest.head?, isDigit c = false := by
  intro c hc
  obtain rfl | rfl | rfl := h c hc <;> rfl

section Longer

variable {negative sign : Bool} {s : Significand} {plain : Option Json}
  {text digits left rest : List Char} {number : Json}

theorem digitsOf_append (hrest : EndsValue rest)
    (h : readExponent.digitsOf negative text = some (sign, digits, left)) :
    readExponent.digitsOf negative (text ++ rest) = some (sign, digits, left ++ rest) := by
  rw [readExponent.digitsOf, takeWhile_append_of_head hrest.not_isDigit,
    dropWhile_append_of_head hrest.not_isDigit]
  rw [readExponent.digitsOf] at h
  split at h
  · cases h
  · cases h
    rfl

theorem readExponent_append (hrest : EndsValue rest)
    (h : readExponent text = some (sign, digits, left)) :
    readExponent (text ++ rest) = some (sign, digits, left ++ rest) := by
  rw [readExponent.eq_def] at h
  split at h
  · exact digitsOf_append hrest h
  · exact digitsOf_append hrest h
  · next hplus hminus =>
    cases text with
    | nil => cases h
    | cons c text =>
      rw [List.cons_append, readExponent]
      · exact digitsOf_append hrest h
      · exact fun _ heq => hplus text ((List.cons.inj heq).1 ▸ rfl)
      · exact fun _ heq => hminus text ((List.cons.inj heq).1 ▸ rfl)

theorem readScaled_plain (h : ∀ c ∈ text.head?, c ≠ 'e' ∧ c ≠ 'E') :
    readScaled negative s plain text = plain.map (·, text) := by
  rw [readScaled]
  · exact fun _ heq => (h 'e' (heq ▸ rfl)).1 rfl
  · exact fun _ heq => (h 'E' (heq ▸ rfl)).2 rfl

theorem readScaled_exponent {c : Char} (hc : c = 'e' ∨ c = 'E') :
    readScaled negative s plain (c :: text) = some (number, left) ↔
      ∃ sign digits, readExponent text = some (sign, digits, left) ∧
        floatOf? negative s sign digits = some number := by
  obtain rfl | rfl := hc <;> simp [readScaled, Option.bind_eq_some_iff]

theorem readScaled_append (hrest : EndsValue rest)
    (h : readScaled negative s plain text = some (number, left)) :
    readScaled negative s plain (text ++ rest) = some (number, left ++ rest) := by
  by_cases hplain : ∀ c ∈ text.head?, c ≠ 'e' ∧ c ≠ 'E'
  · rw [readScaled_plain hplain] at h
    obtain ⟨value, hvalue, hsame⟩ := Option.map_eq_some_iff.1 h
    cases hsame
    rw [readScaled_plain, hvalue, Option.map_some]
    cases text with
    | nil =>
      intro c hc
      obtain rfl | rfl | rfl := hrest c hc <;> decide
    | cons c text => exact hplain
  · cases text with
    | nil => simp at hplain
    | cons c text =>
      have hc : c = 'e' ∨ c = 'E' := by simpa [← or_iff_not_imp_left] using hplain
      rw [readScaled_exponent hc] at h
      rw [List.cons_append, readScaled_exponent hc]
      obtain ⟨sign, digits, hexponent, hvalue⟩ := h
      exact ⟨sign, digits, readExponent_append hrest hexponent, hvalue⟩

theorem EndsValue.append_ne_point (hrest : EndsValue rest) (h : ∀ after, text ≠ '.' :: after)
    (after : List Char) : text ++ rest ≠ '.' :: after := by
  intro heq
  cases text with
  | nil =>
    rw [List.nil_append] at heq
    obtain hc | hc | hc := hrest '.' (heq ▸ rfl) <;> cases hc
  | cons c text => exact h text ((List.cons.inj heq).1 ▸ rfl)

theorem readMagnitude_append (hrest : EndsValue rest)
    (h : readMagnitude negative text = some (number, left)) :
    readMagnitude negative (text ++ rest) = some (number, left ++ rest) := by
  simp only [readMagnitude] at h
  simp only [readMagnitude, takeWhile_append_of_head hrest.not_isDigit,
    dropWhile_append_of_head hrest.not_isDigit]
  split_ifs at h ⊢ with hwhole
  split at h
  · next after hafter =>
    simp only [hafter, List.cons_append, takeWhile_append_of_head hrest.not_isDigit,
      dropWhile_append_of_head hrest.not_isDigit]
    split_ifs at h ⊢
    exact readScaled_append hrest h
  · next hpoint =>
    split
    -- a point behind whole digits would be one of the number itself
    · next after hafter => exact absurd hafter (hrest.append_ne_point hpoint after)
    · exact readScaled_append hrest h

theorem readNumber_append (hrest : EndsValue rest) (h : readNumber text = some (number, left)) :
    readNumber (text ++ rest) = some (number, left ++ rest) := by
  cases text with
  | nil => cases h
  | cons c text =>
    by_cases hminus : c = '-'
    · subst hminus
      exact readMagnitude_append hrest h
    · rw [readNumber] at h
      · rw [List.cons_append, readNumber]
        · exact readMagnitude_append hrest h
        · exact fun _ heq => hminus (List.cons.inj heq).1
      · exact fun _ heq => hminus (List.cons.inj heq).1

end Longer

theorem isDigit_of_mem_natChars {number : Nat} {c : Char} (hc : c ∈ natChars number) :
    isDigit c = true := by
  have hdigit : c.isDigit = true := Nat.isDigit_of_mem_toDigits (b := 10) (by decide) (by decide) hc
  simpa [isDigit, Char.isDigit, Char.le_def, UInt32.le_iff_toNat_le] using hdigit

theorem head?_natChars_ne {number : Nat} (h : number ≠ 0) : (natChars number).head? ≠ some '0' := by
  induction number using Nat.strongRecOn with
  | ind number ih =>
    by_cases hsmall : number < 10
    · rw [natChars, Nat.toDigits_of_lt_base hsmall]
      intro heq
      have hdigit := Nat.toNat_digitChar_of_lt_ten hsmall
      rw [Option.some.inj heq] at hdigit
      have hcode : '0'.toNat = 48 := rfl
      omega
    · have hlast := Nat.toDigits_append_toDigits (b := 10) (n := number / 10) (d := number % 10)
        (by decide) (by omega) (Nat.mod_lt _ (by decide))
      rw [Nat.div_add_mod] at hlast
      rw [natChars, ← hlast, List.head?_append_of_ne_nil _ Nat.toDigits_ne_nil]
      exact ih (number / 10) (by omega) (by omega)

theorem le_ofDigitChars (digits : List Char) (value : Nat) :
    value ≤ Nat.ofDigitChars 10 digits value := by
  induction digits generalizing value with
  | nil => exact le_rfl
  | cons c digits ih =>
    have hpush : value ≤ 10 * value + (c.toNat - '0'.toNat) := by omega
    exact hpush.trans (ih _)

/-- Digits that keep the significand below its bound are all taken up. -/
theorem foldl_pushWhole (digits : List Char) (value : Nat)
    (h : Nat.ofDigitChars 10 digits value < significandLimit) :
    digits.foldl (fun s c => s.pushWhole (digitValue c)) (⟨value, 0, true⟩ : Significand) =
      ⟨Nat.ofDigitChars 10 digits value, 0, true⟩ := by
  induction digits generalizing value with
  | nil => rfl
  | cons c digits ih =>
    have hstep : Nat.ofDigitChars 10 (c :: digits) value =
        Nat.ofDigitChars 10 digits (value * 10 + digitValue c) := by
      rw [Nat.mul_comm]
      rfl
    rw [hstep] at h ⊢
    have hpush : value * 10 + digitValue c < significandLimit := (le_ofDigitChars _ _).trans_lt h
    rw [List.foldl_cons, Significand.pushWhole, if_pos ⟨rfl, hpush⟩]
    exact ih _ h

theorem readMagnitude_natChars {number : Nat} (h : number < significandLimit) (negative : Bool) :
    readMagnitude negative (natChars number) =
      (wholeNumber? negative ⟨number, 0, true⟩).map (·, []) := by
  have hdigits : ∀ c ∈ natChars number, isDigit c = true := fun _ => isDigit_of_mem_natChars
  have htake : (natChars number).takeWhile isDigit = natChars number :=
    List.takeWhile_eq_self_iff.2 hdigits
  have hdrop : (natChars number).dropWhile isDigit = [] := List.dropWhile_eq_nil_iff.2 hdigits
  have hvalue : Nat.ofDigitChars 10 (natChars number) 0 = number := Nat.ofDigitChars_ten_toDigits
  have hfold := foldl_pushWhole (natChars number) 0 (by rwa [hvalue])
  rw [hvalue] at hfold
  have hwhole : ((natChars number).isEmpty ||
      ((natChars number).head? == some '0' && (natChars number).length > 1)) = false := by
    rw [Bool.or_eq_false_iff, Bool.and_eq_false_iff]
    refine ⟨List.isEmpty_eq_false_iff.2 Nat.toDigits_ne_nil, ?_⟩
    by_cases hzero : number = 0
    · subst hzero
      exact Or.inr rfl
    · exact Or.inl (by simpa using head?_natChars_ne hzero)
  simp only [readMagnitude, htake, hdrop, hwhole, hfold, Bool.false_eq_true, if_false]
  exact readScaled_plain (by simp)

/-- A whole number that fits 64 bits, signed or unsigned, reads back as it is printed. -/
theorem readNumber_intChars {number : Int} (hlow : -(Nat.pow 2 63 : Nat) ≤ number)
    (hhigh : number < significandLimit) :
    readNumber (intChars number) = some (.int number, []) := by
  have hlimit : significandLimit = 2 * Nat.pow 2 63 := rfl
  have hfits : number.natAbs < significandLimit := by omega
  rw [intChars]
  split
  · next hnegative =>
    have hback : -(number.natAbs : Int) = number := by omega
    rw [readNumber, readMagnitude_natChars hfits, wholeNumber?, if_neg (by simp),
      if_neg (by simp), if_neg (by simp only; omega), hback]
    rfl
  · next hpositive =>
    have hback : (number.natAbs : Int) = number := by omega
    have hsign : ∀ rest, natChars number.natAbs ≠ '-' :: rest := fun rest heq =>
      absurd (isDigit_of_mem_natChars (heq ▸ List.mem_cons_self)) (by decide)
    rw [readNumber, readMagnitude_natChars hfits, wholeNumber?, if_neg (by simp),
      if_pos (by simp), hback]
    · rfl
    · exact hsign

mutual

def readsBack : Json → Bool
  | array items => itemsReadBack items
  | object members => membersReadBack members
  | scalar => !scalar.isNumber || readNumber (scalarChars scalar) == some (scalar, [])

def itemsReadBack : List Json → Bool
  | [] => true
  | item :: rest => item.readsBack && itemsReadBack rest

def membersReadBack : List (String × Json) → Bool
  | [] => true
  | (_, value) :: rest => value.readsBack && membersReadBack rest

end

theorem itemsReadBack_eq (items : List Json) : itemsReadBack items = items.all readsBack := by
  induction items with
  | nil => rfl
  | cons item rest ih => rw [itemsReadBack, ih, List.all_cons]

theorem membersReadBack_eq (members : List (String × Json)) :
    membersReadBack members = members.all (·.2.readsBack) := by
  induction members with
  | nil => rfl
  | cons member rest ih => rw [membersReadBack, ih, List.all_cons]

/-- Whole numbers that fit 64 bits need no assumption. -/
theorem readsBack_int {number : Int} (hlow : -(Nat.pow 2 63 : Nat) ≤ number)
    (hhigh : number < significandLimit) : (int number).readsBack = true := by
  simp [readsBack, scalarChars, readNumber_intChars hlow hhigh]

theorem readNumber_of_readsBack {a : Json} (hnumber : a.isNumber = true)
    (h : a.readsBack = true) : readNumber (scalarChars a) = some (a, []) := by
  cases a with
  | int _ | float _ => simpa [readsBack, isNumber] using h
  | null | bool _ | string _ | array _ | object _ => cases hnumber

mutual

def asTokens : Json → List Token
  | array items => .openArray :: itemTokens items ++ [.closeArray]
  | object members => .openObject :: memberTokens members ++ [.closeObject]
  | scalar => [.scalar scalar]

def itemTokens : List Json → List Token
  | [] => []
  | item :: rest => asTokens item ++ laterItems rest

def laterItems : List Json → List Token
  | [] => []
  | item :: rest => .comma :: asTokens item ++ laterItems rest

def memberTokens : List (String × Json) → List Token
  | [] => []
  | (key, value) :: rest => .scalar (.string key) :: .colon :: asTokens value ++ laterMembers rest

def laterMembers : List (String × Json) → List Token
  | [] => []
  | (key, value) :: rest =>
    .comma :: .scalar (.string key) :: .colon :: asTokens value ++ laterMembers rest

end

/-- A text is cut into tokens, in as many rounds as it has characters or in more. -/
def IsCutInto (text : List Char) (found : List Token) : Prop :=
  ∀ rounds, text.length ≤ rounds → tokens.go rounds text = some found

theorem IsCutInto.nil : IsCutInto [] [] := fun rounds _ => by
  rw [tokens.go]
  rfl

theorem IsCutInto.cons {c : Char} {text rest : List Char} {token : Token} {found : List Token}
    (hspace : isSpace c = false) (hread : readToken (c :: text) = some (token, rest))
    (hlength : rest.length ≤ text.length) (h : IsCutInto rest found) :
    IsCutInto (c :: text) (token :: found) := by
  intro rounds hrounds
  obtain ⟨rounds, rfl⟩ : ∃ more, rounds = more + 1 := ⟨rounds - 1, by simp at hrounds; omega⟩
  have hdrop : (c :: text).dropWhile isSpace = c :: text := by
    rw [List.dropWhile_cons_of_neg (by simp [hspace])]
  rw [tokens.go.eq_def]
  simp only [hdrop, hread, h rounds (by simp at hrounds; omega), Option.bind_eq_bind,
    Option.bind_some]
  rfl

theorem readToken_number {c : Char} (hc : isNumberChar c = true) (text : List Char) :
    readToken (c :: text) =
      (readNumber (c :: text)).map fun (number, rest) => (.scalar number, rest) := by
  rw [readToken]
  all_goals
    intro _ heq
    rw [(List.cons.inj heq).1] at hc
    exact absurd hc (by decide)

theorem isSpace_of_isNumberChar {c : Char} (hc : isNumberChar c = true) : isSpace c = false := by
  rw [Bool.eq_false_iff]
  intro hspace
  simp only [isSpace, Bool.or_eq_true, beq_iff_eq] at hspace
  obtain ((rfl | rfl) | rfl) | rfl := hspace <;> cases hc

section Cuts

variable {rest : List Char} {found : List Token}

theorem isCutInto_number {a : Json} (hnumber : a.isNumber = true) (hback : a.readsBack = true)
    (hrest : EndsValue rest) (h : IsCutInto rest found) :
    IsCutInto (scalarChars a ++ rest) (.scalar a :: found) := by
  obtain ⟨c, text, htext⟩ := List.exists_cons_of_ne_nil (isNumberText_scalarChars hnumber).1
  have hc : isNumberChar c = true :=
    (isNumberText_scalarChars hnumber).2 c (htext ▸ List.mem_cons_self)
  have hlonger := readNumber_append hrest (readNumber_of_readsBack hnumber hback)
  rw [htext, List.cons_append, List.nil_append] at hlonger
  rw [htext, List.cons_append]
  refine h.cons (isSpace_of_isNumberChar hc) ?_ (by simp)
  rw [readToken_number hc, hlonger]
  rfl

theorem isCutInto_string (value : String) (h : IsCutInto rest found) :
    IsCutInto (stringChars value ++ rest) (.scalar (.string value) :: found) := by
  rw [stringChars, List.cons_append, List.cons_append, List.append_assoc, List.singleton_append]
  refine h.cons rfl ?_ (by simp; omega)
  rw [readToken, readString_escaped]
  simp

end Cuts

mutual

/-- The text of a value is cut into the tokens of the value, and then what follows is cut. -/
theorem isCutInto_chars (a : Json) {rest : List Char} {found : List Token}
    (hback : a.readsBack = true) (hrest : EndsValue rest) (h : IsCutInto rest found) :
    IsCutInto (chars a ++ rest) (asTokens a ++ found) := by
  match a with
  | null => exact h.cons rfl rfl (by simp; omega)
  | bool true | bool false => exact h.cons rfl rfl (by simp; omega)
  | int _ | float _ => exact isCutInto_number rfl hback hrest h
  | string value => exact isCutInto_string value h
  | array items =>
    have hclose : IsCutInto (']' :: rest) (.closeArray :: found) := h.cons rfl rfl le_rfl
    have hitems := isCutInto_itemChars items hback (endsValue_cons (by simp)) hclose
    simpa [chars, asTokens] using hitems.cons rfl rfl le_rfl
  | object members =>
    have hclose : IsCutInto ('}' :: rest) (.closeObject :: found) := h.cons rfl rfl le_rfl
    have hmembers := isCutInto_memberChars members hback (endsValue_cons (by simp)) hclose
    simpa [chars, asTokens] using hmembers.cons rfl rfl le_rfl

theorem isCutInto_itemChars (items : List Json) {rest : List Char} {found : List Token}
    (hback : itemsReadBack items = true) (hrest : EndsValue rest) (h : IsCutInto rest found) :
    IsCutInto (itemChars items ++ rest) (itemTokens items ++ found) := by
  match items with
  | [] => exact h
  | [item] =>
    rw [itemsReadBack, Bool.and_eq_true] at hback
    simpa [itemChars, itemTokens, laterItems] using isCutInto_chars item hback.1 hrest h
  | item :: next :: others =>
    rw [itemsReadBack, Bool.and_eq_true] at hback
    have hnext := isCutInto_itemChars (next :: others) hback.2 hrest h
    have hcomma := hnext.cons (c := ',') rfl rfl le_rfl
    have hitem := isCutInto_chars item hback.1 (endsValue_cons (by simp)) hcomma
    simpa [itemChars, itemTokens, laterItems] using hitem

theorem isCutInto_memberChars (members : List (String × Json)) {rest : List Char}
    {found : List Token} (hback : membersReadBack members = true) (hrest : EndsValue rest)
    (h : IsCutInto rest found) :
    IsCutInto (memberChars members ++ rest) (memberTokens members ++ found) := by
  match members with
  | [] => exact h
  | [(key, value)] =>
    rw [membersReadBack, Bool.and_eq_true] at hback
    have hcolon := (isCutInto_chars value hback.1 hrest h).cons (c := ':') rfl rfl le_rfl
    simpa [memberChars, memberTokens, laterMembers] using isCutInto_string key hcolon
  | (key, value) :: next :: others =>
    rw [membersReadBack, Bool.and_eq_true] at hback
    have hnext := isCutInto_memberChars (next :: others) hback.2 hrest h
    have hcomma := hnext.cons (c := ',') rfl rfl le_rfl
    have hvalue := isCutInto_chars value hback.1 (endsValue_cons (by simp)) hcomma
    have hcolon := hvalue.cons (c := ':') rfl rfl le_rfl
    simpa [memberChars, memberTokens, laterMembers] using isCutInto_string key hcolon

end

theorem tokens_chars {a : Json} (hback : a.readsBack = true) :
    tokens (chars a) = some (asTokens a) := by
  have hcut := isCutInto_chars a hback endsValue_nil IsCutInto.nil
  rw [List.append_nil, List.append_nil] at hcut
  exact hcut _ le_rfl

mutual

/-- A value with the members of every object in order. Of members with one key the last stays. -/
def sorted : Json → Json
  | array items => array (sortedItems items)
  | object members => object (Keyed.insertAll [] (sortedMembers members))
  | scalar => scalar

def sortedItems : List Json → List Json
  | [] => []
  | item :: rest => item.sorted :: sortedItems rest

def sortedMembers : List (String × Json) → List (String × Json)
  | [] => []
  | (key, value) :: rest => (key, value.sorted) :: sortedMembers rest

end

theorem sortedItems_eq (items : List Json) : sortedItems items = items.map sorted := by
  induction items with
  | nil => rfl
  | cons item rest ih => rw [sortedItems, ih, List.map_cons]

theorem sortedMembers_eq (members : List (String × Json)) :
    sortedMembers members = members.map fun member => (member.1, member.2.sorted) := by
  induction members with
  | nil => rfl
  | cons member rest ih => rw [sortedMembers, ih, List.map_cons]

mutual

def depth : Json → Nat
  | array items => itemsDepth items + 1
  | object members => membersDepth members + 1
  | _ => 0

def itemsDepth : List Json → Nat
  | [] => 0
  | item :: rest => max item.depth (itemsDepth rest)

def membersDepth : List (String × Json) → Nat
  | [] => 0
  | (_, value) :: rest => max value.depth (membersDepth rest)

end

theorem assemble_openArray (a : Json) (frames : List Frame) (rest : List Token) :
    assemble frames none (.openArray :: (asTokens a ++ rest)) =
      if frames.length < nestingLimit then assemble (.array [] :: frames) none (asTokens a ++ rest)
      else none := by
  cases a <;> simp [asTokens, assemble]

mutual

/-- The tokens of a value are put together to the value, unless it nests too deep. -/
theorem assemble_asTokens (a : Json) {frames : List Frame} (h : frames.length ≤ nestingLimit)
    (rest : List Token) :
    assemble frames none (asTokens a ++ rest) =
      if frames.length + a.depth ≤ nestingLimit then assemble frames (some a.sorted) rest
      else none := by
  match a with
  | null | bool _ | int _ | float _ | string _ => simp [asTokens, sorted, depth, assemble, h]
  | array [] =>
    simp only [asTokens, itemTokens, List.cons_append, List.nil_append, assemble]
    rfl
  | array (item :: items) =>
    have htokens : asTokens (array (item :: items)) ++ rest =
        .openArray :: (asTokens item ++ (laterItems items ++ .closeArray :: rest)) := by
      simp [asTokens, itemTokens]
    have hfits : frames.length + (array (item :: items)).depth ≤ nestingLimit ↔
        frames.length < nestingLimit ∧ frames.length + 1 + item.depth ≤ nestingLimit ∧
          frames.length + itemsDepth items < nestingLimit := by
      simp only [depth, itemsDepth]
      omega
    -- no item starts with the bracket that would make the array an empty one
    simp only [htokens, assemble_openArray, hfits, ite_and]
    split
    · next hopen =>
      rw [assemble_asTokens item (by exact hopen), assemble_laterItems items hopen]
      rfl
    · rfl
  | object [] =>
    simp only [asTokens, memberTokens, List.cons_append, List.nil_append, assemble]
    rfl
  | object ((key, value) :: members) =>
    have htokens : asTokens (object ((key, value) :: members)) ++ rest =
        .openObject :: .scalar (.string key) :: .colon ::
          (asTokens value ++ (laterMembers members ++ .closeObject :: rest)) := by
      simp [asTokens, memberTokens]
    have hfits : frames.length + (object ((key, value) :: members)).depth ≤ nestingLimit ↔
        frames.length < nestingLimit ∧ frames.length + 1 + value.depth ≤ nestingLimit ∧
          frames.length + membersDepth members < nestingLimit := by
      simp only [depth, membersDepth]
      omega
    rw [htokens, assemble]
    simp only [hfits, ite_and]
    split
    · next hopen =>
      rw [assemble_asTokens value (by exact hopen), assemble_laterMembers members hopen]
      rfl
    · rfl

theorem assemble_laterItems (items : List Json) {frames : List Frame}
    (h : frames.length < nestingLimit) (before : List Json) (value : Json) (rest : List Token) :
    assemble (.array before :: frames) (some value) (laterItems items ++ .closeArray :: rest) =
      if frames.length + itemsDepth items < nestingLimit then
        assemble frames (some (.array ((value :: before).reverse ++ sortedItems items))) rest
      else none := by
  match items with
  | [] => simp [laterItems, itemsDepth, sortedItems, assemble, h]
  | item :: items =>
    have hfits : frames.length + itemsDepth (item :: items) < nestingLimit ↔
        frames.length + 1 + item.depth ≤ nestingLimit ∧
          frames.length + itemsDepth items < nestingLimit := by
      rw [itemsDepth]
      omega
    rw [laterItems, List.append_assoc, List.cons_append, assemble,
      assemble_asTokens item (by exact h), assemble_laterItems items h]
    simp [hfits, ite_and, sortedItems]

theorem assemble_laterMembers (members : List (String × Json)) {frames : List Frame}
    (h : frames.length < nestingLimit) (before : Keyed Json) (key : String) (value : Json)
    (rest : List Token) :
    assemble (.member before key :: frames) (some value)
        (laterMembers members ++ .closeObject :: rest) =
      if frames.length + membersDepth members < nestingLimit then
        assemble frames
          (some (.object (Keyed.insertAll (before.insert key value) (sortedMembers members)))) rest
      else none := by
  match members with
  | [] => simp [laterMembers, membersDepth, sortedMembers, assemble, h, Keyed.insertAll]
  | (next, nextValue) :: members =>
    have hfits : frames.length + membersDepth ((next, nextValue) :: members) < nestingLimit ↔
        frames.length + 1 + nextValue.depth ≤ nestingLimit ∧
          frames.length + membersDepth members < nestingLimit := by
      rw [membersDepth]
      omega
    rw [laterMembers, List.append_assoc, List.cons_append, List.cons_append, List.cons_append,
      assemble, assemble_asTokens nextValue (by exact h), assemble_laterMembers members h]
    simp only [hfits, ite_and]
    rfl

end

/-- The text of a value is read as the value with its members in order, unless the value nests
deeper than the reader goes. -/
theorem read?_text {a : Json} (hback : a.readsBack = true) :
    read? a.text = if a.depth ≤ nestingLimit then some a.sorted else none := by
  have hfirst : ([] : List Frame).length ≤ nestingLimit := Nat.zero_le _
  have hvalue := assemble_asTokens a hfirst []
  simp only [List.append_nil, List.length_nil, Nat.zero_add, assemble] at hvalue
  simp only [read?, text, String.toList_ofList, tokens_chars hback]
  exact hvalue

mutual

theorem sorted_eq_of_isOrdered (a : Json) (h : a.isOrdered = true) : a.sorted = a := by
  match a with
  | null | bool _ | int _ | float _ | string _ => rfl
  | array items => rw [sorted, sortedItems_eq_of_itemsOrdered items h]
  | object members =>
    rw [isOrdered, Bool.and_eq_true, decide_eq_true_eq] at h
    rw [sorted, sortedMembers_eq_of_membersOrdered members h.2,
      Keyed.insertAll_eq h.1 List.Pairwise.nil (List.Perm.refl _)]

theorem sortedItems_eq_of_itemsOrdered (items : List Json) (h : itemsOrdered items = true) :
    sortedItems items = items := by
  match items with
  | [] => rfl
  | item :: rest =>
    rw [itemsOrdered, Bool.and_eq_true] at h
    rw [sortedItems, sorted_eq_of_isOrdered item h.1, sortedItems_eq_of_itemsOrdered rest h.2]

theorem sortedMembers_eq_of_membersOrdered (members : List (String × Json))
    (h : membersOrdered members = true) : sortedMembers members = members := by
  match members with
  | [] => rfl
  | (key, value) :: rest =>
    rw [membersOrdered, Bool.and_eq_true] at h
    rw [sortedMembers, sorted_eq_of_isOrdered value h.1,
      sortedMembers_eq_of_membersOrdered rest h.2]

end

mutual

/-- Values that differ in how numbers are written at most do not differ if these read back. -/
theorem eq_of_alike (a b : Json) (ha : a.readsBack = true) (hb : b.readsBack = true)
    (h : a.alike b = true) : a = b := by
  match a, b with
  | array as, array bs => rw [eq_of_itemsAlike as bs ha hb h]
  | object as, object bs => rw [eq_of_membersAlike as bs ha hb h]
  | null, b | bool _, b | int _, b | float _, b | string _, b
  | array _, null | array _, bool _ | array _, int _ | array _, float _ | array _, string _
  | array _, object _ | object _, null | object _, bool _ | object _, int _ | object _, float _
  | object _, string _ | object _, array _ =>
    simp only [alike, Bool.or_eq_true, Bool.and_eq_true, beq_iff_eq] at h
    obtain heq | ⟨⟨hanumber, hbnumber⟩, htext⟩ := h
    · exact heq
    · have hread := readNumber_of_readsBack hanumber ha
      rw [htext, readNumber_of_readsBack hbnumber hb] at hread
      exact (Prod.mk.inj (Option.some.inj hread)).1.symm

theorem eq_of_itemsAlike (as bs : List Json) (ha : itemsReadBack as = true)
    (hb : itemsReadBack bs = true) (h : itemsAlike as bs = true) : as = bs := by
  match as, bs with
  | [], [] => rfl
  | [], _ :: _ | _ :: _, [] => cases h
  | a :: as, b :: bs =>
    rw [itemsReadBack, Bool.and_eq_true] at ha hb
    rw [itemsAlike, Bool.and_eq_true] at h
    rw [eq_of_alike a b ha.1 hb.1 h.1, eq_of_itemsAlike as bs ha.2 hb.2 h.2]

theorem eq_of_membersAlike (as bs : List (String × Json)) (ha : membersReadBack as = true)
    (hb : membersReadBack bs = true) (h : membersAlike as bs = true) : as = bs := by
  match as, bs with
  | [], [] => rfl
  | [], _ :: _ | _ :: _, [] => cases h
  | (j, a) :: as, (k, b) :: bs =>
    rw [membersReadBack, Bool.and_eq_true] at ha hb
    rw [membersAlike, Bool.and_eq_true, Bool.and_eq_true, beq_iff_eq] at h
    rw [h.1.1, eq_of_alike a b ha.1 hb.1 h.1.2, eq_of_membersAlike as bs ha.2 hb.2 h.2]

end

/-- A value written out for another: the members of its objects in any order, and numbers that
read back as they are printed. -/
structure Writes (written value : Json) : Prop where
  members : written.sorted = value
  numbers : written.readsBack = true

namespace Writes

variable {written other value otherValue : Json}

theorem of_isOrdered (horder : value.isOrdered = true) (hnumbers : value.readsBack = true) :
    value.Writes value :=
  ⟨sorted_eq_of_isOrdered value horder, hnumbers⟩

theorem null : Json.null.Writes .null :=
  ⟨rfl, rfl⟩

theorem string (value : String) : (Json.string value).Writes (.string value) :=
  ⟨rfl, rfl⟩

theorem array {items : List Json} (h : ∀ item ∈ items, item.Writes item) :
    (Json.array items).Writes (.array items) := by
  constructor
  · rw [sorted, sortedItems_eq, List.map_congr_left fun item hitem => (h item hitem).members,
      List.map_id']
  · rw [readsBack, itemsReadBack_eq, List.all_eq_true]
    exact fun item hitem => (h item hitem).numbers

theorem object {members : List (String × Json)} (hsorted : Keyed.IsSorted members)
    (h : ∀ member ∈ members, member.2.Writes member.2) :
    (Json.object members).Writes (.object members) := by
  constructor
  · have hmembers : sortedMembers members = members := by
      rw [sortedMembers_eq, List.map_congr_left fun member hmember =>
        congrArg (Prod.mk member.1) (h member hmember).members, List.map_id']
    rw [sorted, hmembers, Keyed.insertAll_eq hsorted List.Pairwise.nil (List.Perm.refl _)]
  · rw [readsBack, membersReadBack_eq, List.all_eq_true]
    exact fun member hmember => (h member hmember).numbers

theorem read?_eq (h : written.Writes value) :
    read? written.text = if written.depth ≤ nestingLimit then some value else none := by
  rw [read?_text h.numbers, h.members]

/-- Different values have different texts, however deep they nest. -/
theorem eq_of_text_eq (h : written.Writes value) (h' : other.Writes otherValue)
    (htext : written.text = other.text) : value = otherValue := by
  have halike : written.alike other = true := chars_eq_iff.1 (String.ofList_injective htext)
  rw [← h.members, ← h'.members, eq_of_alike written other h.numbers h'.numbers halike]

end Writes

end LiveFacts.Json
