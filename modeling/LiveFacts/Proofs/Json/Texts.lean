import LiveFacts.Json.Printer
import LiveFacts.Json.Reader
import Mathlib.Data.List.Forall2
import Mathlib.Data.List.TakeWhile

/-!
# What the text of a JSON value tells

The compact text of a value tells the value, up to numbers that are written alike. It also tells
where it ends in a longer text, unless a number is followed by more of a number.
-/

namespace LiveFacts.Json

def isNumber : Json → Bool
  | int _ | float _ => true
  | _ => false

mutual

/-- Equality of values, with numbers compared by how they are written. -/
def alike : Json → Json → Bool
  | array as, array bs => itemsAlike as bs
  | object as, object bs => membersAlike as bs
  | a, b => a == b || a.isNumber && b.isNumber && scalarChars a == scalarChars b

def itemsAlike : List Json → List Json → Bool
  | [], [] => true
  | a :: as, b :: bs => alike a b && itemsAlike as bs
  | _, _ => false

def membersAlike : List (String × Json) → List (String × Json) → Bool
  | [], [] => true
  | (j, a) :: as, (k, b) :: bs => j == k && alike a b && membersAlike as bs
  | _, _ => false

end

theorem itemsAlike_iff {as bs : List Json} :
    itemsAlike as bs = true ↔ List.Forall₂ (fun a b => a.alike b = true) as bs := by
  induction as generalizing bs with
  | nil => cases bs <;> simp [itemsAlike]
  | cons a as ih => cases bs <;> simp [itemsAlike, ih]

def MemberAlike (m n : String × Json) : Prop :=
  m.1 = n.1 ∧ m.2.alike n.2 = true

theorem membersAlike_iff {as bs : List (String × Json)} :
    membersAlike as bs = true ↔ List.Forall₂ MemberAlike as bs := by
  induction as generalizing bs with
  | nil => cases bs <;> simp [membersAlike]
  | cons a as ih => cases bs <;> simp [membersAlike, ih, MemberAlike]

theorem readString_quoted {c d : Char} (hescape : simpleEscape? d = some c) (hplain : d ≠ 'u')
    (rest : List Char) :
    readString ('\\' :: d :: rest) =
      (readString rest).map fun (value, rest) => (c :: value, rest) := by
  rw [readString]
  · simp only [hescape]
    cases readString rest <;> rfl
  all_goals simp [hplain]

theorem readString_plain {c : Char} (hquote : c ≠ '"') (hslash : c ≠ '\\')
    (hvisible : ¬ c.toNat < 0x20) (rest : List Char) :
    readString (c :: rest) = (readString rest).map fun (value, rest) => (c :: value, rest) := by
  rw [readString]
  · simp only [hslash, hvisible]
    cases readString rest <;> rfl
  all_goals simp [hquote, hslash]

theorem hex4?_control {c : Char} (h : c.toNat < 0x20) :
    hex4? '0' '0' (Text.hexDigit (c.toNat / 16)) (Text.hexDigit (c.toNat % 16)) =
      some c.toNat := by
  have hhigh : c.toNat / 16 < 16 := by omega
  have hlow : c.toNat % 16 < 16 := by omega
  have hzero : Text.hexValue? '0' = some 0 := by decide
  simp only [hex4?, hzero, Text.hexValue?_hexDigit hhigh, Text.hexValue?_hexDigit hlow]
  simp only [Option.bind_eq_bind, Option.bind_some, Option.pure_def, Option.some.injEq]
  omega

/-- A hexadecimal escape that is no half of a pair is read by itself, whatever follows. -/
theorem readString_unit {a b c d : Char} {unit : Nat} (hunit : hex4? a b c d = some unit)
    (hhigh : isHighSurrogate unit = false) (hlow : isLowSurrogate unit = false)
    (rest : List Char) :
    readString ('\\' :: 'u' :: a :: b :: c :: d :: rest) =
      (readString rest).map fun (value, rest) => (Char.ofNat unit :: value, rest) := by
  -- The reader looks ahead for the other half of a pair.
  by_cases hpair : ∃ e f g h rest', rest = '\\' :: 'u' :: e :: f :: g :: h :: rest'
  · obtain ⟨e, f, g, h, rest', rfl⟩ := hpair
    rw [readString, hunit]
    simp only [Option.bind_eq_bind, Option.bind_some, hhigh, hlow, Bool.false_eq_true, if_false]
    cases readString ('\\' :: 'u' :: e :: f :: g :: h :: rest') <;> rfl
  · rw [readString, hunit]
    · simp only [Option.bind_eq_bind, Option.bind_some, hhigh, hlow, Bool.or_self,
        Bool.false_eq_true, if_false]
      cases readString rest <;> rfl
    · intro e f g h rest' hrest
      exact hpair ⟨e, f, g, h, rest', hrest⟩

theorem readString_escapeChar (c : Char) (rest : List Char) :
    readString (escapeChar c ++ rest) =
      (readString rest).map fun (value, rest) => (c :: value, rest) := by
  rw [escapeChar]
  split_ifs with hquote hslash hvisible hback htab hline hfeed hreturn
  · exact readString_quoted (by simp [hquote, simpleEscape?]) (by decide) rest
  · exact readString_quoted (by simp [hslash, simpleEscape?]) (by decide) rest
  · exact readString_plain hquote hslash (by omega) rest
  · obtain rfl : c = '\x08' := Char.toNat_inj.1 hback
    exact readString_quoted rfl (by decide) rest
  · exact readString_quoted (by rw [htab]; rfl) (by decide) rest
  · exact readString_quoted (by rw [hline]; rfl) (by decide) rest
  · obtain rfl : c = '\x0c' := Char.toNat_inj.1 hfeed
    exact readString_quoted rfl (by decide) rest
  · exact readString_quoted (by rw [hreturn]; rfl) (by decide) rest
  · have hcontrol : c.toNat < 0x20 := by omega
    have hread := readString_unit (hex4?_control hcontrol) (by simp [isHighSurrogate]; omega)
      (by simp [isLowSurrogate]; omega) rest
    rwa [Char.ofNat_toNat] at hread

/-- A string that was written is read back up to its closing quote. -/
theorem readString_escaped (value rest : List Char) :
    readString (value.flatMap escapeChar ++ '"' :: rest) = some (value, rest) := by
  induction value with
  | nil => rw [List.flatMap_nil, List.nil_append, readString]
  | cons c value ih =>
    rw [List.flatMap_cons, List.append_assoc, readString_escapeChar, ih]
    rfl

theorem stringChars_append_injective {v w : String} {r s : List Char}
    (h : stringChars v ++ r = stringChars w ++ s) : v = w ∧ r = s := by
  have hread (v : String) (r : List Char) :
      readString ((stringChars v ++ r).tail) = some (v.toList, r) := by
    simp [stringChars, readString_escaped]
  have heq := hread v r
  rw [h, hread w s, Option.some.injEq, Prod.mk.injEq] at heq
  exact ⟨(String.toList_inj.1 heq.1).symm, heq.2.symm⟩

section Splits

variable {p : Char → Bool} {text rest : List Char}

theorem takeWhile_append_of_head (h : ∀ c ∈ rest.head?, p c = false) :
    (text ++ rest).takeWhile p = text.takeWhile p := by
  induction text with
  | nil => cases rest with
    | nil => rfl
    | cons c rest => simpa using h c rfl
  | cons c text ih => rw [List.cons_append, List.takeWhile_cons, List.takeWhile_cons, ih]

theorem dropWhile_append_of_head (h : ∀ c ∈ rest.head?, p c = false) :
    (text ++ rest).dropWhile p = text.dropWhile p ++ rest := by
  induction text with
  | nil => cases rest with
    | nil => rfl
    | cons c rest => simpa using h c rfl
  | cons c text ih =>
    rw [List.cons_append, List.dropWhile_cons, List.dropWhile_cons, ih]
    split <;> rfl

end Splits

def isNumberChar (c : Char) : Bool :=
  c.isDigit || c == '-' || c == '+' || c == '.' || c == 'e'

def EndsNumber (rest : List Char) : Prop :=
  ∀ c ∈ rest.head?, isNumberChar c = false

theorem endsNumber_nil : EndsNumber [] := by simp [EndsNumber]

theorem endsNumber_cons {c : Char} {rest : List Char} (hc : isNumberChar c = false) :
    EndsNumber (c :: rest) := by simpa [EndsNumber] using hc

def IsNumberText (text : List Char) : Prop :=
  text ≠ [] ∧ ∀ c ∈ text, isNumberChar c = true

theorem IsNumberText.cons {c : Char} {text : List Char} (hc : isNumberChar c = true)
    (h : IsNumberText text) : IsNumberText (c :: text) :=
  ⟨List.cons_ne_nil _ _, List.forall_mem_cons.2 ⟨hc, h.2⟩⟩

theorem isNumberText_natChars (number : Nat) : IsNumberText (natChars number) := by
  refine ⟨Nat.toDigits_ne_nil, fun c hc => ?_⟩
  have hdigit : c.isDigit = true := Nat.isDigit_of_mem_toDigits (b := 10) (by decide) (by decide) hc
  simp [isNumberChar, hdigit]

theorem isNumberText_intChars (number : Int) : IsNumberText (intChars number) := by
  rw [intChars]
  split
  · exact (isNumberText_natChars _).cons rfl
  · exact isNumberText_natChars _

theorem isNumberText_plainChars {digits : List Char} (h : IsNumberText digits) (exponent : Int) :
    IsNumberText (plainChars digits exponent) := by
  have hzeros (count : Nat) : ∀ c ∈ List.replicate count '0', isNumberChar c = true :=
    fun c hc => (List.eq_of_mem_replicate hc) ▸ rfl
  rw [plainChars]
  split
  · refine ⟨by simp, ?_⟩
    simp only [List.forall_mem_append]
    exact ⟨⟨h.2, hzeros _⟩, List.forall_mem_cons.2 ⟨rfl, List.forall_mem_singleton.2 rfl⟩⟩
  · dsimp only
    split
    · refine ⟨by simp, ?_⟩
      simp only [List.forall_mem_append, List.forall_mem_cons]
      exact ⟨fun c hc => h.2 c (List.mem_of_mem_take hc), rfl,
        fun c hc => h.2 c (List.mem_of_mem_drop hc)⟩
    · refine ⟨by simp, ?_⟩
      simp only [List.forall_mem_append, List.forall_mem_cons, List.cons_append]
      exact ⟨rfl, rfl, hzeros _, h.2⟩

theorem isNumberText_scientificChars {digits : List Char} (h : IsNumberText digits)
    (exponent : Int) : IsNumberText (scientificChars digits exponent) := by
  have hfraction : ∀ c ∈ (if digits.length > 1 then '.' :: digits.drop 1 else []),
      isNumberChar c = true := by
    split
    · exact List.forall_mem_cons.2 ⟨rfl, fun c hc => h.2 c (List.mem_of_mem_drop hc)⟩
    · simp
  have hsign : isNumberChar (if exponent < 0 then '-' else '+') = true := by split <;> rfl
  rw [scientificChars]
  refine ⟨by simp, ?_⟩
  simp only [List.forall_mem_append, List.forall_mem_cons]
  exact ⟨⟨fun c hc => h.2 c (List.mem_of_mem_take hc), hfraction⟩, rfl, hsign,
    (isNumberText_natChars _).2⟩

theorem isNumberText_floatChars (number : Binary64) : IsNumberText (floatChars number) := by
  have hmagnitude (place : Nat) : IsNumberText (magnitudeChars place) := by
    rw [magnitudeChars]
    split
    · exact isNumberText_plainChars (isNumberText_natChars _) _
    · exact isNumberText_scientificChars (isNumberText_natChars _) _
  rw [floatChars]
  split
  · exact (hmagnitude _).cons rfl
  · exact hmagnitude _

theorem isNumberText_scalarChars {a : Json} (h : a.isNumber = true) :
    IsNumberText (scalarChars a) := by
  cases a with
  | int number => exact isNumberText_intChars number
  | float number => exact isNumberText_floatChars number
  | null | bool _ | string _ | array _ | object _ => cases h

/-- The text of a number ends where the characters of numbers end. -/
theorem IsNumberText.append_injective {p q r s : List Char} (hp : IsNumberText p)
    (hq : IsNumberText q) (hr : EndsNumber r) (hs : EndsNumber s) (h : p ++ r = q ++ s) :
    p = q ∧ r = s := by
  have htake {p r : List Char} (hp : IsNumberText p) (hr : EndsNumber r) :
      (p ++ r).takeWhile isNumberChar = p := by
    rw [takeWhile_append_of_head hr, List.takeWhile_eq_self_iff.2 hp.2]
  have heq : p = q := by rw [← htake hp hr, h, htake hq hs]
  subst heq
  exact ⟨rfl, List.append_cancel_left h⟩

inductive Kind where
  | null | bool | number | string | array | object
  deriving DecidableEq

def kind : Json → Kind
  | null => .null
  | bool _ => .bool
  | int _ | float _ => .number
  | string _ => .string
  | array _ => .array
  | object _ => .object

def Kind.ofChar? (c : Char) : Option Kind :=
  if isNumberChar c then some .number
  else if c = 'n' then some .null
  else if c = 't' ∨ c = 'f' then some .bool
  else if c = '"' then some .string
  else if c = '[' then some .array
  else if c = '{' then some .object
  else none

theorem head_chars (a : Json) : ∃ c rest, chars a = c :: rest ∧ Kind.ofChar? c = some a.kind := by
  have hnumber {text : List Char} (h : IsNumberText text) :
      ∃ c rest, text = c :: rest ∧ Kind.ofChar? c = some .number := by
    obtain ⟨c, rest, rfl⟩ := List.exists_cons_of_ne_nil h.1
    exact ⟨c, rest, rfl, by rw [Kind.ofChar?, if_pos (h.2 c List.mem_cons_self)]⟩
  cases a with
  | int number =>
    rw [chars]
    · exact hnumber (isNumberText_intChars number)
    · simp
    · simp
  | float number =>
    rw [chars]
    · exact hnumber (isNumberText_floatChars number)
    · simp
    · simp
  | bool value => cases value <;> exact ⟨_, _, rfl, rfl⟩
  | null | string _ | array _ | object _ => exact ⟨_, _, rfl, rfl⟩

theorem kind_eq_of_chars_append {a b : Json} {r s : List Char}
    (h : chars a ++ r = chars b ++ s) : a.kind = b.kind := by
  obtain ⟨c, p, hp, hc⟩ := head_chars a
  obtain ⟨d, q, hq, hd⟩ := head_chars b
  rw [hp, hq, List.cons_append, List.cons_append, List.cons.injEq] at h
  rw [h.1, hd, Option.some.injEq] at hc
  exact hc.symm

theorem chars_of_isNumber {a : Json} (h : a.isNumber = true) : chars a = scalarChars a := by
  cases a <;> first | rfl | cases h

theorem isNumber_of_kind {a : Json} (h : a.kind = .number) : a.isNumber = true := by
  cases a <;> first | rfl | cases h

theorem exists_array_of_kind {a : Json} (h : a.kind = .array) : ∃ items, a = array items := by
  cases a <;> first | exact ⟨_, rfl⟩ | cases h

theorem exists_object_of_kind {a : Json} (h : a.kind = .object) :
    ∃ members, a = object members := by
  cases a <;> first | exact ⟨_, rfl⟩ | cases h

theorem numbersAlike_of_chars_append {a b : Json} (ha : a.kind = .number) (hb : b.kind = .number)
    {r s : List Char} (hr : EndsNumber r) (hs : EndsNumber s)
    (h : chars a ++ r = chars b ++ s) : a.alike b = true ∧ r = s := by
  replace ha := isNumber_of_kind ha
  replace hb := isNumber_of_kind hb
  rw [chars_of_isNumber ha, chars_of_isNumber hb] at h
  obtain ⟨htext, hrest⟩ := (isNumberText_scalarChars ha).append_injective
    (isNumberText_scalarChars hb) hr hs h
  refine ⟨?_, hrest⟩
  rw [alike]
  · simp [ha, hb, htext]
  · intro as _ heq; rw [heq] at ha; cases ha
  · intro as _ heq; rw [heq] at ha; cases ha

theorem itemChars_append_ne_close (a : Json) (as : List Json) {r s : List Char} :
    itemChars (a :: as) ++ r ≠ ']' :: s := by
  obtain ⟨c, rest, hc, hkind⟩ := head_chars a
  intro h
  have hhead : c = ']' := by
    cases as <;> simp only [itemChars, hc, List.cons_append, List.cons.injEq] at h <;> exact h.1
  rw [hhead] at hkind
  cases hkind

theorem memberChars_append_ne_close (a : String × Json) (as : List (String × Json))
    {r s : List Char} : memberChars (a :: as) ++ r ≠ '}' :: s := by
  intro h
  obtain ⟨key, value⟩ := a
  cases as <;> simp [memberChars, stringChars] at h

mutual

/-- The front of a text tells a value and where it ends. -/
theorem alike_of_chars_append (a b : Json) {r s : List Char} (hr : EndsNumber r)
    (hs : EndsNumber s) (h : chars a ++ r = chars b ++ s) : a.alike b = true ∧ r = s := by
  -- the first character settles the kind, so only values of one kind are left to compare
  have hkind := (kind_eq_of_chars_append h).symm
  match a with
  | array as =>
    obtain ⟨bs, rfl⟩ := exists_array_of_kind hkind
    simp only [chars, List.cons_append, List.append_assoc, List.nil_append, List.cons.injEq] at h
    exact itemsAlike_of_itemChars_append as bs h.2
  | object as =>
    obtain ⟨bs, rfl⟩ := exists_object_of_kind hkind
    simp only [chars, List.cons_append, List.append_assoc, List.nil_append, List.cons.injEq] at h
    exact membersAlike_of_memberChars_append as bs h.2
  | int _ | float _ => exact numbersAlike_of_chars_append rfl hkind hr hs h
  | string v =>
    obtain ⟨w, rfl⟩ : ∃ w, b = string w := by cases b <;> first | exact ⟨_, rfl⟩ | cases hkind
    obtain ⟨rfl, hrest⟩ := stringChars_append_injective h
    exact ⟨by simp [alike], hrest⟩
  | bool v =>
    obtain ⟨w, rfl⟩ : ∃ w, b = bool w := by cases b <;> first | exact ⟨_, rfl⟩ | cases hkind
    cases v <;> cases w <;> simp_all [chars, scalarChars, alike]
  | null =>
    obtain rfl : b = null := by cases b <;> first | rfl | cases hkind
    exact ⟨rfl, List.append_cancel_left h⟩

theorem itemsAlike_of_itemChars_append (as bs : List Json) {r s : List Char}
    (h : itemChars as ++ ']' :: r = itemChars bs ++ ']' :: s) :
    itemsAlike as bs = true ∧ r = s := by
  have hclose {t : List Char} : EndsNumber (']' :: t) := endsNumber_cons (by decide)
  have hcomma {t : List Char} : EndsNumber (',' :: t) := endsNumber_cons (by decide)
  match as, bs with
  | [], [] => exact ⟨rfl, by simpa [itemChars] using h⟩
  | [], b :: bs => exact absurd h.symm (itemChars_append_ne_close b bs)
  | a :: as, [] => exact absurd h (itemChars_append_ne_close a as)
  | [a], [b] =>
    obtain ⟨halike, hrest⟩ := alike_of_chars_append a b hclose hclose h
    exact ⟨by simp [itemsAlike, halike], (List.cons.inj hrest).2⟩
  | [a], b :: b' :: bs =>
    rw [itemChars, itemChars, List.append_assoc] at h
    obtain ⟨-, hrest⟩ := alike_of_chars_append a b hclose hcomma h
    exact absurd (List.cons.inj hrest).1 (by decide)
  | a :: a' :: as, [b] =>
    rw [itemChars, itemChars, List.append_assoc] at h
    obtain ⟨-, hrest⟩ := alike_of_chars_append a b hcomma hclose h
    exact absurd (List.cons.inj hrest).1 (by decide)
  | a :: a' :: as, b :: b' :: bs =>
    rw [itemChars, itemChars, List.append_assoc, List.append_assoc] at h
    obtain ⟨halike, hrest⟩ := alike_of_chars_append a b hcomma hcomma h
    obtain ⟨hitems, heq⟩ :=
      itemsAlike_of_itemChars_append (a' :: as) (b' :: bs) (List.cons.inj hrest).2
    exact ⟨by rw [itemsAlike, halike, hitems, Bool.and_self], heq⟩

theorem membersAlike_of_memberChars_append (as bs : List (String × Json)) {r s : List Char}
    (h : memberChars as ++ '}' :: r = memberChars bs ++ '}' :: s) :
    membersAlike as bs = true ∧ r = s := by
  have hclose {t : List Char} : EndsNumber ('}' :: t) := endsNumber_cons (by decide)
  have hcomma {t : List Char} : EndsNumber (',' :: t) := endsNumber_cons (by decide)
  match as, bs with
  | [], [] => exact ⟨rfl, by simpa [memberChars] using h⟩
  | [], b :: bs => exact absurd h.symm (memberChars_append_ne_close b bs)
  | a :: as, [] => exact absurd h (memberChars_append_ne_close a as)
  | [(j, a)], [(k, b)] =>
    rw [memberChars, memberChars, List.append_assoc, List.append_assoc] at h
    obtain ⟨rfl, hvalue⟩ := stringChars_append_injective h
    obtain ⟨halike, hrest⟩ := alike_of_chars_append a b hclose hclose (List.cons.inj hvalue).2
    exact ⟨by simp [membersAlike, halike], (List.cons.inj hrest).2⟩
  | [(j, a)], (k, b) :: b' :: bs =>
    simp only [memberChars, List.append_assoc, List.cons_append] at h
    obtain ⟨rfl, hvalue⟩ := stringChars_append_injective h
    obtain ⟨-, hrest⟩ := alike_of_chars_append a b hclose hcomma (List.cons.inj hvalue).2
    exact absurd (List.cons.inj hrest).1 (by decide)
  | (j, a) :: a' :: as, [(k, b)] =>
    simp only [memberChars, List.append_assoc, List.cons_append] at h
    obtain ⟨rfl, hvalue⟩ := stringChars_append_injective h
    obtain ⟨-, hrest⟩ := alike_of_chars_append a b hcomma hclose (List.cons.inj hvalue).2
    exact absurd (List.cons.inj hrest).1 (by decide)
  | (j, a) :: a' :: as, (k, b) :: b' :: bs =>
    simp only [memberChars, List.append_assoc, List.cons_append] at h
    obtain ⟨rfl, hvalue⟩ := stringChars_append_injective h
    obtain ⟨halike, hrest⟩ := alike_of_chars_append a b hcomma hcomma (List.cons.inj hvalue).2
    obtain ⟨hmembers, heq⟩ :=
      membersAlike_of_memberChars_append (a' :: as) (b' :: bs) (List.cons.inj hrest).2
    exact ⟨by rw [membersAlike, halike, hmembers, beq_self_eq_true]; rfl, heq⟩

end

mutual

theorem chars_eq_of_alike (a b : Json) (h : a.alike b = true) : chars a = chars b := by
  match a, b with
  | array as, array bs => rw [chars, chars, itemChars_eq_of_itemsAlike as bs h]
  | object as, object bs => rw [chars, chars, memberChars_eq_of_membersAlike as bs h]
  | null, b | bool _, b | int _, b | float _, b | string _, b
  | array _, null | array _, bool _ | array _, int _ | array _, float _ | array _, string _
  | array _, object _ | object _, null | object _, bool _ | object _, int _ | object _, float _
  | object _, string _ | object _, array _ =>
    simp only [alike, Bool.or_eq_true, Bool.and_eq_true, beq_iff_eq] at h
    obtain heq | ⟨⟨ha, hb⟩, htext⟩ := h
    · rw [heq]
    · rw [chars_of_isNumber ha, chars_of_isNumber hb, htext]

theorem itemChars_eq_of_itemsAlike (as bs : List Json) (h : itemsAlike as bs = true) :
    itemChars as = itemChars bs := by
  match as, bs with
  | [], [] => rfl
  | [], _ :: _ | _ :: _, [] => cases h
  | a :: as, b :: bs =>
    rw [itemsAlike, Bool.and_eq_true] at h
    have hfirst := chars_eq_of_alike a b h.1
    have hrest := itemChars_eq_of_itemsAlike as bs h.2
    match as, bs with
    | [], [] => exact hfirst
    | [], _ :: _ | _ :: _, [] => cases h.2
    | a' :: as, b' :: bs => rw [itemChars, itemChars, hfirst, hrest]

theorem memberChars_eq_of_membersAlike (as bs : List (String × Json))
    (h : membersAlike as bs = true) : memberChars as = memberChars bs := by
  match as, bs with
  | [], [] => rfl
  | [], _ :: _ | _ :: _, [] => cases h
  | (j, a) :: as, (k, b) :: bs =>
    rw [membersAlike, Bool.and_eq_true, Bool.and_eq_true, beq_iff_eq] at h
    have hfirst := chars_eq_of_alike a b h.1.2
    have hrest := memberChars_eq_of_membersAlike as bs h.2
    match as, bs with
    | [], [] => rw [memberChars, memberChars, h.1.1, hfirst]
    | [], _ :: _ | _ :: _, [] => cases h.2
    | a' :: as, b' :: bs => rw [memberChars, memberChars, h.1.1, hfirst, hrest]

end

/-- Two values have the same text exactly if they are equal up to how numbers are written. -/
theorem chars_eq_iff {a b : Json} : chars a = chars b ↔ a.alike b = true := by
  refine ⟨fun h => ?_, chars_eq_of_alike a b⟩
  exact (alike_of_chars_append a b endsNumber_nil endsNumber_nil (congrArg (· ++ []) h)).1

theorem kind_eq_of_alike {a b : Json} (h : a.alike b = true) : a.kind = b.kind :=
  kind_eq_of_chars_append (congrArg (· ++ []) (chars_eq_of_alike a b h))

end LiveFacts.Json
