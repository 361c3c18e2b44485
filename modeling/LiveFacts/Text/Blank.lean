/-!
# Blank characters

The characters that separate the words of a query: those with the Unicode property
`White_Space`.
-/

namespace LiveFacts.Text

/-- Code points of the 25 characters with the property `White_Space`, as closed ranges. -/
def blankRanges : List (Nat × Nat) :=
  [(0x09, 0x0D), (0x20, 0x20), (0x85, 0x85), (0xA0, 0xA0), (0x1680, 0x1680), (0x2000, 0x200A),
    (0x2028, 0x2029), (0x202F, 0x202F), (0x205F, 0x205F), (0x3000, 0x3000)]

def isBlank (c : Char) : Bool :=
  blankRanges.any fun (low, high) => low ≤ c.toNat && c.toNat ≤ high

example : isBlank ' ' ∧ isBlank '\u00a0' ∧ isBlank '\u3000' ∧ ¬ isBlank '\u200b' := by decide

def skipBlanks (text : List Char) : List Char :=
  text.dropWhile isBlank

theorem skipBlanks_length_le (text : List Char) : (skipBlanks text).length ≤ text.length :=
  (List.dropWhile_sublist isBlank).length_le

def byteCount : List Char → Nat
  | [] => 0
  | c :: rest => c.utf8Size + byteCount rest

end LiveFacts.Text
