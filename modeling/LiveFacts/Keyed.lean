/-!
# Lists sorted by key

A finite map from strings is a list of entries in increasing order of their keys, each key at
most once. Strings are ordered by code points, which is the order of their UTF-8 bytes.
-/

namespace LiveFacts

abbrev Keyed (α : Type) := List (String × α)

namespace Keyed

variable {α : Type}

/-- Puts an entry in place of the one with the same key, or where its key belongs. -/
def insert (key : String) (value : α) : Keyed α → Keyed α
  | [] => [(key, value)]
  | (k, v) :: rest =>
    if key < k then (key, value) :: (k, v) :: rest
    else if key = k then (key, value) :: rest
    else (k, v) :: insert key value rest

def find? (key : String) (entries : Keyed α) : Option α :=
  entries.lookup key

def insertAll (sorted : Keyed α) (entries : List (String × α)) : Keyed α :=
  entries.foldl (fun sorted entry => insert entry.1 entry.2 sorted) sorted

def IsSorted (entries : Keyed α) : Prop :=
  entries.Pairwise fun a b => a.1 < b.1

end Keyed

end LiveFacts
