import LiveFacts.Query.Basic
import LiveFacts.Store.Basic

/-!
# Running queries

A query run from a fact gives paths, each the facts met on one way through the steps, in the
order in which they are found. A step extends a path in every possible way; only a move from a
fact that is not stored to its predecessors fails, and then the whole run does.
-/

namespace LiveFacts

/-- The facts met on a way through the graph; the last one is where it stands. -/
abbrev Path := List Reference

namespace Store

mutual

def extend (store : Store) : Step → Path → Except Reference (List Path)
  | .field type, path =>
    .ok (if path.getLast?.any (·.type = type) then [path] else [])
  | .successor role, path =>
    .ok (path.getLast?.toList.flatMap fun fact =>
      (store.successors fact role).map fun next => path ++ [next])
  | .predecessor role, path =>
    match path.getLast? with
    | none => .ok []
    | some fact => do
      let record ← store.get fact
      return (record.predecessorsIn role).map fun next => path ++ [next]
  | .existential quantifier steps, path =>
    match path.getLast? with
    | none => .ok []
    | some fact => do
      let found ← walk store steps [[fact]]
      return if quantifier.accepts (!found.isEmpty) then [path] else []

def walk (store : Store) : List Step → List Path → Except Reference (List Path)
  | [], paths => .ok paths
  | step :: rest, paths => do
    let extended ← paths.mapM (extend store step)
    walk store rest extended.flatten

end

def evaluate (store : Store) (start : Reference) (query : Query) :
    Except Reference (List Path) :=
  store.walk query [[start]]

end Store

def distinct (references : List Reference) : List Reference :=
  references.foldl (fun kept r => if kept.contains r then kept else kept ++ [r]) []

/-- The facts that paths end in, each once, in the order in which they are found. -/
def terminals (paths : List Path) : List Reference :=
  distinct (paths.filterMap List.getLast?)

end LiveFacts
